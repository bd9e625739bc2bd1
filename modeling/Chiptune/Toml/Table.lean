/-!
# Tables

A table has an entry for each of its keys. A dotted key makes the tables on its
way, and so does the path of a header; no key is defined twice, and a table is
closed to dotted keys and headers that come too late.
-/
namespace Chiptune.Toml

/-- A value. Only whole numbers are told apart from others. -/
inductive Value where
  | integer (n : Int)
  | other
  deriving DecidableEq, Repr

abbrev Key := List Char

/-- How a table came about. -/
inductive Origin where
  /-- By a header of its own. -/
  | header
  /-- On the way to a header's table. -/
  | pathway
  /-- On the way of a dotted key. -/
  | dotted
  deriving DecidableEq, Repr

inductive Item where
  | value (value : Value)
  | table (origin : Origin) (entries : List (Key × Item))
  /-- An array of tables, by the entries of its last one; the others are closed. -/
  | tables (entries : List (Key × Item))

abbrev Entries := List (Key × Item)

/-- Puts an entry, in place of the one with its key if there is one. -/
def Entries.put (entries : Entries) (key : Key) (item : Item) : Entries :=
  (key, item) :: entries.filter (·.1 != key)

/-- Changes the table at the end of a path, which `via` leads to. Missing tables on the way are
made. A path leads through tables and through the last tables of arrays, and a dotted key leads
through no table that has a header. -/
def Entries.update? (via : Origin) (change : Origin → Entries → Option Entries) :
    List Key → Origin → Entries → Option Entries
  | [], origin, entries => change origin entries
  | key :: path, _, entries =>
    match entries.lookup key with
    | none => (update? via change path via []).map fun inner => put entries key (.table via inner)
    | some (.table origin inner) =>
      if via = .dotted ∧ origin = .header then none
      else
        (update? via change path origin inner).map fun inner =>
          put entries key (.table origin inner)
    | some (.tables inner) =>
      (update? via change path .header inner).map fun inner => put entries key (.tables inner)
    | some (.value _) => none

/-- A key with its path, and its value. -/
structure Field where
  path : List Key
  key : Key
  value : Value
  deriving DecidableEq, Repr

/-- Defines a field. A dotted key extends only tables that dotted keys made. -/
def Entries.define? (entries : Entries) (field : Field) : Option Entries :=
  update? .dotted
    (fun origin inner =>
      if field.path ≠ [] ∧ origin ≠ .dotted then none
      else
        match inner.lookup field.key with
        | none => some (put inner field.key (.value field.value))
        | some _ => none)
    field.path .header entries

def Entries.defineAll? (entries : Entries) (fields : List Field) : Option Entries :=
  fields.foldlM define? entries

/-- A header and the fields below it. -/
structure Section where
  path : List Key
  key : Key
  /-- True when the header adds a table to an array of tables. -/
  repeats : Bool
  fields : List Field
  deriving DecidableEq, Repr

/-- Defines the table of a section. A table that is there already must have come about on the way to
another one. -/
def Entries.addSection? (entries : Entries) (part : Section) : Option Entries :=
  update? .pathway
    (fun _ inner =>
      if part.repeats then
        match inner.lookup part.key with
        | none | some (.tables _) =>
          (defineAll? [] part.fields).map fun own => put inner part.key (.tables own)
        | some _ => none
      else
        match inner.lookup part.key with
        | none => (defineAll? [] part.fields).map fun own => put inner part.key (.table .header own)
        | some (.table .pathway own) =>
          (defineAll? own part.fields).map fun own => put inner part.key (.table .header own)
        | some _ => none)
    part.path .header entries

/-- The table of a whole document: the fields before the first header, then the sections. -/
def Entries.ofSections? (fields : List Field) (parts : List Section) : Option Entries := do
  let top ← defineAll? [] fields
  parts.foldlM addSection? top

end Chiptune.Toml
