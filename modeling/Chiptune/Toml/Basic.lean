import Chiptune.Toml.Value

/-!
# Documents

A document is a sequence of lines: fields, headers of tables, comments and blank
lines. `parse?` gives the entries of its top table.
-/
namespace Chiptune.Toml

open Scan

def fieldLine : Scan Field := do
  let (path, key) ← dottedKey
  skip ['=']
  spaces
  let value ← valueIn (2 * ((← bound) + 1)) 0
  pure { path, key, value }

/-- A header in brackets, or in double brackets for a table of an array. -/
def header : Scan Section := do
  let repeats ← skip? ['[', '[']
  if repeats then pure () else skip ['[']
  spaces
  let (path, key) ← dottedKey
  skip (if repeats then [']', ']'] else [']'])
  pure { path, key, repeats, fields := [] }

/-- One line of a document. -/
inductive Line where
  | blank
  | field (field : Field)
  | header (header : Section)

def line : Scan Line := do
  spaces
  match ← peek? with
  | some '[' =>
    let head ← header
    endLine
    pure (.header head)
  | none | some '#' | some '\n' | some '\r' =>
    endLine
    pure .blank
  | some _ =>
    let field ← fieldLine
    endLine
    pure (.field field)

/-- The lines of the rest of a document, at most so many. -/
def lines : Nat → Scan (List Line)
  | 0 => pure []
  | limit + 1 => do
    let text ← get
    if text.isEmpty then pure []
    else
      let first ← line
      let rest ← lines limit
      pure (first :: rest)

/-- The fields before the first header, and the sections. -/
def sectionsOf : List Line → List Field × List Section
  | [] => ([], [])
  | .blank :: rest => sectionsOf rest
  | .field field :: rest =>
    let (fields, parts) := sectionsOf rest
    (field :: fields, parts)
  | .header head :: rest =>
    let (fields, parts) := sectionsOf rest
    ([], { head with fields } :: parts)

/-- Drops a byte order mark. -/
def dropMark : List Char → List Char
  | '\uFEFF' :: rest => rest
  | text => text

/-- The top table of a document, or `none` when it is not well formed. -/
def parse? (text : String) : Option Entries := do
  let text := dropMark text.toList
  let all ← (lines text.length).all? text
  let (fields, parts) := sectionsOf all
  Entries.ofSections? fields parts

end Chiptune.Toml
