import Chiptune.Toml.Moment
import Chiptune.Toml.Number
import Chiptune.Toml.Table

/-!
# Keys and values

A key is bare or quoted, and dots join several to a path of limited length. A
value is a quoted text, a number, a truth value, a moment, an array or an inline
table. Arrays and inline tables hold further values, down to a limited depth,
and may go over several lines: a line ends anywhere but within a path.
-/
namespace Chiptune.Toml

open Scan
open Text (isDigit)

def isBareKeyChar (c : Char) : Bool := c.isAlphanum || c == '_' || c == '-'

def simpleKey : Scan Key := do
  let bare ← run isBareKeyChar
  if bare.isEmpty then quoted else pure bare

/-- How many keys a path may have. -/
def pathLimit : Nat := 80

/-- Goes on with a path after one of its keys, which is the first of at most `limit` keys. -/
def moreKeys (path : List Key) (key : Key) : (limit : Nat) → Scan (List Key × Key)
  | 0 => failure
  | limit + 1 => do
    spaces
    if ← skip? ['.'] then
      spaces
      let next ← simpleKey
      moreKeys (path ++ [key]) next limit
    else pure (path, key)

/-- A key with the path before it. -/
def dottedKey : Scan (List Key × Key) := do
  let key ← simpleKey
  moreKeys [] key pathLimit

/-- The characters of numbers, truth values and moments. -/
def isScalarChar (c : Char) : Bool :=
  c.isAlphanum || c == '+' || c == '-' || c == '_' || c == '.' || c == ':'

/-- Takes the time after a date and one space, if there is one. -/
def timeAfter (date : List Char) : Scan (List Char) := fun _ text =>
  match text with
  | ' ' :: c :: rest =>
    if isDate date && isDigit c then
      some (date ++ ' ' :: (c :: rest).takeWhile isScalarChar, (c :: rest).dropWhile isScalarChar)
    else some (date, text)
  | _ => some (date, text)

def scalarValue? (word : List Char) : Option Value :=
  match integer? word with
  | some n => some (.integer n)
  | none =>
    if word == ['t', 'r', 'u', 'e'] || word == ['f', 'a', 'l', 's', 'e'] || isFraction word
        || isMoment word
    then some .other
    else none

def scalar : Scan Value := do
  let word ← run isScalarChar
  let word ← timeAfter word
  match scalarValue? word with
  | some value => pure value
  | none => failure

/-- How deep arrays and inline tables may be nested. -/
def depthLimit : Nat := 80

/-- An inline table by its fields, the last one first. It defines no key twice. -/
def closed (fields : List Field) : Scan Value :=
  match Entries.defineAll? [] fields.reverse with
  | some _ => pure .other
  | none => failure

mutual

/-- Reads a value that stands inside `depth` others. -/
def valueIn : (fuel : Nat) → (depth : Nat) → Scan Value
  | 0, _ => failure
  | fuel + 1, depth => do
    match ← peek? with
    | some '"' | some '\'' =>
      quotedValue
      pure .other
    | some '[' =>
      skip ['[']
      if depth < depthLimit then elements fuel (depth + 1) else failure
    | some '{' =>
      skip ['{']
      if depth < depthLimit then inlineFields [] fuel (depth + 1) else failure
    | _ => scalar

/-- Reads the rest of an array, after its bracket or after a comma. -/
def elements : (fuel : Nat) → (depth : Nat) → Scan Value
  | 0, _ => failure
  | fuel + 1, depth => do
    gap
    if ← skip? [']'] then pure .other
    else
      let _ ← valueIn fuel depth
      gap
      if ← skip? [','] then elements fuel depth
      else
        skip [']']
        pure .other

/-- Reads the rest of an inline table, after its brace or after a comma. The fields before it are
given, the last one first. -/
def inlineFields (fields : List Field) : (fuel : Nat) → (depth : Nat) → Scan Value
  | 0, _ => failure
  | fuel + 1, depth => do
    gap
    if ← skip? ['}'] then closed fields
    else
      let (path, key) ← dottedKey
      gap
      skip ['=']
      gap
      let value ← valueIn fuel depth
      let fields := { path, key, value } :: fields
      gap
      if ← skip? [','] then inlineFields fields fuel depth
      else
        skip ['}']
        closed fields

end

end Chiptune.Toml
