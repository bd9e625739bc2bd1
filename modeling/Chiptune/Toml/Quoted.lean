import Chiptune.Toml.Scan

/-!
# Quoted text

A quoted text is basic, with escapes, between double quotes, or literal between
single quotes. Both also have a form over several lines between three quotes,
where up to two more quotes may stand right before the closing ones.
-/
namespace Chiptune.Toml

open Scan

def hexValue? (c : Char) : Option Nat :=
  if '0' ≤ c && c ≤ '9' then some (c.toNat - '0'.toNat)
  else if 'a' ≤ c && c ≤ 'f' then some (c.toNat - 'a'.toNat + 10)
  else if 'A' ≤ c && c ≤ 'F' then some (c.toNat - 'A'.toNat + 10)
  else none

/-- The value of so many hexadecimal digits, after those that make up `value`. -/
def hexDigits : (count : Nat) → (value : Nat) → Scan Nat
  | 0, value => pure value
  | count + 1, value => do
    let c ← next
    match hexValue? c with
    | some digit => hexDigits count (16 * value + digit)
    | none => failure

/-- A code point of so many hexadecimal digits. -/
def codePoint (count : Nat) : Scan Char := do
  let n ← hexDigits count 0
  if n.isValidChar then pure (Char.ofNat n) else failure

/-- What follows a backslash. -/
def escape : Scan Char := do
  let c ← next
  match c with
  | 'b' => pure '\x08'
  | 't' => pure '\t'
  | 'n' => pure '\n'
  | 'f' => pure '\x0C'
  | 'r' => pure '\r'
  | 'e' => pure '\x1B'
  | '"' => pure '"'
  | '\\' => pure '\\'
  | 'x' => codePoint 2
  | 'u' => codePoint 4
  | 'U' => codePoint 8
  | _ => failure

/-- The rest of a basic text, of at most so many characters. -/
def basicRest : Nat → Scan (List Char)
  | 0 => failure
  | limit + 1 => do
    let c ← next
    if c == '"' then pure []
    else if c == '\\' then
      let c ← escape
      let rest ← basicRest limit
      pure (c :: rest)
    else if isPlain c then
      let rest ← basicRest limit
      pure (c :: rest)
    else failure

/-- The rest of a literal text. -/
def literalRest : Scan (List Char) := do
  let text ← run fun c => isPlain c && c != '\''
  skip ['\'']
  pure text

/-- A quoted text on one line, which may be a key. -/
def quoted : Scan (List Char) := do
  if ← skip? ['"'] then basicRest (← bound)
  else
    skip ['\'']
    literalRest

/-- Takes the quotes that end a text of several lines. -/
def closing? (quote : Char) : Scan Bool := do
  if ← skip? [quote, quote, quote] then
    let _ ← skip? [quote]
    let _ ← skip? [quote]
    pure true
  else pure false

/-- Takes what follows a backslash in a text of several lines: an escape, or the end of the line. -/
def lineEscape : Scan Unit := do
  let text ← get
  spaces
  if ← lineEnd? then pure ()
  else
    set text
    let _ ← escape
    pure ()

/-- Takes the rest of a text of several lines, of at most so many characters. -/
def linesRest (quote : Char) (escapes : Bool) : Nat → Scan Unit
  | 0 => failure
  | limit + 1 => do
    if ← closing? quote then pure ()
    else if ← lineEnd? then linesRest quote escapes limit
    else
      let c ← next
      if escapes && c == '\\' then
        lineEscape
        linesRest quote escapes limit
      else if isPlain c then linesRest quote escapes limit
      else failure

/-- Takes a quoted text of any form. -/
def quotedValue : Scan Unit := do
  if ← skip? ['"', '"', '"'] then linesRest '"' true (← bound)
  else if ← skip? ['\'', '\'', '\''] then linesRest '\'' false (← bound)
  else
    let _ ← quoted
    pure ()

end Chiptune.Toml
