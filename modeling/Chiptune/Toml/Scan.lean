/-!
# Scanning text

A scan takes something off the front of a text, or fails. It knows a bound on
the length of the text, which limits how often it repeats a step. This module
has the single steps, and what separates the parts of a TOML document: blanks,
line ends and comments.
-/
namespace Chiptune.Toml

abbrev Scan := ReaderT Nat (StateT (List Char) Option)

namespace Scan

/-- A number that no text exceeds in length. -/
def bound : Scan Nat := read

/-- The next character, left in place. -/
def peek? : Scan (Option Char) := fun _ text => some (text.head?, text)

/-- Takes the next character. -/
def next : Scan Char
  | _, [] => none
  | _, c :: rest => some (c, rest)

/-- Takes a word, if the text begins with it. -/
def skip? (word : List Char) : Scan Bool := fun _ text =>
  if word.isPrefixOf text then some (true, text.drop word.length) else some (false, text)

def skip (word : List Char) : Scan Unit := do
  if ← skip? word then pure () else failure

/-- Takes the longest run of characters of a class. -/
def run (p : Char → Bool) : Scan (List Char) := fun _ text =>
  some (text.takeWhile p, text.dropWhile p)

/-- Fails unless the text is used up. -/
def atEnd : Scan Unit
  | _, [] => some ((), [])
  | _, _ => none

/-- The result on a whole text. -/
def all? (scan : Scan α) (text : List Char) : Option α :=
  match scan text.length text with
  | some (a, []) => some a
  | _ => none

end Scan

open Scan

def isSpace (c : Char) : Bool := c == ' ' || c == '\t'

/-- The characters that may stand in a comment or a literal string: a tab, and everything that is
not a control character. -/
def isPlain (c : Char) : Bool := c == '\t' || (0x20 ≤ c.toNat && c.toNat != 0x7F)

def spaces : Scan Unit := do
  let _ ← run isSpace
  pure ()

/-- Takes a line end: a line feed, with or without a carriage return before it. -/
def lineEnd? : Scan Bool := do
  if ← skip? ['\n'] then pure true else skip? ['\r', '\n']

/-- Takes a comment, if there is one, up to the end of its line. -/
def comment : Scan Unit := do
  if ← skip? ['#'] then
    let _ ← run isPlain
    pure ()

/-- Takes what may follow on a line, and the line end, which the last line need not have. -/
def endLine : Scan Unit := do
  spaces
  comment
  if ← lineEnd? then pure () else atEnd

/-- Takes the spaces, comments and line ends of at most so many lines. -/
def gapLines : Nat → Scan Unit
  | 0 => pure ()
  | lines + 1 => do
    spaces
    comment
    if ← lineEnd? then gapLines lines

/-- Takes all spaces, comments and line ends that follow. -/
def gap : Scan Unit := do gapLines ((← bound) + 1)

end Chiptune.Toml
