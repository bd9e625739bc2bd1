/-!
# Texts without what steers a terminal

Control characters other than white space steer a terminal, and so do the
sequences that begin with an escape character. `withoutSteering` leaves both
out of a text. A sequence that does not end takes the rest of the text with it,
line ends included, but white space can interrupt a short one: the text is then
shown up to the next control character, which resumes the sequence.
-/
namespace Chiptune.Text

/-- How far a sequence has come. -/
inductive Sequence where
  /-- The escape character has been read. -/
  | escape
  /-- Marks between the escape character and the final one. -/
  | marks
  /-- A control sequence, up to its final letter. -/
  | control
  /-- A device control string, before its parameters. -/
  | device
  | deviceParameters
  | deviceMarks
  /-- A string up to its terminator. -/
  | string
  /-- A command to the operating system, up to a bell. -/
  | command
  deriving DecidableEq, Repr

/-- True for the characters from one to another. -/
def isWithin (first last : Char) (c : Char) : Bool := first ≤ c && c ≤ last

/-- A string is terminated by the byte 0x9C. In UTF-8 that byte stands within characters. -/
def endsString (c : Char) : Bool := 0x80 ≤ c.toNat && (String.utf8EncodeChar c).contains 0x9C

namespace Sequence

/-- What a sequence becomes by one more character, or `none` when the character is its last. -/
def next? (c : Char) : Sequence → Option Sequence
  | escape =>
    if c == '[' then some control
    else if c == ']' then some command
    else if c == 'P' then some device
    else if c == 'X' || c == '^' || c == '_' then some string
    else if isWithin ' ' '/' c then some marks
    else if isWithin '0' '~' c then none
    else some escape
  | marks => if isWithin '0' '~' c then none else some marks
  | control => if isWithin '@' '~' c then none else some control
  | device =>
    if isWithin ' ' '/' c then some deviceMarks
    else if isWithin '0' '?' c then some deviceParameters
    else if isWithin '@' '~' c then some string
    else some device
  | deviceParameters =>
    if isWithin ' ' '/' c then some deviceMarks
    else if isWithin '<' '~' c then some string
    else some deviceParameters
  | deviceMarks => if isWithin '0' '~' c then some string else some deviceMarks
  | string => if endsString c then none else some string
  | command => if c == '\x07' then none else some command

def isInterruptible : Sequence → Bool
  | escape | marks | control => true
  | _ => false

end Sequence

/-- Where in a text a character stands. -/
inductive Place where
  /-- In what is shown, which may interrupt a sequence. -/
  | shown (interrupted : Option Sequence)
  | within (sequence : Sequence)
  deriving DecidableEq, Repr

/-- The control characters that are shown. -/
def isShownControl (c : Char) : Bool := c == '\t' || c == '\n' || c == '\x0C' || c == '\r'

def isAscii (c : Char) : Bool := c.toNat < 0x80

/-- True for the characters that are shown outside sequences. -/
def isShown (c : Char) : Bool := isWithin ' ' '~' c || isShownControl c || !isAscii c

namespace Place

/-- The place after a character, and whether the character is shown. -/
def step (c : Char) : Place → Bool × Place
  | shown interrupted =>
    if c == '\x1B' then (false, within .escape)
    else if c == '\x18' || c == '\x1A' then (false, shown none)
    else if isShown c then (true, shown (if isAscii c then interrupted else none))
    else (false, (interrupted.map within).getD (shown none))
  | within sequence =>
    if c == '\x1B' then (false, within .escape)
    else if c == '\x18' || c == '\x1A' then (false, shown none)
    else if sequence.isInterruptible && isShownControl c then (true, shown (some sequence))
    else (false, ((sequence.next? c).map within).getD (shown none))

end Place

/-- What is shown of a text from a place on. -/
def shownFrom (place : Place) : List Char → List Char
  | [] => []
  | c :: rest =>
    match place.step c with
    | (true, place) => c :: shownFrom place rest
    | (false, place) => shownFrom place rest

def withoutSteering (text : String) : String := String.ofList (shownFrom (.shown none) text.toList)

end Chiptune.Text
