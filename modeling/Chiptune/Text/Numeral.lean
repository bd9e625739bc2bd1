/-!
# Reading whole numbers

A numeral is an optional plus sign and at least one ASCII digit. Its value is
read exactly, so a bound is checked on the value and never by wrapping. Only the
exponents of decimal numbers are cut short, where they are beyond all use.
-/
namespace Chiptune.Text

def isDigit (c : Char) : Bool := '0' ≤ c && c ≤ '9'

def digitValue (c : Char) : Nat := c.toNat - '0'.toNat

/-- The value of a run of digits after those that make up `value`. -/
def digitsValue (value : Nat) (digits : List Char) : Nat :=
  digits.foldl (fun n c => 10 * n + digitValue c) value

def unsigned? (text : List Char) : Option Nat :=
  if text.isEmpty then none
  else if text.all isDigit then some (digitsValue 0 text)
  else none

def numeral? : List Char → Option Nat
  | '+' :: digits => unsigned? digits
  | digits => unsigned? digits

/-- An exponent that has reached this much takes no more digits. -/
def exponentLimit : Nat := 0x10000

/-- The value of the digits of an exponent, up to the one that reaches the limit. -/
def exponentValue (digits : List Char) : Nat :=
  digits.foldl (fun n c => if n < exponentLimit then 10 * n + digitValue c else n) 0

/-- How many numbers have at most so many bits. -/
def bitBound (bits : Nat) : Nat := Nat.pow 2 bits

/-- A numeral whose value is below `bound`. -/
def boundedNumeral? (bound : Nat) (text : List Char) : Option Nat :=
  (numeral? text).filter (· < bound)

end Chiptune.Text
