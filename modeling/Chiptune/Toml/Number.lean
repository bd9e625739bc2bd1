import Chiptune.Text.Numeral
import Chiptune.Toml.Quoted

/-!
# Numbers

Digits may be grouped by single underscores. A whole number is decimal with an
optional sign and no leading zeros, or has one of three other bases; it has at
most 128 bits. A fractional number has a fraction, an exponent or both, and
must not be out of range.
-/
namespace Chiptune.Toml

open Text (bitBound isDigit digitsValue exponentValue)

/-- Removes the underscores, each of which stands between two digits. -/
def ungroup? (p : Char → Bool) : List Char → Option (List Char)
  | [] => none
  | [c] => if p c then some [c] else none
  | c :: '_' :: rest => if p c then (ungroup? p rest).map (c :: ·) else none
  | c :: rest => if p c then (ungroup? p rest).map (c :: ·) else none

/-- Digits that begin with a zero only if it is the only one. -/
def withoutLeadingZero? : List Char → Option (List Char)
  | '0' :: _ :: _ => none
  | digits => some digits

def decimalDigits? (text : List Char) : Option (List Char) :=
  (ungroup? isDigit text).bind withoutLeadingZero?

def decimal? (text : List Char) : Option Int :=
  (decimalDigits? text).map fun digits => Int.ofNat (digitsValue 0 digits)

/-- The value of a digit in a base up to sixteen. -/
def digitIn? (base : Nat) (c : Char) : Option Nat := (hexValue? c).filter (· < base)

/-- A number in another base. -/
def based? (base : Nat) (text : List Char) : Option Int :=
  (ungroup? (fun c => (digitIn? base c).isSome) text).map fun digits =>
    Int.ofNat (digits.foldl (fun n c => base * n + (digitIn? base c).getD 0) 0)

def unboundedInteger? : List Char → Option Int
  | '0' :: 'x' :: digits => based? 16 digits
  | '0' :: 'o' :: digits => based? 8 digits
  | '0' :: 'b' :: digits => based? 2 digits
  | '+' :: digits => decimal? digits
  | '-' :: digits => (decimal? digits).map (- ·)
  | digits => decimal? digits

def integer? (text : List Char) : Option Int :=
  (unboundedInteger? text).filter fun n => -(bitBound 127 : Int) ≤ n && n < bitBound 128

/-- A sign and the text after it. -/
def splitSign : List Char → Bool × List Char
  | '+' :: rest => (false, rest)
  | '-' :: rest => (true, rest)
  | rest => (false, rest)

/-- The exponent at the end of a number, if there is one. -/
def exponentPart? : List Char → Option Int
  | [] => some 0
  | c :: rest =>
    if c == 'e' || c == 'E' then
      let (negative, digits) := splitSign rest
      (ungroup? isDigit digits).map fun digits =>
        let n := Int.ofNat (exponentValue digits)
        if negative then -n else n
    else none

/-- The least number that is too large for double precision: halfway between the greatest finite
value and the next power of two. -/
def rangeEnd : Nat := bitBound 1024 - bitBound 970

/-- How many decimal digits `rangeEnd` has. -/
def rangeDigits : Nat := 309

/-- True when digits, scaled by a power of ten, are in the range of double precision. Only a number
with as many digits before the point as `rangeEnd` has to be compared with it. -/
def inRange (digits : List Char) (exponent : Int) : Bool :=
  let digits := digits.dropWhile (· == '0')
  let size := exponent + digits.length
  if digits.isEmpty || size < rangeDigits then true
  else if rangeDigits < size then false
  else digitsValue 0 ((digits ++ List.replicate rangeDigits '0').take rangeDigits) < rangeEnd

/-- The characters of a number before its point or exponent. -/
def isWholePart (c : Char) : Bool := isDigit c || c == '_'

/-- Recognizes a number with a fraction or an exponent, without its sign. -/
def isUnsignedFraction (text : List Char) : Bool :=
  let whole := decimalDigits? (text.takeWhile isWholePart)
  match whole, text.dropWhile isWholePart with
  | some whole, '.' :: rest =>
    match ungroup? isDigit (rest.takeWhile isWholePart),
        exponentPart? (rest.dropWhile isWholePart) with
    | some fraction, some e => inRange (whole ++ fraction) (e - Int.ofNat fraction.length)
    | _, _ => false
  | some whole, c :: rest =>
    match exponentPart? (c :: rest) with
    | some e => inRange whole e
    | none => false
  | _, _ => false

/-- Recognizes a number that is not whole, among them those without digits. -/
def isFraction (text : List Char) : Bool :=
  let (_, magnitude) := splitSign text
  magnitude == ['i', 'n', 'f'] || magnitude == ['n', 'a', 'n'] || isUnsignedFraction magnitude

end Chiptune.Toml
