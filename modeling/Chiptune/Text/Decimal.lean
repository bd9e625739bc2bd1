import Chiptune.Text.Numeral

/-!
# Decimal text of single-precision numbers

Numbers are printed with a fixed number of places: the exact value is rounded to
the nearest decimal, and a tie goes to the even digit. Reading accepts digits
with an optional point and exponent, and rounds once.
-/
namespace Chiptune.Text

/-- The natural number nearest to a quotient; a tie goes to the even one. -/
def roundHalfEven (num den : Nat) : Nat :=
  let quotient := num / den
  let twice := 2 * (num % den)
  if twice < den then quotient
  else if den < twice then quotient + 1
  else if quotient % 2 = 0 then quotient else quotient + 1

/-- The sign, the significand and the power of two of a finite number. -/
structure Scaled where
  negative : Bool
  significand : Nat
  exponent : Int

def Scaled.ofFloat (x : Float32) : Scaled :=
  let bits := x.toBits.toNat
  let fraction := bits % bitBound 23
  let biased := bits / bitBound 23 % bitBound 8
  { negative := bits / bitBound 31 == 1
    significand := if biased = 0 then fraction else fraction + bitBound 23
    exponent := if biased = 0 then -149 else (biased : Int) - 150 }

/-- The magnitude in units of the last of `places` decimals. -/
def Scaled.units (x : Scaled) (places : Nat) : Nat :=
  let scaled := x.significand * Nat.pow 10 places
  if 0 ≤ x.exponent then scaled * bitBound x.exponent.toNat
  else roundHalfEven scaled (bitBound (-x.exponent).toNat)

/-- Decimal digits of a number, at least `width` of them. -/
def paddedDigits (width n : Nat) : String :=
  let digits := toString n
  String.ofList (List.replicate (width - digits.length) '0') ++ digits

/-- A number with a fixed number of decimal places. -/
def fixed (places : Nat) (x : Float32) : String :=
  if x.isNaN then "NaN"
  else
    let scaled := Scaled.ofFloat x
    let magnitude :=
      if x.isInf then "inf"
      else
        let units := scaled.units places
        if places = 0 then toString units
        else
          let one := Nat.pow 10 places
          toString (units / one) ++ "." ++ paddedDigits places (units % one)
    if scaled.negative then "-" ++ magnitude else magnitude

/-- A text moved to the right of a column. -/
def alignRight (width : Nat) (text : String) : String :=
  String.ofList (List.replicate (width - text.length) ' ') ++ text

def unsignedExponent? (digits : List Char) : Option Int :=
  if digits.isEmpty then none
  else if digits.all isDigit then some (exponentValue digits)
  else none

/-- The exponent after an `e`: an optional sign and at least one digit. -/
def exponent? : List Char → Option Int
  | '-' :: digits => (unsignedExponent? digits).map (- ·)
  | '+' :: digits => unsignedExponent? digits
  | digits => unsignedExponent? digits

/-- What follows the fraction: nothing, or an exponent. -/
def exponentTail? : List Char → Option Int
  | [] => some 0
  | c :: rest => if c == 'e' || c == 'E' then exponent? rest else none

/-- Digits, scaled by a power of ten. Numbers far out of range are decided by their size. -/
def ofDigits (digits : List Char) (exponent : Int) : Float32 :=
  let digits := digits.dropWhile (· == '0')
  let size := exponent + digits.length
  if digits.isEmpty then 0.0
  else if size > 60 then 1.0 / 0.0
  else if size < -80 then 0.0
  else Float32.ofScientific (digitsValue 0 digits) (exponent < 0) exponent.natAbs

/-- A number without a sign. -/
def magnitude? (text : List Char) : Option Float32 :=
  let whole := text.takeWhile isDigit
  let (fraction, tail) :=
    match text.dropWhile isDigit with
    | '.' :: rest => (rest.takeWhile isDigit, rest.dropWhile isDigit)
    | rest => ([], rest)
  let digits := whole ++ fraction
  if digits.isEmpty then none
  else (exponentTail? tail).map fun e => ofDigits digits (e - (fraction.length : Int))

/-- The names of numbers without digits, in either case. -/
def named? (text : List Char) : Option Float32 :=
  let name := String.ofList (text.map Char.toLower)
  if name == "nan" then some (0.0 / 0.0)
  else if name == "inf" || name == "infinity" then some (1.0 / 0.0)
  else none

def unsignedFloat? (text : List Char) : Option Float32 := named? text <|> magnitude? text

/-- A number with an optional sign. -/
def float? : List Char → Option Float32
  | '-' :: rest => (unsignedFloat? rest).map (- ·)
  | '+' :: rest => unsignedFloat? rest
  | rest => unsignedFloat? rest

end Chiptune.Text
