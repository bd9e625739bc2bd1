import Chiptune.Text.Numeral
import Chiptune.Toml.Scan

/-!
# Dates and times

A moment is a date, a time, or both with an optional offset. Seconds may be
left out, and a second may be a leap second.
-/
namespace Chiptune.Toml

open Scan
open Text (isDigit digitsValue)

/-- A number of exactly so many digits. -/
def digits : (count : Nat) → (value : Nat) → Scan Nat
  | 0, value => pure value
  | count + 1, value => do
    let c ← next
    if isDigit c then digits count (digitsValue value [c]) else failure

/-- A number of exactly so many digits, within bounds. -/
def field (count least greatest : Nat) : Scan Nat := do
  let n ← digits count 0
  if least ≤ n && n ≤ greatest then pure n else failure

def isLeapYear (year : Nat) : Bool := year % 4 == 0 && (year % 100 != 0 || year % 400 == 0)

def daysIn (year month : Nat) : Nat :=
  match month with
  | 2 => if isLeapYear year then 29 else 28
  | 4 | 6 | 9 | 11 => 30
  | _ => 31

def date : Scan Unit := do
  let year ← digits 4 0
  skip ['-']
  let month ← field 2 1 12
  skip ['-']
  let _ ← field 2 1 (daysIn year month)

def fraction : Scan Unit := do
  if ← skip? ['.'] then
    let part ← run isDigit
    if part.isEmpty then failure

def time : Scan Unit := do
  let _ ← field 2 0 23
  skip [':']
  let _ ← field 2 0 59
  if ← skip? [':'] then
    let _ ← field 2 0 60
    fraction

/-- The difference to universal time, if there is one. -/
def offset : Scan Unit := do
  match ← peek? with
  | none => pure ()
  | some _ =>
    let c ← next
    if c == 'Z' || c == 'z' then pure ()
    else if c == '+' || c == '-' then
      let _ ← field 2 0 23
      skip [':']
      let _ ← field 2 0 59
    else failure

def dateAndTime : Scan Unit := do
  date
  let c ← next
  if c == 'T' || c == 't' || c == ' ' then
    time
    offset
  else failure

def isDate (text : List Char) : Bool := (date.all? text).isSome

def isMoment (text : List Char) : Bool :=
  isDate text || (time.all? text).isSome || (dateAndTime.all? text).isSome

end Chiptune.Toml
