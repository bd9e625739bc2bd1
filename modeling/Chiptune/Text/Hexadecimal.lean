/-!
# Hexadecimal text

Bytes take two upper-case digits and words take four.
-/
namespace Chiptune.Text

/-- The upper-case digit of a value below sixteen. -/
def hexDigit (n : Nat) : Char :=
  if n < 10 then Char.ofNat (48 + n) else Char.ofNat (55 + n)

def hexByte (b : UInt8) : String :=
  String.ofList [hexDigit (b.toNat / 16), hexDigit (b.toNat % 16)]

def hexWord (w : UInt16) : String :=
  hexByte (w >>> 8).toUInt8 ++ hexByte w.toUInt8

end Chiptune.Text
