import Chiptune.Text.Hexadecimal
import Chiptune.Word

/-!
# The register file

Eight byte registers pair up into the words AF, BC, DE and HL, the first one
being the high byte. The flags live in the high half of F: Z, N, H and C.
-/
namespace Chiptune

structure Registers where
  a : UInt8 := 0
  f : UInt8 := 0
  b : UInt8 := 0
  c : UInt8 := 0
  d : UInt8 := 0
  e : UInt8 := 0
  h : UInt8 := 0
  l : UInt8 := 0
  sp : UInt16 := 0
  pc : UInt16 := 0
  deriving DecidableEq, Repr

/-- The byte F with the given flags and a zero low half. -/
def flagByte (z n h c : Bool) : UInt8 :=
  (if z then 0x80 else 0) ||| (if n then 0x40 else 0) ||| (if h then 0x20 else 0)
    ||| (if c then 0x10 else 0)

namespace Registers

def zero (r : Registers) : Bool := r.f &&& 0x80 != 0

def subtract (r : Registers) : Bool := r.f &&& 0x40 != 0

def halfCarry (r : Registers) : Bool := r.f &&& 0x20 != 0

def carry (r : Registers) : Bool := r.f &&& 0x10 != 0

def af (r : Registers) : UInt16 := Word.ofBytes r.a r.f

def bc (r : Registers) : UInt16 := Word.ofBytes r.b r.c

def de (r : Registers) : UInt16 := Word.ofBytes r.d r.e

def hl (r : Registers) : UInt16 := Word.ofBytes r.h r.l

/-- The low half of F does not exist, so it is stored as zero. -/
def setAF (r : Registers) (word : UInt16) : Registers :=
  { r with a := Word.high word, f := Word.low word &&& 0xF0 }

def setBC (r : Registers) (word : UInt16) : Registers :=
  { r with b := Word.high word, c := Word.low word }

def setDE (r : Registers) (word : UInt16) : Registers :=
  { r with d := Word.high word, e := Word.low word }

def setHL (r : Registers) (word : UInt16) : Registers :=
  { r with h := Word.high word, l := Word.low word }

def text (r : Registers) : String :=
  "AF:" ++ Text.hexWord r.af ++ " BC:" ++ Text.hexWord r.bc ++ " DE:" ++ Text.hexWord r.de
    ++ " HL:" ++ Text.hexWord r.hl ++ " PC:" ++ Text.hexWord r.pc ++ " SP:" ++ Text.hexWord r.sp

end Registers
end Chiptune
