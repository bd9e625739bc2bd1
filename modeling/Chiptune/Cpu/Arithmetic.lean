import Chiptune.Cpu.Instruction
import Chiptune.Cpu.Registers

/-!
# Arithmetic on bytes

The operations of the accumulator and of shifts, on machine words: a result and
the flag byte that goes with it.
-/
namespace Chiptune

/-- A result together with the flags that it sets. -/
structure Flagged where
  value : UInt8
  flags : UInt8
  deriving DecidableEq, Repr

def carryBit (carry : Bool) : UInt8 := if carry then 1 else 0

namespace Flagged

def add (a v : UInt8) (carry : Bool) : Flagged :=
  let c := carryBit carry
  let value := a + v + c
  let half := a % 16 + v % 16 + c > 15
  let full := a.toUInt16 + v.toUInt16 + c.toUInt16 > 255
  ⟨value, flagByte (value == 0) false half full⟩

def sub (a v : UInt8) (carry : Bool) : Flagged :=
  let c := carryBit carry
  let value := a - v - c
  let half := a % 16 < v % 16 + c
  let full := a.toUInt16 < v.toUInt16 + c.toUInt16
  ⟨value, flagByte (value == 0) true half full⟩

/-- A bitwise result: only Z depends on it. -/
def logic (value : UInt8) (half : Bool) : Flagged := ⟨value, flagByte (value == 0) false half false⟩

/-- One more; the carry stays. -/
def inc (v : UInt8) (carry : Bool) : Flagged :=
  ⟨v + 1, flagByte (v + 1 == 0) false (v % 16 == 15) carry⟩

/-- One less; the carry stays. -/
def dec (v : UInt8) (carry : Bool) : Flagged :=
  ⟨v - 1, flagByte (v - 1 == 0) true (v % 16 == 0) carry⟩

/-- A shifted byte: Z from the result, C from the bit that fell out. -/
def shifted (value : UInt8) (out : Bool) : Flagged := ⟨value, flagByte (value == 0) false false out⟩

end Flagged

/-- The accumulator and the flags after an operation with `v`. -/
def AluOp.apply (op : AluOp) (a : UInt8) (carry : Bool) (v : UInt8) : Flagged :=
  match op with
  | .add => .add a v false
  | .adc => .add a v carry
  | .sub => .sub a v false
  | .sbc => .sub a v carry
  | .and => .logic (a &&& v) true
  | .xor => .logic (a ^^^ v) false
  | .or => .logic (a ||| v) false
  | .cp => ⟨a, (Flagged.sub a v false).flags⟩

def ShiftOp.apply (op : ShiftOp) (carry : Bool) (v : UInt8) : Flagged :=
  match op with
  | .rlc => .shifted (v * 2 + v / 128) (v ≥ 128)
  | .rrc => .shifted (v / 2 + v % 2 * 128) (v % 2 == 1)
  | .rl => .shifted (v * 2 + carryBit carry) (v ≥ 128)
  | .rr => .shifted (v / 2 + carryBit carry * 128) (v % 2 == 1)
  | .sla => .shifted (v * 2) (v ≥ 128)
  | .sra => .shifted (v / 2 + v / 128 * 128) (v % 2 == 1)
  | .swap => .shifted (v * 16 + v / 16) false
  | .srl => .shifted (v / 2) (v % 2 == 1)

/-- Corrects the result `a` of a decimal addition or subtraction, digit by digit. -/
def decimalAdjust (a : UInt8) (subtract half carry : Bool) : Flagged :=
  let low := half || (!subtract && a % 16 > 9)
  let high := carry || (!subtract && a > 0x99)
  let correction : UInt8 := (if low then 0x06 else 0) + (if high then 0x60 else 0)
  let value := if subtract then a - correction else a + correction
  ⟨value, flagByte (value == 0) subtract false high⟩

namespace Registers

/-- SP moved by an offset. The flags are those of adding the low bytes without sign. -/
def spPlus (r : Registers) (offset : Int8) : UInt16 × UInt8 :=
  let v := Word.ofOffset offset
  (r.sp + v, flagByte false false (r.sp % 16 + v % 16 > 15) (r.sp % 256 + v % 256 > 255))

/-- HL plus a word; Z stays. -/
def hlPlus (r : Registers) (v : UInt16) : UInt16 × UInt8 :=
  (r.hl + v, flagByte r.zero false (r.hl % 4096 + v % 4096 > 4095)
    (r.hl.toUInt32 + v.toUInt32 > 65535))

end Registers
end Chiptune
