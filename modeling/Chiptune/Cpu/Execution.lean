import Chiptune.Cpu.Arithmetic

/-!
# What an instruction does

Every instruction reads its operands before it stores, and stores at most one
byte or one word. So its whole effect is a value: the new registers, the store,
and whether a return was taken. Reading memory is a function from addresses to
bytes.
-/
namespace Chiptune

/-- What an instruction stores. A word is stored low byte first. -/
inductive Store where
  | none
  | byte (address : UInt16) (value : UInt8)
  | word (address : UInt16) (value : UInt16)
  deriving DecidableEq, Repr

structure Effect where
  registers : Registers
  store : Store
  /-- True when the instruction was a return that was taken. -/
  returned : Bool
  deriving DecidableEq, Repr

namespace Effect

def registersOnly (r : Registers) : Effect := ⟨r, .none, false⟩

def storing (r : Registers) (store : Store) : Effect := ⟨r, store, false⟩

end Effect

namespace Registers

def pair (r : Registers) : Pair → UInt16
  | .bc => r.bc
  | .de => r.de
  | .hl => r.hl
  | .sp => r.sp

def setPair (r : Registers) (target : Pair) (value : UInt16) : Registers :=
  match target with
  | .bc => r.setBC value
  | .de => r.setDE value
  | .hl => r.setHL value
  | .sp => { r with sp := value }

def stackPair (r : Registers) : StackPair → UInt16
  | .bc => r.bc
  | .de => r.de
  | .hl => r.hl
  | .af => r.af

def setStackPair (r : Registers) (target : StackPair) (value : UInt16) : Registers :=
  match target with
  | .bc => r.setBC value
  | .de => r.setDE value
  | .hl => r.setHL value
  | .af => r.setAF value

/-- The address in a pointer register. -/
def pointer (r : Registers) : Pointer → UInt16
  | .bc => r.bc
  | .de => r.de
  | .hlUp | .hlDown => r.hl

/-- The registers after a pointer was used. -/
def movePointer (r : Registers) : Pointer → Registers
  | .bc | .de => r
  | .hlUp => r.setHL (r.hl + 1)
  | .hlDown => r.setHL (r.hl - 1)

def meets (r : Registers) : Option Condition → Bool
  | none => true
  | some .nz => !r.zero
  | some .z => r.zero
  | some .nc => !r.carry
  | some .c => r.carry

def setFlagged (r : Registers) (result : Flagged) : Registers :=
  { r with a := result.value, f := result.flags }

end Registers

/-- An address in the page of the hardware registers. -/
def highPage (offset : UInt8) : UInt16 := 0xFF00 + offset.toUInt16

/-- The word at an address; the address wraps. -/
@[specialize] def readWord (read : UInt16 → UInt8) (address : UInt16) : UInt16 :=
  Word.ofBytes (read (address + 1)) (read address)

namespace Operand

@[specialize] def value (read : UInt16 → UInt8) (r : Registers) : Operand → UInt8
  | .b => r.b
  | .c => r.c
  | .d => r.d
  | .e => r.e
  | .h => r.h
  | .l => r.l
  | .atHL => read r.hl
  | .a => r.a

/-- Puts a byte into an operand. -/
def put (r : Registers) (value : UInt8) : Operand → Effect
  | .b => .registersOnly { r with b := value }
  | .c => .registersOnly { r with c := value }
  | .d => .registersOnly { r with d := value }
  | .e => .registersOnly { r with e := value }
  | .h => .registersOnly { r with h := value }
  | .l => .registersOnly { r with l := value }
  | .atHL => .storing r (.byte r.hl value)
  | .a => .registersOnly { r with a := value }

end Operand

/-- Pushes a word and goes on at an address. -/
def Registers.callTo (r : Registers) (address : UInt16) : Effect :=
  .storing { r with sp := r.sp - 2, pc := address } (.word (r.sp - 2) r.pc)

@[specialize] def Registers.takeReturn (read : UInt16 → UInt8) (r : Registers) : Effect :=
  ⟨{ r with sp := r.sp + 2, pc := readWord read r.sp }, .none, true⟩

/-- A shift of the accumulator by its one-byte opcode clears Z. -/
def Registers.shiftA (r : Registers) (op : ShiftOp) : Registers :=
  let result := op.apply r.carry r.a
  { r with a := result.value, f := result.flags &&& 0x10 }

@[specialize] def BitOp.effect (read : UInt16 → UInt8) (r : Registers) (target : Operand) :
    BitOp → Effect
  | .shift op =>
    let result := op.apply r.carry (target.value read r)
    target.put { r with f := result.flags } result.value
  | .test bit =>
    let isClear := target.value read r &&& (1 <<< UInt8.ofNat bit) == 0
    .registersOnly { r with f := flagByte isClear false true r.carry }
  | .reset bit => target.put r (target.value read r &&& ~~~(1 <<< UInt8.ofNat bit))
  | .set bit => target.put r (target.value read r ||| (1 <<< UInt8.ofNat bit))

/-- The effect of an instruction. The program counter of `r` is already past it, and `vectors` is
the address of the first restart vector. -/
@[specialize] def Instruction.effect (read : UInt16 → UInt8) (vectors : UInt16) (r : Registers) :
    Instruction → Effect
  | .nop | .stop | .halt | .di | .ei | .undefined _ => .registersOnly r
  | .load target source => target.put r (source.value read r)
  | .loadByte target value => target.put r value
  | .loadWord target value => .registersOnly (r.setPair target value)
  | .storeA pointer => .storing (r.movePointer pointer) (.byte (r.pointer pointer) r.a)
  | .loadA pointer => .registersOnly { r.movePointer pointer with a := read (r.pointer pointer) }
  | .storeSP address => .storing r (.word address r.sp)
  | .storeAAt address => .storing r (.byte address r.a)
  | .loadAAt address => .registersOnly { r with a := read address }
  | .storeAHigh offset => .storing r (.byte (highPage offset) r.a)
  | .loadAHigh offset => .registersOnly { r with a := read (highPage offset) }
  | .storeAHighC => .storing r (.byte (highPage r.c) r.a)
  | .loadAHighC => .registersOnly { r with a := read (highPage r.c) }
  | .loadSPHL => .registersOnly { r with sp := r.hl }
  | .loadHLSP offset =>
    let sum := r.spPlus offset
    .registersOnly { r.setHL sum.1 with f := sum.2 }
  | .addSP offset =>
    let sum := r.spPlus offset
    .registersOnly { r with sp := sum.1, f := sum.2 }
  | .inc target =>
    let result := Flagged.inc (target.value read r) r.carry
    target.put { r with f := result.flags } result.value
  | .dec target =>
    let result := Flagged.dec (target.value read r) r.carry
    target.put { r with f := result.flags } result.value
  | .incWord target => .registersOnly (r.setPair target (r.pair target + 1))
  | .decWord target => .registersOnly (r.setPair target (r.pair target - 1))
  | .addHL source =>
    let sum := r.hlPlus (r.pair source)
    .registersOnly { r.setHL sum.1 with f := sum.2 }
  | .alu op source =>
    .registersOnly (r.setFlagged (op.apply r.a r.carry (source.value read r)))
  | .aluByte op value => .registersOnly (r.setFlagged (op.apply r.a r.carry value))
  | .rlca => .registersOnly (r.shiftA .rlc)
  | .rrca => .registersOnly (r.shiftA .rrc)
  | .rla => .registersOnly (r.shiftA .rl)
  | .rra => .registersOnly (r.shiftA .rr)
  | .daa => .registersOnly (r.setFlagged (decimalAdjust r.a r.subtract r.halfCarry r.carry))
  | .cpl => .registersOnly { r with a := ~~~r.a, f := r.f ||| 0x60 }
  | .scf => .registersOnly { r with f := flagByte r.zero false false true }
  | .ccf => .registersOnly { r with f := flagByte r.zero false false !r.carry }
  | .bits op target => op.effect read r target
  | .jump condition address =>
    .registersOnly (if r.meets condition then { r with pc := address } else r)
  | .jumpHL => .registersOnly { r with pc := r.hl }
  | .jumpBy condition offset =>
    .registersOnly (if r.meets condition then { r with pc := r.pc + Word.ofOffset offset } else r)
  | .call condition address =>
    if r.meets condition then r.callTo address else .registersOnly r
  | .ret condition => if r.meets condition then r.takeReturn read else .registersOnly r
  | .reti => r.takeReturn read
  | .push pair =>
    .storing { r with sp := r.sp - 2 } (.word (r.sp - 2) (r.stackPair pair))
  | .pop pair =>
    .registersOnly ({ r with sp := r.sp + 2 }.setStackPair pair (readWord read r.sp))
  | .rst vector => r.callTo (vectors + 8 * UInt16.ofNat vector)

end Chiptune
