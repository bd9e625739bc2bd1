import Chiptune.Word

/-!
# The instruction set

An instruction is at most three bytes: an opcode and its operand bytes.
`Instruction.decode` reads it from them, `Instruction.encode` writes it, and
`Instruction.length` is the number of bytes that belong to it. Operand fields of
an opcode are numbered codes, so each operand type comes with `ofCode` and
`code`.
-/
namespace Chiptune

/-- A byte operand: a register, or the memory cell that HL points to. -/
inductive Operand where
  | b | c | d | e | h | l | atHL | a
  deriving DecidableEq, Repr

/-- A word operand of loads and word arithmetic. -/
inductive Pair where
  | bc | de | hl | sp
  deriving DecidableEq, Repr

/-- A word operand of pushes and pops. -/
inductive StackPair where
  | bc | de | hl | af
  deriving DecidableEq, Repr

inductive Condition where
  | nz | z | nc | c
  deriving DecidableEq, Repr

inductive AluOp where
  | add | adc | sub | sbc | and | xor | or | cp
  deriving DecidableEq, Repr

inductive ShiftOp where
  | rlc | rrc | rl | rr | sla | sra | swap | srl
  deriving DecidableEq, Repr

/-- The operations of the opcodes that follow the byte 0xCB. -/
inductive BitOp where
  | shift (op : ShiftOp)
  | test (bit : Fin 8)
  | reset (bit : Fin 8)
  | set (bit : Fin 8)
  deriving DecidableEq, Repr

/-- A word register used as an address; HL may move by one after its use. -/
inductive Pointer where
  | bc | de | hlUp | hlDown
  deriving DecidableEq, Repr

inductive Instruction where
  | nop
  | stop
  | halt
  | di
  | ei
  /-- An opcode without a meaning; it does nothing. -/
  | undefined (opcode : UInt8)
  | load (target source : Operand)
  | loadByte (target : Operand) (value : UInt8)
  | loadWord (target : Pair) (value : UInt16)
  | storeA (pointer : Pointer)
  | loadA (pointer : Pointer)
  | storeSP (address : UInt16)
  | storeAAt (address : UInt16)
  | loadAAt (address : UInt16)
  | storeAHigh (offset : UInt8)
  | loadAHigh (offset : UInt8)
  | storeAHighC
  | loadAHighC
  | loadSPHL
  | loadHLSP (offset : Int8)
  | addSP (offset : Int8)
  | inc (target : Operand)
  | dec (target : Operand)
  | incWord (target : Pair)
  | decWord (target : Pair)
  | addHL (source : Pair)
  | alu (op : AluOp) (source : Operand)
  | aluByte (op : AluOp) (value : UInt8)
  | rlca
  | rrca
  | rla
  | rra
  | daa
  | cpl
  | scf
  | ccf
  | bits (op : BitOp) (target : Operand)
  | jump (condition : Option Condition) (address : UInt16)
  | jumpHL
  | jumpBy (condition : Option Condition) (offset : Int8)
  | call (condition : Option Condition) (address : UInt16)
  | ret (condition : Option Condition)
  | reti
  | push (pair : StackPair)
  | pop (pair : StackPair)
  | rst (vector : Fin 8)
  deriving DecidableEq, Repr

def Operand.ofCode : Fin 8 → Operand
  | 0 => .b | 1 => .c | 2 => .d | 3 => .e | 4 => .h | 5 => .l | 6 => .atHL | 7 => .a

def Operand.code : Operand → Fin 8
  | .b => 0 | .c => 1 | .d => 2 | .e => 3 | .h => 4 | .l => 5 | .atHL => 6 | .a => 7

def Pair.ofCode : Fin 4 → Pair
  | 0 => .bc | 1 => .de | 2 => .hl | 3 => .sp

def Pair.code : Pair → Fin 4
  | .bc => 0 | .de => 1 | .hl => 2 | .sp => 3

def StackPair.ofCode : Fin 4 → StackPair
  | 0 => .bc | 1 => .de | 2 => .hl | 3 => .af

def StackPair.code : StackPair → Fin 4
  | .bc => 0 | .de => 1 | .hl => 2 | .af => 3

def Condition.ofCode : Fin 4 → Condition
  | 0 => .nz | 1 => .z | 2 => .nc | 3 => .c

def Condition.code : Condition → Fin 4
  | .nz => 0 | .z => 1 | .nc => 2 | .c => 3

def AluOp.ofCode : Fin 8 → AluOp
  | 0 => .add | 1 => .adc | 2 => .sub | 3 => .sbc | 4 => .and | 5 => .xor | 6 => .or | 7 => .cp

def AluOp.code : AluOp → Fin 8
  | .add => 0 | .adc => 1 | .sub => 2 | .sbc => 3 | .and => 4 | .xor => 5 | .or => 6 | .cp => 7

def ShiftOp.ofCode : Fin 8 → ShiftOp
  | 0 => .rlc | 1 => .rrc | 2 => .rl | 3 => .rr | 4 => .sla | 5 => .sra | 6 => .swap | 7 => .srl

def ShiftOp.code : ShiftOp → Fin 8
  | .rlc => 0 | .rrc => 1 | .rl => 2 | .rr => 3 | .sla => 4 | .sra => 5 | .swap => 6 | .srl => 7

def Pointer.ofCode : Fin 4 → Pointer
  | 0 => .bc | 1 => .de | 2 => .hlUp | 3 => .hlDown

def Pointer.code : Pointer → Fin 4
  | .bc => 0 | .de => 1 | .hlUp => 2 | .hlDown => 3

namespace Instruction

/-- Bits 3 to 5 of an opcode. -/
def midField (opcode : UInt8) : Fin 8 := Fin.ofNat 8 (opcode.toNat / 8)

/-- Bits 0 to 2 of an opcode. -/
def lowField (opcode : UInt8) : Fin 8 := Fin.ofNat 8 opcode.toNat

/-- Bits 4 and 5 of an opcode. -/
def pairField (opcode : UInt8) : Fin 4 := Fin.ofNat 4 (opcode.toNat / 16)

/-- Bit 3 of an opcode. -/
def pairBit (opcode : UInt8) : Bool := opcode &&& 0x08 != 0

/-- Bits 3 and 4 of an opcode. -/
def conditionField (opcode : UInt8) : Condition :=
  Condition.ofCode (Fin.ofNat 4 (opcode.toNat / 8))

def decodeBits (opcode : UInt8) : Instruction :=
  let op :=
    if opcode < 0x40 then .shift (ShiftOp.ofCode (midField opcode))
    else if opcode < 0x80 then .test (midField opcode)
    else if opcode < 0xC0 then .reset (midField opcode)
    else .set (midField opcode)
  .bits op (Operand.ofCode (lowField opcode))

/-- The opcodes below 0x40. -/
def decodeLow (opcode next after : UInt8) : Instruction :=
  let word := Word.ofBytes after next
  let pair := Pair.ofCode (pairField opcode)
  let pointer := Pointer.ofCode (pairField opcode)
  let operand := Operand.ofCode (midField opcode)
  match lowField opcode with
  | 0 =>
    match midField opcode with
    | 0 => .nop
    | 1 => .storeSP word
    | 2 => .stop
    | 3 => .jumpBy none next.toInt8
    | _ => .jumpBy (some (conditionField opcode)) next.toInt8
  | 1 => if pairBit opcode then .addHL pair else .loadWord pair word
  | 2 => if pairBit opcode then .loadA pointer else .storeA pointer
  | 3 => if pairBit opcode then .decWord pair else .incWord pair
  | 4 => .inc operand
  | 5 => .dec operand
  | 6 => .loadByte operand next
  | 7 =>
    match midField opcode with
    | 0 => .rlca
    | 1 => .rrca
    | 2 => .rla
    | 3 => .rra
    | 4 => .daa
    | 5 => .cpl
    | 6 => .scf
    | 7 => .ccf

/-- The opcodes from 0xC0 on. -/
def decodeHigh (opcode next after : UInt8) : Instruction :=
  let word := Word.ofBytes after next
  let condition := conditionField opcode
  let pair := StackPair.ofCode (pairField opcode)
  match lowField opcode with
  | 0 =>
    match midField opcode with
    | 4 => .storeAHigh next
    | 5 => .addSP next.toInt8
    | 6 => .loadAHigh next
    | 7 => .loadHLSP next.toInt8
    | _ => .ret (some condition)
  | 1 =>
    if pairBit opcode then
      match pairField opcode with
      | 0 => .ret none
      | 1 => .reti
      | 2 => .jumpHL
      | 3 => .loadSPHL
    else .pop pair
  | 2 =>
    match midField opcode with
    | 4 => .storeAHighC
    | 5 => .storeAAt word
    | 6 => .loadAHighC
    | 7 => .loadAAt word
    | _ => .jump (some condition) word
  | 3 =>
    match midField opcode with
    | 0 => .jump none word
    | 1 => decodeBits next
    | 6 => .di
    | 7 => .ei
    | _ => .undefined opcode
  | 4 => if opcode < 0xE0 then .call (some condition) word else .undefined opcode
  | 5 =>
    if pairBit opcode then
      if opcode = 0xCD then .call none word else .undefined opcode
    else .push pair
  | 6 => .aluByte (AluOp.ofCode (midField opcode)) next
  | 7 => .rst (midField opcode)

/-- The instruction whose bytes begin with `opcode`, `next` and `after`. -/
def decode (opcode next after : UInt8) : Instruction :=
  if opcode < 0x40 then decodeLow opcode next after
  else if opcode = 0x76 then .halt
  else if opcode < 0x80 then
    .load (Operand.ofCode (midField opcode)) (Operand.ofCode (lowField opcode))
  else if opcode < 0xC0 then
    .alu (AluOp.ofCode (midField opcode)) (Operand.ofCode (lowField opcode))
  else decodeHigh opcode next after

/-- How many bytes the instruction takes. -/
def length : Instruction → Nat
  | .stop | .loadByte .. | .storeAHigh _ | .loadAHigh _ | .loadHLSP _ | .addSP _ | .aluByte ..
  | .bits .. | .jumpBy .. => 2
  | .loadWord .. | .storeSP _ | .storeAAt _ | .loadAAt _ | .jump .. | .call .. => 3
  | _ => 1

/-- An opcode with operand codes in its fields. -/
def opcodeWith (base : UInt8) (mid low : Nat) : UInt8 := base + UInt8.ofNat (8 * mid + low)

def wordTail (word : UInt16) : List UInt8 := [Word.low word, Word.high word]

def encodeBits (op : BitOp) (target : Operand) : UInt8 :=
  match op with
  | .shift shift => opcodeWith 0x00 shift.code target.code
  | .test bit => opcodeWith 0x40 bit target.code
  | .reset bit => opcodeWith 0x80 bit target.code
  | .set bit => opcodeWith 0xC0 bit target.code

/-- The bytes of an instruction. -/
def encode : Instruction → List UInt8
  | .nop => [0x00]
  | .stop => [0x10, 0x00]
  | .halt => [0x76]
  | .di => [0xF3]
  | .ei => [0xFB]
  | .undefined opcode => [opcode]
  | .load target source => [opcodeWith 0x40 target.code source.code]
  | .loadByte target value => [opcodeWith 0x06 target.code 0, value]
  | .loadWord target value => opcodeWith 0x01 (2 * target.code) 0 :: wordTail value
  | .storeA pointer => [opcodeWith 0x02 (2 * pointer.code) 0]
  | .loadA pointer => [opcodeWith 0x0A (2 * pointer.code) 0]
  | .storeSP address => 0x08 :: wordTail address
  | .storeAAt address => 0xEA :: wordTail address
  | .loadAAt address => 0xFA :: wordTail address
  | .storeAHigh offset => [0xE0, offset]
  | .loadAHigh offset => [0xF0, offset]
  | .storeAHighC => [0xE2]
  | .loadAHighC => [0xF2]
  | .loadSPHL => [0xF9]
  | .loadHLSP offset => [0xF8, offset.toUInt8]
  | .addSP offset => [0xE8, offset.toUInt8]
  | .inc target => [opcodeWith 0x04 target.code 0]
  | .dec target => [opcodeWith 0x05 target.code 0]
  | .incWord target => [opcodeWith 0x03 (2 * target.code) 0]
  | .decWord target => [opcodeWith 0x0B (2 * target.code) 0]
  | .addHL source => [opcodeWith 0x09 (2 * source.code) 0]
  | .alu op source => [opcodeWith 0x80 op.code source.code]
  | .aluByte op value => [opcodeWith 0xC6 op.code 0, value]
  | .rlca => [0x07]
  | .rrca => [0x0F]
  | .rla => [0x17]
  | .rra => [0x1F]
  | .daa => [0x27]
  | .cpl => [0x2F]
  | .scf => [0x37]
  | .ccf => [0x3F]
  | .bits op target => [0xCB, encodeBits op target]
  | .jump none address => 0xC3 :: wordTail address
  | .jump (some condition) address => opcodeWith 0xC2 condition.code 0 :: wordTail address
  | .jumpHL => [0xE9]
  | .jumpBy none offset => [0x18, offset.toUInt8]
  | .jumpBy (some condition) offset => [opcodeWith 0x20 condition.code 0, offset.toUInt8]
  | .call none address => 0xCD :: wordTail address
  | .call (some condition) address => opcodeWith 0xC4 condition.code 0 :: wordTail address
  | .ret none => [0xC9]
  | .ret (some condition) => [opcodeWith 0xC0 condition.code 0]
  | .reti => [0xD9]
  | .push pair => [opcodeWith 0xC5 (2 * pair.code) 0]
  | .pop pair => [opcodeWith 0xC1 (2 * pair.code) 0]
  | .rst vector => [opcodeWith 0xC7 vector 0]

end Instruction
end Chiptune
