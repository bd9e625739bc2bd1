import Chiptune.Cpu.Instruction
import Chiptune.Text.Listing

/-!
# Instructions in a listing

The text of an instruction: the name of its form and its operands. Numbers are
decimal, offsets with their sign.
-/
namespace Chiptune

open Text (listed)

def Operand.listing : Operand → String
  | .b => "B" | .c => "C" | .d => "D" | .e => "E" | .h => "H" | .l => "L" | .atHL => "HlInd"
  | .a => "A"

def Pair.listing : Pair → String
  | .bc => "BC" | .de => "DE" | .hl => "HL" | .sp => "SP"

def StackPair.listing : StackPair → String
  | .bc => "BC" | .de => "DE" | .hl => "HL" | .af => "AF"

def Condition.listing : Condition → String
  | .nz => "NZ" | .z => "Z" | .nc => "NC" | .c => "C"

/-- A condition that may be absent. -/
def Condition.optionListing : Option Condition → String
  | none => "None"
  | some condition => listed "Some" [condition.listing]

def AluOp.listing : AluOp → String
  | .add => "Add" | .adc => "Adc" | .sub => "Sub" | .sbc => "Sbc" | .and => "And" | .xor => "Xor"
  | .or => "Or" | .cp => "Cp"

def ShiftOp.listing : ShiftOp → String
  | .rlc => "Rlc" | .rrc => "Rrc" | .rl => "Rl" | .rr => "Rr" | .sla => "Sla" | .sra => "Sra"
  | .swap => "Swap" | .srl => "Srl"

def BitOp.listing : BitOp → String
  | .shift op => listed "Rot" [op.listing]
  | .test bit => listed "Bit" [toString bit.val]
  | .reset bit => listed "Res" [toString bit.val]
  | .set bit => listed "Set" [toString bit.val]

def Pointer.listing : Pointer → String
  | .bc => "BC" | .de => "DE" | .hlUp => "HLInc" | .hlDown => "HLDec"

/-- A signed offset in decimal. -/
def offsetListing (offset : Int8) : String :=
  let magnitude := toString offset.toInt.natAbs
  if offset.toInt < 0 then "-" ++ magnitude else magnitude

def Instruction.listing : Instruction → String
  | .nop => "Nop"
  | .stop => "Stop"
  | .halt => "Halt"
  | .di => "Di"
  | .ei => "Ei"
  | .undefined opcode => listed "Undefined" [toString opcode.toNat]
  | .load target source => listed "Ld" [target.listing, source.listing]
  | .loadByte target value => listed "LdImm" [target.listing, toString value.toNat]
  | .loadWord target value => listed "LdImm16" [target.listing, toString value.toNat]
  | .storeA pointer => listed "StoreA" [pointer.listing]
  | .loadA pointer => listed "LoadA" [pointer.listing]
  | .storeSP address => listed "StoreSp" [toString address.toNat]
  | .storeAAt address => listed "StoreAAbs" [toString address.toNat]
  | .loadAAt address => listed "LoadAAbs" [toString address.toNat]
  | .storeAHigh offset => listed "StoreHigh" [toString offset.toNat]
  | .loadAHigh offset => listed "LoadHigh" [toString offset.toNat]
  | .storeAHighC => "StoreHighC"
  | .loadAHighC => "LoadHighC"
  | .loadSPHL => "LdSpHl"
  | .loadHLSP offset => listed "LdHlSpOffset" [offsetListing offset]
  | .addSP offset => listed "AddSp" [offsetListing offset]
  | .inc target => listed "Inc" [target.listing]
  | .dec target => listed "Dec" [target.listing]
  | .incWord target => listed "Inc16" [target.listing]
  | .decWord target => listed "Dec16" [target.listing]
  | .addHL source => listed "AddHl" [source.listing]
  | .alu op source => listed "Alu" [op.listing, source.listing]
  | .aluByte op value => listed "AluImm" [op.listing, toString value.toNat]
  | .rlca => "Rlca"
  | .rrca => "Rrca"
  | .rla => "Rla"
  | .rra => "Rra"
  | .daa => "Daa"
  | .cpl => "Cpl"
  | .scf => "Scf"
  | .ccf => "Ccf"
  | .bits op target => listed "Cb" [op.listing, target.listing]
  | .jump condition address =>
    listed "Jp" [Condition.optionListing condition, toString address.toNat]
  | .jumpHL => "JpHl"
  | .jumpBy condition offset =>
    listed "Jr" [Condition.optionListing condition, offsetListing offset]
  | .call condition address =>
    listed "Call" [Condition.optionListing condition, toString address.toNat]
  | .ret condition => listed "Ret" [Condition.optionListing condition]
  | .reti => "Reti"
  | .push pair => listed "Push" [pair.listing]
  | .pop pair => listed "Pop" [pair.listing]
  | .rst vector => listed "Rst" [toString vector.val]

end Chiptune
