import Chiptune.Proofs.StepDiscipline

/-!
# Arithmetic of the accumulator over the integers

The operations of the accumulator compute on bytes, and find their carries by
comparing halves of bytes. Over the integers there is nothing to find: the result
does not fit into a byte, or that of the low halves not into four bits. The two
agree for all operands and for every place that an operand can come from.
-/
namespace Chiptune

/-- A number does not fit into so many bits. -/
def Overflows (bits : Nat) (i : Int) : Prop := i < 0 ∨ 2 ^ bits ≤ i

instance (bits : Nat) (i : Int) : Decidable (Overflows bits i) :=
  inferInstanceAs (Decidable (_ ∨ _))

namespace AluOp

/-- The result of an operation over the integers. -/
def onIntegers (op : AluOp) (a v : Nat) (carry : Bool) : Int :=
  match op with
  | .add => a + v
  | .adc => a + v + carry.toNat
  | .sub | .cp => a - v
  | .sbc => a - v - carry.toNat
  | .and => (a &&& v : Nat)
  | .xor => (a ^^^ v : Nat)
  | .or => (a ||| v : Nat)

def subtracts : AluOp → Bool
  | .sub | .sbc | .cp => true
  | .add | .adc | .and | .xor | .or => false

/-- H after an operation: a carry out of the low halves or a borrow into them. A bitwise operation
sets it or clears it. -/
def halfCarries (op : AluOp) (a v : Nat) (carry : Bool) : Bool :=
  match op with
  | .and => true
  | .xor | .or => false
  | .add | .adc | .sub | .sbc | .cp => Overflows 4 (op.onIntegers (a % 16) (v % 16) carry)

/-- C after an operation: the result does not fit into a byte. A bitwise operation clears it. -/
def carries (op : AluOp) (a v : Nat) (carry : Bool) : Bool :=
  match op with
  | .and | .xor | .or => false
  | .add | .adc | .sub | .sbc | .cp => Overflows 8 (op.onIntegers a v carry)

end AluOp

/-! ### Bytes -/

theorem toNat_carryBit (carry : Bool) : (carryBit carry).toNat = carry.toNat := by
  cases carry <;> rfl

theorem byte_toNat_ofInt (i : Int) : (UInt8.ofInt i).toNat = (i % 256).toNat := by
  have hlt : (i % 256).toNat < 256 := by omega
  exact UInt8.toNat_ofNat_of_lt hlt

theorem eq_ofInt {byte : UInt8} {i : Int} (h : (byte.toNat : Int) = i % 256) :
    byte = UInt8.ofInt i := by
  apply UInt8.toNat_inj.mp
  rw [byte_toNat_ofInt]
  omega

theorem ofInt_beq_zero (i : Int) : (UInt8.ofInt i == 0) = decide (i % 256 = 0) := by
  rw [beq_eq_decide, decide_eq_decide, ← UInt8.toNat_inj, byte_toNat_ofInt, UInt8.toNat_zero]
  omega

namespace Flagged

/-- A byte with its flags, where each of them is what an integer says. -/
theorem eq_of_integer {value : UInt8} {result : Int} {n h h' c c' : Bool}
    (hvalue : (value.toNat : Int) = result % 256) (hhalf : h = h') (hfull : c = c') :
    (⟨value, flagByte (value == 0) n h c⟩ : Flagged) =
      ⟨UInt8.ofInt result, flagByte (result % 256 = 0) n h' c'⟩ := by
  rw [eq_ofInt hvalue, ofInt_beq_zero, hhalf, hfull]

/-- A sum has a carry where it does not fit. -/
theorem add_eq (a v : UInt8) (carry : Bool) {result low : Int}
    (hresult : result = a.toNat + v.toNat + carry.toNat)
    (hlow : low = (a.toNat % 16 : Nat) + (v.toNat % 16 : Nat) + carry.toNat) :
    add a v carry = ⟨UInt8.ofInt result,
      flagByte (result % 256 = 0) false (Overflows 4 low) (Overflows 8 result)⟩ := by
  have ha := a.toNat_lt
  have hv := v.toNat_lt
  have hc := carry.toNat_le
  refine eq_of_integer ?value ?half ?full
  case value =>
    simp only [UInt8.toNat_add, toNat_carryBit]
    omega
  case half =>
    rw [decide_eq_decide, gt_iff_lt, UInt8.lt_iff_toNat_lt, Overflows]
    simp only [UInt8.toNat_add, UInt8.toNat_mod, UInt8.reduceToNat, toNat_carryBit]
    omega
  case full =>
    rw [decide_eq_decide, gt_iff_lt, UInt16.lt_iff_toNat_lt, Overflows]
    simp only [UInt16.toNat_add, UInt8.toNat_toUInt16, UInt16.reduceToNat, toNat_carryBit]
    omega

/-- A difference has a borrow where it is negative. -/
theorem sub_eq (a v : UInt8) (carry : Bool) {result low : Int}
    (hresult : result = a.toNat - v.toNat - carry.toNat)
    (hlow : low = (a.toNat % 16 : Nat) - (v.toNat % 16 : Nat) - carry.toNat) :
    sub a v carry = ⟨UInt8.ofInt result,
      flagByte (result % 256 = 0) true (Overflows 4 low) (Overflows 8 result)⟩ := by
  have ha := a.toNat_lt
  have hv := v.toNat_lt
  have hc := carry.toNat_le
  refine eq_of_integer ?value ?half ?full
  case value =>
    simp only [UInt8.toNat_sub, toNat_carryBit]
    omega
  case half =>
    rw [decide_eq_decide, UInt8.lt_iff_toNat_lt, Overflows]
    simp only [UInt8.toNat_add, UInt8.toNat_mod, UInt8.reduceToNat, toNat_carryBit]
    omega
  case full =>
    rw [decide_eq_decide, UInt16.lt_iff_toNat_lt, Overflows]
    simp only [UInt16.toNat_add, UInt8.toNat_toUInt16, toNat_carryBit]
    omega

theorem logic_eq (byte : UInt8) (half : Bool) {result : Int} (hresult : result = byte.toNat) :
    logic byte half =
      ⟨UInt8.ofInt result, flagByte (result % 256 = 0) false half false⟩ := by
  have hlt := byte.toNat_lt
  exact eq_of_integer (by omega) rfl rfl

/-- Counting up is adding one, but for the carry. -/
theorem inc_eq (v : UInt8) (carry : Bool) :
    let result := AluOp.add.onIntegers v.toNat 1 false
    inc v carry = ⟨UInt8.ofInt result,
      flagByte (result % 256 = 0) false (AluOp.add.halfCarries v.toNat 1 false) carry⟩ := by
  refine eq_of_integer ?value ?half rfl
  case value =>
    simp only [UInt8.toNat_add, UInt8.reduceToNat, AluOp.onIntegers]
    omega
  case half =>
    show (v % 16 == 15) = decide (Overflows 4 ((v.toNat % 16 : Nat) + 1))
    rw [beq_eq_decide, decide_eq_decide, ← UInt8.toNat_inj, Overflows]
    simp only [UInt8.toNat_mod, UInt8.reduceToNat]
    omega

/-- Counting down is subtracting one, but for the carry. -/
theorem dec_eq (v : UInt8) (carry : Bool) :
    let result := AluOp.sub.onIntegers v.toNat 1 false
    dec v carry = ⟨UInt8.ofInt result,
      flagByte (result % 256 = 0) true (AluOp.sub.halfCarries v.toNat 1 false) carry⟩ := by
  have hv := v.toNat_lt
  refine eq_of_integer ?value ?half rfl
  case value =>
    simp only [UInt8.toNat_sub, UInt8.reduceToNat, AluOp.onIntegers]
    omega
  case half =>
    show (v % 16 == 0) = decide (Overflows 4 ((v.toNat % 16 : Nat) - 1))
    rw [beq_eq_decide, decide_eq_decide, ← UInt8.toNat_inj, Overflows]
    simp only [UInt8.toNat_mod, UInt8.reduceToNat]
    omega

end Flagged

/-- Bytes compute as the integers do. Comparing keeps the accumulator. -/
theorem AluOp.apply_eq (op : AluOp) (a : UInt8) (carry : Bool) (v : UInt8) :
    let result := op.onIntegers a.toNat v.toNat carry
    op.apply a carry v = ⟨if op = .cp then a else UInt8.ofInt result,
      flagByte (result % 256 = 0) op.subtracts (op.halfCarries a.toNat v.toNat carry)
        (op.carries a.toNat v.toNat carry)⟩ := by
  cases op with
  | add => exact Flagged.add_eq a v false (Int.add_zero _).symm (Int.add_zero _).symm
  | adc => exact Flagged.add_eq a v carry rfl rfl
  | sub => exact Flagged.sub_eq a v false (Int.sub_zero _).symm (Int.sub_zero _).symm
  | sbc => exact Flagged.sub_eq a v carry rfl rfl
  | and => exact Flagged.logic_eq (a &&& v) true rfl
  | xor => exact Flagged.logic_eq (a ^^^ v) false rfl
  | or => exact Flagged.logic_eq (a ||| v) false rfl
  | cp =>
    have hflags := congrArg Flagged.flags
      (Flagged.sub_eq a v false (Int.sub_zero _).symm (Int.sub_zero _).symm)
    exact congrArg (Flagged.mk a) hflags

/-! ### Operands -/

namespace Operand

variable (read : UInt16 → UInt8) (r : Registers) (value : UInt8)

/-- A register holds what was put there, and the others keep what they hold. -/
theorem value_put {other : Operand} (target : Operand) (h : other ≠ .atHL) :
    other.value read (target.put r value).registers =
      if other = target then value else other.value read r := by
  cases other with
  | atHL => exact absurd rfl h
  | _ => cases target <;> rfl

theorem apply_put (memory : Memory) (target : Operand) :
    memory.apply (target.put r value).store =
      if target = .atHL then memory.write r.hl value else memory := by
  cases target <;> rfl

end Operand

namespace Instruction

/-- The operation of the accumulator that an instruction is, with its operand. -/
def operation? (read : UInt16 → UInt8) (r : Registers) : Instruction → Option (AluOp × UInt8)
  | .alu op source => some (op, source.value read r)
  | .aluByte op value => some (op, value)
  | _ => none

/-- Counting up adds one to an operand, counting down subtracts one. -/
def counting? : Instruction → Option (AluOp × Operand)
  | .inc target => some (.add, target)
  | .dec target => some (.sub, target)
  | _ => none

variable {read : UInt16 → UInt8} {r : Registers} {instruction : Instruction} {op : AluOp}

theorem effect_of_operation? {v : UInt8} (h : instruction.operation? read r = some (op, v))
    (vectors : UInt16) :
    instruction.effect read vectors r =
      .registersOnly (r.setFlagged (op.apply r.a r.carry v)) := by
  cases instruction with
  | alu | aluByte =>
    cases h
    rfl
  | _ => contradiction

theorem effect_of_counting? {target : Operand} (h : instruction.counting? = some (op, target))
    (vectors : UInt16) :
    let v := target.value read r
    let result := op.onIntegers v.toNat 1 false
    let f := flagByte (result % 256 = 0) op.subtracts (op.halfCarries v.toNat 1 false) r.carry
    instruction.effect read vectors r = target.put { r with f } (UInt8.ofInt result) := by
  intro v result f
  cases instruction with
  | inc target =>
    cases h
    simp only [effect, Flagged.inc_eq]
    rfl
  | dec target =>
    cases h
    simp only [effect, Flagged.dec_eq]
    rfl
  | _ => contradiction

end Instruction

namespace Cpu

/-- The accumulator computes as the integers do, whether its operand is a register, a cell of memory
or a byte of the instruction, and such a step changes nothing but A, F and the program counter.
Counting a register or a cell up or down sets Z, N and H as adding or subtracting one would, keeps
C, and changes nothing else but this register or cell. -/
theorem arithmetic_on_integers (cpu : Cpu) (memory : Memory) :
    let instruction := fetch memory.read cpu.registers.pc
    let r := { cpu.registers with pc := cpu.registers.pc + UInt16.ofNat instruction.length }
    let stepped := cpu.step memory
    (∀ op v, instruction.operation? memory.read r = some (op, v) →
      let result := op.onIntegers r.a.toNat v.toNat r.carry
      let a := if op = .cp then r.a else UInt8.ofInt result
      let f := flagByte (result % 256 = 0) op.subtracts (op.halfCarries r.a.toNat v.toNat r.carry)
        (op.carries r.a.toNat v.toNat r.carry)
      stepped = ⟨{ cpu with registers := { r with a, f } }, memory, false⟩) ∧
    ∀ op target, instruction.counting? = some (op, target) →
      let v := target.value memory.read r
      let result := op.onIntegers v.toNat 1 false
      stepped.cpu.registers.f =
          flagByte (result % 256 = 0) op.subtracts (op.halfCarries v.toNat 1 false) r.carry ∧
        (∀ other : Operand, other ≠ .atHL →
          other.value memory.read stepped.cpu.registers =
            if other = target then UInt8.ofInt result else other.value memory.read r) ∧
        stepped.cpu.registers.sp = r.sp ∧ stepped.cpu.registers.pc = r.pc ∧
        stepped.cpu.vectors = cpu.vectors ∧
        stepped.memory =
          (if target = .atHL then memory.write r.hl (UInt8.ofInt result) else memory) ∧
        stepped.returned = false := by
  intro instruction r stepped
  refine ⟨fun op v hoperation => ?operation, fun op target hcounting => ?counting⟩
  case operation =>
    intro result a f
    have heffect : cpu.effectIn memory = .registersOnly (r.setFlagged (op.apply r.a r.carry v)) :=
      Instruction.effect_of_operation? hoperation cpu.vectors
    rw [AluOp.apply_eq] at heffect
    simp only [stepped, step, heffect]
    rfl
  case counting =>
    intro v result
    let f := flagByte (result % 256 = 0) op.subtracts (op.halfCarries v.toNat 1 false) r.carry
    let put := target.put { r with f } (UInt8.ofInt result)
    have heffect : cpu.effectIn memory = put :=
      Instruction.effect_of_counting? hcounting cpu.vectors
    have hstepped : stepped =
        ⟨{ cpu with registers := put.registers }, memory.apply put.store, put.returned⟩ := by
      simp only [stepped, step, heffect]
    rw [hstepped]
    refine ⟨Instruction.put_f _ _ target, fun other hother => ?_, Instruction.put_sp _ _ target,
      Instruction.put_pc _ _ target, rfl, Operand.apply_put _ _ memory target,
      Instruction.put_returned _ _ target⟩
    exact Operand.value_put _ _ _ target hother

/-- Adding a cell with a carry that goes through both halves, and a cell counted up to zero. -/
theorem arithmetic_on_integers_carrying :
    let memory := Memory.holding 0x8E 0x0F 0x00
    let counting := Memory.holding 0x34 0xFF 0x00
    let counted :=
      step { registers := { f := 0x50, h := 0xC0, l := 0x01, pc := 0xC000 } } counting
    step { registers := { a := 0xF1, f := 0x10, h := 0xC0, l := 0x01, pc := 0xC000 } } memory =
        ⟨{ registers := { a := 0x01, f := 0x30, h := 0xC0, l := 0x01, pc := 0xC001 } }, memory,
          false⟩ ∧
      counted.cpu.registers.f = 0xB0 ∧ counted.memory = counting.write 0xC001 0x00 := by
  -- Memories are variables in these steps, so that their cells are not computed.
  have hhl (a f : UInt8) (pc : UInt16) :
      Registers.hl { a, f, h := 0xC0, l := 0x01, pc } = 0xC001 := by
    show Word.ofBytes 0xC0 0x01 = 0xC001
    decide
  have hcell (first second third : UInt8) :
      (Memory.holding first second third).read 0xC001 = second := by
    show Cells.get _ _ = _
    simp [Memory.holding, Cells.get_set]
  have hadded (memory : Memory) (hfetch : fetch memory.read 0xC000 = .alu .adc .atHL)
      (hv : memory.read 0xC001 = 0x0F) :
      step { registers := { a := 0xF1, f := 0x10, h := 0xC0, l := 0x01, pc := 0xC000 } } memory =
        ⟨{ registers := { a := 0x01, f := 0x30, h := 0xC0, l := 0x01, pc := 0xC001 } }, memory,
          false⟩ := by
    have hstep := (arithmetic_on_integers
      { registers := { a := 0xF1, f := 0x10, h := 0xC0, l := 0x01, pc := 0xC000 } } memory).1
        .adc 0x0F
    simp only [hfetch, Instruction.operation?, Operand.value, hhl, hv, forall_const] at hstep
    exact hstep.trans (congrArg (Stepped.mk · memory false) (by decide))
  have hcounted (memory : Memory) (hfetch : fetch memory.read 0xC000 = .inc .atHL)
      (hv : memory.read 0xC001 = 0xFF) :
      let counted :=
        step { registers := { f := 0x50, h := 0xC0, l := 0x01, pc := 0xC000 } } memory
      counted.cpu.registers.f = 0xB0 ∧ counted.memory = memory.write 0xC001 0x00 := by
    have hstep := (arithmetic_on_integers
      { registers := { f := 0x50, h := 0xC0, l := 0x01, pc := 0xC000 } } memory).2 .add .atHL
    simp only [hfetch, Instruction.counting?, Operand.value, hhl, hv, forall_const] at hstep
    obtain ⟨hflags, -, -, -, -, hmemory, -⟩ := hstep
    exact ⟨hflags.trans (by decide), hmemory.trans (congrArg (memory.write 0xC001) (by decide))⟩
  exact ⟨hadded _ ((Memory.fetch_holding 0x8E 0x0F 0x00).trans (by decide)) (hcell 0x8E 0x0F 0x00),
    hcounted _ ((Memory.fetch_holding 0x34 0xFF 0x00).trans (by decide)) (hcell 0x34 0xFF 0x00)⟩

end Cpu
end Chiptune
