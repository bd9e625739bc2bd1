import Chiptune.Proofs.Feedback
import Chiptune.Proofs.IntegerArithmetic
import Chiptune.Proofs.MemoryMap

/-!
# The missing half of the flag register

F has four flags in its high half and nothing in its low one. Some instructions
make F anew, some keep a part of it, and a pop may bring any byte, so that the
low half stays zero is a matter of each of them. It is the invariant of a step.
What every step keeps, and calling a routine as well, a deck keeps forever: the
processor changes in no other way. Hence a deck pushes AF without loss.
-/
namespace Chiptune

/-! ### One step -/

namespace Registers

/-- F holds flags only. -/
def LowFlagsClear (r : Registers) : Prop := r.f &&& 0x0F = 0

theorem flagByte_and_low (z n h c : Bool) : flagByte z n h c &&& 0x0F = 0 := by
  revert z n h c
  decide

theorem aluOp_flags_and_low (op : AluOp) (a v : UInt8) (carry : Bool) :
    (op.apply a carry v).flags &&& 0x0F = 0 := by
  cases op <;> exact flagByte_and_low _ _ _ _

theorem shiftOp_flags_and_low (op : ShiftOp) (v : UInt8) (carry : Bool) :
    (op.apply carry v).flags &&& 0x0F = 0 := by
  cases op <;> exact flagByte_and_low _ _ _ _

/-- What is masked to the high half has a clear low half. -/
theorem and_and_low (byte : UInt8) {mask : UInt8} (h : mask &&& 0x0F = 0) :
    byte &&& mask &&& 0x0F = 0 := by
  rw [UInt8.and_assoc, h, UInt8.and_zero]

theorem or_and_low {byte : UInt8} (h : byte &&& 0x0F = 0) : (byte ||| 0x60) &&& 0x0F = 0 := by
  revert byte
  decide +kernel

end Registers

namespace Instruction

open Registers

variable (read : UInt16 → UInt8) (vectors : UInt16) {r : Registers}

theorem lowFlagsClear_put {value : UInt8} {target : Operand} (h : r.LowFlagsClear) :
    (target.put r value).registers.LowFlagsClear := by
  rw [LowFlagsClear, put_f]
  exact h

theorem lowFlagsClear_setPair {value : UInt16} {target : Pair} (h : r.LowFlagsClear) :
    (r.setPair target value).LowFlagsClear := by
  cases target <;> exact h

theorem lowFlagsClear_movePointer {pointer : Pointer} (h : r.LowFlagsClear) :
    (r.movePointer pointer).LowFlagsClear := by
  cases pointer <;> exact h

/-- A pop brings any byte into F, and its low half is dropped. -/
theorem lowFlagsClear_setStackPair {value : UInt16} {target : StackPair} (h : r.LowFlagsClear) :
    (r.setStackPair target value).LowFlagsClear := by
  cases target with
  | af => exact and_and_low _ (by decide)
  | bc | de | hl => exact h

/-- The low half of F stays clear. -/
theorem effect_lowFlagsClear (instruction : Instruction) (h : r.LowFlagsClear) :
    (instruction.effect read vectors r).registers.LowFlagsClear := by
  cases instruction with
  | load | loadByte => exact lowFlagsClear_put h
  | inc | dec => exact lowFlagsClear_put (flagByte_and_low _ _ _ _)
  | bits op =>
    cases op with
    | shift => exact lowFlagsClear_put (shiftOp_flags_and_low _ _ _)
    | test => exact flagByte_and_low _ _ _ _
    | reset | set => exact lowFlagsClear_put h
  | loadWord | incWord | decWord => exact lowFlagsClear_setPair h
  | storeA | loadA => exact lowFlagsClear_movePointer h
  | loadHLSP | addSP | addHL | daa | scf | ccf => exact flagByte_and_low _ _ _ _
  | alu | aluByte => exact aluOp_flags_and_low _ _ _ _
  | rlca | rrca | rla | rra => exact and_and_low _ (by decide)
  | cpl => exact or_and_low h
  | pop => exact lowFlagsClear_setStackPair h
  | jump condition | jumpBy condition | call condition | ret condition =>
    by_cases hmeets : r.meets condition <;> simp only [effect, hmeets] <;> exact h
  -- The others leave F alone.
  | _ => exact h

end Instruction

namespace Cpu

theorem step_lowFlagsClear {cpu : Cpu} (h : cpu.registers.LowFlagsClear) (memory : Memory) :
    (cpu.step memory).cpu.registers.LowFlagsClear :=
  Instruction.effect_lowFlagsClear _ _ _ h

theorem kept_lowFlagsClear : Kept fun cpu => cpu.registers.LowFlagsClear where
  step memory h := step_lowFlagsClear h memory
  armed _ h := h
  init _ _ := UInt8.zero_and

end Cpu

/-! ### Pushing and popping -/

namespace Registers

theorem and_high_of_low {byte : UInt8} (h : byte &&& 0x0F = 0) : byte &&& 0xF0 = byte := by
  revert byte
  decide +kernel

/-- Flags are all that there is in F, so AF comes back as it was. -/
theorem setAF_af {r : Registers} (h : r.LowFlagsClear) (other : Registers) :
    other.setAF r.af = { other with a := r.a, f := r.f } := by
  rw [setAF, af, Word.high_ofBytes, Word.low_ofBytes, and_high_of_low h]

theorem af_and_low {r : Registers} (h : r.LowFlagsClear) : r.af &&& 0x000F = 0 := by
  have hf : r.f.toNat % 2 ^ 4 = 0 := by
    rw [← Nat.and_two_pow_sub_one_eq_mod]
    exact congrArg UInt8.toNat h
  apply UInt16.toNat_inj.mp
  show r.af.toNat &&& (2 ^ 4 - 1) = 0
  rw [Nat.and_two_pow_sub_one_eq_mod, af, Word.toNat_ofBytes]
  omega

end Registers

namespace Cpu

variable {cpu : Cpu} {memory : Memory}

theorem step_of_push (pair : StackPair) (h : fetch memory.read cpu.registers.pc = .push pair) :
    let r := cpu.registers
    cpu.step memory =
      ⟨{ cpu with registers := { r with sp := r.sp - 2, pc := r.pc + 1 } },
        memory.writeWord (r.sp - 2) (r.stackPair pair), false⟩ := by
  simp only [step, effectIn, effect, h]
  cases pair <;> rfl

theorem step_of_pop (pair : StackPair) (h : fetch memory.read cpu.registers.pc = .pop pair) :
    let r := cpu.registers
    let past := { r with sp := r.sp + 2, pc := r.pc + 1 }
    cpu.step memory =
      ⟨{ cpu with registers := past.setStackPair pair (memory.readWord r.sp) }, memory, false⟩ := by
  simp only [step, effectIn, effect, h]
  rfl

/-- AF is popped as it was pushed, where the stack still holds it. -/
theorem step_of_pop_af {r : Registers} (hclear : r.LowFlagsClear)
    (hsp : cpu.registers.sp = r.sp - 2) (hword : memory.readWord (r.sp - 2) = r.af)
    (h : fetch memory.read cpu.registers.pc = .pop .af) :
    let popped := { cpu.registers with
      a := r.a, f := r.f, sp := r.sp, pc := cpu.registers.pc + 1 }
    cpu.step memory = ⟨{ cpu with registers := popped }, memory, false⟩ := by
  have hback : r.sp - 2 + 2 = r.sp := UInt16.sub_add_cancel r.sp 2
  rw [step_of_pop .af h, hsp, hword, hback]
  simp only [Registers.setStackPair, Registers.setAF_af hclear]

end Cpu

namespace Deck

open Cpu (fetch)
open Memory (IsPlain)

/-- The low half of F is always zero. A step leaves it so, whatever the instruction and the memory
are, hence it is so in every deck that is reached. So AF has no low half either when it is pushed,
and popping it again, wherever the stack is plain memory and holds what was pushed, brings A, F and
the stack pointer back. -/
theorem flags_have_no_low_half :
    (∀ (cpu : Cpu) (memory : Memory), cpu.registers.f &&& 0x0F = 0 →
      (cpu.step memory).cpu.registers.f &&& 0x0F = 0) ∧
    ∀ (album : Album) (config : Config) (deck : Deck), Reached album config deck →
      let r := deck.cpu.registers
      r.f &&& 0x0F = 0 ∧ r.af &&& 0x000F = 0 ∧
      (fetch deck.memory.read r.pc = .push .af →
        let pushed := deck.cpu.step deck.memory
        pushed = ⟨{ deck.cpu with registers := { r with sp := r.sp - 2, pc := r.pc + 1 } },
            deck.memory.writeWord (r.sp - 2) r.af, false⟩ ∧
          (IsPlain (r.sp - 2) → IsPlain (r.sp - 1) →
            ∀ (cpu : Cpu) (memory : Memory), cpu.registers.sp = r.sp - 2 →
              memory.readWord (r.sp - 2) = pushed.memory.readWord (r.sp - 2) →
              fetch memory.read cpu.registers.pc = .pop .af →
                let popped := { cpu.registers with
                  a := r.a, f := r.f, sp := r.sp, pc := cpu.registers.pc + 1 }
                cpu.step memory = ⟨{ cpu with registers := popped }, memory, false⟩)) := by
  refine ⟨fun cpu memory h => Cpu.step_lowFlagsClear h memory,
    fun album config deck hreached => ?reached⟩
  case reached =>
    intro r
    have hclear : r.LowFlagsClear := hreached.kept Cpu.kept_lowFlagsClear
    refine ⟨hclear, Registers.af_and_low hclear, fun hpush => ?push⟩
    case push =>
      intro pushed
      have hpushed : pushed =
          ⟨{ deck.cpu with registers := { r with sp := r.sp - 2, pc := r.pc + 1 } },
            deck.memory.writeWord (r.sp - 2) r.af, false⟩ := Cpu.step_of_push .af hpush
      refine ⟨hpushed, fun hlow hhigh cpu memory hsp hword hpop => ?pop⟩
      case pop =>
        have hnext : r.sp - 2 + 1 = r.sp - 1 := by grind
        have hread := deck.memory.readWord_writeWord hlow (hnext.symm ▸ hhigh) r.af
        rw [hpushed] at hword
        exact Cpu.step_of_pop_af hclear hsp (hword.trans hread) hpop

/-- The carry is set, pushed and popped again by a program in the wave table. -/
theorem flags_have_no_low_half_waveDeck :
    let deck := (waveDeck {}).afterAll
      [.poke 0xFF30 0x37, .poke 0xFF31 0xF5, .poke 0xFF32 0xF1, .step]
    let pushed := deck.cpu.step deck.memory
    let popped := pushed.cpu.step pushed.memory
    deck.cpu.registers.f = 0x10 ∧ pushed.cpu.registers.f &&& 0x0F = 0 ∧
      pushed.memory = deck.memory.writeWord 0xDFFA 0x0010 ∧
      popped.cpu.registers = { deck.cpu.registers with pc := 0xFF33 } ∧
      popped.memory = pushed.memory := by
  intro deck pushed popped
  have hreached : Reached waveAlbum {} deck := ⟨waveDeck {}, _, rfl, rfl⟩
  have hregisters : deck.cpu.registers = { f := 0x10, sp := 0xDFFC, pc := 0xFF31 } := by
    decide +kernel
  have hpush : fetch deck.memory.read deck.cpu.registers.pc = .push .af := by decide +kernel
  have hpop : fetch pushed.memory.read pushed.cpu.registers.pc = .pop .af := by decide +kernel
  have hclear : deck.cpu.registers.f &&& 0x0F = 0 := by
    rw [hregisters]
    decide
  obtain ⟨-, -, hlossless⟩ := flags_have_no_low_half.2 waveAlbum {} deck hreached
  obtain ⟨hpushed, hpopped⟩ := hlossless hpush
  have hnext : pushed.cpu.registers = { deck.cpu.registers with
      sp := deck.cpu.registers.sp - 2, pc := deck.cpu.registers.pc + 1 } :=
    congrArg (fun stepped => stepped.cpu.registers) hpushed
  have hmemory := congrArg Stepped.memory hpushed
  rw [hregisters] at hnext hmemory hpopped
  have hstep := hpopped (by decide) (by decide) pushed.cpu pushed.memory (by rw [hnext]) rfl hpop
  have hkept := congrArg Stepped.memory hstep
  have hback := congrArg (fun stepped => stepped.cpu.registers) hstep
  rw [hnext] at hback
  refine ⟨by rw [hregisters], flags_have_no_low_half.1 deck.cpu deck.memory hclear,
    hmemory.trans (congrArg (deck.memory.writeWord 0xDFFA) (by decide)), hback.trans ?_, hkept⟩
  rw [hregisters]
  decide

end Deck
end Chiptune
