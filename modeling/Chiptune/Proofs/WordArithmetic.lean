import Chiptune.Proofs.StepDiscipline

/-!
# Additions of words

HL takes a word, and SP a signed byte. The flags of the two follow different
conventions. Those of HL are the carries of the addition itself, out of its two
high digits. Those of SP belong to its low byte alone, to which the offset is
added without its sign, also where the offset counts down.
-/
namespace Chiptune

namespace Word

/-- The low byte of a widened offset is the offset without its sign. -/
theorem low_ofOffset (offset : Int8) : low (ofOffset offset) = offset.toUInt8 := by
  apply UInt8.toBitVec_inj.mp
  show (offset.toBitVec.signExtend 16).setWidth 8 = offset.toBitVec
  ext i hi
  have hwide : i < 16 := by omega
  rw [BitVec.getElem_setWidth, BitVec.getLsbD_eq_getElem hwide, BitVec.getElem_signExtend,
    dif_pos hi]

end Word

namespace Registers

variable (r : Registers)

/-- H and C of an addition to HL are its carries out of bits 11 and 15. -/
theorem hlPlus_eq (v : UInt16) :
    r.hlPlus v = (UInt16.ofNat (r.hl.toNat + v.toNat),
      flagByte r.zero false (BitVec.carry 12 r.hl.toBitVec v.toBitVec false)
        (BitVec.carry 16 r.hl.toBitVec v.toBitVec false)) := by
  have hvalue : r.hl + v = UInt16.ofNat (r.hl.toNat + v.toNat) := by
    rw [UInt16.ofNat_add, UInt16.ofNat_toNat, UInt16.ofNat_toNat]
  have hhalf : decide (r.hl % 4096 + v % 4096 > 4095) =
      BitVec.carry 12 r.hl.toBitVec v.toBitVec false := by
    rw [BitVec.carry, decide_eq_decide, gt_iff_lt, UInt16.lt_iff_toNat_lt]
    simp only [UInt16.toNat_add, UInt16.toNat_mod, UInt16.reduceToNat, UInt16.toNat_toBitVec,
      Bool.toNat_false]
    omega
  have hfull : decide (r.hl.toUInt32 + v.toUInt32 > 65535) =
      BitVec.carry 16 r.hl.toBitVec v.toBitVec false := by
    have hhl := r.hl.toNat_lt
    have hv := v.toNat_lt
    rw [BitVec.carry, decide_eq_decide, gt_iff_lt, UInt32.lt_iff_toNat_lt]
    simp only [UInt32.toNat_add, UInt16.toNat_toUInt32, UInt32.reduceToNat, UInt16.toNat_toBitVec,
      Bool.toNat_false]
    omega
  rw [hlPlus, hvalue, hhalf, hfull]

/-- H and C of an offset to SP are the carries out of bits 3 and 7 of the low bytes. -/
theorem spPlus_eq (offset : Int8) :
    r.spPlus offset = (UInt16.ofInt (r.sp.toNat + offset.toInt),
      flagByte false false (BitVec.carry 4 (Word.low r.sp).toBitVec offset.toBitVec false)
        (BitVec.carry 8 (Word.low r.sp).toBitVec offset.toBitVec false)) := by
  have hlow : (Word.ofOffset offset).toNat % 256 = offset.toBitVec.toNat := by
    rw [← Word.toNat_low, Word.low_ofOffset]
    rfl
  have hhalf : decide (r.sp % 16 + Word.ofOffset offset % 16 > 15) =
      BitVec.carry 4 (Word.low r.sp).toBitVec offset.toBitVec false := by
    rw [BitVec.carry, decide_eq_decide, gt_iff_lt, UInt16.lt_iff_toNat_lt, ← hlow]
    simp only [UInt16.toNat_add, UInt16.toNat_mod, UInt16.reduceToNat, UInt8.toNat_toBitVec,
      Word.toNat_low, Bool.toNat_false]
    omega
  have hfull : decide (r.sp % 256 + Word.ofOffset offset % 256 > 255) =
      BitVec.carry 8 (Word.low r.sp).toBitVec offset.toBitVec false := by
    rw [BitVec.carry, decide_eq_decide, gt_iff_lt, UInt16.lt_iff_toNat_lt, ← hlow]
    simp only [UInt16.toNat_add, UInt16.toNat_mod, UInt16.reduceToNat, UInt8.toNat_toBitVec,
      Word.toNat_low, Bool.toNat_false]
    omega
  simp only [spPlus, add_ofOffset, hhalf, hfull]

theorem hl_setHL (word : UInt16) : (r.setHL word).hl = word := Word.ofBytes_high_low word

end Registers

namespace Instruction

variable (read : UInt16 → UInt8) (vectors : UInt16) (r : Registers)

theorem effect_addHL (source : Pair) :
    let v := r.pair source
    (addHL source).effect read vectors r =
      .registersOnly { r.setHL (UInt16.ofNat (r.hl.toNat + v.toNat)) with
        f := flagByte r.zero false (BitVec.carry 12 r.hl.toBitVec v.toBitVec false)
          (BitVec.carry 16 r.hl.toBitVec v.toBitVec false) } := by
  simp only [effect, r.hlPlus_eq]

/-- Whichever pair takes the sum, an offset to SP makes one word and one F. -/
theorem effect_offset (offset : Int8) :
    let sum := UInt16.ofInt (r.sp.toNat + offset.toInt)
    let low := (Word.low r.sp).toBitVec
    let f := flagByte false false (BitVec.carry 4 low offset.toBitVec false)
      (BitVec.carry 8 low offset.toBitVec false)
    (addSP offset).effect read vectors r = .registersOnly { r with sp := sum, f } ∧
      (loadHLSP offset).effect read vectors r = .registersOnly { r.setHL sum with f } := by
  simp only [effect, r.spPlus_eq, and_self]

end Instruction

namespace Cpu

/-- Additions of words over the integers. ADD HL adds a pair, HL itself not excepted; H and C are
its carries out of bits 11 and 15, and Z stays. ADD SP and LD HL,SP+e both add a signed offset to
SP, with the same result and the same flags: Z and N are clear, and H and C are the carries out of
bits 3 and 7 where the low bytes are added without sign. None of them changes anything but the pair
that takes the sum, F and the program counter. -/
theorem word_additions (cpu : Cpu) (memory : Memory) :
    let instruction := fetch memory.read cpu.registers.pc
    let r := { cpu.registers with pc := cpu.registers.pc + UInt16.ofNat instruction.length }
    let stepped := cpu.step memory
    (∀ source, instruction = .addHL source →
      let v := r.pair source
      let sum := r.hl.toNat + v.toNat
      let f := flagByte r.zero false (BitVec.carry 12 r.hl.toBitVec v.toBitVec false)
        (BitVec.carry 16 r.hl.toBitVec v.toBitVec false)
      stepped = ⟨{ cpu with registers := { r.setHL (UInt16.ofNat sum) with f } }, memory, false⟩ ∧
        stepped.cpu.registers.hl.toNat = sum % 2 ^ 16) ∧
      ∀ offset : Int8,
        let sum : ℤ := r.sp.toNat + offset.toInt
        let low := (Word.low r.sp).toBitVec
        let f := flagByte false false (BitVec.carry 4 low offset.toBitVec false)
          (BitVec.carry 8 low offset.toBitVec false)
        (instruction = .addSP offset →
          stepped =
              ⟨{ cpu with registers := { r with sp := UInt16.ofInt sum, f } }, memory, false⟩ ∧
            (stepped.cpu.registers.sp.toNat : ℤ) = sum % 2 ^ 16) ∧
          (instruction = .loadHLSP offset →
            stepped =
                ⟨{ cpu with registers := { r.setHL (UInt16.ofInt sum) with f } }, memory, false⟩ ∧
              (stepped.cpu.registers.hl.toNat : ℤ) = sum % 2 ^ 16) := by
  intro instruction r stepped
  have hstepped : stepped =
      let effect := instruction.effect memory.read cpu.vectors r
      ⟨{ cpu with registers := effect.registers }, memory.apply effect.store, effect.returned⟩ :=
    rfl
  have hmod (sum : ℤ) : ((UInt16.ofInt sum).toNat : ℤ) = sum % 2 ^ 16 := by
    rw [word_toNat_ofInt]
    omega
  refine ⟨fun source hsource => ?hl, fun offset => ?offset⟩
  case hl =>
    rw [hstepped, hsource, Instruction.effect_addHL]
    refine ⟨rfl, ?_⟩
    exact (congrArg UInt16.toNat (r.hl_setHL _)).trans (UInt16.toNat_ofNat' ..)
  case offset =>
    obtain ⟨hsp, hhl⟩ := Instruction.effect_offset memory.read cpu.vectors r offset
    refine ⟨fun hoffset => ?sp, fun hoffset => ?hl⟩
    case sp =>
      rw [hstepped, hoffset, hsp]
      exact ⟨rfl, hmod _⟩
    case hl =>
      rw [hstepped, hoffset, hhl]
      refine ⟨rfl, ?_⟩
      exact (congrArg (fun word => (UInt16.toNat word : ℤ)) (r.hl_setHL _)).trans (hmod _)

/-- HL doubled, with carries out of both bits and Z kept, and SP counted down by an offset. -/
theorem word_additions_downwards :
    let doubling := Memory.holding 0x29 0x00 0x00
    let lowering := Memory.holding 0xE8 0xFF 0x00
    let loading := Memory.holding 0xF8 0xFF 0x00
    step { registers := { f := 0x80, h := 0x88, l := 0x00, pc := 0xC000 } } doubling =
        ⟨{ registers := { f := 0xB0, h := 0x10, l := 0x00, pc := 0xC001 } }, doubling, false⟩ ∧
      step { registers := { f := 0x80, sp := 0xC001, pc := 0xC000 } } lowering =
        ⟨{ registers := { f := 0x30, sp := 0xC000, pc := 0xC002 } }, lowering, false⟩ ∧
      step { registers := { f := 0x80, sp := 0x0000, pc := 0xC000 } } loading =
        ⟨{ registers := { f := 0x00, h := 0xFF, l := 0xFF, pc := 0xC002 } }, loading, false⟩ := by
  -- Memories are variables in these steps, so that their cells are not computed.
  have hdoubled (memory : Memory) (hfetch : fetch memory.read 0xC000 = .addHL .hl) :
      step { registers := { f := 0x80, h := 0x88, l := 0x00, pc := 0xC000 } } memory =
        ⟨{ registers := { f := 0xB0, h := 0x10, l := 0x00, pc := 0xC001 } }, memory, false⟩ := by
    have hstep := (word_additions
      { registers := { f := 0x80, h := 0x88, l := 0x00, pc := 0xC000 } } memory).1 .hl hfetch
    simp only [hfetch] at hstep
    exact hstep.1.trans (congrArg (Stepped.mk · memory false) (by decide))
  have hlowered (memory : Memory) (hfetch : fetch memory.read 0xC000 = .addSP (-1)) :
      step { registers := { f := 0x80, sp := 0xC001, pc := 0xC000 } } memory =
        ⟨{ registers := { f := 0x30, sp := 0xC000, pc := 0xC002 } }, memory, false⟩ := by
    have hstep := ((word_additions
      { registers := { f := 0x80, sp := 0xC001, pc := 0xC000 } } memory).2 (-1)).1 hfetch
    simp only [hfetch] at hstep
    exact hstep.1.trans (congrArg (Stepped.mk · memory false) (by decide))
  have hloaded (memory : Memory) (hfetch : fetch memory.read 0xC000 = .loadHLSP (-1)) :
      step { registers := { f := 0x80, sp := 0x0000, pc := 0xC000 } } memory =
        ⟨{ registers := { f := 0x00, h := 0xFF, l := 0xFF, pc := 0xC002 } }, memory, false⟩ := by
    have hstep := ((word_additions
      { registers := { f := 0x80, sp := 0x0000, pc := 0xC000 } } memory).2 (-1)).2 hfetch
    simp only [hfetch] at hstep
    exact hstep.1.trans (congrArg (Stepped.mk · memory false) (by decide))
  exact ⟨hdoubled _ ((Memory.fetch_holding 0x29 0x00 0x00).trans (by decide)),
    hlowered _ ((Memory.fetch_holding 0xE8 0xFF 0x00).trans (by decide)),
    hloaded _ ((Memory.fetch_holding 0xF8 0xFF 0x00).trans (by decide))⟩

end Cpu
end Chiptune
