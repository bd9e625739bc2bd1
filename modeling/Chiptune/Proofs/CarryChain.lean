import Chiptune.Proofs.IntegerArithmetic
import Chiptune.Proofs.MemoryMap

/-!
# Numbers of many bytes

The processor computes a byte at a time. A longer number goes through it byte by
byte, and F is all that goes on from one byte to the next. A `chain` of bytes is
computed in this way, and what it does to the number follows from what one byte
does to its digit and to the carry.

Shifts are chains in both directions. To the left, from the lowest byte on, a
carry counts 256 times as much on leaving a byte as on entering it. To the right,
from the highest byte on, it is the other way round.
-/
namespace Chiptune

/-- Bytes that were computed one after the other, and the registers with the last F. -/
structure Chained where
  bytes : List UInt8
  registers : Registers

/-- Computes bytes in turn, with F going on from each of them to the next. -/
def chain {α : Type} (compute : Registers → α → Flagged) (r : Registers) : List α → Chained
  | [] => ⟨[], r⟩
  | item :: rest =>
    let result := compute r item
    let tail := chain compute { r with f := result.flags } rest
    ⟨result.value :: tail.bytes, tail.registers⟩

/-- A byte shifted with the carry that F holds. -/
def ShiftOp.link (r : Registers) (link : ShiftOp × UInt8) : Flagged := link.1.apply r.carry link.2

/-- Shifts bytes in turn, the first of them by an operation of its own. -/
def Registers.shiftBytes (first others : ShiftOp) (r : Registers) : List UInt8 → Chained
  | [] => ⟨[], r⟩
  | byte :: rest => chain ShiftOp.link r ((first, byte) :: rest.map (others, ·))

/-- The number that bytes hold, the lowest byte first. -/
def number (bytes : List UInt8) : ℕ := Nat.ofDigits 256 (bytes.map UInt8.toNat)

/-- These are the `n` bytes of the number `x`, the lowest byte first. -/
structure IsBinary (n x : ℕ) (bytes : List UInt8) : Prop where
  length_eq : bytes.length = n
  number_eq : number bytes = x

/-! ### Flags -/

/-- The flags are read off F as they were put there. -/
theorem Registers.flags_eq {r : Registers} {z n h c : Bool} (hf : r.f = flagByte z n h c) :
    r.zero = z ∧ r.subtract = n ∧ r.halfCarry = h ∧ r.carry = c := by
  have hread : ∀ z n h c : Bool, let f := flagByte z n h c
      (f &&& 0x80 != 0) = z ∧ (f &&& 0x40 != 0) = n ∧ (f &&& 0x20 != 0) = h ∧
        (f &&& 0x10 != 0) = c := by
    decide
  rw [zero, subtract, halfCarry, carry, hf]
  exact hread z n h c

/-! ### Chains -/

section Chain

variable {α : Type} (compute : Registers → α → Flagged) (r : Registers)

theorem length_chain (items : List α) : (chain compute r items).bytes.length = items.length := by
  induction items generalizing r with
  | nil => rfl
  | cons item rest ih => exact congrArg Nat.succ (ih _)

theorem chain_append (first rest : List α) :
    let before := chain compute r first
    let after := chain compute before.registers rest
    chain compute r (first ++ rest) = ⟨before.bytes ++ after.bytes, after.registers⟩ := by
  induction first generalizing r with
  | nil => rfl
  | cons item first ih => simp only [List.cons_append, chain, ih]

end Chain

/-! ### Numbers -/

theorem number_nil : number [] = 0 := rfl

theorem number_cons (byte : UInt8) (rest : List UInt8) :
    number (byte :: rest) = byte.toNat + 256 * number rest := by
  simp only [number, List.map_cons, Nat.ofDigits_cons]

/-- A byte on top of a number. -/
theorem number_concat (rest : List UInt8) (byte : UInt8) :
    number (rest ++ [byte]) = number rest + 256 ^ rest.length * byte.toNat := by
  simp only [number, List.map_append, Nat.ofDigits_append, List.map_cons, List.map_nil,
    Nat.ofDigits_singleton, List.length_map]

theorem number_lt (bytes : List UInt8) : number bytes < 256 ^ bytes.length := by
  have hdigits : ∀ digit ∈ bytes.map UInt8.toNat, digit < 256 := by
    intro digit hdigit
    obtain ⟨byte, -, rfl⟩ := List.mem_map.mp hdigit
    exact byte.toNat_lt
  have hlt := Nat.ofDigits_lt_base_pow_length (by decide) hdigits
  rwa [List.length_map] at hlt

theorem eq_of_toNat_eq {a b : Bool} (h : a.toNat = b.toNat) : a = b := by
  cases a <;> cases b <;> trivial

/-- The top bit of a number is what is left over when it is doubled. -/
theorem testBit_of_double {top x low : ℕ} {out : Bool}
    (h : low + 2 * 2 ^ top * out.toNat = 2 * x) (hlow : low < 2 * 2 ^ top) :
    x.testBit top = out := by
  apply eq_of_toNat_eq
  rw [Nat.toNat_testBit]
  cases out with
  | false =>
    rw [Bool.toNat_false, Nat.mul_zero] at h
    rw [Nat.div_eq_of_lt (by omega)]
    rfl
  | true =>
    rw [Bool.toNat_true, Nat.mul_one] at h
    have hdiv : x / 2 ^ top = 1 := Nat.div_eq_of_lt_le (by omega) (by omega)
    rw [hdiv]
    rfl

/-- In two's complement, a number is halved where its sign comes in again on top. -/
theorem bmod_of_half {half x y out : ℕ} {sign : Bool} (hsign : sign ↔ half ≤ x)
    (h : 2 * y + out = x + 2 * half * sign.toNat) (hx : x < 2 * half) (hout : out ≤ 1) :
    (y : ℤ).bmod (2 * half) = (x : ℤ).bmod (2 * half) / 2 := by
  have hy : y < 2 * half := by
    have hle := Nat.mul_le_mul_left (2 * half) sign.toNat_le
    omega
  have hxmod : (x : ℤ) % (2 * half : ℕ) = x := Int.emod_eq_of_lt (by omega) (by omega)
  have hymod : (y : ℤ) % (2 * half : ℕ) = y := Int.emod_eq_of_lt (by omega) (by omega)
  rw [Int.bmod_def, Int.bmod_def, hxmod, hymod]
  cases sign with
  | false =>
    have hlow : ¬ half ≤ x := fun hle => absurd (hsign.mpr hle) (by decide)
    rw [Bool.toNat_false, Nat.mul_zero] at h
    rw [if_pos (by omega), if_pos (by omega)]
    omega
  | true =>
    have hhigh : half ≤ x := hsign.mp rfl
    rw [Bool.toNat_true, Nat.mul_one] at h
    rw [if_neg (by omega), if_neg (by omega)]
    omega

/-! ### One byte -/

namespace ShiftOp

/-- C after a shift is the bit that fell out. -/
def out (op : ShiftOp) (byte : UInt8) : Bool :=
  match op with
  | .rlc | .rl | .sla => byte ≥ 128
  | .rrc | .rr | .sra | .srl => byte % 2 == 1
  | .swap => false

/-- The bit that fell out is the carry that the next byte is shifted with. -/
theorem carry_link (op : ShiftOp) (r : Registers) (byte : UInt8) :
    ({ r with f := (link r (op, byte)).flags } : Registers).carry = op.out byte := by
  have hflags : (link r (op, byte)).flags =
      flagByte ((link r (op, byte)).value == 0) false false (op.out byte) := by
    cases op <;> rfl
  exact (Registers.flags_eq hflags).2.2.2

/-- To the left, the bit that falls out counts 256 times as much as the one that comes in. -/
theorem rl_apply (carry : Bool) (byte : UInt8) :
    (rl.apply carry byte).value.toNat + 256 * (rl.out byte).toNat =
      2 * byte.toNat + carry.toNat := by
  have hbyte := byte.toNat_lt
  have hcarry := carry.toNat_le
  simp only [apply, Flagged.shifted, out, UInt8.toNat_add, UInt8.toNat_mul, toNat_carryBit,
    UInt8.reduceToNat, ge_iff_le, UInt8.le_iff_toNat_le]
  by_cases hhigh : 128 ≤ byte.toNat
  · simp only [hhigh, decide_true, Bool.toNat_true]
    omega
  · simp only [hhigh, decide_false, Bool.toNat_false]
    omega

/-- To the right, the bit that comes in counts 256 times as much as the one that falls out. -/
theorem rr_apply (carry : Bool) (byte : UInt8) :
    2 * (rr.apply carry byte).value.toNat + (rr.out byte).toNat =
      byte.toNat + 256 * carry.toNat := by
  have hbyte := byte.toNat_lt
  have hcarry := carry.toNat_le
  simp only [apply, Flagged.shifted, out, UInt8.toNat_add, UInt8.toNat_mul, UInt8.toNat_div,
    toNat_carryBit, UInt8.reduceToNat, beq_eq_decide, ← UInt8.toNat_inj, UInt8.toNat_mod]
  by_cases hodd : byte.toNat % 2 = 1
  · simp only [hodd, decide_true, Bool.toNat_true]
    omega
  · simp only [hodd, decide_false, Bool.toNat_false]
    omega

/-- A byte that is shifted to the left and back again. -/
theorem rr_apply_rl (carry : Bool) (byte : UInt8) :
    let shifted := (rl.apply carry byte).value
    (rr.apply (rl.out byte) shifted).value = byte ∧ rr.out shifted = carry := by
  intro shifted
  have hleft : shifted.toNat + 256 * (rl.out byte).toNat = 2 * byte.toNat + carry.toNat :=
    rl_apply carry byte
  have hright := rr_apply (rl.out byte) shifted
  have hout := (rr.out shifted).toNat_le
  have hcarry := carry.toNat_le
  constructor
  · apply UInt8.toNat_inj.mp
    omega
  · apply eq_of_toNat_eq
    omega

end ShiftOp

/-! ### All bytes -/

namespace Registers

open ShiftOp (link carry_link)

variable (r : Registers) (bytes : List UInt8)

theorem shiftBytes_self (op : ShiftOp) :
    r.shiftBytes op op bytes = chain link r (bytes.map (op, ·)) := by
  cases bytes <;> rfl

theorem length_shiftBytes (first others : ShiftOp) :
    (r.shiftBytes first others bytes).bytes.length = bytes.length := by
  cases bytes with
  | nil => rfl
  | cons byte rest =>
    rw [shiftBytes, length_chain, List.length_cons, List.length_map, List.length_cons]

/-- The whole number to the left. -/
theorem number_shift_left :
    let left := r.shiftBytes .rl .rl bytes
    number left.bytes + 256 ^ bytes.length * left.registers.carry.toNat =
      2 * number bytes + r.carry.toNat := by
  rw [shiftBytes_self]
  induction bytes generalizing r with
  | nil => simp [chain, number_nil]
  | cons byte rest ih =>
    have hbyte := ShiftOp.rl_apply r.carry byte
    have hrest := ih { r with f := (link r (.rl, byte)).flags }
    rw [carry_link] at hrest
    simp only [List.map_cons, chain, number_cons, List.length_cons, pow_succ]
    simp only [link] at hrest ⊢
    linear_combination hbyte + 256 * hrest

/-- The whole number to the right. The bytes come in turn from the highest one on. -/
theorem number_shift_right :
    let right := r.shiftBytes .rr .rr bytes
    2 * number right.bytes.reverse + right.registers.carry.toNat =
      number bytes.reverse + 256 ^ bytes.length * r.carry.toNat := by
  rw [shiftBytes_self]
  induction bytes generalizing r with
  | nil => simp [chain, number_nil]
  | cons byte rest ih =>
    have hbyte := ShiftOp.rr_apply r.carry byte
    have hrest := ih { r with f := (link r (.rr, byte)).flags }
    rw [carry_link] at hrest
    simp only [List.map_cons, chain, List.reverse_cons, number_concat, List.length_cons, pow_succ,
      List.length_reverse, length_chain, List.length_map]
    simp only [link] at hrest ⊢
    linear_combination hrest + 256 ^ rest.length * hbyte

/-- To the left and back again, byte for byte. -/
theorem shift_right_shift_left :
    let left := r.shiftBytes .rl .rl bytes
    let back := left.registers.shiftBytes .rr .rr left.bytes.reverse
    back.bytes.reverse = bytes ∧ back.registers.carry = r.carry := by
  simp only [shiftBytes_self]
  induction bytes generalizing r with
  | nil => exact ⟨rfl, rfl⟩
  | cons byte rest ih =>
    -- The lowest byte leads to the left and comes last to the right.
    obtain ⟨hrest, hcarry⟩ := ih { r with f := (link r (.rl, byte)).flags }
    obtain ⟨hbyte, hout⟩ := ShiftOp.rr_apply_rl r.carry byte
    rw [carry_link] at hcarry
    simp only [List.map_cons, chain, List.reverse_cons, List.map_append, List.map_nil, chain_append,
      List.reverse_append, List.reverse_nil, List.nil_append, List.cons_append, hrest, carry_link]
    constructor
    · simp only [link] at hcarry ⊢
      rw [hcarry]
      exact congrArg (· :: rest) hbyte
    · exact hout

/-! ### The first byte

Its operation brings a bit of its own in, where the others go on with the carry. -/

section First

variable {r : Registers} {byte : UInt8} {carry : Bool}

theorem shiftBytes_cons {first others : ShiftOp}
    (h : first.apply r.carry byte = others.apply carry byte) (rest : List UInt8) :
    ∃ entry : Registers, entry.carry = carry ∧
      r.shiftBytes first others (byte :: rest) = entry.shiftBytes others others (byte :: rest) := by
  have hcarry : ({ r with f := flagByte false false false carry } : Registers).carry = carry :=
    (flags_eq rfl).2.2.2
  refine ⟨{ r with f := flagByte false false false carry }, hcarry, ?_⟩
  simp only [shiftBytes, chain, link, h, hcarry]

variable (r) (byte)

theorem sla_apply : ShiftOp.sla.apply r.carry byte = ShiftOp.rl.apply false byte := by
  simp [ShiftOp.apply, carryBit]

theorem srl_apply : ShiftOp.srl.apply r.carry byte = ShiftOp.rr.apply false byte := by
  simp [ShiftOp.apply, carryBit]

/-- The sign comes in again. -/
theorem sra_apply : ShiftOp.sra.apply r.carry byte = ShiftOp.rr.apply (byte ≥ 128) byte := by
  have hsign : byte / 128 = carryBit (byte ≥ 128) := by
    revert byte
    decide +kernel
  simp only [ShiftOp.apply, hsign]

end First

/-! ### The numbers that come out -/

variable {bytes} {n x : ℕ}

/-- Doubling: all bits move up by one, and the top one falls out. -/
theorem isBinary_shift_left (h : IsBinary n x bytes) (hn : 0 < n) :
    let left := r.shiftBytes .sla .rl bytes
    IsBinary n (2 * x % 256 ^ n) left.bytes ∧ left.registers.carry = x.testBit (8 * n - 1) := by
  obtain ⟨rfl, rfl⟩ := h
  have hwidth : 256 ^ bytes.length = 2 * 2 ^ (8 * bytes.length - 1) := by
    rw [← pow_succ', Nat.sub_add_cancel (by omega), pow_mul]
    rfl
  obtain ⟨byte, rest, rfl⟩ := List.exists_cons_of_length_pos hn
  obtain ⟨entry, hentry, heq⟩ := shiftBytes_cons (sla_apply r byte) rest
  have hleft := entry.number_shift_left (byte :: rest)
  have hlt := number_lt (entry.shiftBytes .rl .rl (byte :: rest)).bytes
  rw [← heq] at hleft hlt
  rw [length_shiftBytes] at hlt
  rw [hentry, Bool.toNat_false, Nat.add_zero] at hleft
  refine ⟨⟨length_shiftBytes _ _ _ _, ?number⟩, ?carry⟩
  case number => rw [← hleft, Nat.add_mul_mod_self_left, Nat.mod_eq_of_lt hlt]
  case carry =>
    rw [hwidth] at hleft hlt
    exact (testBit_of_double hleft hlt).symm

/-- A first operation to the right brings in a bit above the number. -/
theorem shift_right_cons {first : ShiftOp} {high : UInt8} {top : Bool} (lower : List UInt8)
    (h : first.apply r.carry high = ShiftOp.rr.apply top high) :
    let right := r.shiftBytes first .rr (high :: lower)
    2 * number right.bytes.reverse + right.registers.carry.toNat =
      number (high :: lower).reverse + 256 ^ (high :: lower).length * top.toNat := by
  obtain ⟨entry, hentry, heq⟩ := shiftBytes_cons h lower
  rw [heq, ← hentry]
  exact entry.number_shift_right (high :: lower)

/-- Halving: all bits move down by one, and the lowest one falls out. -/
theorem isBinary_shift_right (h : IsBinary n x bytes) (hn : 0 < n) :
    let right := r.shiftBytes .srl .rr bytes.reverse
    IsBinary n (x / 2) right.bytes.reverse ∧ right.registers.carry.toNat = x % 2 := by
  obtain ⟨rfl, rfl⟩ := h
  rw [← List.length_reverse] at hn
  obtain ⟨high, lower, hbytes⟩ := List.exists_cons_of_length_pos hn
  have hright := r.shift_right_cons lower (srl_apply r high)
  rw [← hbytes, List.reverse_reverse, Bool.toNat_false, Nat.mul_zero, Nat.add_zero] at hright
  have hout := (r.shiftBytes .srl .rr bytes.reverse).registers.carry.toNat_le
  refine ⟨⟨?length, by omega⟩, by omega⟩
  case length => rw [List.length_reverse, length_shiftBytes, List.length_reverse]

/-- The sign of a number is that of its highest byte. -/
theorem sign_number (high : UInt8) (lower : List UInt8) :
    decide (high ≥ 128) ↔ 128 * 256 ^ lower.length ≤ number (high :: lower).reverse := by
  have hlower := number_lt lower.reverse
  rw [List.length_reverse] at hlower
  rw [decide_eq_true_iff, ge_iff_le, UInt8.le_iff_toNat_le, List.reverse_cons, number_concat,
    List.length_reverse]
  constructor
  · intro hhigh
    have hle := Nat.mul_le_mul_left (256 ^ lower.length) hhigh
    rw [Nat.mul_comm] at hle
    exact Nat.le_add_left_of_le hle
  · intro hle
    by_contra hhigh
    have hle' : high.toNat + 1 ≤ 128 := Nat.lt_of_not_le hhigh
    have hmul := Nat.mul_le_mul_left (256 ^ lower.length) hle'
    rw [Nat.mul_add_one] at hmul
    omega

/-- Halving with the sign kept, for numbers in two's complement. -/
theorem isBinary_shift_signed (h : IsBinary n x bytes) (hn : 0 < n) :
    let right := r.shiftBytes .sra .rr bytes.reverse
    ∃ y, IsBinary n y right.bytes.reverse ∧
      (y : ℤ).bmod (256 ^ n) = (x : ℤ).bmod (256 ^ n) / 2 ∧
      right.registers.carry.toNat = x % 2 := by
  obtain ⟨rfl, rfl⟩ := h
  have hx := number_lt bytes
  rw [← List.length_reverse] at hn
  obtain ⟨high, lower, hbytes⟩ := List.exists_cons_of_length_pos hn
  have hwidth : 256 ^ bytes.length = 2 * (128 * 256 ^ lower.length) := by
    rw [← bytes.length_reverse, hbytes, List.length_cons, pow_succ]
    ring
  have hsign := sign_number high lower
  have hright := r.shift_right_cons lower (sra_apply r high)
  rw [← hbytes, List.reverse_reverse] at hsign hright
  rw [List.length_reverse, hwidth] at hright
  rw [hwidth] at hx
  have hout := (r.shiftBytes .sra .rr bytes.reverse).registers.carry.toNat_le
  refine ⟨_, ⟨?length, rfl⟩, ?signed, ?carry⟩
  case length => rw [List.length_reverse, length_shiftBytes, List.length_reverse]
  case signed =>
    rw [hwidth]
    exact bmod_of_half hsign hright hx hout
  case carry =>
    rw [Nat.mul_assoc] at hright
    omega

end Registers

namespace Cpu

open Memory (IsPlain)

variable {cpu : Cpu} {memory : Memory} {op : ShiftOp} {target : Operand}

/-- A shift is one link of a chain, whether its operand is a register or a cell of plain memory. It
changes this operand and F, moves past itself, and changes nothing else. -/
theorem step_of_shift (h : fetch memory.read cpu.registers.pc = .bits (.shift op) target)
    (hplain : target = .atHL → IsPlain cpu.registers.hl) :
    let r := { cpu.registers with pc := cpu.registers.pc + 2 }
    let result := ShiftOp.link r (op, target.value memory.read r)
    let stepped := cpu.step memory
    target.value stepped.memory.read stepped.cpu.registers = result.value ∧
      stepped.cpu.registers.f = result.flags ∧
      (∀ other : Operand, other ≠ .atHL → other ≠ target →
        other.value memory.read stepped.cpu.registers = other.value memory.read r) ∧
      (∀ address, (target = .atHL → address ≠ r.hl) →
        stepped.memory.read address = memory.read address) ∧
      stepped.cpu.registers.sp = r.sp ∧ stepped.cpu.registers.pc = r.pc ∧
      stepped.cpu.vectors = cpu.vectors ∧ stepped.returned = false := by
  intro r result stepped
  let put := target.put { r with f := result.flags } result.value
  have hstepped : stepped =
      ⟨{ cpu with registers := put.registers }, memory.apply put.store, put.returned⟩ := by
    simp only [stepped, step, effectIn, effect, h]
    rfl
  rw [hstepped]
  refine ⟨?value, Instruction.put_f _ _ target, fun other hother hne => ?other,
    fun address hne => ?read, Instruction.put_sp _ _ target, Instruction.put_pc _ _ target, rfl,
    Instruction.put_returned _ _ target⟩
  case value =>
    by_cases htarget : target = .atHL
    · subst htarget
      exact (memory.read_write_plain result.value (Memory.isPlain_iff.mp (hplain rfl)) r.hl).trans
        (if_pos rfl)
    · exact (Operand.value_put _ _ _ target htarget).trans (if_pos rfl)
  case read =>
    show (memory.apply put.store).read address = memory.read address
    rw [Operand.apply_put]
    by_cases htarget : target = .atHL
    · rw [if_pos htarget]
      exact (memory.read_write_plain result.value (Memory.isPlain_iff.mp (hplain htarget))
        address).trans (if_neg (hne htarget))
    · rw [if_neg htarget]
  case other => exact (Operand.value_put _ _ _ target hother).trans (if_neg hne)

/-- Shifts of numbers of any length. SLA on the lowest byte and then RL upwards doubles a number,
SRL on the highest byte and then RR downwards halves it, and SRA in place of SRL halves it in two's
complement; the bit that falls out is left in C. RL over all bytes upwards and RR over all bytes
downwards is the identity, whatever the carry is. Each byte is shifted by one step, and it may be
held by a register or by a cell of plain memory. -/
theorem long_shifts (r : Registers) :
    (∀ (n x : ℕ) (bytes : List UInt8), 0 < n → IsBinary n x bytes →
      let left := r.shiftBytes .sla .rl bytes
      let right := r.shiftBytes .srl .rr bytes.reverse
      let signed := r.shiftBytes .sra .rr bytes.reverse
      (IsBinary n (2 * x % 256 ^ n) left.bytes ∧
          left.registers.carry = x.testBit (8 * n - 1)) ∧
        (IsBinary n (x / 2) right.bytes.reverse ∧ right.registers.carry.toNat = x % 2) ∧
        ∃ y, IsBinary n y signed.bytes.reverse ∧
          (y : ℤ).bmod (256 ^ n) = (x : ℤ).bmod (256 ^ n) / 2 ∧
          signed.registers.carry.toNat = x % 2) ∧
      (∀ bytes : List UInt8,
        let left := r.shiftBytes .rl .rl bytes
        let back := left.registers.shiftBytes .rr .rr left.bytes.reverse
        back.bytes.reverse = bytes ∧ back.registers.carry = r.carry) ∧
      ∀ (cpu : Cpu) (memory : Memory) (op : ShiftOp) (target : Operand),
        fetch memory.read cpu.registers.pc = .bits (.shift op) target →
        (target = .atHL → IsPlain cpu.registers.hl) →
        let past := { cpu.registers with pc := cpu.registers.pc + 2 }
        let result := ShiftOp.link past (op, target.value memory.read past)
        let stepped := cpu.step memory
        target.value stepped.memory.read stepped.cpu.registers = result.value ∧
          stepped.cpu.registers.f = result.flags ∧
          (∀ other : Operand, other ≠ .atHL → other ≠ target →
            other.value memory.read stepped.cpu.registers = other.value memory.read past) ∧
          (∀ address, (target = .atHL → address ≠ past.hl) →
            stepped.memory.read address = memory.read address) ∧
          stepped.cpu.registers.sp = past.sp ∧ stepped.cpu.registers.pc = past.pc ∧
          stepped.cpu.vectors = cpu.vectors ∧ stepped.returned = false := by
  refine ⟨fun n x bytes hn hbytes => ⟨?left, ?right, ?signed⟩, r.shift_right_shift_left,
    fun cpu memory op target h hplain => step_of_shift h hplain⟩
  case left => exact r.isBinary_shift_left hbytes hn
  case right => exact r.isBinary_shift_right hbytes hn
  case signed => exact r.isBinary_shift_signed hbytes hn

/-- The number 0x8001, whose bits fall out at both ends, with the carry set before. -/
theorem long_shifts_twoBytes :
    let r : Registers := { f := 0x10, h := 0xC0, l := 0x02, pc := 0xC000 }
    let memory := Memory.holding 0xCB 0x16 0x80
    let stepped := step { registers := r } memory
    IsBinary 2 0x0002 (r.shiftBytes .sla .rl [0x01, 0x80]).bytes ∧
      IsBinary 2 0x4000 (r.shiftBytes .srl .rr [0x80, 0x01]).bytes.reverse ∧
      (∃ y, IsBinary 2 y (r.shiftBytes .sra .rr [0x80, 0x01]).bytes.reverse ∧
        (y : ℤ).bmod (256 ^ 2) = -0x4000) ∧
      stepped.memory.read 0xC002 = 0x01 ∧ stepped.cpu.registers.f = 0x10 := by
  intro r memory stepped
  have hbytes : IsBinary 2 0x8001 [0x01, 0x80] := ⟨rfl, by decide⟩
  obtain ⟨hnumbers, -, hsteps⟩ := long_shifts r
  obtain ⟨⟨hleft, -⟩, ⟨hright, -⟩, y, hy, hhalf, -⟩ := hnumbers 2 0x8001 _ (by decide) hbytes
  -- The memory is a variable in this step, so that its cells are not computed.
  have hshift (memory : Memory) (hfetch : fetch memory.read 0xC000 = .bits (.shift .rl) .atHL)
      (hcell : memory.read 0xC002 = 0x80) :
      let stepped := step { registers := r } memory
      stepped.memory.read 0xC002 = 0x01 ∧ stepped.cpu.registers.f = 0x10 := by
    obtain ⟨hvalue, hflags, hothers, -⟩ := hsteps { registers := r } memory .rl .atHL hfetch
      (fun _ => by decide)
    have hpast : Registers.hl { r with pc := r.pc + 2 } = 0xC002 := by decide
    have hh : (step { registers := r } memory).cpu.registers.h = 0xC0 :=
      hothers .h (by decide) (by decide)
    have hl : (step { registers := r } memory).cpu.registers.l = 0x02 :=
      hothers .l (by decide) (by decide)
    have hhl : (step { registers := r } memory).cpu.registers.hl = 0xC002 := by
      rw [Registers.hl, hh, hl]
      decide
    simp only [Operand.value, hpast, hhl, hcell] at hvalue hflags
    exact ⟨hvalue.trans (by decide), hflags.trans (by decide)⟩
  obtain ⟨-, -, hcell⟩ := Memory.read_holding 0xCB 0x16 0x80
  exact ⟨hleft, hright, ⟨y, hy, hhalf.trans (by decide)⟩,
    hshift memory ((Memory.fetch_holding 0xCB 0x16 0x80).trans (by decide)) hcell⟩

end Cpu
end Chiptune
