import Chiptune.Proofs.CarryChain

/-!
# Decimal numbers of any length

A byte holds two decimal digits, one in each half. The accumulator adds and
subtracts such bytes as if they were binary, and DAA corrects the result: by six
for each digit that left its half or does not count as a digit. Together they do
one column of a decimal number, two digits wide, with the carry from column to
column in C.
-/
namespace Chiptune

/-- The two decimal digits of a byte, as a number below 100. -/
def decimalDigits (byte : UInt8) : ℕ := 10 * (byte.toNat / 16) + byte.toNat % 16

/-- Both halves of a byte are decimal digits. -/
def IsDecimalByte (byte : UInt8) : Prop := byte.toNat / 16 < 10 ∧ byte.toNat % 16 < 10

instance (byte : UInt8) : Decidable (IsDecimalByte byte) := inferInstanceAs (Decidable (_ ∧ _))

/-- The number that decimal bytes hold, the lowest byte first. -/
def decimalNumber (bytes : List UInt8) : ℕ := Nat.ofDigits 100 (bytes.map decimalDigits)

/-- These are the `n` decimal bytes of the number `x`, the lowest byte first. -/
structure IsDecimal (n x : ℕ) (bytes : List UInt8) : Prop where
  length_eq : bytes.length = n
  isDecimalByte : ∀ byte ∈ bytes, IsDecimalByte byte
  number_eq : decimalNumber bytes = x

/-- An operation of the accumulator and the correction after it. -/
def AluOp.corrected (op : AluOp) (r : Registers) (column : UInt8 × UInt8) : Flagged :=
  let after := r.setFlagged (op.apply column.1 r.carry column.2)
  decimalAdjust after.a after.subtract after.halfCarry after.carry

/-- Combines two decimal numbers column by column. -/
def Registers.combineDecimal (op : AluOp) (r : Registers) (xs ys : List UInt8) : Chained :=
  chain op.corrected r (xs.zip ys)

/-! ### Numbers -/

theorem decimalNumber_cons (byte : UInt8) (rest : List UInt8) :
    decimalNumber (byte :: rest) = decimalDigits byte + 100 * decimalNumber rest := by
  simp only [decimalNumber, List.map_cons, Nat.ofDigits_cons]

theorem IsDecimalByte.digits_lt {byte : UInt8} (h : IsDecimalByte byte) :
    decimalDigits byte < 100 := by
  obtain ⟨hhigh, hlow⟩ := h
  rw [decimalDigits]
  omega

theorem decimalNumber_lt {bytes : List UInt8} (h : ∀ byte ∈ bytes, IsDecimalByte byte) :
    decimalNumber bytes < 100 ^ bytes.length := by
  have hdigits : ∀ digits ∈ bytes.map decimalDigits, digits < 100 := by
    intro digits hmem
    obtain ⟨byte, hbyte, rfl⟩ := List.mem_map.mp hmem
    exact (h byte hbyte).digits_lt
  have hlt := Nat.ofDigits_lt_base_pow_length (by decide) hdigits
  rwa [List.length_map] at hlt

/-! ### The correction -/

/-- After a sum, a digit is corrected if it left its half or is not decimal. -/
theorem decimalAdjust_sum (a : UInt8) (half carry : Bool) :
    let low := half || decide (9 < a.toNat % 16)
    let high := carry || decide (0x99 < a.toNat)
    let result := decimalAdjust a false half carry
    result.value.toNat = (a.toNat + 6 * low.toNat + 0x60 * high.toNat) % 256 ∧
      result.flags = flagByte (result.value == 0) false false high := by
  intro low high result
  have hlow : (half || (!false && decide (a % 16 > 9))) = low := by
    simp [low, UInt8.lt_iff_toNat_lt]
  have hhigh : (carry || (!false && decide (a > 0x99))) = high := by
    simp [high, UInt8.lt_iff_toNat_lt]
  have hresult : result = decimalAdjust a false half carry := rfl
  simp only [decimalAdjust, hlow, hhigh] at hresult
  rw [hresult]
  refine ⟨?_, rfl⟩
  cases low <;> cases high <;> simp [UInt8.toNat_add]

/-- After a difference, a digit is corrected if it borrowed. -/
theorem decimalAdjust_difference (a : UInt8) (half carry : Bool) :
    let result := decimalAdjust a true half carry
    (result.value.toNat : ℤ) = (a.toNat - 6 * half.toNat - 0x60 * carry.toNat) % 256 ∧
      result.flags = flagByte (result.value == 0) true false carry := by
  intro result
  have ha := a.toNat_lt
  have hresult : result = decimalAdjust a true half carry := rfl
  simp only [decimalAdjust, Bool.not_true, Bool.false_and, Bool.or_false] at hresult
  rw [hresult]
  refine ⟨?_, rfl⟩
  cases half <;> cases carry <;> simp [UInt8.toNat_sub] <;> omega

/-- The correction clears H, keeps N and tests the result. -/
theorem decimalAdjust_flags (a : UInt8) (subtract half carry : Bool) :
    let result := decimalAdjust a subtract half carry
    ∃ high, result.flags = flagByte (result.value == 0) subtract false high :=
  ⟨_, rfl⟩

/-! ### One column -/

namespace AluOp

variable (r : Registers) {x y : UInt8}

/-- N, H and C tell the correction what the operation was. -/
theorem corrected_eq (op : AluOp) (hop : op ≠ .cp) (r : Registers) (x y : UInt8) :
    op.corrected r (x, y) =
      decimalAdjust (UInt8.ofInt (op.onIntegers x.toNat y.toNat r.carry)) op.subtracts
        (op.halfCarries x.toNat y.toNat r.carry) (op.carries x.toNat y.toNat r.carry) := by
  have happly := op.apply_eq x r.carry y
  simp only [if_neg hop] at happly
  obtain ⟨-, hsubtract, hhalf, hcarry⟩ :=
    Registers.flags_eq (r := r.setFlagged (op.apply x r.carry y)) (congrArg Flagged.flags happly)
  have ha : (r.setFlagged (op.apply x r.carry y)).a = UInt8.ofInt _ := congrArg Flagged.value happly
  simp only [corrected, ha, hsubtract, hhalf, hcarry]

/-- A digit of a sum is corrected if its column is above nine. -/
theorem adc_corrected_value (hx : IsDecimalByte x) (hy : IsDecimalByte y) :
    let result := adc.corrected r (x, y)
    let sum := x.toNat + y.toNat + r.carry.toNat
    let low := decide (9 < x.toNat % 16 + y.toNat % 16 + r.carry.toNat)
    let high := decide (0x99 < sum)
    result.value.toNat = (sum + 6 * low.toNat + 0x60 * high.toNat) % 256 ∧
      result.flags = flagByte (result.value == 0) false false high := by
  intro result sum low high
  obtain ⟨hxhigh, hxlow⟩ := hx
  obtain ⟨hyhigh, hylow⟩ := hy
  have hc := r.carry.toNat_le
  have ha : (UInt8.ofInt sum).toNat = sum % 256 := by
    rw [byte_toNat_ofInt]
    omega
  have hlow : (adc.halfCarries x.toNat y.toNat r.carry ||
      decide (9 < (UInt8.ofInt sum).toNat % 16)) = low := by
    rw [ha, halfCarries, ← Bool.decide_or, decide_eq_decide, Overflows, onIntegers]
    omega
  have hhigh : (adc.carries x.toNat y.toNat r.carry ||
      decide (0x99 < (UInt8.ofInt sum).toNat)) = high := by
    rw [ha, carries, ← Bool.decide_or, decide_eq_decide, Overflows, onIntegers]
    omega
  obtain ⟨hvalue, hflags⟩ := decimalAdjust_sum (UInt8.ofInt sum)
    (adc.halfCarries x.toNat y.toNat r.carry) (adc.carries x.toNat y.toNat r.carry)
  have hresult : decimalAdjust (UInt8.ofInt sum) false _ _ = result :=
    (corrected_eq .adc (by decide) r x y).symm
  rw [hresult, hlow, hhigh, ha] at hvalue
  rw [hresult, hhigh] at hflags
  refine ⟨?_, hflags⟩
  omega

/-- A digit of a difference is corrected if its column is below zero. -/
theorem sbc_corrected_value (x y : UInt8) :
    let result := sbc.corrected r (x, y)
    let low := decide (x.toNat % 16 < y.toNat % 16 + r.carry.toNat)
    let high := decide (x.toNat < y.toNat + r.carry.toNat)
    (result.value.toNat : ℤ) =
        (x.toNat - y.toNat - r.carry.toNat - 6 * low.toNat - 0x60 * high.toNat) % 256 ∧
      result.flags = flagByte (result.value == 0) true false high := by
  intro result low high
  have hx := x.toNat_lt
  have hy := y.toNat_lt
  have hc := r.carry.toNat_le
  have hlow : sbc.halfCarries x.toNat y.toNat r.carry = low := by
    rw [halfCarries, decide_eq_decide, Overflows, onIntegers]
    omega
  have hhigh : sbc.carries x.toNat y.toNat r.carry = high := by
    rw [carries, decide_eq_decide, Overflows, onIntegers]
    omega
  have hresult : result = decimalAdjust (UInt8.ofInt _) true _ _ :=
    corrected_eq .sbc (by decide) r x y
  rw [hlow, hhigh] at hresult
  obtain ⟨hvalue, hflags⟩ := decimalAdjust_difference
    (UInt8.ofInt (sbc.onIntegers x.toNat y.toNat r.carry)) low high
  rw [← hresult] at hvalue hflags
  rw [byte_toNat_ofInt, onIntegers] at hvalue
  refine ⟨?_, hflags⟩
  omega

/-- One column of a sum. -/
theorem adc_corrected (hx : IsDecimalByte x) (hy : IsDecimalByte y) :
    let result := adc.corrected r (x, y)
    IsDecimalByte result.value ∧
      decimalDigits result.value + 100 * ({ r with f := result.flags } : Registers).carry.toNat =
        decimalDigits x + decimalDigits y + r.carry.toNat := by
  intro result
  obtain ⟨hvalue, hflags⟩ : result.value.toNat = _ ∧ result.flags = flagByte _ false false _ :=
    adc_corrected_value r hx hy
  have hcarry := (Registers.flags_eq (r := { r with f := result.flags }) hflags).2.2.2
  obtain ⟨hxhigh, hxlow⟩ := hx
  obtain ⟨hyhigh, hylow⟩ := hy
  have hc := r.carry.toNat_le
  rw [hcarry]
  simp only [IsDecimalByte, decimalDigits]
  by_cases hlow : 9 < x.toNat % 16 + y.toNat % 16 + r.carry.toNat <;>
    by_cases hhigh : 0x99 < x.toNat + y.toNat + r.carry.toNat <;>
    simp only [hlow, hhigh, decide_true, decide_false, Bool.toNat_true, Bool.toNat_false]
      at hvalue ⊢ <;>
    omega

/-- One column of a difference. -/
theorem sbc_corrected (hx : IsDecimalByte x) (hy : IsDecimalByte y) :
    let result := sbc.corrected r (x, y)
    IsDecimalByte result.value ∧
      decimalDigits result.value + decimalDigits y + r.carry.toNat =
        decimalDigits x + 100 * ({ r with f := result.flags } : Registers).carry.toNat := by
  intro result
  obtain ⟨hvalue, hflags⟩ : (result.value.toNat : ℤ) = _ ∧ result.flags = flagByte _ true false _ :=
    sbc_corrected_value r x y
  have hcarry := (Registers.flags_eq (r := { r with f := result.flags }) hflags).2.2.2
  obtain ⟨hxhigh, hxlow⟩ := hx
  obtain ⟨hyhigh, hylow⟩ := hy
  have hc := r.carry.toNat_le
  rw [hcarry]
  simp only [IsDecimalByte, decimalDigits]
  by_cases hlow : x.toNat % 16 < y.toNat % 16 + r.carry.toNat <;>
    by_cases hhigh : x.toNat < y.toNat + r.carry.toNat <;>
    simp only [hlow, hhigh, decide_true, decide_false, Bool.toNat_true, Bool.toNat_false]
      at hvalue ⊢ <;>
    omega

/-- A carry is counted on for an addition, and back for a subtraction. -/
def sign (op : AluOp) : ℤ := if op.subtracts then -1 else 1

/-- One column of a sum or of a difference. -/
theorem column_eq {op : AluOp} (hop : op = .adc ∨ op = .sbc) (hx : IsDecimalByte x)
    (hy : IsDecimalByte y) :
    let result := op.corrected r (x, y)
    let carry := ({ r with f := result.flags } : Registers).carry
    IsDecimalByte result.value ∧
      (decimalDigits result.value : ℤ) + op.sign * (100 * carry.toNat) =
        decimalDigits x + op.sign * (decimalDigits y + r.carry.toNat) := by
  obtain rfl | rfl := hop
  · obtain ⟨hbyte, hsum⟩ := adc_corrected r hx hy
    refine ⟨hbyte, ?_⟩
    simp only [sign, subtracts, Bool.false_eq_true, if_false]
    omega
  · obtain ⟨hbyte, hdifference⟩ := sbc_corrected r hx hy
    refine ⟨hbyte, ?_⟩
    simp only [sign, subtracts, if_true]
    omega

/-! ### All columns -/

/-- What the columns leave over is carried on, so that only the last carry is left of them. -/
theorem columns_eq {op : AluOp} (hop : op = .adc ∨ op = .sbc) {columns : List (UInt8 × UInt8)}
    (h : ∀ column ∈ columns, IsDecimalByte column.1 ∧ IsDecimalByte column.2) :
    let result := chain op.corrected r columns
    (∀ byte ∈ result.bytes, IsDecimalByte byte) ∧
      (decimalNumber result.bytes : ℤ) +
          op.sign * (100 ^ columns.length * result.registers.carry.toNat) =
        decimalNumber (columns.map Prod.fst) +
          op.sign * (decimalNumber (columns.map Prod.snd) + r.carry.toNat) := by
  induction columns generalizing r with
  | nil => simp [chain, decimalNumber]
  | cons column rest ih =>
    obtain ⟨hx, hy⟩ := h column List.mem_cons_self
    obtain ⟨hbyte, hcolumn⟩ := column_eq r hop hx hy
    obtain ⟨hbytes, hrest⟩ := ih { r with f := (op.corrected r column).flags }
      fun other hother => h other (List.mem_cons_of_mem column hother)
    constructor
    · intro byte hmem
      obtain rfl | hmem := List.mem_cons.mp hmem
      · exact hbyte
      · exact hbytes byte hmem
    · simp only [chain, List.map_cons, decimalNumber_cons, List.length_cons, pow_succ]
      push_cast
      linear_combination hcolumn + 100 * hrest

end AluOp

namespace Registers

variable (r : Registers) {n x y : ℕ} {xs ys : List UInt8} {op : AluOp}

theorem length_combineDecimal (op : AluOp) (h : xs.length = ys.length) :
    (r.combineDecimal op xs ys).bytes.length = xs.length := by
  rw [combineDecimal, length_chain, List.length_zip, h, Nat.min_self]

/-- The bytes of two decimal numbers, combined to the bytes of a third. -/
theorem combineDecimal_eq (hop : op = .adc ∨ op = .sbc) (hxs : IsDecimal n x xs)
    (hys : IsDecimal n y ys) :
    let result := r.combineDecimal op xs ys
    IsDecimal n (decimalNumber result.bytes) result.bytes ∧
      decimalNumber result.bytes < 100 ^ n ∧
      (decimalNumber result.bytes : ℤ) + op.sign * (100 ^ n * result.registers.carry.toNat) =
        x + op.sign * (y + r.carry.toNat) := by
  obtain ⟨rfl, hxdecimal, rfl⟩ := hxs
  obtain ⟨hlength, hydecimal, rfl⟩ := hys
  have hdecimal : ∀ column ∈ xs.zip ys, IsDecimalByte column.1 ∧ IsDecimalByte column.2 := by
    intro column hmem
    obtain ⟨hx, hy⟩ := List.of_mem_zip hmem
    exact ⟨hxdecimal _ hx, hydecimal _ hy⟩
  obtain ⟨hbytes, hvalue⟩ := AluOp.columns_eq r hop hdecimal
  have hsize := r.length_combineDecimal op hlength.symm
  rw [List.map_fst_zip hlength.ge, List.map_snd_zip hlength.le, List.length_zip, hlength,
    Nat.min_self] at hvalue
  refine ⟨⟨hsize, hbytes, rfl⟩, ?_, hvalue⟩
  exact hsize ▸ decimalNumber_lt hbytes

/-- The sum, up to what does not fit. -/
theorem isDecimal_sum (hxs : IsDecimal n x xs) (hys : IsDecimal n y ys) :
    let sum := r.combineDecimal .adc xs ys
    IsDecimal n ((x + y + r.carry.toNat) % 100 ^ n) sum.bytes ∧
      (sum.registers.carry ↔ 100 ^ n ≤ x + y + r.carry.toNat) := by
  intro sum
  obtain ⟨hdecimal, hlt, hvalue⟩ := r.combineDecimal_eq (.inl rfl) hxs hys
  have hsum : decimalNumber sum.bytes + 100 ^ n * sum.registers.carry.toNat =
      x + y + r.carry.toNat := by
    simp only [AluOp.sign, AluOp.subtracts, Bool.false_eq_true, if_false, one_mul] at hvalue
    zify
    linarith
  constructor
  · rw [← hsum, Nat.add_mul_mod_self_left, Nat.mod_eq_of_lt hlt]
    exact hdecimal
  · rw [← hsum]
    cases sum.registers.carry with
    | false => simpa using hlt
    | true => simp

/-- The difference, with what was borrowed from above. -/
theorem isDecimal_difference (hxs : IsDecimal n x xs) (hys : IsDecimal n y ys) :
    let difference := r.combineDecimal .sbc xs ys
    IsDecimal n (((x : ℤ) - y - r.carry.toNat) % 100 ^ n).toNat difference.bytes ∧
      (difference.registers.carry ↔ x < y + r.carry.toNat) := by
  intro difference
  obtain ⟨hdecimal, hlt, hvalue⟩ :
      IsDecimal n _ difference.bytes ∧ decimalNumber difference.bytes < 100 ^ n ∧ _ :=
    r.combineDecimal_eq (.inr rfl) hxs hys
  have hdifference : decimalNumber difference.bytes + (y + r.carry.toNat) =
      x + 100 ^ n * difference.registers.carry.toNat := by
    simp only [AluOp.sign, AluOp.subtracts, if_true, neg_mul, one_mul] at hvalue
    zify
    linarith
  constructor
  · have hmod : ((x : ℤ) - y - r.carry.toNat) % 100 ^ n = decimalNumber difference.bytes := by
      have hequal : (x : ℤ) - y - r.carry.toNat =
          decimalNumber difference.bytes + 100 ^ n * -difference.registers.carry.toNat := by
        zify at hdifference
        linarith
      rw [hequal, Int.add_mul_emod_self_left]
      exact Int.emod_eq_of_lt (Int.natCast_nonneg _) (by exact_mod_cast hlt)
    rw [hmod, Int.toNat_natCast]
    exact hdecimal
  · generalize difference.registers.carry = borrow at hdifference ⊢
    cases borrow with
    | false =>
      rw [Bool.toNat_false, Nat.mul_zero] at hdifference
      simp only [Bool.false_eq_true, false_iff]
      omega
    | true =>
      rw [Bool.toNat_true, Nat.mul_one] at hdifference
      simp only [true_iff]
      omega

end Registers

namespace Cpu

variable {cpu : Cpu} {memory : Memory}

theorem step_of_operation {op : AluOp} {v : UInt8} :
    let instruction := fetch memory.read cpu.registers.pc
    let past := { cpu.registers with pc := cpu.registers.pc + UInt16.ofNat instruction.length }
    instruction.operation? memory.read past = some (op, v) →
      cpu.step memory =
        ⟨{ cpu with registers := past.setFlagged (op.apply past.a past.carry v) }, memory,
          false⟩ := by
  intro instruction past h
  have heffect : cpu.effectIn memory = _ := Instruction.effect_of_operation? h cpu.vectors
  simp only [step, heffect]
  rfl

theorem step_of_daa (h : fetch memory.read cpu.registers.pc = .daa) :
    let r := cpu.registers
    let adjusted := r.setFlagged (decimalAdjust r.a r.subtract r.halfCarry r.carry)
    cpu.step memory =
      ⟨{ cpu with registers := { adjusted with pc := r.pc + 1 } }, memory, false⟩ := by
  simp only [step, effectIn, effect, h]
  rfl

/-- Decimal arithmetic of numbers of any length. ADC and DAA on the bytes of two numbers, from the
lowest pair on, give the bytes of their sum, and SBC and DAA those of their difference, modulo the
numbers of this length; C says whether the result was out of range. Each pair of bytes takes two
steps, an operation on the accumulator and the correction. The correction clears H, keeps N, and
sets Z if nothing is left. -/
theorem decimal_arithmetic :
    (∀ (r : Registers) (n x y : ℕ) (xs ys : List UInt8), IsDecimal n x xs → IsDecimal n y ys →
      let sum := r.combineDecimal .adc xs ys
      let difference := r.combineDecimal .sbc xs ys
      let c := r.carry.toNat
      (IsDecimal n ((x + y + c) % 100 ^ n) sum.bytes ∧
          (sum.registers.carry ↔ 100 ^ n ≤ x + y + c)) ∧
        IsDecimal n (((x : ℤ) - y - c) % 100 ^ n).toNat difference.bytes ∧
          (difference.registers.carry ↔ x < y + c)) ∧
      (∀ (cpu : Cpu) (memory : Memory) (op : AluOp) (v : UInt8),
        let instruction := fetch memory.read cpu.registers.pc
        let past := { cpu.registers with pc := cpu.registers.pc + UInt16.ofNat instruction.length }
        instruction.operation? memory.read past = some (op, v) →
        fetch memory.read past.pc = .daa →
        let operated := cpu.step memory
        let corrected := past.setFlagged (op.corrected past (past.a, v))
        operated.cpu.step operated.memory =
          ⟨{ cpu with registers := { corrected with pc := past.pc + 1 } }, memory, false⟩) ∧
      ∀ (cpu : Cpu) (memory : Memory), fetch memory.read cpu.registers.pc = .daa →
        let corrected := (cpu.step memory).cpu.registers
        corrected.halfCarry = false ∧ corrected.subtract = cpu.registers.subtract ∧
          (corrected.zero ↔ corrected.a = 0) := by
  refine ⟨fun r n x y xs ys hxs hys => ⟨r.isDecimal_sum hxs hys, r.isDecimal_difference hxs hys⟩,
    fun cpu memory op v => ?steps, fun cpu memory hdaa => ?flags⟩
  case steps =>
    intro instruction past hoperation hdaa
    have hstep := step_of_operation hoperation
    simp only [hstep]
    exact step_of_daa hdaa
  case flags =>
    intro corrected
    let r := cpu.registers
    obtain ⟨high, hflags⟩ := decimalAdjust_flags r.a r.subtract r.halfCarry r.carry
    have hf : corrected.f = flagByte (corrected.a == 0) r.subtract false high := by
      simp only [corrected, step_of_daa hdaa]
      exact hflags
    obtain ⟨hzero, hsubtract, hhalf, -⟩ := Registers.flags_eq hf
    exact ⟨hhalf, hsubtract, by rw [hzero, beq_iff_eq]⟩

/-- 5999 + 4001 = 10000 and 4001 - 5999 = -1998, and 0x15 + 0x27 corrected to 0x42 by a program. -/
theorem decimal_arithmetic_carrying :
    let r : Registers := {}
    let memory := Memory.holding 0xC6 0x27 0x27
    let operated := step { registers := { a := 0x15, pc := 0xC000 } } memory
    IsDecimal 2 0 (r.combineDecimal .adc [0x99, 0x59] [0x01, 0x40]).bytes ∧
      (r.combineDecimal .adc [0x99, 0x59] [0x01, 0x40]).registers.carry ∧
      IsDecimal 2 8002 (r.combineDecimal .sbc [0x01, 0x40] [0x99, 0x59]).bytes ∧
      (r.combineDecimal .sbc [0x01, 0x40] [0x99, 0x59]).registers.carry ∧
      operated.cpu.step operated.memory =
        ⟨{ registers := { a := 0x42, pc := 0xC003 } }, memory, false⟩ := by
  intro r memory operated
  have hclear : r.carry = false := by decide
  have hx : IsDecimal 2 5999 [0x99, 0x59] :=
    ⟨rfl, by decide +kernel, by simp [decimalNumber, decimalDigits, Nat.ofDigits_cons]⟩
  have hy : IsDecimal 2 4001 [0x01, 0x40] :=
    ⟨rfl, by decide +kernel, by simp [decimalNumber, decimalDigits, Nat.ofDigits_cons]⟩
  obtain ⟨hnumbers, hsteps, -⟩ := decimal_arithmetic
  obtain ⟨⟨hsum, hcarry⟩, -⟩ := hnumbers r 2 5999 4001 _ _ hx hy
  obtain ⟨-, hdifference, hborrow⟩ := hnumbers r 2 4001 5999 _ _ hy hx
  -- The memory is a variable in these steps, so that its cells are not computed.
  have hadded (memory : Memory) (hfetch : fetch memory.read 0xC000 = .aluByte .add 0x27)
      (hdaa : fetch memory.read 0xC002 = .daa) :
      let operated := step { registers := { a := 0x15, pc := 0xC000 } } memory
      operated.cpu.step operated.memory =
        ⟨{ registers := { a := 0x42, pc := 0xC003 } }, memory, false⟩ := by
    have hstep := hsteps { registers := { a := 0x15, pc := 0xC000 } } memory .add 0x27
    simp only [hfetch, Instruction.operation?, forall_const] at hstep
    exact (hstep hdaa).trans (congrArg (Stepped.mk · memory false) (by decide))
  obtain ⟨-, -, hlast⟩ := Memory.read_holding 0xC6 0x27 0x27
  have hdaa : fetch memory.read 0xC002 = .daa := fetch_of_read hlast fun _ _ => rfl
  have htotal : (5999 + 4001 + r.carry.toNat) % 100 ^ 2 = 0 := by simp [hclear]
  have hbelow : (((4001 : ℕ) - (5999 : ℕ) - (r.carry.toNat : ℕ)) % 100 ^ 2 : ℤ).toNat = 8002 := by
    simp [hclear]
  rw [htotal] at hsum
  rw [hbelow] at hdifference
  exact ⟨hsum, hcarry.mpr (by omega), hdifference, hborrow.mpr (by omega),
    hadded memory ((Memory.fetch_holding 0xC6 0x27 0x27).trans (by decide)) hdaa⟩

end Cpu
end Chiptune
