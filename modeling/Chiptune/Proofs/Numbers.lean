import Chiptune.Proofs.Rounding

/-!
# Numbers and their values

A single-precision number that is neither negative nor without value has a value,
which may be infinite. A number that is rounded is packed without changing its
value unless it is too large, and comparing numbers compares their values.
-/
namespace Chiptune
open Float.Model (Format UnpackedFloat totalExponent)
open Float.Model.UnpackedFloat

/-! ### Packing -/

theorem toNat_implicit_append (mantissa : BitVec 23) :
    (1#1 ++ mantissa).toNat = 2 ^ 23 + mantissa.toNat := by
  rw [BitVec.toNat_append, ← Nat.shiftLeft_add_eq_or_of_lt mantissa.isLt]
  rfl

theorem toNat_ne_zero {w : Nat} {v : BitVec w} (h : v ≠ 0#w) : v.toNat ≠ 0 := by
  intro hzero
  exact h (BitVec.eq_of_toNat_eq (by rw [hzero, BitVec.toNat_ofNat, Nat.zero_mod]))

theorem canonical_unpack (b : BitVec 32) : Canonical (UnpackedFloat.unpack Format.binary32 b) := by
  have hbias : Format.binary32.exponentBias = 127 := rfl
  have hlt : (@unpackMantissa Format.binary32 b).toNat < 2 ^ 23 := BitVec.isLt _
  simp only [UnpackedFloat.unpack, hbias]
  split
  · split <;> trivial
  · split
    · rename_i hfield
      have hexponent : (@unpackExponent Format.binary32 b).toNat = 0 := by
        rw [hfield]
        rfl
      split
      · trivial
      · refine ⟨by omega, ?_, .inr ?_⟩ <;> rw [hexponent] <;> decide
    · rename_i hfield
      have hexponent := toNat_ne_zero hfield
      refine ⟨?_, ?_, .inl ?_⟩
      · rw [toNat_implicit_append]
        omega
      · push_cast
        omega
      · rw [toNat_implicit_append]
        omega

theorem finite_congr {s : Sign} {m n : Nat} {e f : Int} {hm : 0 < m} {hn : 0 < n} (hmn : m = n)
    (hef : e = f) : UnpackedFloat.finite s m e hm = .finite s n f hn := by
  subst hmn hef
  rfl

/-- A field between the least and the greatest makes a number with an implicit bit. -/
theorem unpack_packComponents {s : Sign} {exponent : BitVec 8} (mantissa : BitVec 23)
    (hlow : exponent ≠ 0#8) (hhigh : exponent ≠ -1#8) :
    UnpackedFloat.unpack Format.binary32 (packComponents Format.binary32 s exponent mantissa) =
      .finite s (2 ^ 23 + mantissa.toNat) (exponent.toNat - 150) (by positivity) := by
  have hbias : Format.binary32.exponentBias = 127 := rfl
  simp only [UnpackedFloat.unpack, unpackExponent_packComponents, unpackMantissa_packComponents,
    unpackSign_packComponents, ofBitVec_toBitVec, hlow, hhigh, if_false, hbias]
  exact finite_congr (toNat_implicit_append mantissa) (by push_cast; omega)

/-- The least field makes a number without an implicit bit. -/
theorem unpack_packComponents_zero {s : Sign} {mantissa : BitVec 23} (h : mantissa ≠ 0#23) :
    UnpackedFloat.unpack Format.binary32 (packComponents Format.binary32 s 0#8 mantissa) =
      .finite s mantissa.toNat (-149) (Nat.pos_of_ne_zero (toNat_ne_zero h)) := by
  have hne : (0#8 : BitVec 8) ≠ -1#8 := by decide
  simp only [UnpackedFloat.unpack, unpackExponent_packComponents, unpackMantissa_packComponents,
    unpackSign_packComponents, ofBitVec_toBitVec, hne, if_false, if_true, dif_neg h]
  rfl

/-- A canonical number that is not too large is unpacked as it was packed. -/
theorem unpack_pack_of_le {m : Nat} {e : Int} {hm : 0 < m}
    (h : Canonical (.finite .positive m e hm)) (he : e ≤ 104) :
    UnpackedFloat.unpack Format.binary32
      (UnpackedFloat.pack Format.binary32 (.finite .positive m e hm)) =
        .finite .positive m e hm := by
  obtain ⟨hbits, hlow, hfull⟩ := h
  have hbias : Format.binary32.exponentBias = 127 := rfl
  have hwidth : Format.binary32.mantissaBits = 24 := rfl
  have hover : ¬ 2 ^ 8 ≤ (e + (127 : Nat) + (23 : Nat)).toNat + 1 := by
    push_cast
    omega
  simp only [UnpackedFloat.pack, hbias, hwidth]
  rw [if_neg hover]
  by_cases hnormal : 2 ^ 23 ≤ m
  · have hlog : m.log2 + 1 = 24 := by
      rw [(Nat.log2_eq_iff (by omega)).mpr ⟨hnormal, hbits⟩]
    have hfield : (BitVec.ofNat 8 (e + (127 : Nat) + (23 : Nat)).toNat).toNat =
        (e + 150).toNat := by
      rw [BitVec.toNat_ofNat, Nat.mod_eq_of_lt (by push_cast; omega)]
      push_cast
      congr 1
      omega
    rw [if_pos hlog]
    generalize BitVec.ofNat 8 (e + (127 : Nat) + (23 : Nat)).toNat = exponent at hfield
    have hnonzero : exponent ≠ 0#8 := by
      rintro rfl
      have hfield : 0 = (e + 150).toNat := hfield
      omega
    have hnotfull : exponent ≠ -1#8 := by
      rintro rfl
      have hfield : 255 = (e + 150).toNat := hfield
      omega
    refine (unpack_packComponents (BitVec.ofNat 23 m) hnonzero hnotfull).trans ?_
    refine finite_congr ?_ (by omega)
    rw [BitVec.toNat_ofNat]
    omega
  · have hlog : ¬ m.log2 + 1 = 24 := by
      have := (Nat.log2_lt hm.ne').mpr (Nat.not_le.mp hnormal)
      omega
    have hmantissa : (BitVec.ofNat 23 m).toNat = m := by
      rw [BitVec.toNat_ofNat, Nat.mod_eq_of_lt (Nat.not_le.mp hnormal)]
    have hnonzero : BitVec.ofNat 23 m ≠ 0#23 := by
      intro h
      rw [h] at hmantissa
      have hmantissa : 0 = m := hmantissa
      omega
    rw [if_neg hlog]
    exact (unpack_packComponents_zero hnonzero).trans (finite_congr hmantissa (by omega))

/-- A number that is too large is infinite once it is packed. -/
theorem unpack_pack_of_lt {m : Nat} {e : Int} {hm : 0 < m} (he : 104 < e) :
    UnpackedFloat.unpack Format.binary32
      (UnpackedFloat.pack Format.binary32 (.finite .positive m e hm)) = .infinity .positive := by
  have hbias : Format.binary32.exponentBias = 127 := rfl
  have hover : 2 ^ 8 ≤ (e + (127 : Nat) + (23 : Nat)).toNat + 1 := by
    push_cast
    omega
  simp only [UnpackedFloat.pack, hbias]
  rw [if_pos hover]
  rfl

/-- What the value of a canonical number is once it is packed. -/
def packedValue (v : WithTop ℚ) : WithTop ℚ := if v < ((2 ^ 128 : ℚ) : WithTop ℚ) then v else ⊤

theorem packedValue_of_lt {q : ℚ} (h : q < 2 ^ 128) : packedValue (q : ℚ) = (q : ℚ) :=
  if_pos (WithTop.coe_lt_coe.mpr h)

theorem packedValue_of_le {q : ℚ} (h : 2 ^ 128 ≤ q) : packedValue (q : ℚ) = ⊤ :=
  if_neg (not_lt.mpr (WithTop.coe_le_coe.mpr h))

theorem packedValue_zero : packedValue 0 = 0 := packedValue_of_lt (by positivity)

theorem packedValue_mono {v w : WithTop ℚ} (h : v ≤ w) : packedValue v ≤ packedValue w := by
  unfold packedValue
  by_cases hw : w < ((2 ^ 128 : ℚ) : WithTop ℚ)
  · rw [if_pos hw, if_pos (h.trans_lt hw)]
    exact h
  · rw [if_neg hw]
    exact le_top

theorem scaled_lt {m : Nat} {e : Int} (h : m < 2 ^ 24) : scaled m e < 2 ^ (e + 24) := by
  rw [scaled, zpow_add₀ two_ne_zero, mul_comm]
  have h : (m : ℚ) < 2 ^ (24 : ℤ) := by exact_mod_cast h
  exact mul_lt_mul_of_pos_left h (by positivity)

theorem le_scaled {m : Nat} {e : Int} (h : 2 ^ 23 ≤ m) : 2 ^ (e + 23) ≤ scaled m e := by
  rw [scaled, zpow_add₀ two_ne_zero, mul_comm]
  have h : (2 : ℚ) ^ (23 : ℤ) ≤ m := by exact_mod_cast h
  exact mul_le_mul_of_nonneg_right h (by positivity)

theorem unpackedValue_unpack_pack {u : UnpackedFloat} (hcanonical : Canonical u)
    (hnonneg : UnpackedNonneg u) :
    UnpackedNonneg
        (UnpackedFloat.unpack Format.binary32 (UnpackedFloat.pack Format.binary32 u)) ∧
      unpackedValue (UnpackedFloat.unpack Format.binary32 (UnpackedFloat.pack Format.binary32 u)) =
        packedValue (unpackedValue u) := by
  have hlimit : ((2 : ℚ) ^ (128 : ℤ)) = 2 ^ 128 := by norm_cast
  cases u with
  | notANumber => exact hnonneg.elim
  | infinity s =>
    cases s with
    | negative => exact hnonneg.elim
    | positive => exact ⟨trivial, rfl⟩
  | zero s =>
    cases s <;> exact ⟨trivial, packedValue_zero.symm⟩
  | finite s m e hm =>
    cases s with
    | negative => exact hnonneg.elim
    | positive =>
      rcases le_or_gt e 104 with he | he
      · have hlt : scaled m e < 2 ^ 128 := by
          rw [← hlimit]
          exact (scaled_lt hcanonical.1).trans_le (zpow_le_zpow_right₀ one_le_two (by omega))
        rw [unpack_pack_of_le hcanonical he]
        exact ⟨trivial, (packedValue_of_lt hlt).symm⟩
      · have hfull : 2 ^ 23 ≤ m := hcanonical.2.2.resolve_right (by omega)
        have hle : 2 ^ 128 ≤ scaled m e := by
          rw [← hlimit]
          exact (zpow_le_zpow_right₀ one_le_two (by omega)).trans (le_scaled hfull)
        rw [unpack_pack_of_lt he]
        exact ⟨trivial, (packedValue_of_le hle).symm⟩

/-! ### Values -/

/-- Zero, or a positive number. -/
def Nonneg (x : Float32) : Prop := UnpackedNonneg x.toModel.unpack

/-- The value of a number that is not negative. -/
def value (x : Float32) : WithTop ℚ := unpackedValue x.toModel.unpack

theorem unpackedValue_nonneg (u : UnpackedFloat) : 0 ≤ unpackedValue u := by
  cases u with
  | notANumber | zero => exact le_rfl
  | infinity s =>
    cases s with
    | negative => exact le_rfl
    | positive => exact le_top
  | finite s m e hm =>
    cases s with
    | negative => exact le_rfl
    | positive => exact WithTop.coe_le_coe.mpr (scaled_nonneg m e)

theorem value_nonneg (x : Float32) : 0 ≤ value x := unpackedValue_nonneg _

theorem canonical_toModel (x : Float32) : Canonical x.toModel.unpack := canonical_unpack _

/-! ### Comparison -/

/-- Canonical numbers are compared by their exponents first. -/
theorem scaled_lt_scaled {m n : Nat} {e f : Int} {hm : 0 < m} {hn : 0 < n}
    (hx : Canonical (.finite .positive m e hm)) (hy : Canonical (.finite .positive n f hn))
    (h : e < f) : scaled m e < scaled n f := by
  have hfull : 2 ^ 23 ≤ n := hy.2.2.resolve_right (by have := hx.2.1; omega)
  calc scaled m e < 2 ^ (e + 24) := scaled_lt hx.1
    _ ≤ 2 ^ (f + 23) := zpow_le_zpow_right₀ one_le_two (by omega)
    _ ≤ scaled n f := le_scaled hfull

theorem compare_finite {m n : Nat} {e f : Int} {hm : 0 < m} {hn : 0 < n}
    (hx : Canonical (.finite .positive m e hm)) (hy : Canonical (.finite .positive n f hn)) :
    ((compare e f).then (compare m n) = .lt ↔ scaled m e < scaled n f) ∧
      (((compare e f).then (compare m n)).isLE ↔ scaled m e ≤ scaled n f) := by
  rcases lt_trichotomy e f with h | rfl | h
  · rw [Int.compare_eq_lt.mpr h]
    have hlt := scaled_lt_scaled hx hy h
    simp [hlt, hlt.le]
  · have hpow : (0 : ℚ) < 2 ^ e := by positivity
    rw [Int.compare_eq_eq.mpr rfl]
    simp [scaled, hpow, Nat.compare_eq_lt, Nat.isLE_compare]
  · rw [Int.compare_eq_gt.mpr h]
    have hlt := scaled_lt_scaled hy hx h
    simp [hlt.not_ge, hlt.not_gt]

theorem UnpackedNonneg.cases {u : UnpackedFloat} (h : UnpackedNonneg u) :
    (∃ s, u = .zero s) ∨ (∃ m e hm, u = .finite .positive m e hm) ∨ u = .infinity .positive := by
  cases u with
  | notANumber => exact h.elim
  | zero s => exact .inl ⟨s, rfl⟩
  | infinity s =>
    cases s with
    | negative => exact h.elim
    | positive => exact .inr (.inr rfl)
  | finite s m e hm =>
    cases s with
    | negative => exact h.elim
    | positive => exact .inr (.inl ⟨m, e, hm, rfl⟩)

/-- Comparing numbers that are not negative compares their values. -/
theorem compare_eq_some {u v : UnpackedFloat} (hu : Canonical u) (hv : Canonical v)
    (hu' : UnpackedNonneg u) (hv' : UnpackedNonneg v) :
    ∃ order, u.compare v = some order ∧
      (order = .lt ↔ unpackedValue u < unpackedValue v) ∧
      (order.isLE ↔ unpackedValue u ≤ unpackedValue v) := by
  obtain ⟨s, rfl⟩ | ⟨m, e, hm, rfl⟩ | rfl := hu'.cases <;>
    obtain ⟨t, rfl⟩ | ⟨n, f, hn, rfl⟩ | rfl := hv'.cases
  · exact ⟨.eq, rfl, by simp [unpackedValue]⟩
  · exact ⟨.lt, rfl, by simp [unpackedValue, scaled_pos hn f, scaled_nonneg]⟩
  · exact ⟨.lt, rfl, by simp [unpackedValue]⟩
  · exact ⟨.gt, rfl, by simp [unpackedValue, scaled_pos hm e, scaled_nonneg]⟩
  · refine ⟨_, rfl, ?_⟩
    simp only [unpackedValue, WithTop.coe_lt_coe, WithTop.coe_le_coe]
    exact compare_finite hu hv
  · exact ⟨.lt, rfl, by simp [unpackedValue]⟩
  · exact ⟨.gt, rfl, by simp [unpackedValue]⟩
  · exact ⟨.gt, rfl, by simp [unpackedValue]⟩
  · exact ⟨.eq, rfl, by simp [unpackedValue]⟩

section

variable {x y : Float32}

theorem lt_iff_compare : x < y ↔ x.toModel.unpack.compare y.toModel.unpack = some .lt := by
  show decide (x.toModel.unpack.lt y.toModel.unpack = true) = true ↔ _
  rw [decide_eq_true_iff, UnpackedFloat.lt, beq_iff_eq]

theorem le_iff_compare :
    x ≤ y ↔ (x.toModel.unpack.compare y.toModel.unpack).any (·.isLE) := by
  show decide (x.toModel.unpack.le y.toModel.unpack = true) = true ↔ _
  rw [decide_eq_true_iff, UnpackedFloat.le]

theorem lt_iff_value_lt (hx : Nonneg x) (hy : Nonneg y) : x < y ↔ value x < value y := by
  obtain ⟨order, hcompare, hlt, -⟩ :=
    compare_eq_some (canonical_toModel x) (canonical_toModel y) hx hy
  rw [lt_iff_compare, hcompare, Option.some_inj, hlt]
  rfl

theorem le_iff_value_le (hx : Nonneg x) (hy : Nonneg y) : x ≤ y ↔ value x ≤ value y := by
  obtain ⟨order, hcompare, -, hle⟩ :=
    compare_eq_some (canonical_toModel x) (canonical_toModel y) hx hy
  rw [le_iff_compare, hcompare, Option.any_some, hle]
  rfl

/-- Not a number. -/
def IsNan (x : Float32) : Prop := x.toModel.unpack = .notANumber

theorem IsNan.not_lt (h : IsNan x) : ¬ x < y := by
  rw [lt_iff_compare, h]
  simp [UnpackedFloat.compare]

/-- What is not below a positive number is greater than zero, unless it is not a number. -/
theorem nonneg_or_nan_of_not_lt (hx : Nonneg x) (hpos : 0 < value x) (h : ¬ y < x) :
    Nonneg y ∨ IsNan y := by
  rw [lt_iff_compare] at h
  unfold Nonneg IsNan value at *
  generalize x.toModel.unpack = u at *
  generalize y.toModel.unpack = v at *
  cases v with
  | notANumber => exact .inr rfl
  | zero t => exact .inl trivial
  | infinity t =>
    cases t with
    | positive => exact .inl trivial
    | negative => obtain ⟨s, rfl⟩ | ⟨m, e, hm, rfl⟩ | rfl := hx.cases <;> exact absurd rfl h
  | finite t n f hn =>
    cases t with
    | positive => exact .inl trivial
    | negative =>
      obtain ⟨s, rfl⟩ | ⟨m, e, hm, rfl⟩ | rfl := hx.cases
      · exact absurd hpos (lt_irrefl 0)
      · exact absurd rfl h
      · exact absurd rfl h

/-- What is above a positive number is positive. -/
theorem nonneg_of_le (hx : Nonneg x) (hpos : 0 < value x) (h : x ≤ y) : Nonneg y := by
  rw [le_iff_compare] at h
  unfold Nonneg value at *
  generalize x.toModel.unpack = u at *
  generalize y.toModel.unpack = v at *
  obtain ⟨s, rfl⟩ | ⟨m, e, hm, rfl⟩ | rfl := hx.cases
  · exact absurd hpos (lt_irrefl 0)
  all_goals
    cases v with
    | notANumber => exact absurd h Bool.false_ne_true
    | zero => trivial
    | infinity t | finite t =>
      cases t with
      | positive => trivial
      | negative => exact absurd h Bool.false_ne_true

theorem unpack_zero : (0.0 : Float32).toModel.unpack = .zero .positive := rfl

theorem nonneg_zero : Nonneg 0.0 := by
  rw [Nonneg, unpack_zero]
  trivial

theorem value_zero : value 0.0 = 0 := by
  rw [value, unpack_zero]
  rfl

theorem nonneg_of_pos (h : 0.0 < x) : Nonneg x ∧ 0 < value x := by
  rw [lt_iff_compare, unpack_zero] at h
  unfold Nonneg value
  generalize x.toModel.unpack = u at *
  cases u with
  | notANumber | zero => exact absurd h (by simp [UnpackedFloat.compare])
  | infinity s =>
    cases s with
    | negative => exact absurd h (by simp [UnpackedFloat.compare])
    | positive => exact ⟨trivial, WithTop.coe_lt_top 0⟩
  | finite s m e hm =>
    cases s with
    | negative => exact absurd h (by simp [UnpackedFloat.compare])
    | positive => exact ⟨trivial, WithTop.coe_lt_coe.mpr (scaled_pos hm e)⟩

end

end Chiptune
