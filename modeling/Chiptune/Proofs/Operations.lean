import Chiptune.Proofs.Numbers

/-!
# Computing with numbers

An operation computes with values and rounds. A product with a positive number
therefore keeps the order, and a sum, a product or a quotient of positive numbers
that are neither too small nor too large is off by a small part of itself. The
whole part of a number is the floor of its value.
-/
namespace Chiptune
open Float.Model (Format UnpackedFloat totalExponent)
open Float.Model.UnpackedFloat

/-! ### Operations -/

theorem IsNan.mul (x : Float32) {y : Float32} (hy : IsNan y) : IsNan (x * y) := by
  show UnpackedFloat.unpack Format.binary32 (UnpackedFloat.pack Format.binary32
    (UnpackedFloat.mul Format.binary32 x.toModel.unpack y.toModel.unpack)) = _
  have h : UnpackedFloat.mul Format.binary32 x.toModel.unpack .notANumber = .notANumber := by
    cases x.toModel.unpack <;> rfl
  rw [hy, h]
  rfl

theorem IsNan.div (x : Float32) {y : Float32} (hy : IsNan y) : IsNan (x / y) := by
  show UnpackedFloat.unpack Format.binary32 (UnpackedFloat.pack Format.binary32
    (UnpackedFloat.div Format.binary32 x.toModel.unpack y.toModel.unpack)) = _
  have h : UnpackedFloat.div Format.binary32 x.toModel.unpack .notANumber = .notANumber := by
    cases x.toModel.unpack <;> rfl
  rw [hy, h]
  rfl

theorem IsNan.below (k : Int) {x : Float32} (h : IsNan x) : Below k x := by
  rw [Below, h]
  trivial

/-- The number is what an exact value is rounded to. -/
def IsRounded (q : ℚ) (x : Float32) : Prop :=
  ∃ u, RoundsTo q u ∧
    x.toModel.unpack =
      UnpackedFloat.unpack Format.binary32 (UnpackedFloat.pack Format.binary32 u)

/-- A positive number that is not infinite, with its value. -/
structure HasValue (q : ℚ) (x : Float32) : Prop where
  nonneg : Nonneg x
  value_eq : value x = q
  pos : 0 < q

theorem hasValue_of_unpack {x : Float32} {m : Nat} {e : Int} {hm : 0 < m}
    (h : x.toModel.unpack = .finite .positive m e hm) : HasValue (scaled m e) x where
  nonneg := by
    rw [Nonneg, h]
    trivial
  value_eq := by
    rw [value, h]
    rfl
  pos := scaled_pos hm e

theorem HasValue.exists_finite {x : Float32} {q : ℚ} (hx : HasValue q x) :
    ∃ m e hm, x.toModel.unpack = .finite .positive m e hm ∧ scaled m e = q := by
  obtain ⟨hnonneg, hvalue, hq⟩ := hx
  unfold value at hvalue
  obtain ⟨s, h⟩ | ⟨m, e, hm, h⟩ | h := hnonneg.cases
  · rw [h] at hvalue
    exact absurd (WithTop.coe_injective hvalue) hq.ne
  · rw [h] at hvalue
    exact ⟨m, e, hm, h, WithTop.coe_injective hvalue⟩
  · rw [h] at hvalue
    exact absurd hvalue.symm WithTop.coe_ne_top

section

variable {x y : Float32} {p q : ℚ}

/-- A number that is not too small has all the bits of a mantissa. -/
theorem le_mantissa_of_le_scaled {m : Nat} {e : Int} {hm : 0 < m}
    (h : Canonical (.finite .positive m e hm)) (hlow : 2 ^ (-126 : ℤ) ≤ scaled m e) :
    2 ^ 23 ≤ m := by
  obtain hfull | rfl := h.2.2
  · exact hfull
  · have hle : (2 : ℚ) ^ 23 * 2 ^ (-149 : ℤ) ≤ m * 2 ^ (-149 : ℤ) := by
      calc (2 : ℚ) ^ 23 * 2 ^ (-149 : ℤ) = 2 ^ (-126 : ℤ) := by norm_num
        _ ≤ scaled m (-149) := hlow
    exact_mod_cast le_of_mul_le_mul_right hle (by positivity)

theorem scaled_mul (m n : Nat) (e f : Int) :
    ((m * n : Nat) : ℚ) * 2 ^ (e + f) = scaled m e * scaled n f := by
  rw [scaled, scaled, zpow_add₀ two_ne_zero]
  push_cast
  ring

theorem isRounded_mul (hx : HasValue p x) (hy : HasValue q y) (hq : 2 ^ (-126 : ℤ) ≤ q) :
    IsRounded (p * q) (x * y) := by
  obtain ⟨m, e, hm, hux, rfl⟩ := hx.exists_finite
  obtain ⟨n, f, hn, huy, rfl⟩ := hy.exists_finite
  have hcanonical := canonical_toModel y
  rw [huy] at hcanonical
  have hfull : 2 ^ 23 ≤ m * n :=
    (le_mantissa_of_le_scaled hcanonical hq).trans (Nat.le_mul_of_pos_left n hm)
  have hlog : 23 ≤ (m * n).log2 := (Nat.le_log2 (by omega)).mpr hfull
  refine ⟨UnpackedFloat.mul Format.binary32 x.toModel.unpack y.toModel.unpack, ?_, rfl⟩
  rw [hux, huy, ← scaled_mul]
  refine roundsTo_roundWithAccuracy (Nat.mul_pos hm hn) (represents_exact _) ?_
  simp only [totalExponent]
  omega

theorem log2_shiftLeft {m : Nat} (hm : 0 < m) (shift : Nat) :
    (m <<< shift).log2 = m.log2 + shift := by
  have hpos : 0 < 2 ^ shift := Nat.two_pow_pos shift
  rw [Nat.shiftLeft_eq, Nat.log2_eq_iff (Nat.mul_pos hm hpos).ne', Nat.add_right_comm, Nat.pow_add,
    Nat.pow_add]
  exact ⟨Nat.mul_le_mul_right _ (Nat.log2_self_le hm.ne'),
    Nat.mul_lt_mul_of_pos_right Nat.lt_log2_self hpos⟩

theorem scaled_shiftLeft (m : Nat) (e : Int) (shift : Nat) :
    scaled (m <<< shift) (e - shift) = scaled m e := by
  rw [scaled, scaled, Nat.shiftLeft_eq, zpow_sub₀ two_ne_zero, zpow_natCast]
  push_cast
  field_simp

/-- Rounding a mantissa of any length. -/
theorem roundsTo_normalize {m : Nat} (hm : 0 < m) (e : Int) (s : Sign) :
    RoundsTo (scaled m e) (UnpackedFloat.normalize Format.binary32 m e s) := by
  have hcompare : compare (m : Int) 0 = .gt := Int.compare_eq_gt.mpr (by omega)
  have htarget : Format.binary32.targetExponent (totalExponent m e) =
      max (totalExponent m e - 24) (-149) := rfl
  simp only [UnpackedFloat.normalize, hcompare, UnpackedFloat.round, htarget,
    UnpackedFloat.decreaseExponent, Int.toNat_natCast]
  generalize hshift : (e - max (totalExponent m e - 24) (-149)).toNat = shift
  have hpos : 0 < m <<< shift := by
    rw [Nat.shiftLeft_eq]
    positivity
  have hlog := log2_shiftLeft hm shift
  rw [← scaled_shiftLeft m e shift]
  refine roundsTo_roundWithAccuracy hpos (represents_exact _) ?_
  simp only [totalExponent] at hshift ⊢
  rw [hlog]
  omega

theorem isRounded_toFloat32 {n : UInt32} (h : n ≠ 0) : IsRounded n.toNat n.toFloat32 := by
  have hscaled : scaled n.toNat 0 = n.toNat := by rw [scaled, zpow_zero, mul_one]
  exact ⟨_, hscaled ▸ roundsTo_normalize (toNat_pos h) 0 .positive, rfl⟩

theorem isRounded_add (hx : HasValue p x) (hy : HasValue q y) : IsRounded (p + q) (x + y) := by
  obtain ⟨m, e, hm, hux, rfl⟩ := hx.exists_finite
  obtain ⟨n, f, hn, huy, rfl⟩ := hy.exists_finite
  refine ⟨UnpackedFloat.add Format.binary32 x.toModel.unpack y.toModel.unpack, ?_, rfl⟩
  rw [hux, huy]
  -- Both mantissas are brought to the lower exponent, where nothing is lost.
  simp only [UnpackedFloat.add, UnpackedFloat.decreaseExponent]
  generalize hi : (e - min e f).toNat = i
  generalize hj : (f - min e f).toNat = j
  have hexact : scaled m e + scaled n f = scaled (m <<< i + n <<< j) (min e f) := by
    rw [← scaled_shiftLeft m e i, ← scaled_shiftLeft n f j, show e - i = min e f by omega,
      show f - j = min e f by omega]
    simp only [scaled]
    push_cast
    ring
  have hpos : 0 < m <<< i + n <<< j := by
    rw [Nat.shiftLeft_eq]
    positivity
  rw [hexact]
  exact roundsTo_normalize hpos (min e f) .positive

theorem scaled_bounds {m : Nat} (hm : 0 < m) (e : Int) :
    2 ^ (totalExponent m e - 1) ≤ scaled m e ∧ scaled m e < 2 ^ totalExponent m e := by
  have hlog : Int.log 2 (scaled m e) = totalExponent m e - 1 := log_eq e hm le_rfl (lt_add_one _)
  constructor
  · rw [← hlog]
    exact_mod_cast Int.zpow_log_le_self Nat.one_lt_two (scaled_pos hm e)
  · have h := Int.lt_zpow_succ_log_self Nat.one_lt_two (scaled m e)
    rw [hlog, sub_add_cancel] at h
    exact_mod_cast h

/-- A quotient has at least twenty-four bits. -/
theorem le_log2_shiftLeft_div {m n shift : Nat} (hm : 0 < m) (hn : 0 < n)
    (h : n.log2 < m.log2 + shift) :
    0 < m <<< shift / n ∧ m.log2 + shift - n.log2 - 1 ≤ (m <<< shift / n).log2 := by
  have hle : 2 ^ (m.log2 + shift - n.log2 - 1) ≤ m <<< shift / n := by
    rw [Nat.le_div_iff_mul_le hn]
    calc 2 ^ (m.log2 + shift - n.log2 - 1) * n
        ≤ 2 ^ (m.log2 + shift - n.log2 - 1) * 2 ^ (n.log2 + 1) :=
          Nat.mul_le_mul_left _ Nat.lt_log2_self.le
      _ = 2 ^ m.log2 * 2 ^ shift := by
          rw [← Nat.pow_add, ← Nat.pow_add]
          congr 1
          omega
      _ ≤ m <<< shift := by
          rw [Nat.shiftLeft_eq]
          exact Nat.mul_le_mul_right _ (Nat.log2_self_le hm.ne')
  have hpos : 0 < m <<< shift / n := (Nat.two_pow_pos _).trans_le hle
  exact ⟨hpos, (Nat.le_log2 hpos.ne').mpr hle⟩

theorem isRounded_div (hx : HasValue p x) (hy : HasValue q y) (hlow : 2 ^ (-126 : ℤ) ≤ p / q) :
    IsRounded (p / q) (x / y) := by
  obtain ⟨m, e, hm, hux, rfl⟩ := hx.exists_finite
  obtain ⟨n, f, hn, huy, rfl⟩ := hy.exists_finite
  refine ⟨UnpackedFloat.div Format.binary32 x.toModel.unpack y.toModel.unpack, ?_, rfl⟩
  rw [hux, huy]
  have htarget : Format.binary32.targetExponent (totalExponent m e - totalExponent n f) =
      max (totalExponent m e - totalExponent n f - 24) (-149) := rfl
  have hexponent : -127 < totalExponent m e - totalExponent n f := by
    have hquotient : scaled m e / scaled n f <
        2 ^ totalExponent m e / 2 ^ (totalExponent n f - 1) :=
      div_lt_div₀ (scaled_bounds hm e).2 (scaled_bounds hn f).1 (by positivity) (by positivity)
    rw [← zpow_sub₀ two_ne_zero] at hquotient
    have hlt := (zpow_lt_zpow_iff_right₀ one_lt_two).mp (hlow.trans_lt hquotient)
    omega
  show RoundsTo _ (roundWithAccuracy _ _ _ _ _)
  simp only [htarget]
  generalize ht : min (e - f) (max (totalExponent m e - totalExponent n f - 24) (-149)) = t
  generalize hshift : (e - f - t).toNat = shift
  simp only [totalExponent] at ht hexponent
  obtain ⟨hpos, hlog⟩ := @le_log2_shiftLeft_div m n shift hm hn (by omega)
  have hvalue : scaled m e / scaled n f =
      ((m <<< shift / n : Nat) + ((m <<< shift % n : Nat) : ℚ) / n) * 2 ^ t := by
    have hdivide : (m : ℚ) * 2 ^ shift = n * (m <<< shift / n : Nat) + (m <<< shift % n : Nat) := by
      have h := Nat.div_add_mod (m <<< shift) n
      rw [Nat.shiftLeft_eq] at h ⊢
      exact_mod_cast h.symm
    have hpow : (2 : ℚ) ^ e = 2 ^ shift * 2 ^ f * 2 ^ t := by
      rw [← zpow_natCast, ← zpow_add₀ two_ne_zero, ← zpow_add₀ two_ne_zero]
      congr 1
      omega
    have hn : (n : ℚ) ≠ 0 := by exact_mod_cast hn.ne'
    rw [scaled, scaled, hpow]
    field_simp
    linarith
  rw [hvalue]
  refine roundsTo_roundWithAccuracy hpos (represents_fraction _ (Nat.mod_lt _ hn)) ?_
  simp only [totalExponent]
  omega

end

namespace IsRounded

variable {x y : Float32} {p q : ℚ}

theorem nonneg (h : IsRounded q x) : Nonneg x := by
  obtain ⟨u, hu, hx⟩ := h
  rw [Nonneg, hx]
  exact (unpackedValue_unpack_pack hu.canonical hu.nonneg).1

/-- Rounding keeps the order. -/
theorem value_le (hx : IsRounded p x) (hy : IsRounded q y) (hp : 0 < p) (hpq : p ≤ q) :
    value x ≤ value y := by
  obtain ⟨u, hu, hx⟩ := hx
  obtain ⟨v, hv, hy⟩ := hy
  rw [value, value, hx, hy, (unpackedValue_unpack_pack hu.canonical hu.nonneg).2,
    (unpackedValue_unpack_pack hv.canonical hv.nonneg).2]
  exact packedValue_mono (hu.value_le hv hp hpq)

/-- A number that is not too large has a value, and less than one unit in the last place is lost or
gained. -/
theorem exists_value (h : IsRounded q x) (hhigh : q + 2 ^ lastPlace q < 2 ^ 128) :
    ∃ r : ℚ, value x = r ∧ q - 2 ^ lastPlace q < r ∧ r ≤ q + 2 ^ lastPlace q := by
  obtain ⟨u, hu, hx⟩ := h
  obtain ⟨r, hr, hlow, hr'⟩ := hu.exists_value
  refine ⟨r, ?_, hlow, hr'⟩
  rw [value, hx, (unpackedValue_unpack_pack hu.canonical hu.nonneg).2, hr]
  exact packedValue_of_lt (hr'.trans_lt hhigh)

/-- One unit in the last place of a number that is not too small. -/
theorem unit_le (hq : 2 ^ (-126 : ℤ) ≤ q) : 2 ^ lastPlace q ≤ q / 2 ^ 23 := by
  have hpos : 0 < q := (by positivity : (0 : ℚ) < _).trans_le hq
  have hlow : -126 ≤ Int.log 2 q :=
    (Int.zpow_le_iff_le_log Nat.one_lt_two hpos).mp (by exact_mod_cast hq)
  have hplace : lastPlace q = Int.log 2 q - 23 := max_eq_left (by omega)
  have hlog : (2 : ℚ) ^ Int.log 2 q ≤ q := by
    exact_mod_cast Int.zpow_log_le_self Nat.one_lt_two hpos
  rw [hplace, zpow_sub₀ two_ne_zero]
  exact div_le_div_of_nonneg_right hlog (by positivity)

/-- Of a number that is neither too small nor too large, only a small part is lost or gained. -/
theorem near (h : IsRounded q x) (hlow : 2 ^ (-126 : ℤ) ≤ q) (hhigh : q ≤ 2 ^ 127) :
    ∃ r, HasValue r x ∧ q * (1 - 1 / 2 ^ 23) ≤ r ∧ r ≤ q * (1 + 1 / 2 ^ 23) := by
  have hpos : 0 < q := (by positivity : (0 : ℚ) < _).trans_le hlow
  have hunit := unit_le hlow
  have hlimit : q + 2 ^ lastPlace q < 2 ^ 128 := by
    norm_num at hunit hhigh ⊢
    linarith
  obtain ⟨r, hr, hr', hr''⟩ := h.exists_value hlimit
  exact ⟨r, ⟨h.nonneg, hr, by linarith⟩, by linarith, by linarith⟩

end IsRounded

/-- A product with a number that is neither zero, too small nor infinite. -/
theorem value_mul_cases {x y : Float32} {q : ℚ} (hx : Nonneg x) (hy : HasValue q y)
    (hq : 2 ^ (-126 : ℤ) ≤ q) :
    Nonneg (x * y) ∧
      (value x = 0 ∧ value (x * y) = 0 ∨
        (∃ p, HasValue p x ∧ IsRounded (p * q) (x * y)) ∨
        value x = ⊤ ∧ value (x * y) = ⊤) := by
  obtain ⟨n, f, hn, huy, -⟩ := hy.exists_finite
  have hproduct : (x * y).toModel.unpack =
      UnpackedFloat.unpack Format.binary32 (UnpackedFloat.pack Format.binary32
        (UnpackedFloat.mul Format.binary32 x.toModel.unpack y.toModel.unpack)) := rfl
  obtain ⟨s, h⟩ | ⟨m, e, hm, h⟩ | h := hx.cases
  · have hpacked := unpackedValue_unpack_pack (u := .zero (s * .positive)) trivial trivial
    rw [h, huy] at hproduct
    rw [Nonneg, value, value, hproduct, h]
    exact ⟨hpacked.1, .inl ⟨rfl, hpacked.2.trans packedValue_zero⟩⟩
  · have hvalue := hasValue_of_unpack h
    have hrounded := isRounded_mul hvalue hy hq
    exact ⟨hrounded.nonneg, .inr (.inl ⟨_, hvalue, hrounded⟩)⟩
  · have hpacked := unpackedValue_unpack_pack (u := .infinity .positive) trivial trivial
    rw [h, huy] at hproduct
    rw [Nonneg, value, value, hproduct, h]
    exact ⟨hpacked.1, .inr (.inr ⟨rfl, hpacked.2⟩)⟩

/-- Multiplication keeps the order. -/
theorem value_mul_mono {x x' y : Float32} {q : ℚ} (hx : Nonneg x) (hx' : Nonneg x')
    (hy : HasValue q y) (hq : 2 ^ (-126 : ℤ) ≤ q) (h : value x ≤ value x') :
    value (x * y) ≤ value (x' * y) := by
  have hpos := hy.pos
  obtain ⟨-, ⟨-, hzero⟩ | ⟨p, hp, hrounded⟩ | ⟨hxtop, -⟩⟩ := value_mul_cases hx hy hq
  · rw [hzero]
    exact value_nonneg _
  · obtain ⟨-, ⟨hzero, -⟩ | ⟨p', hp', hrounded'⟩ | ⟨-, htop⟩⟩ := value_mul_cases hx' hy hq
    · rw [hp.value_eq, hzero] at h
      exact absurd (WithTop.coe_le_coe.mp h) hp.pos.not_ge
    · rw [hp.value_eq, hp'.value_eq, WithTop.coe_le_coe] at h
      exact hrounded.value_le hrounded' (mul_pos hp.pos hpos)
        (mul_le_mul_of_nonneg_right h hpos.le)
    · rw [htop]
      exact le_top
  · obtain ⟨-, ⟨hzero, -⟩ | ⟨p', hp', -⟩ | ⟨-, htop⟩⟩ := value_mul_cases hx' hy hq
    · rw [hxtop, hzero] at h
      exact absurd (top_le_iff.mp h) WithTop.coe_ne_top
    · rw [hxtop, hp'.value_eq] at h
      exact absurd (top_le_iff.mp h) WithTop.coe_ne_top
    · rw [htop]
      exact le_top

/-! ### Whole parts -/

theorem toNat_roundToInt (m : Nat) (e : Int) :
    (roundToInt .positive m e).toNat = ⌊scaled m e⌋₊ := by
  have hdown : (0 - (e - e.toNat)).toNat = (-e).toNat := by omega
  have hscaled : scaled m e = ((m * 2 ^ e.toNat : Nat) : ℚ) / (2 ^ (-e).toNat : Nat) := by
    have hpow : (2 : ℚ) ^ e = 2 ^ e.toNat / 2 ^ (-e).toNat := by
      rw [← zpow_natCast, ← zpow_natCast, ← zpow_sub₀ two_ne_zero]
      congr 1
      omega
    rw [scaled, hpow]
    push_cast
    ring
  simp only [roundToInt, decreaseExponent, shiftToExponent, mantissa_shiftRight,
    mantissa_ofMantissaAndAccuracy, Sign.apply, Int.sub_zero, Int.toNat_natCast, hdown]
  rw [hscaled, Nat.floor_div_eq_div, Nat.shiftLeft_eq]

/-- The whole part of a value, cut down to sixty-four bits. -/
def wholePart64 : WithTop ℚ → Nat
  | (q : ℚ) => min ⌊q⌋₊ (2 ^ 64 - 1)
  | ⊤ => 2 ^ 64 - 1

theorem wholePart64_mono {v w : WithTop ℚ} (h : v ≤ w) : wholePart64 v ≤ wholePart64 w := by
  cases w with
  | top =>
    cases v with
    | top => exact le_rfl
    | coe q => exact min_le_right _ _
  | coe r =>
    cases v with
    | top => exact absurd (top_le_iff.mp h) WithTop.coe_ne_top
    | coe q => exact min_le_min_right _ (Nat.floor_mono (WithTop.coe_le_coe.mp h))

theorem lt_wholePart64_add_one {q : ℚ} (h : q < 2 ^ 64) : q < wholePart64 q + 1 := by
  have hfloor : ⌊q⌋₊ < 2 ^ 64 := by
    rcases le_or_gt 0 q with hpos | hneg
    · rw [Nat.floor_lt hpos]
      exact_mod_cast h
    · rw [Nat.floor_of_nonpos hneg.le]
      positivity
  have hwhole : wholePart64 q = ⌊q⌋₊ := min_eq_left (by omega)
  rw [hwhole]
  exact Nat.lt_floor_add_one q

theorem toNat_ofNatClamp (n : Nat) : (UInt64.ofNatClamp n).toNat = min n (2 ^ 64 - 1) := by
  unfold UInt64.ofNatClamp
  split
  · rename_i h
    have h : n < 2 ^ 64 := h
    rw [min_eq_left (by omega)]
    exact UInt64.toNat_ofNatLT
  · rename_i h
    have h : ¬ n < 2 ^ 64 := h
    rw [min_eq_right (by omega)]
    rfl

/-- The whole part of a number below a power of two is below it. -/
theorem Below.toUInt64_lt {k : Nat} {x : Float32} (h : Below k x) : x.toUInt64.toNat < 2 ^ k := by
  have hint := h.toInt_lt (UInt64.size - 1)
  have hcast : ((2 ^ k : Nat) : Int) = 2 ^ k := by push_cast; rfl
  rw [← hcast] at hint
  have hpos := Nat.two_pow_pos k
  show (UInt64.ofNatClamp _).toNat < 2 ^ k
  rw [toNat_ofNatClamp]
  omega

theorem toNat_toUInt64 {x : Float32} (hx : Nonneg x) :
    x.toUInt64.toNat = wholePart64 (value x) := by
  show (UInt64.ofNatClamp _).toNat = _
  rw [toNat_ofNatClamp, value]
  obtain ⟨s, h⟩ | ⟨m, e, hm, h⟩ | h := hx.cases <;> rw [h]
  · show 0 = min ⌊(0 : ℚ)⌋₊ (2 ^ 64 - 1)
    rw [Nat.floor_zero, Nat.zero_min]
  · show min (roundToInt .positive m e).toNat _ = min ⌊scaled m e⌋₊ _
    rw [toNat_roundToInt]
  · rfl

/-! ### Ranges -/

/-- A positive number with a value in a range. -/
def Within (low high : ℚ) (x : Float32) : Prop := ∃ q, HasValue q x ∧ low ≤ q ∧ q ≤ high

namespace Within

variable {x y : Float32} {a b c d low high : ℚ}

theorem of_unpack (m : Nat) (e : Int) {hm : 0 < m}
    (h : x.toModel.unpack = .finite .positive m e hm) :
    Within (scaled m e) (scaled m e) x :=
  ⟨_, hasValue_of_unpack h, le_rfl, le_rfl⟩

theorem widen (h : Within a b x) (hlow : low ≤ a) (hhigh : b ≤ high) : Within low high x := by
  obtain ⟨q, hq, ha, hb⟩ := h
  exact ⟨q, hq, hlow.trans ha, hb.trans hhigh⟩

theorem below (h : Within a b x) {k : Int} (hb : b < 2 ^ k) : Below k x := by
  obtain ⟨q, hq, -, hqb⟩ := h
  obtain ⟨m, e, hm, hunpack, rfl⟩ := hq.exists_finite
  have hlow : (2 : ℚ) ^ (totalExponent m e - 1) < 2 ^ k :=
    (scaled_bounds hm e).1.trans_lt (hqb.trans_lt hb)
  have hexponent := (zpow_lt_zpow_iff_right₀ one_lt_two).mp hlow
  rw [Below, hunpack]
  show totalExponent m e ≤ k
  omega

theorem atLeast (h : Within a b x) {k : Int} (ha : 2 ^ k ≤ a) : AtLeast k x := by
  obtain ⟨q, hq, haq, -⟩ := h
  obtain ⟨m, e, hm, hunpack, rfl⟩ := hq.exists_finite
  have hhigh : (2 : ℚ) ^ k < 2 ^ totalExponent m e :=
    (ha.trans haq).trans_lt (scaled_bounds hm e).2
  rw [AtLeast, hunpack]
  exact (zpow_lt_zpow_iff_right₀ one_lt_two).mp hhigh

/-- Rounding takes a little more room on both sides. -/
theorem of_isRounded {q : ℚ} (h : IsRounded q x) (hlow : low ≤ q * (1 - 1 / 2 ^ 23))
    (hhigh : q * (1 + 1 / 2 ^ 23) ≤ high) (hsmall : 2 ^ (-126 : ℤ) ≤ q) (hlarge : q ≤ 2 ^ 127) :
    Within low high x := by
  obtain ⟨r, hr, hr', hr''⟩ := h.near hsmall hlarge
  exact ⟨r, hr, hlow.trans hr', hr''.trans hhigh⟩

theorem mul (hx : Within a b x) (hy : Within c d y) (ha : 2 ^ (-63 : ℤ) ≤ a)
    (hc : 2 ^ (-63 : ℤ) ≤ c) (hbd : b * d ≤ 2 ^ 127) :
    Within (a * c * (1 - 1 / 2 ^ 23)) (b * d * (1 + 1 / 2 ^ 23)) (x * y) := by
  obtain ⟨p, hp, hap, hpb⟩ := hx
  obtain ⟨q, hq, hcq, hqd⟩ := hy
  have hp0 := hp.pos
  have hq0 := hq.pos
  have hpow : (0 : ℚ) < 2 ^ (-63 : ℤ) := by positivity
  have hnormal : 2 ^ (-126 : ℤ) ≤ q := by
    have : (2 : ℚ) ^ (-126 : ℤ) ≤ 2 ^ (-63 : ℤ) := by norm_num
    linarith
  have hlow : a * c ≤ p * q := mul_le_mul hap hcq (by linarith) hp0.le
  have hhigh : p * q ≤ b * d := mul_le_mul hpb hqd hq0.le (by linarith)
  have hsmall : (2 : ℚ) ^ (-126 : ℤ) ≤ a * c := by
    calc (2 : ℚ) ^ (-126 : ℤ) = 2 ^ (-63 : ℤ) * 2 ^ (-63 : ℤ) := by norm_num
      _ ≤ a * c := mul_le_mul ha hc hpow.le (by linarith)
  refine of_isRounded (isRounded_mul hp hq hnormal) ?_ ?_ (hsmall.trans hlow)
    (hhigh.trans hbd)
  · exact mul_le_mul_of_nonneg_right hlow (by norm_num)
  · exact mul_le_mul_of_nonneg_right hhigh (by norm_num)

theorem div (hx : Within a b x) (hy : Within c d y) (hc : 0 < c)
    (hsmall : 2 ^ (-126 : ℤ) ≤ a / d) (hlarge : b / c ≤ 2 ^ 127) :
    Within (a / d * (1 - 1 / 2 ^ 23)) (b / c * (1 + 1 / 2 ^ 23)) (x / y) := by
  obtain ⟨p, hp, hap, hpb⟩ := hx
  obtain ⟨q, hq, hcq, hqd⟩ := hy
  have hp0 := hp.pos
  have hlow : a / d ≤ p / q := div_le_div₀ hp0.le hap hq.pos hqd
  have hhigh : p / q ≤ b / c := div_le_div₀ (by linarith) hpb hc hcq
  refine of_isRounded (isRounded_div hp hq (hsmall.trans hlow)) ?_ ?_
    (hsmall.trans hlow) (hhigh.trans hlarge)
  · exact mul_le_mul_of_nonneg_right hlow (by norm_num)
  · exact mul_le_mul_of_nonneg_right hhigh (by norm_num)

/-- What a whole number is converted to. -/
theorem toFloat32 {n : UInt32} (h : n ≠ 0) :
    Within (n.toNat * (1 - 1 / 2 ^ 23)) (n.toNat * (1 + 1 / 2 ^ 23)) n.toFloat32 := by
  have hlow : (1 : ℚ) ≤ n.toNat := by exact_mod_cast toNat_pos h
  have hhigh : (n.toNat : ℚ) ≤ 2 ^ 32 := by exact_mod_cast n.toNat_lt.le
  refine of_isRounded (isRounded_toFloat32 h) le_rfl le_rfl ?_ ?_
  · exact le_trans (by norm_num) hlow
  · exact hhigh.trans (by norm_num)

/-- Whatever the whole number is. -/
theorem toFloat32_of_ne {n : UInt32} (h : n ≠ 0) : Within (9 / 10) (2 ^ 33) n.toFloat32 := by
  have hlow : (1 : ℚ) ≤ n.toNat := by exact_mod_cast toNat_pos h
  have hhigh : (n.toNat : ℚ) ≤ 2 ^ 32 := by exact_mod_cast n.toNat_lt.le
  refine (toFloat32 h).widen ?_ ?_
  · linarith
  · linarith

end Within
end Chiptune
