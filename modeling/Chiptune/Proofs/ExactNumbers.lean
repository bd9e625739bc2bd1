import Chiptune.Proofs.Operations

/-!
# Numbers that lose nothing

A result that has no more than twenty-four bits is not changed by rounding. So
small whole numbers are what they stand for, a number above one is lowered by
one exactly, and sums of small numbers stay below the sums of their bounds.
-/
namespace Chiptune
open Float.Model (Format UnpackedFloat totalExponent)
open Float.Model.UnpackedFloat

/-! ### Exact results -/

/-- Nothing is lost of a number that fits. -/
theorem IsRounded.value_of_exact {x : Float32} {q : ℚ} (h : IsRounded q x) (k : Nat)
    (hk : q = k * 2 ^ lastPlace q) (hhigh : q < 2 ^ 128) : value x = q := by
  obtain ⟨u, hu, hx⟩ := h
  obtain ⟨em, hem, hvalue⟩ := hu.value_eq
  have hk' : q / 2 ^ lastPlace q = k := by
    rw [div_eq_iff (by positivity)]
    exact hk
  rw [hk'] at hem
  have hmantissa : em.roundedMantissa = k := by
    have hself : Represents (ExtendedMantissa.ofMantissaAndAccuracy k .exact) k :=
      represents_exact k
    have hrounded : (ExtendedMantissa.ofMantissaAndAccuracy k .exact).roundedMantissa = k := rfl
    exact le_antisymm (hrounded ▸ hem.roundedMantissa_mono hself le_rfl)
      (hrounded ▸ hself.roundedMantissa_mono hem le_rfl)
  rw [value, hx, (unpackedValue_unpack_pack hu.canonical hu.nonneg).2, hvalue, hmantissa, ← hk]
  exact packedValue_of_lt hhigh

/-- A mantissa of twenty-four bits fits, whatever its exponent. -/
theorem IsRounded.value_of_scaled {x : Float32} {m : Nat} {e : Int}
    (h : IsRounded (scaled m e) x) (hm : 0 < m) (hbits : m < 2 ^ 24) (he : -149 ≤ e)
    (hhigh : scaled m e < 2 ^ 128) : value x = scaled m e := by
  have hplace : lastPlace (scaled m e) ≤ e := by
    have hlog : Int.log 2 (scaled m e) < e + 24 := by
      rw [← Int.lt_zpow_iff_log_lt Nat.one_lt_two (scaled_pos hm e)]
      exact_mod_cast scaled_lt hbits
    unfold lastPlace
    omega
  refine h.value_of_exact (m * 2 ^ (e - lastPlace (scaled m e)).toNat) ?_ hhigh
  push_cast
  rw [← zpow_natCast, Int.toNat_of_nonneg (by omega), mul_assoc, ← zpow_add₀ two_ne_zero,
    sub_add_cancel]
  rfl

theorem isRounded_one : IsRounded 1 (1.0 : Float32) := by
  have h := @isRounded_toFloat32 1 (by decide)
  have hone : ((1 : UInt32).toNat : ℚ) = 1 := Nat.cast_one
  rw [hone] at h
  exact h

theorem value_one : value 1.0 = (1 : ℚ) := by
  have hone : (1.0 : Float32).toModel.unpack = .finite .positive (2 ^ 23) (-23) (by decide) := rfl
  have hscaled : scaled (2 ^ 23) (-23) = 1 := by norm_num [scaled]
  rw [(hasValue_of_unpack hone).value_eq, hscaled]

theorem lt_one_iff {x : Float32} (hx : Nonneg x) : x < 1.0 ↔ value x < (1 : ℚ) := by
  rw [lt_iff_value_lt hx isRounded_one.nonneg, value_one]

theorem hasValue_one : HasValue 1 (1.0 : Float32) :=
  ⟨isRounded_one.nonneg, value_one, one_pos⟩

/-! ### Lowering by one -/

theorem isRounded_sub {x y : Float32} {p q : ℚ} (hx : HasValue p x) (hy : HasValue q y)
    (h : q < p) : IsRounded (p - q) (x - y) := by
  obtain ⟨m, e, hm, hux, rfl⟩ := hx.exists_finite
  obtain ⟨n, f, hn, huy, rfl⟩ := hy.exists_finite
  refine ⟨UnpackedFloat.sub Format.binary32 x.toModel.unpack y.toModel.unpack, ?_, rfl⟩
  rw [hux, huy]
  simp only [UnpackedFloat.sub, UnpackedFloat.decreaseExponent]
  generalize hi : (e - min e f).toNat = i
  generalize hj : (f - min e f).toNat = j
  have hleft : scaled (m <<< i) (min e f) = scaled m e := by
    rw [← scaled_shiftLeft m e i, show e - i = min e f by omega]
  have hright : scaled (n <<< j) (min e f) = scaled n f := by
    rw [← scaled_shiftLeft n f j, show f - j = min e f by omega]
  have hlt : n <<< j < m <<< i := by
    rw [← hleft, ← hright] at h
    exact_mod_cast lt_of_mul_lt_mul_right h (by positivity)
  have hexact : scaled m e - scaled n f = scaled (m <<< i - n <<< j) (min e f) := by
    rw [← hleft, ← hright]
    simp only [scaled]
    rw [Nat.cast_sub hlt.le, sub_mul]
  have hmantissa : (Sign.positive.apply (m <<< i) : Int) - Sign.positive.apply (n <<< j) =
      ((m <<< i - n <<< j : Nat) : Int) := by
    rw [Nat.cast_sub hlt.le]
    rfl
  rw [hexact, hmantissa]
  exact roundsTo_normalize (Nat.sub_pos_of_lt hlt) (min e f) .positive

/-- Lowering a number by one loses nothing. -/
theorem HasValue.sub_one {x : Float32} {q : ℚ} (hx : HasValue q x) (hlow : 1 < q)
    (hhigh : q < 2 ^ 24) : HasValue (q - 1) (x - 1.0) := by
  have hrounded := isRounded_sub hx hasValue_one hlow
  obtain ⟨m, e, hm, hux, rfl⟩ := hx.exists_finite
  have hcanonical := canonical_toModel x
  rw [hux] at hcanonical
  obtain ⟨hbits, hleast, hfull⟩ := hcanonical
  have he : e ≤ 0 := by
    by_contra hpositive
    have hmany : (2 : ℚ) ^ (24 : ℤ) ≤ scaled m e :=
      (zpow_le_zpow_right₀ one_le_two (by omega)).trans
        (le_scaled (hfull.resolve_right (by omega)))
    exact absurd hhigh (not_lt.mpr (by exact_mod_cast hmany))
  have hone : scaled (2 ^ (-e).toNat) e = 1 := by
    rw [scaled, Nat.cast_pow, ← zpow_natCast, Int.toNat_of_nonneg (by omega), Nat.cast_ofNat,
      ← zpow_add₀ two_ne_zero, neg_add_cancel, zpow_zero]
  have hlt : 2 ^ (-e).toNat < m := by
    rw [← hone] at hlow
    exact_mod_cast lt_of_mul_lt_mul_right hlow (by positivity)
  have hexact : scaled m e - 1 = scaled (m - 2 ^ (-e).toNat) e := by
    rw [← hone]
    simp only [scaled]
    rw [Nat.cast_sub hlt.le, sub_mul]
  have hpos : 0 < m - 2 ^ (-e).toNat := Nat.sub_pos_of_lt hlt
  refine ⟨hrounded.nonneg, ?_, by linarith⟩
  rw [hexact] at hrounded ⊢
  refine hrounded.value_of_scaled hpos ((Nat.sub_le _ _).trans_lt hbits) hleast ?_
  rw [← hexact]
  linarith

theorem HasValue.bne_zero {x : Float32} {q : ℚ} (h : HasValue q x) : (x != 0.0) = true := by
  obtain ⟨m, e, hm, hx, -⟩ := h.exists_finite
  have hbeq : (x == 0.0) = x.toModel.unpack.beq (0.0 : Float32).toModel.unpack := by
    unfold BEq.beq
    rfl
  rw [bne, hbeq, hx, unpack_zero]
  rfl

theorem HasValue.toNat_toUInt64 {x : Float32} {q : ℚ} (h : HasValue q x) (hq : q < 2 ^ 24) :
    x.toUInt64.toNat = ⌊q⌋₊ := by
  have hfloor : ⌊q⌋₊ < 2 ^ 24 := by
    rw [Nat.floor_lt h.pos.le]
    exact_mod_cast hq
  rw [Chiptune.toNat_toUInt64 h.nonneg, h.value_eq]
  exact min_eq_left (by omega)

/-! ### Small numbers -/

/-- Zero, or a positive number that is not greater than a whole one. -/
def UpTo (n : Nat) (x : Float32) : Prop := Nonneg x ∧ value x ≤ (n : ℚ)

theorem HasValue.upTo {x : Float32} {q : ℚ} (h : HasValue q x) {n : Nat} (hn : q ≤ n) :
    UpTo n x :=
  ⟨h.nonneg, by rw [h.value_eq]; exact WithTop.coe_le_coe.mpr hn⟩

theorem Within.upTo {low high : ℚ} {x : Float32} (h : Within low high x) {n : Nat}
    (hn : high ≤ n) : UpTo n x := by
  obtain ⟨q, hq, -, hqhigh⟩ := h
  exact hq.upTo (hqhigh.trans hn)

namespace UpTo

variable {x y : Float32} {n m : Nat}

theorem mono (h : UpTo n x) (hnm : n ≤ m) : UpTo m x :=
  ⟨h.1, h.2.trans (WithTop.coe_le_coe.mpr (by exact_mod_cast hnm))⟩

theorem zero : UpTo 0 0.0 := ⟨nonneg_zero, by rw [value_zero]; rfl⟩

theorem cases (h : UpTo n x) :
    (∃ s, x.toModel.unpack = .zero s) ∨ ∃ q, HasValue q x ∧ q ≤ n := by
  obtain ⟨hnonneg, hvalue⟩ := h
  obtain ⟨s, hx⟩ | ⟨m, e, hm, hx⟩ | hx := hnonneg.cases
  · exact .inl ⟨s, hx⟩
  · have hvalued := hasValue_of_unpack hx
    rw [hvalued.value_eq, WithTop.coe_le_coe] at hvalue
    exact .inr ⟨_, hvalued, hvalue⟩
  · rw [value, hx] at hvalue
    exact absurd (top_le_iff.mp hvalue) WithTop.coe_ne_top

theorem of_isRounded {q : ℚ} (h : IsRounded q x) (hq : 0 < q) (hqn : q ≤ n) (hn : n < 2 ^ 24) :
    UpTo n x := by
  have hpos : 0 < n := by
    have hpos : (0 : ℚ) < n := hq.trans_le hqn
    exact_mod_cast hpos
  have hword : (UInt32.ofNat n).toNat = n := UInt32.toNat_ofNat_of_lt' (by
    show n < 2 ^ 32
    omega)
  have hne : UInt32.ofNat n ≠ 0 := by
    intro hzero
    rw [hzero] at hword
    exact absurd hword hpos.ne
  have hwhole := isRounded_toFloat32 hne
  rw [hword] at hwhole
  have hscaled : scaled n 0 = n := by rw [scaled, zpow_zero, mul_one]
  have hvalue : value (UInt32.ofNat n).toFloat32 = (n : ℚ) := by
    rw [← hscaled] at hwhole ⊢
    refine hwhole.value_of_scaled hpos hn (by decide) ?_
    rw [hscaled]
    have hn : (n : ℚ) < 2 ^ 24 := by exact_mod_cast hn
    linarith
  exact ⟨h.nonneg, hvalue ▸ h.value_le hwhole hq hqn⟩

/-- Packing a number once more does not change it. -/
theorem of_unpack {z : Float32} (hz : UpTo n z) (hn : n < 2 ^ 24)
    (h : x.toModel.unpack = UnpackedFloat.unpack Format.binary32
      (UnpackedFloat.pack Format.binary32 z.toModel.unpack)) : UpTo n x := by
  obtain ⟨hnonneg, hvalue⟩ := unpackedValue_unpack_pack (canonical_toModel z) hz.1
  have hlimit : ((n : ℚ) : WithTop ℚ) < ((2 ^ 128 : ℚ) : WithTop ℚ) := by
    have hn : (n : ℚ) < 2 ^ 24 := by exact_mod_cast hn
    exact WithTop.coe_lt_coe.mpr (by linarith)
  have hpacked : value x = value z := by
    rw [value, h, hvalue]
    exact if_pos (hz.2.trans_lt hlimit)
  exact ⟨by rw [Nonneg, h]; exact hnonneg, hpacked ▸ hz.2⟩

theorem add (hx : UpTo n x) (hy : UpTo m y) (hsum : n + m < 2 ^ 24) : UpTo (n + m) (x + y) := by
  have hunpack : (x + y).toModel.unpack =
      UnpackedFloat.unpack Format.binary32 (UnpackedFloat.pack Format.binary32
        (UnpackedFloat.add Format.binary32 x.toModel.unpack y.toModel.unpack)) := rfl
  obtain ⟨s, hs⟩ | ⟨p, hp, hpn⟩ := hx.cases
  · obtain ⟨t, ht⟩ | ⟨q, hq, hqm⟩ := hy.cases
    · have hzero : UpTo (n + m) 0.0 := zero.mono (Nat.zero_le _)
      rw [hs, ht] at hunpack
      cases s with
      | positive =>
        refine hzero.of_unpack hsum ?_
        cases t <;> exact hunpack
      | negative =>
        cases t with
        | positive => exact hzero.of_unpack hsum hunpack
        | negative =>
          refine (hx.mono (Nat.le_add_right n m)).of_unpack hsum ?_
          rw [hs]
          exact hunpack
    · obtain ⟨k, f, hk, hy', -⟩ := hq.exists_finite
      refine (hy.mono (Nat.le_add_left m n)).of_unpack hsum ?_
      rw [hs, hy'] at hunpack
      rw [hy']
      exact hunpack
  · obtain ⟨t, ht⟩ | ⟨q, hq, hqm⟩ := hy.cases
    · obtain ⟨k, f, hk, hx', -⟩ := hp.exists_finite
      refine (hx.mono (Nat.le_add_right n m)).of_unpack hsum ?_
      rw [hx', ht] at hunpack
      rw [hx']
      exact hunpack
    · refine of_isRounded (isRounded_add hp hq) (add_pos hp.pos hq.pos) ?_ hsum
      push_cast
      linarith

theorem gt_one_iff (hx : Nonneg x) : x > 1.0 ↔ (1 : ℚ) < value x := by
  rw [gt_iff_lt, lt_iff_value_lt isRounded_one.nonneg hx, value_one]

theorem not_gt_one (h : UpTo 1 x) : ¬ x > 1.0 := by
  rw [gt_one_iff h.1, not_lt]
  exact_mod_cast h.2

end UpTo

end Chiptune
