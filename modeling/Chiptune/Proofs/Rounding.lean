import Chiptune.Proofs.Magnitude

/-!
# How numbers are rounded

A sum, a product or a quotient is computed exactly and then rounded to the
nearest number that has twenty-four bits, or fewer close to zero. `Represents`
says what the mantissa and the two bits below it stand for while they are
shifted, and `RoundsTo` what is left of an exact value in the end. That rounding
keeps the order, and that it loses less than one unit in the last place, is all
that is needed of it.
-/
namespace Chiptune
open Float.Model (Format UnpackedFloat totalExponent)
open Float.Model.UnpackedFloat

/-! ### Mantissas with the bits below them -/

/-- The exact number that a mantissa with its two residual bits stands for. -/
def Represents (em : ExtendedMantissa) (x : ℚ) : Prop :=
  match em.roundBit, em.stickyBit with
  | false, false => x = em.mantissa
  | false, true => em.mantissa < x ∧ x < em.mantissa + 1 / 2
  | true, false => x = em.mantissa + 1 / 2
  | true, true => em.mantissa + 1 / 2 < x ∧ x < em.mantissa + 1

theorem represents_exact (m : Nat) :
    Represents (ExtendedMantissa.ofMantissaAndAccuracy m .exact) m := rfl

/-- A quotient with its remainder. -/
theorem represents_fraction (m : Nat) {num den : Nat} (h : num < den) :
    Represents (ExtendedMantissa.ofMantissaAndAccuracy m (accuracyOfFraction num den))
      (m + num / den) := by
  have hden : (0 : ℚ) < den := by
    have : 0 < den := by omega
    exact_mod_cast this
  have hlt : (num : ℚ) / den < 1 := by
    rw [div_lt_one hden]
    exact_mod_cast h
  unfold accuracyOfFraction
  by_cases hnum : num = 0
  · simp only [hnum, if_true, Nat.cast_zero, zero_div, add_zero]
    exact represents_exact m
  have hpos : (0 : ℚ) < num / den := by
    have : 0 < num := by omega
    positivity
  rw [if_neg hnum]
  rcases Nat.lt_trichotomy (2 * num) den with hhalf | hhalf | hhalf
  · rw [Nat.compare_eq_lt.mpr hhalf]
    have hhalf : (num : ℚ) / den < 1 / 2 := by
      rw [div_lt_div_iff₀ hden two_pos, one_mul]
      exact_mod_cast (by omega : num * 2 < den)
    show (m : ℚ) < m + num / den ∧ (m : ℚ) + num / den < m + 1 / 2
    constructor <;> linarith
  · rw [Nat.compare_eq_eq.mpr hhalf]
    have hhalf : (num : ℚ) / den = 1 / 2 := by
      rw [div_eq_div_iff hden.ne' two_ne_zero, one_mul]
      exact_mod_cast (by omega : num * 2 = den)
    show (m : ℚ) + num / den = m + 1 / 2
    rw [hhalf]
  · rw [Nat.compare_eq_gt.mpr hhalf]
    have hhalf : 1 / 2 < (num : ℚ) / den := by
      rw [div_lt_div_iff₀ two_pos hden, one_mul]
      exact_mod_cast (by omega : den < num * 2)
    show (m : ℚ) + 1 / 2 < m + num / den ∧ (m : ℚ) + num / den < m + 1
    constructor <;> linarith

namespace Represents

variable {a b em : ExtendedMantissa} {x y : ℚ}

theorem bounds (h : Represents em x) : em.mantissa ≤ x ∧ x < em.mantissa + 1 := by
  obtain ⟨m, round, sticky⟩ := em
  cases round <;> cases sticky <;> simp only [Represents] at h ⊢ <;>
    constructor <;> linarith

theorem shiftRightOne (h : Represents em x) : Represents em.shiftRightOne (x / 2) := by
  obtain ⟨m, round, sticky⟩ := em
  have hdivide : (m : ℚ) = 2 * (m / 2 : Nat) + (m % 2 : Nat) := by
    exact_mod_cast (Nat.div_add_mod m 2).symm
  obtain hm | hm : m % 2 = 0 ∨ m % 2 = 1 := by omega
  · have hbit : (m % 2 != 0) = false := by simp [hm]
    rw [hm] at hdivide
    cases round <;> cases sticky <;>
      simp only [Represents, ExtendedMantissa.shiftRightOne, hbit, Bool.or_false, Bool.or_true,
        Nat.cast_zero] at h hdivide ⊢ <;>
      first | linarith | constructor <;> linarith
  · have hbit : (m % 2 != 0) = true := by simp [hm]
    rw [hm] at hdivide
    cases round <;> cases sticky <;>
      simp only [Represents, ExtendedMantissa.shiftRightOne, hbit, Bool.or_false, Bool.or_true,
        Nat.cast_one] at h hdivide ⊢ <;>
      first | linarith | constructor <;> linarith

theorem shiftRight (h : Represents em x) (n : Nat) : Represents (em >>> n) (x / 2 ^ n) := by
  induction n with
  | zero =>
    rw [pow_zero, div_one]
    exact h
  | succ n ih =>
    have hnext := ih.shiftRightOne
    rw [div_div, ← pow_succ] at hnext
    exact hnext

/-- Rounding keeps the order. -/
theorem roundedMantissa_mono (ha : Represents a x) (hb : Represents b y) (hxy : x ≤ y) :
    a.roundedMantissa ≤ b.roundedMantissa := by
  have hfloor : a.mantissa ≤ b.mantissa := by
    have hlt : (a.mantissa : ℚ) < b.mantissa + 1 := by
      linarith [ha.bounds.1, hb.bounds.2]
    have hlt : a.mantissa < b.mantissa + 1 := by exact_mod_cast hlt
    omega
  rcases Nat.eq_or_lt_of_le hfloor with heq | hlt
  · obtain ⟨m, round, sticky⟩ := a
    obtain ⟨n, round', sticky'⟩ := b
    obtain rfl : m = n := heq
    cases round <;> cases sticky <;> cases round' <;> cases sticky' <;>
      simp only [Represents] at ha hb <;>
      simp [ExtendedMantissa.roundedMantissa, ExtendedMantissa.accuracy,
        Accuracy.roundToNearestEven] <;>
      first | omega | (exfalso; linarith)
  · have hup := roundedMantissa_le a
    have hdown := le_roundedMantissa b
    omega

end Represents

/-! ### Values -/

/-- The value of a mantissa with an exponent. -/
def scaled (m : Nat) (e : Int) : ℚ := m * 2 ^ e

theorem scaled_pos {m : Nat} (hm : 0 < m) (e : Int) : 0 < scaled m e := by
  unfold scaled
  positivity

theorem scaled_nonneg (m : Nat) (e : Int) : 0 ≤ scaled m e := by
  unfold scaled
  positivity

/-- The value of a number that is not negative. -/
def unpackedValue : UnpackedFloat → WithTop ℚ
  | .finite .positive m e _ => (scaled m e : ℚ)
  | .infinity .positive => ⊤
  | _ => 0

/-- A number that is zero or positive. -/
def UnpackedNonneg : UnpackedFloat → Prop
  | .finite .positive .. | .infinity .positive | .zero _ => True
  | _ => False

/-- What unpacking gives: the mantissa has twenty-four bits, or fewer with the least exponent. -/
def Canonical : UnpackedFloat → Prop
  | .finite _ m e _ => m < 2 ^ 24 ∧ -149 ≤ e ∧ (2 ^ 23 ≤ m ∨ e = -149)
  | _ => True

/-- The exponent of the last place that is left of a positive number. -/
def lastPlace (x : ℚ) : Int := max (Int.log 2 x - 23) (-149)

theorem log_eq {m : Nat} {x : ℚ} (e : Int) (hm : 0 < m) (hlow : m ≤ x) (hhigh : x < m + 1) :
    Int.log 2 (x * 2 ^ e) = totalExponent m e - 1 := by
  have hexponent : totalExponent m e - 1 = m.log2 + e := by
    unfold totalExponent
    omega
  have hx : 0 < x * 2 ^ e := by
    have : (0 : ℚ) < m := by exact_mod_cast hm
    have : 0 < x := by linarith
    positivity
  have hfirst : (2 : ℚ) ^ ((m.log2 : Int) + e) ≤ x * 2 ^ e := by
    rw [zpow_add₀ two_ne_zero, zpow_natCast]
    have hbits : ((2 ^ m.log2 : Nat) : ℚ) ≤ m := by exact_mod_cast Nat.log2_self_le hm.ne'
    push_cast at hbits
    exact mul_le_mul_of_nonneg_right (hbits.trans hlow) (by positivity)
  have hlast : x * 2 ^ e < (2 : ℚ) ^ ((m.log2 : Int) + e + 1) := by
    have hbits : ((m + 1 : Nat) : ℚ) ≤ (2 ^ (m.log2 + 1) : Nat) := by
      exact_mod_cast (Nat.lt_log2_self : m < 2 ^ (m.log2 + 1))
    push_cast at hbits
    rw [show (m.log2 : Int) + e + 1 = ((m.log2 + 1 : Nat) : Int) + e by push_cast; ring,
      zpow_add₀ two_ne_zero, zpow_natCast]
    exact mul_lt_mul_of_pos_right (hhigh.trans_le hbits) (by positivity)
  rw [hexponent]
  apply le_antisymm
  · have h := (Int.lt_zpow_iff_log_lt Nat.one_lt_two hx).mp (by exact_mod_cast hlast)
    omega
  · exact (Int.zpow_le_iff_le_log Nat.one_lt_two hx).mp (by exact_mod_cast hfirst)

/-- Nothing is shifted out of a mantissa that is short enough. -/
theorem shiftToTargetExponent_of_lt {r : Nat} {t : Int} (hr : r < 2 ^ 24) (ht : -149 ≤ t) :
    shiftToTargetExponent Format.binary32 r t .exact =
      (ExtendedMantissa.ofMantissaAndAccuracy r .exact, t) := by
  have hlog : r.log2 < 24 := by
    by_cases hzero : r = 0
    · rw [hzero]
      decide
    · exact (Nat.log2_lt hzero).mpr hr
  have htarget : Format.binary32.targetExponent (totalExponent r t) =
      max (totalExponent r t - 24) (-149) := rfl
  have hshift : (max (totalExponent r t - 24) (-149) - t).toNat = 0 := by
    unfold totalExponent
    omega
  simp only [shiftToTargetExponent, shiftToExponent, htarget, hshift, Nat.cast_zero, add_zero]
  rfl

/-- A mantissa that rounding has made a bit longer is shifted once more. -/
theorem shiftToTargetExponent_of_eq {t : Int} (ht : -149 ≤ t) :
    shiftToTargetExponent Format.binary32 (2 ^ 24) t .exact =
      (ExtendedMantissa.ofMantissaAndAccuracy (2 ^ 23) .exact, t + 1) := by
  have hlog : (2 ^ 24).log2 = 24 := Nat.log2_two_pow
  have htarget : Format.binary32.targetExponent (totalExponent (2 ^ 24) t) =
      max (totalExponent (2 ^ 24) t - 24) (-149) := rfl
  have hshift : (max (totalExponent (2 ^ 24) t - 24) (-149) - t).toNat = 1 := by
    unfold totalExponent
    omega
  simp only [shiftToTargetExponent, shiftToExponent, htarget, hshift]
  rfl

/-- What is left of a positive number when it is rounded. -/
structure RoundsTo (x : ℚ) (u : UnpackedFloat) : Prop where
  canonical : Canonical u
  nonneg : UnpackedNonneg u
  value_eq : ∃ em, Represents em (x / 2 ^ lastPlace x) ∧
    unpackedValue u = (em.roundedMantissa * 2 ^ lastPlace x : ℚ)

section

variable {x : ℚ} {em : ExtendedMantissa}

/-- No more than twenty-four bits are left. -/
theorem mantissa_lt_of_lastPlace (h : Represents em (x / 2 ^ lastPlace x)) :
    em.mantissa < 2 ^ 24 := by
  have hlog : x < (2 : ℚ) ^ (Int.log 2 x + 1) := by
    exact_mod_cast Int.lt_zpow_succ_log_self Nat.one_lt_two x
  have hplace : Int.log 2 x + 1 ≤ lastPlace x + 24 := by
    unfold lastPlace
    omega
  have hlt : x / 2 ^ lastPlace x < 2 ^ 24 := by
    rw [div_lt_iff₀ (by positivity)]
    calc x < 2 ^ (Int.log 2 x + 1) := hlog
      _ ≤ 2 ^ (lastPlace x + 24) := zpow_le_zpow_right₀ one_le_two hplace
      _ = 2 ^ 24 * 2 ^ lastPlace x := by
          rw [zpow_add₀ two_ne_zero, mul_comm]
          norm_cast
  exact_mod_cast h.bounds.1.trans_lt hlt

/-- Above the least place, all of twenty-four bits are left. -/
theorem le_mantissa_of_lastPlace (hx : 0 < x) (h : Represents em (x / 2 ^ lastPlace x))
    (hplace : lastPlace x ≠ -149) : 2 ^ 23 ≤ em.mantissa := by
  have hplace : Int.log 2 x = lastPlace x + 23 := by
    unfold lastPlace at hplace ⊢
    omega
  have hlog : (2 : ℚ) ^ Int.log 2 x ≤ x := by
    exact_mod_cast Int.zpow_log_le_self Nat.one_lt_two hx
  have hle : 2 ^ 23 ≤ x / 2 ^ lastPlace x := by
    rw [le_div_iff₀ (by positivity)]
    calc (2 : ℚ) ^ 23 * 2 ^ lastPlace x = 2 ^ (lastPlace x + 23) := by
          rw [zpow_add₀ two_ne_zero, mul_comm]
          norm_cast
      _ ≤ x := hplace ▸ hlog
  have hlt : 2 ^ 23 < em.mantissa + 1 := by exact_mod_cast hle.trans_lt h.bounds.2
  omega

end

section

variable {m : Nat} {e : Int} {accuracy : Accuracy} {x : ℚ}

/-- A mantissa that has enough bits is shifted to the last place. -/
theorem represents_shiftToTargetExponent (hm : 0 < m)
    (hx : Represents (ExtendedMantissa.ofMantissaAndAccuracy m accuracy) x)
    (he : e ≤ max (totalExponent m e - 24) (-149)) :
    (shiftToTargetExponent Format.binary32 m e accuracy).2 = lastPlace (x * 2 ^ e) ∧
      Represents (shiftToTargetExponent Format.binary32 m e accuracy).1
        (x * 2 ^ e / 2 ^ lastPlace (x * 2 ^ e)) := by
  have hbounds := hx.bounds
  rw [mantissa_ofMantissaAndAccuracy] at hbounds
  have hplace : lastPlace (x * 2 ^ e) = max (totalExponent m e - 24) (-149) := by
    rw [lastPlace, log_eq e hm hbounds.1 hbounds.2]
    omega
  have htarget : Format.binary32.targetExponent (totalExponent m e) = lastPlace (x * 2 ^ e) :=
    hplace.symm
  have hquotient : x * 2 ^ e / 2 ^ lastPlace (x * 2 ^ e) =
      x / 2 ^ (lastPlace (x * 2 ^ e) - e).toNat := by
    rw [← zpow_natCast, Int.toNat_of_nonneg (by omega), zpow_sub₀ two_ne_zero]
    field_simp
  constructor
  · rw [shiftToTargetExponent_snd, hplace, shiftedExponent]
    omega
  · rw [hquotient]
    simp only [shiftToTargetExponent, shiftToExponent, htarget]
    exact hx.shiftRight _

/-- Rounding a mantissa that has enough bits. -/
theorem roundsTo_roundWithAccuracy (hm : 0 < m)
    (hx : Represents (ExtendedMantissa.ofMantissaAndAccuracy m accuracy) x)
    (he : e ≤ max (totalExponent m e - 24) (-149)) :
    RoundsTo (x * 2 ^ e) (roundWithAccuracy Format.binary32 .positive m e accuracy) := by
  obtain ⟨hplace, hrepresents⟩ := represents_shiftToTargetExponent hm hx he
  have hpos : 0 < x * 2 ^ e := by
    have hm : (0 : ℚ) < m := by exact_mod_cast hm
    have hlow := hx.bounds.1
    rw [mantissa_ofMantissaAndAccuracy] at hlow
    have : 0 < x := by linarith
    positivity
  have hlow : -149 ≤ lastPlace (x * 2 ^ e) := le_max_right _ _
  generalize hshifted : shiftToTargetExponent Format.binary32 m e accuracy = shifted at *
  obtain ⟨em, t⟩ := shifted
  obtain rfl : t = lastPlace (x * 2 ^ e) := hplace
  have hmantissa : em.mantissa < 2 ^ 24 := mantissa_lt_of_lastPlace hrepresents
  have hupper := roundedMantissa_le em
  have hlower := le_roundedMantissa em
  simp only [roundWithAccuracy, hshifted]
  rcases Nat.lt_or_ge em.roundedMantissa (2 ^ 24) with hshort | hlong
  · simp only [shiftToTargetExponent_of_lt hshort hlow, mantissa_ofMantissaAndAccuracy]
    by_cases hzero : em.roundedMantissa = 0
    · rw [dif_pos hzero]
      refine ⟨trivial, trivial, em, hrepresents, ?_⟩
      rw [hzero, Nat.cast_zero, zero_mul]
      rfl
    · rw [dif_neg hzero]
      refine ⟨⟨hshort, hlow, ?_⟩, trivial, em, hrepresents, rfl⟩
      by_cases h : lastPlace (x * 2 ^ e) = -149
      · exact .inr h
      · exact .inl ((le_mantissa_of_lastPlace hpos hrepresents h).trans hlower)
  · -- The mantissa was all ones and has become a bit longer.
    have hlong : em.roundedMantissa = 2 ^ 24 := by omega
    have hvalue : scaled (2 ^ 23) (lastPlace (x * 2 ^ e) + 1) =
        em.roundedMantissa * 2 ^ lastPlace (x * 2 ^ e) := by
      rw [hlong, scaled, zpow_add_one₀ two_ne_zero]
      push_cast
      ring
    simp only [hlong, shiftToTargetExponent_of_eq hlow, mantissa_ofMantissaAndAccuracy]
    exact ⟨⟨by decide, by omega, .inl le_rfl⟩, trivial, em, hrepresents,
      congrArg (fun q : ℚ => (q : WithTop ℚ)) hvalue⟩

end

/-! ### Order and error -/

namespace RoundsTo

variable {x y : ℚ} {u v : UnpackedFloat}

/-- Rounding keeps the order. -/
theorem value_le (hu : RoundsTo x u) (hv : RoundsTo y v) (hx : 0 < x) (hxy : x ≤ y) :
    unpackedValue u ≤ unpackedValue v := by
  obtain ⟨em, hem, hvalue⟩ := hu.value_eq
  obtain ⟨em', hem', hvalue'⟩ := hv.value_eq
  rw [hvalue, hvalue', WithTop.coe_le_coe]
  have hplace : lastPlace x ≤ lastPlace y :=
    max_le_max_right _ (Int.sub_le_sub_right (Int.log_mono_right hx hxy) _)
  rcases hplace.eq_or_lt with heq | hlt
  · rw [← heq] at hem' ⊢
    have hle : x / 2 ^ lastPlace x ≤ y / 2 ^ lastPlace x :=
      div_le_div_of_nonneg_right hxy (by positivity)
    have hrounded : (em.roundedMantissa : ℚ) ≤ em'.roundedMantissa := by
      exact_mod_cast hem.roundedMantissa_mono hem' hle
    exact mul_le_mul_of_nonneg_right hrounded (by positivity)
  · -- The greater number has all its bits and lies beyond a power of two.
    have hlow : -149 ≤ lastPlace x := le_max_right _ _
    have hmantissa := mantissa_lt_of_lastPlace hem
    have hmantissa' := le_mantissa_of_lastPlace (hx.trans_le hxy) hem' (by omega)
    have hupper : (em.roundedMantissa : ℚ) ≤ 2 ^ 24 := by
      have := roundedMantissa_le em
      exact_mod_cast (by omega : em.roundedMantissa ≤ 2 ^ 24)
    have hlower : (2 : ℚ) ^ 23 ≤ em'.roundedMantissa := by
      exact_mod_cast hmantissa'.trans (le_roundedMantissa em')
    calc (em.roundedMantissa : ℚ) * 2 ^ lastPlace x ≤ 2 ^ 24 * 2 ^ lastPlace x :=
          mul_le_mul_of_nonneg_right hupper (by positivity)
      _ = 2 ^ 23 * 2 ^ (lastPlace x + 1) := by
          rw [zpow_add_one₀ two_ne_zero]
          ring
      _ ≤ 2 ^ 23 * 2 ^ lastPlace y :=
          mul_le_mul_of_nonneg_left (zpow_le_zpow_right₀ one_le_two hlt) (by positivity)
      _ ≤ em'.roundedMantissa * 2 ^ lastPlace y :=
          mul_le_mul_of_nonneg_right hlower (by positivity)

/-- Less than one unit in the last place is lost or gained. -/
theorem exists_value (h : RoundsTo x u) :
    ∃ q : ℚ, unpackedValue u = q ∧ x - 2 ^ lastPlace x < q ∧ q ≤ x + 2 ^ lastPlace x := by
  obtain ⟨em, hem, hvalue⟩ := h.value_eq
  have hunit : (0 : ℚ) < 2 ^ lastPlace x := by positivity
  have hx : x = x / 2 ^ lastPlace x * 2 ^ lastPlace x := (div_mul_cancel₀ x hunit.ne').symm
  obtain ⟨hlow, hhigh⟩ := hem.bounds
  have hupper : (em.roundedMantissa : ℚ) ≤ em.mantissa + 1 := by
    exact_mod_cast roundedMantissa_le em
  have hlower : (em.mantissa : ℚ) ≤ em.roundedMantissa := by
    exact_mod_cast le_roundedMantissa em
  refine ⟨_, hvalue, ?_, ?_⟩
  · nlinarith
  · nlinarith

end RoundsTo
end Chiptune
