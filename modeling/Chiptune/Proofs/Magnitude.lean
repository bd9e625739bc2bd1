import Mathlib

/-!
# How large a number can be

Bounds of single-precision numbers by powers of two, as they follow from how
numbers are packed and rounded. Only the exponents are followed: a quotient may
be rounded up to the next power of two, and such a bound allows for it.
-/
namespace Chiptune
open Float.Model (Format UnpackedFloat totalExponent)
open Float.Model.UnpackedFloat

/-- The number is less than `2 ^ k`, or not a number. -/
def UnpackedBelow (k : Int) : UnpackedFloat → Prop
  | .infinity .positive => False
  | .finite .positive m e _ => totalExponent m e ≤ k
  | _ => True

/-- The number is at least `2 ^ k`. -/
def UnpackedAtLeast (k : Int) : UnpackedFloat → Prop
  | .infinity .positive => True
  | .finite .positive m e _ => k < totalExponent m e
  | _ => False

instance (k : Int) : DecidablePred (UnpackedBelow k)
  | .infinity .positive => inferInstanceAs (Decidable False)
  | .finite .positive m e _ => inferInstanceAs (Decidable (totalExponent m e ≤ k))
  | .infinity .negative | .finite .negative .. | .zero _ | .notANumber =>
    inferInstanceAs (Decidable True)

instance (k : Int) : DecidablePred (UnpackedAtLeast k)
  | .infinity .positive => inferInstanceAs (Decidable True)
  | .finite .positive m e _ => inferInstanceAs (Decidable (k < totalExponent m e))
  | .infinity .negative | .finite .negative .. | .zero _ | .notANumber =>
    inferInstanceAs (Decidable False)

/-- The number is less than `2 ^ k`, or not a number. -/
def Below (k : Int) (x : Float32) : Prop := UnpackedBelow k x.toModel.unpack

/-- The number is at least `2 ^ k`. -/
def AtLeast (k : Int) (x : Float32) : Prop := UnpackedAtLeast k x.toModel.unpack

instance (k : Int) : DecidablePred (Below k) :=
  fun x => inferInstanceAs (Decidable (UnpackedBelow k x.toModel.unpack))

instance (k : Int) : DecidablePred (AtLeast k) :=
  fun x => inferInstanceAs (Decidable (UnpackedAtLeast k x.toModel.unpack))

theorem Below.mono {i j : Int} {x : Float32} (h : Below i x) (hij : i ≤ j) : Below j x := by
  unfold Below at h ⊢
  generalize x.toModel.unpack = u at h ⊢
  cases u with
  | notANumber | zero => exact trivial
  | infinity s => cases s <;> exact h
  | finite s m e hm =>
    cases s with
    | negative => exact trivial
    | positive => exact Int.le_trans h hij

/-! ### Packing -/

theorem unpackSign_packComponents {spec : Format} (s : Sign) (exponent : BitVec spec.exponentBits)
    (mantissa : BitVec spec.mantissaBitsWithoutImplicit) :
    unpackSign (packComponents spec s exponent mantissa) = s.toBitVec := by
  ext i hi
  have hi : i = 0 := by omega
  subst i
  simp [unpackSign, packComponents, BitVec.getLsbD_append, BitVec.getElem_append]

theorem log2_lt_of_isLt {w : Nat} (v : BitVec w) (hw : 0 < w) : v.toNat.log2 < w := by
  by_cases hv : v.toNat = 0
  · rw [hv]
    exact hw
  · exact (Nat.log2_lt hv).mpr v.isLt

theorem ofBitVec_toBitVec (s : Sign) : Sign.ofBitVec s.toBitVec = s := by
  cases s <;> rfl

theorem unpackedBelow_negative (k : Int) (exponent : BitVec 8) (mantissa : BitVec 23) :
    UnpackedBelow k (UnpackedFloat.unpack Format.binary32
      (packComponents Format.binary32 .negative exponent mantissa)) := by
  simp only [UnpackedFloat.unpack, unpackSign_packComponents, ofBitVec_toBitVec]
  split
  · split <;> trivial
  · split
    · split <;> trivial
    · trivial

/-- The exponent field bounds a packed number. -/
theorem unpackedBelow_packComponents {k : Int} (s : Sign) (exponent : BitVec 8)
    (mantissa : BitVec 23) (hk : -126 ≤ k) (hfield : (exponent.toNat : Int) ≤ k + 126)
    (hfinite : exponent.toNat < 255) :
    UnpackedBelow k (UnpackedFloat.unpack Format.binary32
      (packComponents Format.binary32 s exponent mantissa)) := by
  cases s with
  | negative => exact unpackedBelow_negative k exponent mantissa
  | positive =>
    have hne : exponent ≠ -1#8 := by
      rintro rfl
      exact absurd hfinite (by decide)
    have hbias : Format.binary32.exponentBias = 127 := rfl
    simp only [UnpackedFloat.unpack, unpackExponent_packComponents,
      unpackMantissa_packComponents, unpackSign_packComponents, ofBitVec_toBitVec, hne, if_false,
      hbias]
    split
    · rename_i hzero
      split
      · trivial
      · have hlog := log2_lt_of_isLt mantissa (by decide)
        simp only [UnpackedBelow, totalExponent, hzero]
        simp
        omega
    · have hlog := log2_lt_of_isLt (1#1 ++ mantissa) (by decide)
      simp only [UnpackedBelow, totalExponent]
      omega

/-- What is below a power of two once it is packed. -/
def ExponentBelow (k : Int) : UnpackedFloat → Prop
  | .infinity .positive => False
  | .finite .positive _ e _ => e ≤ k - 24
  | _ => True

theorem ExponentBelow.pack {k : Int} {u : UnpackedFloat} (h : ExponentBelow k u) (hk : -126 ≤ k)
    (hlarge : k ≤ 127) :
    UnpackedBelow k (UnpackedFloat.unpack Format.binary32
      (UnpackedFloat.pack Format.binary32 u)) := by
  cases u with
  | notANumber => exact trivial
  | zero s => cases s <;> exact trivial
  | infinity s =>
    cases s with
    | negative => exact unpackedBelow_negative k _ _
    | positive => exact h.elim
  | finite s m e hm =>
    have hbias : Format.binary32.exponentBias = 127 := rfl
    simp only [UnpackedFloat.pack, hbias]
    cases s with
    | negative =>
      split
      · exact unpackedBelow_negative k _ _
      · split <;> exact unpackedBelow_negative k _ _
    | positive =>
      have he : e ≤ k - 24 := h
      have hfield : (BitVec.ofNat 8 (e + 127 + 23).toNat).toNat = (e + 127 + 23).toNat := by
        rw [BitVec.toNat_ofNat, Nat.mod_eq_of_lt (by omega)]
      split
      · rename_i hover
        have hover : 2 ^ 8 ≤ (e + 127 + 23).toNat + 1 := hover
        omega
      · split
        · apply unpackedBelow_packComponents .positive _ _ hk
          · show ((BitVec.ofNat 8 (e + 127 + 23).toNat).toNat : Int) ≤ k + 126
            omega
          · show (BitVec.ofNat 8 (e + 127 + 23).toNat).toNat < 255
            omega
        · apply unpackedBelow_packComponents .positive 0#8 _ hk
          · show ((0 : Nat) : Int) ≤ k + 126
            omega
          · decide

/-- What is at least a power of two once it is packed. -/
def ExponentAtLeast (k : Int) : UnpackedFloat → Prop
  | .infinity .positive => True
  | .finite .positive m e _ => m.log2 = 23 ∧ -149 ≤ e ∧ k ≤ e + 23
  | _ => False

theorem ExponentAtLeast.pack {k : Int} {u : UnpackedFloat} (h : ExponentAtLeast k u) :
    UnpackedAtLeast k (UnpackedFloat.unpack Format.binary32
      (UnpackedFloat.pack Format.binary32 u)) := by
  cases u with
  | notANumber | zero => exact h.elim
  | infinity s =>
    cases s with
    | negative => exact h.elim
    | positive => exact trivial
  | finite s m e hm =>
    cases s with
    | negative => exact h.elim
    | positive =>
      obtain ⟨hlog, hlow, hk⟩ := h
      have hbias : Format.binary32.exponentBias = 127 := rfl
      simp only [UnpackedFloat.pack, hbias]
      split
      · exact trivial
      · rename_i hover
        have hover : ¬ 2 ^ 8 ≤ (e + 127 + 23).toNat + 1 := hover
        have hfield : (BitVec.ofNat 8 (e + 127 + 23).toNat).toNat = (e + 127 + 23).toNat := by
          rw [BitVec.toNat_ofNat, Nat.mod_eq_of_lt (by omega)]
        generalize BitVec.ofNat 8 (e + 127 + 23).toNat = exponent at hfield ⊢
        have hne : exponent ≠ -1#8 := by
          rintro rfl
          have hfull : 255 = (e + 127 + 23).toNat := hfield
          omega
        have hnormal : exponent ≠ 0#8 := by
          rintro rfl
          have hempty : 0 = (e + 127 + 23).toNat := hfield
          omega
        have hbits : m.log2 + 1 = Format.binary32.mantissaBits := by
          rw [hlog]
          rfl
        have hmantissa : 2 ^ 23 ≤ (1#1 ++ BitVec.ofNat 23 m).toNat := by
          rw [BitVec.toNat_append]
          exact Nat.left_le_or
        have himplicit : 23 ≤ (1#1 ++ BitVec.ofNat 23 m).toNat.log2 :=
          (Nat.le_log2 (by omega)).mpr hmantissa
        simp only [hbits, if_true, UnpackedFloat.unpack, unpackExponent_packComponents,
          unpackMantissa_packComponents, unpackSign_packComponents, ofBitVec_toBitVec, hne,
          hnormal, if_false, hbias]
        simp only [UnpackedAtLeast, totalExponent]
        omega

/-! ### Rounding -/

theorem mantissa_shiftRight (em : ExtendedMantissa) (n : Nat) :
    (em >>> n).mantissa = em.mantissa / 2 ^ n := by
  induction n with
  | zero => exact (Nat.div_one _).symm
  | succ n ih =>
    show (em >>> n).mantissa / 2 = _
    rw [ih, Nat.div_div_eq_div_mul, Nat.pow_succ]

theorem mantissa_ofMantissaAndAccuracy (m : Nat) (accuracy : Accuracy) :
    (ExtendedMantissa.ofMantissaAndAccuracy m accuracy).mantissa = m := by
  cases accuracy with
  | exact => rfl
  | inexact half => cases half <;> rfl

/-- Rounding adds at most one unit. -/
theorem roundedMantissa_le (em : ExtendedMantissa) : em.roundedMantissa ≤ em.mantissa + 1 := by
  obtain ⟨m, round, sticky⟩ := em
  cases round <;> cases sticky <;>
    simp [ExtendedMantissa.roundedMantissa, ExtendedMantissa.accuracy,
      Accuracy.roundToNearestEven]
  omega

/-- The exponent that a mantissa is shifted to. -/
def shiftedExponent (m : Nat) (e : Int) : Int := max e (max (totalExponent m e - 24) (-149))

theorem shiftToTargetExponent_snd (m : Nat) (e : Int) (accuracy : Accuracy) :
    (shiftToTargetExponent Format.binary32 m e accuracy).2 = shiftedExponent m e := by
  have htarget : Format.binary32.targetExponent (totalExponent m e) =
      max (totalExponent m e - 24) (-149) := rfl
  simp only [shiftToTargetExponent, shiftToExponent, htarget, shiftedExponent]
  omega

theorem shiftToTargetExponent_mantissa_lt (m : Nat) (e : Int) (accuracy : Accuracy) :
    (shiftToTargetExponent Format.binary32 m e accuracy).1.mantissa < 2 ^ 24 := by
  have htarget : Format.binary32.targetExponent (totalExponent m e) =
      max (totalExponent m e - 24) (-149) := rfl
  simp only [shiftToTargetExponent, shiftToExponent, htarget, mantissa_shiftRight,
    mantissa_ofMantissaAndAccuracy]
  rw [Nat.div_lt_iff_lt_mul (Nat.two_pow_pos _), ← Nat.pow_add]
  refine Nat.lt_of_lt_of_le Nat.lt_log2_self (Nat.pow_le_pow_right (by decide) ?_)
  simp only [totalExponent]
  omega

/-- Rounding raises the exponent by one at most. -/
theorem exponentBelow_roundWithAccuracy {k : Int} (s : Sign) (m : Nat) (e : Int)
    (accuracy : Accuracy) (h : s = .positive → shiftedExponent m e + 1 ≤ k - 24) :
    ExponentBelow k (roundWithAccuracy Format.binary32 s m e accuracy) := by
  simp only [roundWithAccuracy]
  split
  · trivial
  · cases s with
    | negative => trivial
    | positive =>
      have h := h rfl
      have hrounded := roundedMantissa_le (shiftToTargetExponent Format.binary32 m e accuracy).1
      have hmantissa := shiftToTargetExponent_mantissa_lt m e accuracy
      simp only [ExponentBelow, shiftToTargetExponent_snd]
      generalize (shiftToTargetExponent Format.binary32 m e accuracy).1.roundedMantissa = rounded
        at hrounded ⊢
      have hlog : rounded.log2 < 25 := by
        by_cases hzero : rounded = 0
        · rw [hzero]
          decide
        · rw [Nat.log2_lt hzero]
          omega
      simp only [shiftedExponent, totalExponent] at h ⊢
      omega

theorem le_roundedMantissa (em : ExtendedMantissa) : em.mantissa ≤ em.roundedMantissa := by
  obtain ⟨m, round, sticky⟩ := em
  cases round <;> cases sticky <;>
    simp [ExtendedMantissa.roundedMantissa, ExtendedMantissa.accuracy,
      Accuracy.roundToNearestEven]

/-- A mantissa of at least twenty-four bits is shifted to exactly as many. -/
theorem log2_shiftToTargetExponent {m : Nat} {e : Int} (accuracy : Accuracy) (hm : 23 ≤ m.log2)
    (he : -149 ≤ e) :
    (shiftToTargetExponent Format.binary32 m e accuracy).1.mantissa.log2 = 23 := by
  have htarget : Format.binary32.targetExponent (totalExponent m e) =
      max (totalExponent m e - 24) (-149) := rfl
  have hshift : (max (totalExponent m e - 24) (-149) - e).toNat = m.log2 - 23 := by
    simp only [totalExponent]
    omega
  have hne : m ≠ 0 := by
    rintro rfl
    exact absurd hm (by decide)
  simp only [shiftToTargetExponent, shiftToExponent, htarget, hshift, mantissa_shiftRight,
    mantissa_ofMantissaAndAccuracy]
  have hlow : 2 ^ 23 ≤ m / 2 ^ (m.log2 - 23) := by
    rw [Nat.le_div_iff_mul_le (Nat.two_pow_pos _), ← Nat.pow_add]
    exact Nat.le_trans (Nat.pow_le_pow_right (by decide) (by omega)) (Nat.log2_self_le hne)
  have hhigh : m / 2 ^ (m.log2 - 23) < 2 ^ 24 := by
    rw [Nat.div_lt_iff_lt_mul (Nat.two_pow_pos _), ← Nat.pow_add]
    exact Nat.lt_of_lt_of_le Nat.lt_log2_self (Nat.pow_le_pow_right (by decide) (by omega))
  exact (Nat.log2_eq_iff (by omega)).mpr ⟨hlow, hhigh⟩

/-- A number with all the bits of a mantissa keeps its highest bit when it is rounded. -/
theorem exponentAtLeast_roundWithAccuracy {k : Int} {m : Nat} {e : Int} (accuracy : Accuracy)
    (hm : 23 ≤ m.log2) (he : -149 ≤ e) (hk : k ≤ e + m.log2) :
    ExponentAtLeast k (roundWithAccuracy Format.binary32 .positive m e accuracy) := by
  have hfirst := log2_shiftToTargetExponent accuracy hm he
  have hlower := le_roundedMantissa (shiftToTargetExponent Format.binary32 m e accuracy).1
  have hne : (shiftToTargetExponent Format.binary32 m e accuracy).1.mantissa ≠ 0 := by
    intro h
    rw [h] at hfirst
    exact absurd hfirst (by decide)
  have hbits := Nat.log2_self_le hne
  rw [hfirst] at hbits
  simp only [roundWithAccuracy, shiftToTargetExponent_snd]
  generalize (shiftToTargetExponent Format.binary32 m e accuracy).1.roundedMantissa = rounded
    at hlower ⊢
  have hrounded : 23 ≤ rounded.log2 := (Nat.le_log2 (by omega)).mpr (by omega)
  have hlow : -149 ≤ shiftedExponent m e := by
    simp only [shiftedExponent]
    omega
  have hsecond := log2_shiftToTargetExponent .exact hrounded hlow
  split
  · rename_i hzero
    rw [hzero] at hsecond
    exact absurd hsecond (by decide)
  · refine ⟨hsecond, ?_, ?_⟩
    · simp only [shiftedExponent]
      omega
    · simp only [shiftedExponent, totalExponent]
      omega

/-! ### Division -/

theorem log2_shiftLeft_div_le (m n shift : Nat) (hn : 0 < n) :
    ((m <<< shift / n).log2 : Int) ≤ max 0 (m.log2 + shift - n.log2) := by
  by_cases hzero : m <<< shift / n = 0
  · rw [hzero]
    simp
  · have hlow : 2 ^ (m <<< shift / n).log2 * n ≤ m <<< shift :=
      Nat.le_trans (Nat.mul_le_mul_right n (Nat.log2_self_le hzero)) (Nat.div_mul_le_self _ _)
    have hhigh : m <<< shift < 2 ^ (m.log2 + 1 + shift) := by
      rw [Nat.shiftLeft_eq, Nat.pow_add]
      exact Nat.mul_lt_mul_of_pos_right Nat.lt_log2_self (Nat.two_pow_pos _)
    have hpow : 2 ^ ((m <<< shift / n).log2 + n.log2) < 2 ^ (m.log2 + 1 + shift) := by
      rw [Nat.pow_add]
      exact Nat.lt_of_le_of_lt (Nat.mul_le_mul_left _ (Nat.log2_self_le hn.ne'))
        (Nat.lt_of_le_of_lt hlow hhigh)
    have hexponent := (Nat.pow_lt_pow_iff_right (by decide)).mp hpow
    omega

/-- The quotient has the exponent that the difference of the exponents asks for. -/
theorem shiftedExponent_divCore_le (m n : Nat) (e f : Int) (hn : 0 < n) :
    shiftedExponent (divCore Format.binary32 m e n f).1 (divCore Format.binary32 m e n f).2.1 ≤
      max (totalExponent m e - totalExponent n f + 1 - 24) (-149) := by
  have htarget : Format.binary32.targetExponent (totalExponent m e - totalExponent n f) =
      max (totalExponent m e - totalExponent n f - 24) (-149) := rfl
  simp only [divCore, htarget]
  have hlog := log2_shiftLeft_div_le m n
    (e - f - min (e - f) (max (totalExponent m e - totalExponent n f - 24) (-149))).toNat hn
  simp only [shiftedExponent, totalExponent] at hlog ⊢
  omega

/-- A number below one power of two, divided by one that is at least another. -/
theorem exponentBelow_div {i j : Int} {u v : UnpackedFloat} (hu : UnpackedBelow i u)
    (hv : UnpackedAtLeast j v) (hij : 0 ≤ i - j) :
    ExponentBelow (i - j + 1) (UnpackedFloat.div Format.binary32 u v) := by
  cases v with
  | zero | notANumber => exact hv.elim
  | infinity s => cases u <;> exact trivial
  | finite t n f hn =>
    cases t with
    | negative => exact hv.elim
    | positive =>
      have hv : j < totalExponent n f := hv
      cases u with
      | zero | notANumber => exact trivial
      | infinity s =>
        cases s with
        | negative => exact trivial
        | positive => exact hu.elim
      | finite s m e hm =>
        have hshift := shiftedExponent_divCore_le m n e f hn
        apply exponentBelow_roundWithAccuracy
        intro hs
        cases s with
        | negative => contradiction
        | positive =>
          have hu : totalExponent m e ≤ i := hu
          show shiftedExponent (divCore Format.binary32 m e n f).1
            (divCore Format.binary32 m e n f).2.1 + 1 ≤ i - j + 1 - 24
          omega

theorem Below.div {i j : Int} {x y : Float32} (hx : Below i x) (hy : AtLeast j y)
    (hlow : 0 ≤ i - j) (hhigh : i - j ≤ 126) : Below (i - j + 1) (x / y) :=
  (exponentBelow_div hx hy hlow).pack (by omega) (by omega)

/-! ### Conversion -/

/-- A whole number that is converted is at least the power of two of its highest bit. -/
theorem atLeast_ofNat {n : Nat} (h : 0 < n) :
    UnpackedAtLeast 0 (Float32.Model.ofNat n).unpack := by
  apply ExponentAtLeast.pack
  have hcompare : compare (n : Int) 0 = .gt := Int.compare_eq_gt.mpr (by omega)
  have htarget : Format.binary32.targetExponent (totalExponent n 0) =
      max (totalExponent n 0 - 24) (-149) := rfl
  have hmantissa : 2 ^ 23 ≤ n <<< (0 - max (totalExponent n 0 - 24) (-149)).toNat := by
    rw [Nat.shiftLeft_eq]
    calc 2 ^ 23 ≤ 2 ^ n.log2 * 2 ^ (0 - max (totalExponent n 0 - 24) (-149)).toNat := by
          rw [← Nat.pow_add]
          refine Nat.pow_le_pow_right (by decide) ?_
          simp only [totalExponent]
          omega
      _ ≤ n * 2 ^ (0 - max (totalExponent n 0 - 24) (-149)).toNat :=
          Nat.mul_le_mul_right _ (Nat.log2_self_le (by omega))
  have hlog := (Nat.le_log2 (by omega)).mpr hmantissa
  simp only [UnpackedFloat.ofNat, UnpackedFloat.ofInt, UnpackedFloat.normalize, hcompare,
    UnpackedFloat.round, htarget, UnpackedFloat.decreaseExponent, Int.toNat_natCast]
  apply exponentAtLeast_roundWithAccuracy _ hlog
  · simp only [totalExponent]
    omega
  · simp only [totalExponent] at hlog ⊢
    omega

theorem atLeast_toFloat32 {n : UInt16} (h : n ≠ 0) : AtLeast 0 n.toFloat32 :=
  atLeast_ofNat (Nat.pos_of_ne_zero fun hzero => h (UInt16.toNat_inj.mp hzero))

theorem toNat_pos {n : UInt32} (h : n ≠ 0) : 0 < n.toNat :=
  Nat.pos_of_ne_zero fun hzero => h (UInt32.toNat_inj.mp hzero)

theorem atLeast_toFloat32_of_ne {n : UInt32} (h : n ≠ 0) : AtLeast 0 n.toFloat32 :=
  atLeast_ofNat (toNat_pos h)

/-! ### Whole parts -/

theorem roundToInt_lt {m : Nat} {e : Int} {k : Nat} (h : totalExponent m e ≤ k) :
    roundToInt .positive m e < 2 ^ k := by
  simp only [totalExponent] at h
  simp only [roundToInt, decreaseExponent, shiftToExponent, mantissa_shiftRight,
    mantissa_ofMantissaAndAccuracy, Sign.apply]
  have hlt : m <<< (e - 0).toNat / 2 ^ (0 - (e - (e - 0).toNat)).toNat < 2 ^ k := by
    rw [Nat.div_lt_iff_lt_mul (Nat.two_pow_pos _), Nat.shiftLeft_eq, ← Nat.pow_add]
    calc m * 2 ^ (e - 0).toNat < 2 ^ (m.log2 + 1) * 2 ^ (e - 0).toNat :=
          Nat.mul_lt_mul_of_pos_right Nat.lt_log2_self (Nat.two_pow_pos _)
      _ = 2 ^ (m.log2 + 1 + (e - 0).toNat) := (Nat.pow_add ..).symm
      _ ≤ 2 ^ (k + (0 - (e - (e - 0).toNat)).toNat) :=
          Nat.pow_le_pow_right (by decide) (by omega)
  exact_mod_cast hlt

theorem UnpackedBelow.toInt_lt {k : Nat} {u : UnpackedFloat} (h : UnpackedBelow k u)
    (largest : Int) : u.toInt 0 largest < 2 ^ k := by
  have hpos : (0 : Int) < 2 ^ k := Int.pow_pos (by decide)
  cases u with
  | notANumber | zero => exact hpos
  | infinity s =>
    cases s with
    | negative => exact hpos
    | positive => exact h.elim
  | finite s m e hm =>
    cases s with
    | positive => exact roundToInt_lt h
    | negative =>
      have hneg : roundToInt .negative m e ≤ 0 := by
        simp only [roundToInt, Sign.apply]
        omega
      exact Int.lt_of_le_of_lt hneg hpos

theorem toNat_ofNatClamp_le (n : Nat) : (UInt32.ofNatClamp n).toNat ≤ n := by
  simp only [UInt32.ofNatClamp]
  split
  · exact Nat.le_refl n
  · rename_i hlarge
    exact Nat.le_trans (by decide) (Nat.not_lt.mp hlarge)

/-- The whole part of a number below a power of two is below it. -/
theorem Below.toUInt32_lt {k : Nat} {x : Float32} (h : Below k x) : x.toUInt32.toNat < 2 ^ k := by
  have hint := h.toInt_lt (UInt32.size - 1)
  have hcast : ((2 ^ k : Nat) : Int) = 2 ^ k := by push_cast; rfl
  refine Nat.lt_of_le_of_lt (toNat_ofNatClamp_le _) ?_
  rw [← hcast] at hint
  have hpos := Nat.two_pow_pos k
  omega

end Chiptune
