import Mathlib

/-!
# Shift registers of full period

A register of `w` bits shifts up by one bit at every cell and takes in whether
its two topmost bits are equal. The complements of the bits that it lets go of,
one after the other, are a sequence in which `s (n + w)` is the sum of `s n` and
`s (n + 1)`.

Sums of bits commute with squaring, so the same holds at powers of two:
`s (n + w * 2 ^ k)` is the sum of `s n` and `s (n + 2 ^ k)`. When `w + 1` is the
power `2 ^ m`, the bits at the powers of two are a sequence of the same kind,
with `m` in place of `w`. For seven and fifteen bits these are of length three
and four, and short enough to be followed by hand: they repeat after seven and
fifteen places. So the register comes round after `2 ^ w - 1` cells, and what is
left to see is that it does not come round earlier.
-/
namespace Chiptune.Sound
open Function

/-! ### Sequences of bits -/

/-- Each bit is the sum of the two that lie `length` and `length - 1` places before it. -/
def Recurs (length : Nat) (s : Nat → Bool) : Prop := ∀ n, s (n + length) = (s n ^^ s (n + 1))

namespace Recurs

variable {length : Nat} {s : Nat → Bool}

/-- Squaring: the middle terms of the sum cancel. -/
theorem doubled (h : Recurs length s) (k n : Nat) :
    s (n + length * 2 ^ k) = (s n ^^ s (n + 2 ^ k)) := by
  induction k generalizing n with
  | zero => simpa using h n
  | succ k ih =>
    calc s (n + length * 2 ^ (k + 1))
        = s (n + length * 2 ^ k + length * 2 ^ k) := by rw [pow_succ]; ring_nf
      _ = (s (n + length * 2 ^ k) ^^ s (n + 2 ^ k + length * 2 ^ k)) := by
          rw [ih (n + length * 2 ^ k), Nat.add_right_comm]
      _ = ((s n ^^ s (n + 2 ^ k)) ^^ (s (n + 2 ^ k) ^^ s (n + 2 ^ k + 2 ^ k))) := by
          rw [ih, ih]
      _ = (s n ^^ s (n + 2 ^ k + 2 ^ k)) := by simp
      _ = (s n ^^ s (n + 2 ^ (k + 1))) := by rw [pow_succ, mul_two, Nat.add_assoc]

/-- The bits that lie powers of two on from a place recur too, with the logarithm as length. -/
theorem powers {m : Nat} (h : Recurs (2 ^ m - 1) s) (n : Nat) :
    Recurs m fun k => s (n + 2 ^ k) := by
  intro k
  have hlength : n + 2 ^ (k + m) = n + 2 ^ k + (2 ^ m - 1) * 2 ^ k := by
    have hpos : 2 ^ k ≤ 2 ^ m * 2 ^ k := Nat.le_mul_of_pos_left _ (Nat.two_pow_pos m)
    rw [Nat.sub_mul, one_mul, Nat.add_assoc, Nat.add_sub_cancel' hpos, pow_add, mul_comm]
  have hnext : n + 2 ^ k + 2 ^ k = n + 2 ^ (k + 1) := by
    rw [pow_succ, mul_two, Nat.add_assoc]
  simp only [hlength, h.doubled, hnext]

theorem repeats_seven (h : Recurs 3 s) (n : Nat) : s (n + 7) = s n := by
  have hlast : s (n + 7) = (s (n + 1) ^^ s (n + 3)) := h.doubled 1 (n + 1)
  rw [hlast, h n, Bool.xor_left_comm, Bool.xor_self, Bool.xor_false]

theorem repeats_fifteen (h : Recurs 4 s) (n : Nat) : s (n + 15) = s n := by
  have hlast : s (n + 15) = (s (n + 7) ^^ s (n + 9)) := h.doubled 1 (n + 7)
  have hseven : s (n + 7) = (s (n + 3) ^^ s (n + 4)) := h (n + 3)
  have hnine : s (n + 9) = (s (n + 1) ^^ s (n + 3)) := h.doubled 1 (n + 1)
  rw [hlast, hseven, hnine, h n]
  cases s n <;> cases s (n + 1) <;> cases s (n + 3) <;> rfl

end Recurs

/-! ### The register -/

variable {w : Nat}

/-- One cell: the register shifts up and takes in whether its two topmost bits are equal. -/
def shifted (r : BitVec w) : BitVec w := r.shiftConcat (r.getMsbD 0 == r.getMsbD 1)

/-- The complement of the bit that leaves the register after some cells. -/
def leaving (r : BitVec w) (cells : Nat) : Bool := !(shifted^[cells] r).getMsbD 0

theorem getMsbD_shifted (r : BitVec w) {i : Nat} (hi : i + 1 < w) :
    (shifted r).getMsbD i = r.getMsbD (i + 1) := by
  have hlow : w - 1 - i ≠ 0 := by omega
  have hlt : w - 1 - i < w := by omega
  have hplace : w - 1 - i - 1 = w - 1 - (i + 1) := by omega
  rw [shifted, BitVec.getMsbD_eq_getLsbD, BitVec.getLsbD_shiftConcat, if_neg hlow, hplace,
    BitVec.getMsbD_eq_getLsbD r, decide_eq_true (Nat.lt_of_succ_lt hi), decide_eq_true hlt,
    decide_eq_true hi, Bool.true_and]

theorem getMsbD_shifted_last (r : BitVec w) (hw : 0 < w) :
    (shifted r).getMsbD (w - 1) = (r.getMsbD 0 == r.getMsbD 1) := by
  rw [shifted, BitVec.getMsbD_eq_getLsbD, BitVec.getLsbD_shiftConcat]
  simp [hw]

/-- Every bit gets to the top in time. -/
theorem getMsbD_eq_leaving (r : BitVec w) {i : Nat} (hi : i < w) :
    r.getMsbD i = !leaving r i := by
  rw [leaving, Bool.not_not]
  induction i generalizing r with
  | zero => rfl
  | succ i ih => rw [← getMsbD_shifted r hi, ih _ (by omega), iterate_succ_apply]

theorem leaving_iterate (r : BitVec w) (n i : Nat) :
    leaving (shifted^[n] r) i = leaving r (n + i) := by
  rw [leaving, leaving, ← iterate_add_apply, Nat.add_comm]

theorem recurs_leaving (hw : 1 < w) (r : BitVec w) : Recurs w (leaving r) := by
  intro n
  rw [← leaving_iterate r n w, ← leaving_iterate r n 1, ← Nat.add_zero n, ← leaving_iterate r n 0]
  generalize shifted^[n] r = r
  -- The bit that leaves after `w` cells is the one that the first of them has taken in.
  have hnew : leaving r w = !(shifted r).getMsbD (w - 1) := by
    rw [getMsbD_eq_leaving _ (by omega), Bool.not_not, ← iterate_one (shifted (w := w)),
      leaving_iterate, Nat.add_sub_cancel' (by omega)]
  have htop : r.getMsbD 0 = !leaving r 0 := getMsbD_eq_leaving r (by omega)
  have hsecond : r.getMsbD 1 = !leaving r 1 := getMsbD_eq_leaving r hw
  rw [hnew, getMsbD_shifted_last r (by omega), htop, hsecond]
  cases leaving r 0 <;> cases leaving r 1 <;> rfl

theorem iterate_eq_of_leaving {r : BitVec w} {j k : Nat}
    (h : ∀ i, leaving r (j + i) = leaving r (k + i)) : shifted^[j] r = shifted^[k] r := by
  apply BitVec.eq_of_getMsbD_eq
  intro i hi
  rw [getMsbD_eq_leaving _ hi, getMsbD_eq_leaving _ hi, leaving_iterate, leaving_iterate, h]

/-! ### The period from all zeros -/

theorem minimalPeriod_eq_of_primes {α : Type*} {f : α → α} {x : α} {n : Nat}
    (hperiod : IsPeriodicPt f n x)
    (hprime : ∀ p, p.Prime → p ∣ n → ¬IsPeriodicPt f (n / p) x) : minimalPeriod f x = n := by
  obtain ⟨a, ha⟩ := hperiod.minimalPeriod_dvd
  by_contra hne
  have hone : a ≠ 1 := by
    rintro rfl
    exact hne (by rw [← mul_one (minimalPeriod f x), ← ha])
  obtain ⟨p, hp, b, rfl⟩ := Nat.exists_prime_and_dvd hone
  have hquotient : n / p = minimalPeriod f x * b := by
    rw [ha, Nat.mul_left_comm, Nat.mul_div_cancel_left _ hp.pos]
  apply hprime p hp ⟨minimalPeriod f x * b, by rw [ha, Nat.mul_left_comm]⟩
  rw [hquotient, isPeriodicPt_iff_minimalPeriod_dvd]
  exact Nat.dvd_mul_right _ _

/-- Counts of cells lead to the same place just when they agree modulo the period. -/
theorem iterate_eq_iff_modEq {α : Type*} {f : α → α} {x : α} {n : Nat} (hn : 0 < n)
    (h : minimalPeriod f x = n) (j k : Nat) : f^[j] x = f^[k] x ↔ j ≡ k [MOD n] := by
  have hj := Nat.mod_lt j hn
  have hk := Nat.mod_lt k hn
  subst h
  rw [← iterate_mod_minimalPeriod_eq, ← iterate_mod_minimalPeriod_eq (n := k)]
  exact iterate_eq_iterate_iff_of_lt_minimalPeriod hj hk

/-- A periodic run never gets stuck elsewhere: it would have to come round from there. -/
theorem iterate_ne_of_isFixedPt {α : Type*} {f : α → α} {x y : α} {n : Nat} (hn : 0 < n)
    (hperiod : IsPeriodicPt f n x) (hy : IsFixedPt f y) (hne : x ≠ y) (k : Nat) :
    f^[k] x ≠ y := by
  intro hstuck
  have hcells : (n - 1) * k + k = n * k := by
    rw [← Nat.succ_mul, Nat.succ_eq_add_one, Nat.sub_add_cancel hn]
  have hround : f^[(n - 1) * k + k] x = x := by rw [hcells]; exact hperiod.mul_const k
  rw [iterate_add_apply, hstuck, hy.iterate] at hround
  exact hne hround.symm

/-- If sequences with the logarithm as length repeat, the register comes round. It gets to all zeros
in the cell after the one with its topmost bit alone, and that cell is reached again. -/
theorem isPeriodicPt_zero {m : Nat} (hm : 1 < 2 ^ m - 1)
    (hrepeats : ∀ s : Nat → Bool, Recurs m s → s (2 ^ m - 1) = s 0) {r : BitVec (2 ^ m - 1)}
    (hr : shifted r = 0) :
    IsPeriodicPt shifted (2 ^ (2 ^ m - 1) - 1) (0 : BitVec (2 ^ m - 1)) := by
  have hback : shifted^[2 ^ (2 ^ m - 1)] r = shifted^[1] r := by
    apply iterate_eq_of_leaving
    intro i
    have hpowers := hrepeats _ ((recurs_leaving hm r).powers i)
    rwa [Nat.add_comm, Nat.add_comm 1]
  have hcells : 2 ^ (2 ^ m - 1) = 2 ^ (2 ^ m - 1) - 1 + 1 :=
    (Nat.sub_add_cancel (Nat.two_pow_pos _)).symm
  rw [hcells, iterate_add_apply, iterate_one, hr] at hback
  exact hback

theorem minimalPeriod_seven : minimalPeriod shifted (0 : BitVec 7) = 2 ^ 7 - 1 := by
  have hperiod : IsPeriodicPt shifted (2 ^ 7 - 1) (0 : BitVec 7) :=
    isPeriodicPt_zero (m := 3) (by decide) (fun _ h => h.repeats_seven 0)
      (r := BitVec.twoPow 7 6) (by decide)
  apply minimalPeriod_eq_of_primes hperiod
  intro p hp hdvd
  have hprime : Nat.Prime (2 ^ 7 - 1) := by norm_num
  rw [(Nat.prime_dvd_prime_iff_eq hp hprime).mp hdvd]
  decide

theorem leaving_of_isPeriodicPt {r : BitVec w} {n : Nat} (h : IsPeriodicPt shifted n r) :
    leaving r n = leaving r 0 := by
  rw [← Nat.add_zero n, ← leaving_iterate, h]

theorem eq_of_prime_dvd {p : Nat} (hp : p.Prime) (hdvd : p ∣ 2 ^ 15 - 1) :
    p = 7 ∨ p = 31 ∨ p = 151 := by
  have hseven : Nat.Prime 7 := by norm_num
  have hthirtyOne : Nat.Prime 31 := by norm_num
  have hlast : Nat.Prime 151 := by norm_num
  have hdvd : p ∣ 7 * 31 * 151 := hdvd
  rw [hp.dvd_mul, hp.dvd_mul, Nat.prime_dvd_prime_iff_eq hp hseven,
    Nat.prime_dvd_prime_iff_eq hp hthirtyOne, Nat.prime_dvd_prime_iff_eq hp hlast, or_assoc] at hdvd
  exact hdvd

/-- For none of its three prime divisors is the quotient of `2 ^ 15 - 1` a period, since after as
many cells a one leaves the register. -/
theorem minimalPeriod_fifteen : minimalPeriod shifted (0 : BitVec 15) = 2 ^ 15 - 1 := by
  have hperiod : IsPeriodicPt shifted (2 ^ 15 - 1) (0 : BitVec 15) :=
    isPeriodicPt_zero (m := 4) (by decide) (fun _ h => h.repeats_fifteen 0)
      (r := BitVec.twoPow 15 14) (by decide)
  have hrecurs := recurs_leaving (by decide) (0 : BitVec 15)
  -- Squaring brings the count of cells down to where they can be played through.
  have hseven : leaving (0 : BitVec 15) 4681 = false := by
    have hlong : leaving (0 : BitVec 15) 4681 = _ := hrecurs.doubled 8 841
    have hlow : leaving (0 : BitVec 15) 841 = _ := hrecurs.doubled 5 361
    have hhigh : leaving (0 : BitVec 15) 1097 = _ := hrecurs.doubled 6 137
    have hshort : ((leaving (0 : BitVec 15) 361 ^^ leaving (0 : BitVec 15) 393) ^^
        (leaving (0 : BitVec 15) 137 ^^ leaving (0 : BitVec 15) 201)) = false := by decide +kernel
    rw [hlong, hlow]
    exact (congrArg _ hhigh).trans hshort
  have hthirtyOne : leaving (0 : BitVec 15) 1057 = false := by
    have hlong : leaving (0 : BitVec 15) 1057 = _ := hrecurs.doubled 6 97
    rw [hlong]
    decide +kernel
  have hlast : leaving (0 : BitVec 15) 217 = false := by decide +kernel
  have hfirst : leaving (0 : BitVec 15) 0 = true := by decide
  apply minimalPeriod_eq_of_primes hperiod
  intro p hp hdvd hback
  have hone := (leaving_of_isPeriodicPt hback).trans hfirst
  obtain rfl | rfl | rfl := eq_of_prime_dvd hp hdvd
  · exact absurd (hseven.symm.trans hone) (by decide)
  · exact absurd (hthirtyOne.symm.trans hone) (by decide)
  · exact absurd (hlast.symm.trans hone) (by decide)

end Chiptune.Sound
