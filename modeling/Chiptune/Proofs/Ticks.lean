import Chiptune.Proofs.ExactNumbers

/-!
# Ticks

The envelope and the sweep count in fractions: every sample adds an increment to
a counter, and every whole that the counter has passed is a tick. The increments
of both are below 250, whatever the sample rate, so the counter is small
enough to be lowered exactly, and all ticks that are due are made in their sample.
-/
namespace Chiptune

/-- How many ticks are due at a counter: each lowers it by one, as long as it has passed one. -/
inductive Due : Float32 → Nat → Prop where
  | none {counter : Float32} (h : ¬ counter > 1.0) : Due counter 0
  | tick {counter : Float32} {n : Nat} (h : counter > 1.0) (rest : Due (counter - 1.0) n) :
    Due counter (n + 1)

/-- The counter after a number of ticks. -/
def lowered (n : Nat) (counter : Float32) : Float32 := (· - (1.0 : Float32))^[n] counter

theorem Due.unique {counter : Float32} {n m : Nat} (hn : Due counter n) (hm : Due counter m) :
    n = m := by
  induction hn generalizing m with
  | none h =>
    cases hm with
    | none => rfl
    | tick h' => exact absurd h' h
  | tick h _ ih =>
    cases hm with
    | none h' => exact absurd h h'
    | tick _ rest => rw [ih rest]

/-- At a small counter some number of ticks is due. The whole part of the counter bounds it, and
the ticks leave the counter at one or less. -/
theorem exists_due {counter : Float32} {limit : Nat} (h : UpTo limit counter)
    (hlimit : limit < 2 ^ 24) :
    ∃ n, Due counter n ∧ n ≤ counter.toUInt64.toNat ∧ UpTo 1 (lowered n counter) := by
  induction limit generalizing counter with
  | zero =>
    have hone := h.mono (Nat.zero_le 1)
    exact ⟨0, .none hone.not_gt_one, Nat.zero_le _, hone⟩
  | succ limit ih =>
    by_cases hpassed : counter > 1.0
    · have hgt := (UpTo.gt_one_iff h.1).mp hpassed
      obtain ⟨s, hs⟩ | ⟨q, hq, hqn⟩ := h.cases
      · rw [value, hs] at hgt
        exact absurd hgt (not_lt.mpr (WithTop.coe_le_coe.mpr zero_le_one))
      · rw [hq.value_eq, WithTop.coe_lt_coe] at hgt
        have hsmall : q < 2 ^ 24 := hqn.trans_lt (by exact_mod_cast hlimit)
        have hlower := hq.sub_one hgt hsmall
        have hupTo : UpTo limit (counter - 1.0) := by
          refine hlower.upTo ?_
          push_cast at hqn
          linarith
        obtain ⟨n, hn, hbound, hleft⟩ := ih hupTo (by omega)
        refine ⟨n + 1, .tick hpassed hn, ?_, hleft⟩
        have hfloor : 1 ≤ ⌊q⌋₊ := Nat.le_floor (by exact_mod_cast hgt.le)
        rw [hlower.toNat_toUInt64 (by linarith), Nat.floor_sub_one] at hbound
        rw [hq.toNat_toUInt64 hsmall]
        omega
    · refine ⟨0, .none hpassed, Nat.zero_le _, h.1, ?_⟩
      rw [UpTo.gt_one_iff h.1, not_lt] at hpassed
      exact_mod_cast hpassed

/-! ### Increments -/

/-- The rates that a unit can have. -/
def IsRate (rate : Float32) : Prop := Within (9 / 10) (2 ^ 33) rate

theorem isRate_toFloat32 {sampleRate : UInt32} (h : 1 ≤ sampleRate) :
    IsRate sampleRate.toFloat32 := by
  refine Within.toFloat32_of_ne fun hzero => ?_
  rw [hzero] at h
  exact absurd h (by decide)

/-- The periods of envelope and sweep have three bits. -/
theorem within_period {period : UInt8} (hle : period ≤ 7) (hne : period ≠ 0) :
    Within (9 / 10) 8 period.toFloat32 := by
  have hpos : 0 < period.toNat := UInt8.lt_iff_toNat_lt.mp (UInt8.pos_iff_ne_zero.mpr hne)
  have hwide : period.toUInt32 ≠ 0 := by
    intro h
    have hzero : period.toNat = 0 := congrArg UInt32.toNat h
    omega
  have hlow : (1 : ℚ) ≤ period.toUInt32.toNat := by exact_mod_cast hpos
  have hhigh : (period.toUInt32.toNat : ℚ) ≤ 7 := by
    exact_mod_cast UInt8.le_iff_toNat_le.mp hle
  refine Within.widen (Within.toFloat32 hwide) ?_ ?_
  · linarith
  · linarith

/-- A clock of at most 200 Hz makes a part of a tick, and fewer than 250, in a sample. -/
theorem within_increment {hz rate : Float32} (hhz : Within (1 / 2) 200 hz) (hrate : IsRate rate) :
    Within (2 ^ (-35 : ℤ)) 250 (hz / rate) :=
  (hhz.div hrate (by norm_num) (by norm_num) (by norm_num)).widen (by norm_num) (by norm_num)

/-- A period slows a clock down. -/
theorem within_slowed {hz : Float32} {period : UInt8} (hhz : Within 8 128 hz)
    (hle : period ≤ 7) (hne : period ≠ 0) : Within (1 / 2) 200 (hz / period.toFloat32) :=
  (hhz.div (within_period hle hne) (by norm_num) (by norm_num) (by norm_num)).widen (by norm_num)
    (by norm_num)

end Chiptune
