import Chiptune.Proofs.RegisterFile
import Chiptune.Proofs.SparedRuns

/-!
# The track of a sweep

The register of the sweep and the frequency at a trigger fix a track: each step
moves the frequency by a part of itself. However many ticks fall into one sample,
the frequency of the channel is on the track, and it has not passed a place that
is beyond eleven bits. A tick that would go there stops the channel and leaves its
frequency, and so does every tick of a sweep without a shift.
-/
namespace Chiptune
open Sound

namespace Sound.Sweep

variable {s : Sweep}

/-! ### The track -/

/-- One step of the track. -/
def stepped (s : Sweep) (frequency : Nat) : Nat :=
  if s.falling then frequency - frequency >>> s.shift.toNat
  else frequency + frequency >>> s.shift.toNat

/-- The frequency after a number of steps, whether or not it has eleven bits. -/
def track (s : Sweep) (j : Nat) : Nat := s.stepped^[j] s.shadow.toNat

/-- Whether the tick that follows a number of steps stops the channel. -/
def Stops (s : Sweep) (j : Nat) : Prop := 2047 < s.track (j + 1) ∨ (s.shift = 0 ∧ s.period ≠ 0)

theorem track_add (s : Sweep) (j k : Nat) : s.track (j + k) = s.stepped^[k] (s.track j) := by
  rw [track, Nat.add_comm, Function.iterate_add_apply, track]

theorem track_of_falling (h : s.falling = true) {j k : Nat} (hjk : j ≤ k) :
    s.track k ≤ s.track j := by
  refine antitone_nat_of_succ_le (fun n => ?_) hjk
  rw [track_add]
  simp only [Function.iterate_one, stepped, h, if_true]
  exact Nat.sub_le _ _

theorem track_of_rising (h : s.falling = false) {j k : Nat} (hjk : j ≤ k) :
    s.track j ≤ s.track k := by
  refine monotone_nat_of_le_succ (fun n => ?_) hjk
  rw [track_add]
  simp only [Function.iterate_one, stepped, h]
  exact Nat.le_add_right _ _

/-- Ticks that stop nothing stay within eleven bits. -/
theorem track_le_of_not_stops {j n : Nat} (h : ∀ k ≤ j, s.track k ≤ 2047)
    (hmoved : ∀ k < n, ¬ s.Stops (j + k)) {k : Nat} (hk : k ≤ j + n) : s.track k ≤ 2047 := by
  by_cases hbefore : k ≤ j
  · exact h k hbefore
  · obtain ⟨i, rfl⟩ := Nat.exists_eq_add_of_lt (Nat.lt_of_not_le hbefore)
    exact Nat.le_of_not_lt fun hover => hmoved i (by omega) (.inl hover)

/-- Within eleven bits nothing wraps. -/
theorem toNat_next (hshadow : s.shadow.toNat ≤ 2047) (hshift : s.shift ≤ 7) :
    s.next.toNat = s.track 1 := by
  have hshift : s.shift.toNat ≤ 7 := UInt8.le_iff_toNat_le.mp hshift
  have hdelta : (s.shadow >>> s.shift.toUInt16).toNat = s.shadow.toNat >>> s.shift.toNat := by
    rw [UInt16.toNat_shiftRight, UInt8.toNat_toUInt16, Nat.mod_eq_of_lt (by omega)]
  have hle : s.shadow.toNat >>> s.shift.toNat ≤ s.shadow.toNat := Nat.shiftRight_le _ _
  simp only [next, track, Function.iterate_one, stepped]
  split
  · rw [UInt16.toNat_sub_of_le, hdelta]
    rw [UInt16.le_iff_toNat_le, hdelta]
    exact hle
  · rw [UInt16.toNat_add, hdelta]
    omega

/-- The fields of a sweep are bits of its register. -/
structure StartsBy (s : Sweep) (register : UInt8) (frequency : UInt16) : Prop where
  shadow : s.shadow = frequency
  period : s.period.toNat = register.toNat / 0x10 % 8
  falling : s.falling = register.toNat.testBit 3
  shift : s.shift.toNat = register.toNat % 8

theorem startsBy_start (register : UInt8) (frequency : UInt16) (rate : Float32) :
    (start register frequency rate).StartsBy register frequency where
  shadow := rfl
  period := by
    have hnibble : (register >>> 4).toNat = register.toNat / 0x10 := by
      rw [UInt8.toNat_shiftRight]
      exact Nat.shiftRight_eq_div_pow _ 4
    rw [start, UInt8.toNat_and, hnibble]
    exact Nat.and_two_pow_sub_one_eq_mod _ 3
  falling := by
    have hbit : (register &&& 0x08).toNat = (register.toNat.testBit 3).toNat * 8 :=
      (UInt8.toNat_and _ _).trans (Nat.and_two_pow register.toNat 3)
    rw [start, Bool.eq_iff_iff, bne_iff_ne, ne_eq, ← UInt8.toNat_inj, hbit]
    cases register.toNat.testBit 3 <;> decide
  shift := by
    rw [start, UInt8.toNat_and]
    exact Nat.and_two_pow_sub_one_eq_mod _ 3

/-! ### Ticks -/

/-- A sweep that has made a number of steps of another one. -/
structure After (sweep : Sweep) (j : Nat) (s : Sweep) : Prop where
  shadow : s.shadow.toNat = sweep.track j
  period : s.period = sweep.period
  falling : s.falling = sweep.falling
  shift : s.shift = sweep.shift

theorem After.refl (s : Sweep) : After s 0 s := ⟨rfl, rfl, rfl, rfl⟩

theorem After.track {sweep : Sweep} {j : Nat} (h : After sweep j s) (k : Nat) :
    s.track k = sweep.track (j + k) := by
  have hstepped : s.stepped = sweep.stepped := by
    funext frequency
    rw [stepped, stepped, h.falling, h.shift]
  rw [track_add, Sweep.track, h.shadow, hstepped]

theorem After.stops_iff {sweep : Sweep} {j : Nat} (h : After sweep j s) (k : Nat) :
    s.Stops k ↔ sweep.Stops (j + k) := by
  rw [Stops, Stops, h.track, h.shift, h.period, Nat.add_assoc]

theorem After.trans {sweep next : Sweep} {j k : Nat} (h : After sweep j s)
    (hnext : After s k next) : After sweep (j + k) next :=
  ⟨hnext.shadow.trans (h.track k), hnext.period.trans h.period, hnext.falling.trans h.falling,
    hnext.shift.trans h.shift⟩

/-- What a number of ticks comes to. -/
structure Ticked (s : Sweep) (n : Nat) (event : SweepEvent) (result : Sweep × SweepEvent) :
    Prop where
  overflow : (∃ k < n, s.Stops k) → result.2 = .overflow
  moved : (∀ k < n, ¬ s.Stops k) →
    After s n result.1 ∧ result.1.counter = lowered n s.counter ∧ result.1.inc = s.inc ∧
      result.2 = if n = 0 then event else .moved result.1.shadow

theorem ticked_zero (s : Sweep) (event : SweepEvent) : Ticked s 0 event (s, event) := by
  refine ⟨?_, fun _ => ⟨.refl s, rfl, rfl, rfl⟩⟩
  rintro ⟨k, hk, -⟩
  exact absurd hk (Nat.not_lt_zero k)

/-- The first tick stops the channel; the others are dropped. -/
theorem ticked_of_stops {n : Nat} {event : SweepEvent} (h : s.Stops 0) (left : Sweep) :
    Ticked s (n + 1) event (left, .overflow) :=
  ⟨fun _ => rfl, fun hmoved => absurd h (hmoved 0 n.succ_pos)⟩

/-- The first tick is one step, and the others start from there. -/
theorem Ticked.cons {n : Nat} {event : SweepEvent} {next : Sweep} {result : Sweep × SweepEvent}
    (h : ¬ s.Stops 0) (hnext : After s 1 next) (hcounter : next.counter = s.counter - 1.0)
    (hinc : next.inc = s.inc) (hrest : Ticked next n (.moved next.shadow) result) :
    Ticked s (n + 1) event result := by
  constructor
  · rintro ⟨k, hk, hstops⟩
    cases k with
    | zero => exact absurd hstops h
    | succ k =>
      rw [Nat.add_comm, ← hnext.stops_iff] at hstops
      exact hrest.overflow ⟨k, by omega, hstops⟩
  · intro hmoved
    have hlater : ∀ k < n, ¬ next.Stops k := by
      intro k hk
      rw [hnext.stops_iff, Nat.add_comm]
      exact hmoved (k + 1) (by omega)
    obtain ⟨hafter, hcounter', hinc', hevent⟩ := hrest.moved hlater
    refine ⟨Nat.add_comm 1 n ▸ hnext.trans hafter, ?_, hinc'.trans hinc, ?_⟩
    · rw [hcounter', hcounter]
      rfl
    · rw [hevent, if_neg n.succ_ne_zero]
      split
      · rename_i hzero
        subst hzero
        rw [UInt16.toNat_inj.mp hafter.shadow]
      · rfl

theorem runDue_ticked {n limit : Nat} {event : SweepEvent} (hperiod : s.period ≠ 0)
    (hshadow : s.shadow.toNat ≤ 2047) (hshift : s.shift ≤ 7) (hdue : Due s.counter n)
    (hn : n ≤ limit) : Ticked s n event (s.runDue limit event) := by
  induction limit generalizing n s event with
  | zero =>
    obtain rfl : n = 0 := by omega
    exact ticked_zero s event
  | succ limit ih =>
    cases hdue with
    | none h =>
      rw [runDue, if_neg h]
      exact ticked_zero s event
    | @tick _ n h rest =>
      rw [runDue, if_pos h]
      have hnext : s.next.toNat = s.track 1 := toNat_next hshadow hshift
      have hhighest : highestFrequency.toNat = 2047 := rfl
      simp only [bne_iff_ne, ne_eq]
      split
      · rename_i hne
        split
        · rename_i hover
          rw [gt_iff_lt, UInt16.lt_iff_toNat_lt, hhighest] at hover
          exact ticked_of_stops (.inl (hnext ▸ hover)) _
        · rename_i hwithin
          rw [gt_iff_lt, UInt16.lt_iff_toNat_lt, hhighest, Nat.not_lt] at hwithin
          refine Ticked.cons ?_ ?_ ?_ ?_ (ih hperiod hwithin hshift rest (by omega))
          · rintro (hover | ⟨hshift, -⟩)
            · exact absurd hover (Nat.not_lt.mpr (hnext ▸ hwithin))
            · exact hne hshift
          · exact ⟨hnext, rfl, rfl, rfl⟩
          · rfl
          · rfl
      · rename_i hshiftless
        exact ticked_of_stops (.inr ⟨not_not.mp hshiftless, hperiod⟩) _

/-- A sample makes the ticks that are due, if its whole part bounds their number. Without a period
there are none. -/
theorem clock_ticked {n : Nat} (hshadow : s.shadow.toNat ≤ 2047) (hshift : s.shift ≤ 7)
    (hidle : s.period = 0 → n = 0) (hdue : Due (s.counter + s.inc) n)
    (hn : n ≤ (s.counter + s.inc).toUInt64.toNat) :
    Ticked { s with counter := s.counter + s.inc } n .idle s.clock := by
  rw [clock]
  dsimp only
  split
  · rename_i hpassed
    refine runDue_ticked (fun hperiod => ?_) hshadow hshift hdue hn
    rw [hidle hperiod] at hdue
    cases hdue with
    | none hnot => exact hnot hpassed
  · rename_i hnot
    obtain rfl := hdue.unique (.none hnot)
    exact ticked_zero _ .idle

/-- What holds of the sweep of a channel that is on. -/
structure Paced (s : Sweep) : Prop where
  shift : s.shift ≤ 7
  counter : UpTo 2 s.counter
  inc : UpTo 250 s.inc
  idle : s.period = 0 → s.counter = 0.0 ∧ s.inc = 0.0

theorem paced_start {rate : Float32} (register : UInt8) (frequency : UInt16)
    (hrate : IsRate rate) : (start register frequency rate).Paced := by
  have hshift : register &&& 0x07 ≤ 7 := and_le_of_mask register 7
  have hperiods : (register >>> 4) &&& 0x07 ≤ 7 := and_le_of_mask _ 7
  simp only [start]
  by_cases hperiod : (register >>> 4) &&& 0x07 = 0
  · simp only [hperiod, beq_self_eq_true, if_true]
    exact ⟨hshift, UpTo.zero.mono (by decide), UpTo.zero.mono (by decide), fun _ => ⟨rfl, rfl⟩⟩
  · have hdue : Within 1 2 justDue :=
      (Within.of_unpack (2 ^ 23 + 1) (-23) rfl).widen (by norm_num [scaled]) (by norm_num [scaled])
    have hclock : Within 8 128 (128.0 : Float32) :=
      (Within.of_unpack (2 ^ 23) (-16) rfl).widen (by norm_num [scaled]) (by norm_num [scaled])
    simp only [beq_eq_false_iff_ne.mpr hperiod, Bool.false_eq_true, if_false]
    exact ⟨hshift, hdue.upTo (by norm_num),
      (within_increment (within_slowed hclock hperiods hperiod) hrate).upTo (by norm_num),
      fun h => absurd h hperiod⟩

/-- What a sample does to a sweep. -/
theorem Paced.clock_eq (h : s.Paced) (hshadow : s.shadow.toNat ≤ 2047) :
    ∃ ticks, Due (s.counter + s.inc) ticks ∧ (s.period = 0 → ticks = 0) ∧
      ((∃ k < ticks, s.Stops k) → s.clock.2 = .overflow) ∧
      ((∀ k < ticks, ¬ s.Stops k) → s.After ticks s.clock.1 ∧ s.clock.1.Paced ∧
        s.clock.2 = if ticks = 0 then .idle else .moved s.clock.1.shadow) := by
  have hsum : UpTo (2 + 250) (s.counter + s.inc) := h.counter.add h.inc (by decide)
  obtain ⟨ticks, hdue, hbound, hleft⟩ := exists_due hsum (by decide)
  have hzero : s.period = 0 → s.counter + s.inc = 0.0 := by
    intro hperiod
    rw [(h.idle hperiod).1, (h.idle hperiod).2]
    rfl
  have hidle : s.period = 0 → ticks = 0 := by
    intro hperiod
    rw [hzero hperiod] at hdue
    exact hdue.unique (.none (UpTo.zero.mono (by decide)).not_gt_one)
  have hticked := clock_ticked hshadow h.shift hidle hdue hbound
  refine ⟨ticks, hdue, hidle, hticked.overflow, fun hmoved => ?_⟩
  obtain ⟨hafter, hcounter, hinc, hevent⟩ := hticked.moved hmoved
  have hafter : s.After ticks s.clock.1 :=
    ⟨hafter.shadow, hafter.period, hafter.falling, hafter.shift⟩
  refine ⟨hafter, ⟨hafter.shift ▸ h.shift, ?_, hinc ▸ h.inc, fun hperiod => ?_⟩, hevent⟩
  · rw [hcounter]
    exact hleft.mono (by decide)
  · rw [hafter.period] at hperiod
    rw [hcounter, hinc, hidle hperiod]
    exact ⟨hzero hperiod, (h.idle hperiod).2⟩

end Sound.Sweep

/-! ### Channels -/

namespace Sound.Channel

variable {ch : Channel} {rate : Float32}

/-- The frequency after the ticks of a sample. -/
def swept (frequency : UInt16) : SweepEvent → UInt16
  | .moved next => next
  | .idle | .overflow => frequency

theorem clockSweep_eq {s : Sweep} (h : ch.voice.sweep? = some s) (rate : Float32) :
    (ch.clockSweep rate).frequency = swept ch.frequency s.clock.2 ∧
      (ch.clockSweep rate).enabled = (ch.enabled && s.clock.2 != .overflow) ∧
      (ch.clockSweep rate).voice.sweep? = some s.clock.1 := by
  cases hv : ch.voice with
  | square duty step sweep =>
    rw [hv] at h
    have h : sweep = some s := h
    subst h
    simp only [clockSweep, hv]
    cases hevent : s.clock.2 with
    | idle | moved | overflow => simp [swept, refreshPitch, Voice.sweep?]
  | wave | noise =>
    rw [hv] at h
    contradiction

/-- A sample clocks the sweep of a channel that sounds, and moves the frequency in no other way. -/
theorem play_sweep {s : Sweep} (h : ch.voice.sweep? = some s) (hsounds : ch.countLength.enabled)
    (table : WaveTable) (rate decay : Float32) :
    let next := (ch.play table rate decay).2
    next.frequency = swept ch.frequency s.clock.2 ∧ next.enabled = (s.clock.2 != .overflow) ∧
      next.voice.sweep? = some s.clock.1 := by
  have hclocked := ch.countLength.clockEnvelope.clockSweep_eq h rate
  have hon : ch.countLength.clockEnvelope.enabled = true := hsounds
  rw [hon, Bool.true_and] at hclocked
  simp only [play, if_pos hsounds]
  split
  · split
    · obtain ⟨_, hplayed⟩ :=
        (ch.countLength.clockEnvelope.clockSweep rate).playScaled_snd table decay
      rw [hplayed]
      exact ⟨hclocked.1, hclocked.2.1, (Voice.average_sweep? _ _ _ _ _).trans hclocked.2.2⟩
    · exact hclocked
  · rename_i hv
    have hv : ch.voice = .wave _ := hv
    rw [hv] at h
    contradiction
  · rename_i hv
    have hv : ch.voice = .noise _ _ _ := hv
    rw [hv] at h
    contradiction

theorem play_of_silenced (h : ¬ ch.countLength.enabled) (table : WaveTable)
    (rate decay : Float32) : (ch.play table rate decay).2 = ch.countLength := by
  rw [play]
  exact congrArg Prod.snd (if_neg h)

/-- A channel whose frequency is on the track of the sweep it was started with. -/
structure OnTrack (sweep : Sweep) (j : Nat) (ch : Channel) : Prop where
  frequency : ch.frequency.toNat = sweep.track j
  bounded : ∀ k ≤ j, sweep.track k ≤ 2047
  still : sweep.period = 0 → j = 0
  running : ch.enabled → ∃ s, ch.voice.sweep? = some s ∧ sweep.After j s ∧ s.Paced

/-- What one frame does to the frequency of a channel that is on the track. -/
structure SweptFrame (sweep : Sweep) (j : Nat) (ch next : Channel) (ticks : Nat) : Prop where
  due : if ch.countLength.enabled then
      ∃ s, ch.voice.sweep? = some s ∧ Due (s.counter + s.inc) ticks
    else ticks = 0
  idle : sweep.period = 0 → ticks = 0
  /-- A tick that has nowhere to go stops the channel. -/
  overflow : (∃ k < ticks, sweep.Stops (j + k)) →
    next.enabled = false ∧ next.frequency = ch.frequency
  /-- All other ticks are steps on the track, and stop nothing. -/
  moved : (∀ k < ticks, ¬ sweep.Stops (j + k)) →
    next.enabled = ch.countLength.enabled ∧ next.frequency.toNat = sweep.track (j + ticks)

variable {sweep : Sweep} {j : Nat}

/-- The ticks of a frame in which the channel sounds. -/
theorem OnTrack.play_ticked (h : OnTrack sweep j ch) (hsounds : ch.countLength.enabled)
    (table : WaveTable) (rate decay : Float32) :
    let next := (ch.play table rate decay).2
    ∃ s ticks, ch.voice.sweep? = some s ∧ Due (s.counter + s.inc) ticks ∧
      (sweep.period = 0 → ticks = 0) ∧
      ((∃ k < ticks, sweep.Stops (j + k)) →
        next.enabled = false ∧ next.frequency = ch.frequency) ∧
      ((∀ k < ticks, ¬ sweep.Stops (j + k)) →
        next.enabled = true ∧ next.frequency.toNat = sweep.track (j + ticks) ∧
          ∃ s, next.voice.sweep? = some s ∧ sweep.After (j + ticks) s ∧ s.Paced) := by
  intro next
  obtain ⟨s, hs, hafter, hpaced⟩ := h.running (Bool.and_eq_true_iff.mp hsounds).1
  have hshadow : s.shadow.toNat ≤ 2047 := hafter.shadow ▸ h.bounded j le_rfl
  obtain ⟨ticks, hdue, hidle, hoverflow, hmoved⟩ := hpaced.clock_eq hshadow
  simp only [hafter.stops_iff] at hoverflow hmoved
  obtain ⟨hfrequency, henabled, hnext⟩ := play_sweep hs hsounds table rate decay
  refine ⟨s, ticks, hs, hdue, hafter.period ▸ hidle, fun hstops => ?_, fun hnone => ?_⟩
  · rw [hoverflow hstops] at hfrequency henabled
    exact ⟨henabled, hfrequency⟩
  · obtain ⟨hlast, hpaced, hevent⟩ := hmoved hnone
    have hlast := hafter.trans hlast
    rw [hevent] at hfrequency henabled
    refine ⟨?_, ?_, s.clock.1, hnext, hlast, hpaced⟩
    · rw [henabled]
      split <;> rfl
    · rw [hfrequency]
      split
      · rename_i hzero
        rw [hzero]
        exact h.frequency
      · exact hlast.shadow

/-- Every frame keeps the channel on the track. -/
theorem OnTrack.play (h : OnTrack sweep j ch) (table : WaveTable) (rate decay : Float32) :
    ∃ ticks, SweptFrame sweep j ch (ch.play table rate decay).2 ticks ∧
      ∃ k, OnTrack sweep (j + k) (ch.play table rate decay).2 := by
  by_cases hsounds : ch.countLength.enabled
  · obtain ⟨s, ticks, hs, hdue, hidle, hoverflow, hmoved⟩ :=
      h.play_ticked hsounds table rate decay
    refine ⟨ticks, ⟨?_, hidle, hoverflow, fun hnone => ?_⟩, ?_⟩
    · rw [if_pos hsounds]
      exact ⟨s, hs, hdue⟩
    · obtain ⟨hon, htrack, -⟩ := hmoved hnone
      exact ⟨hon.trans hsounds.symm, htrack⟩
    · by_cases hstops : ∃ k < ticks, sweep.Stops (j + k)
      · obtain ⟨hoff, hfrequency⟩ := hoverflow hstops
        refine ⟨0, ?_, h.bounded, h.still, fun hon => ?_⟩
        · rw [hfrequency]
          exact h.frequency
        · rw [hoff] at hon
          contradiction
      · have hnone : ∀ k < ticks, ¬ sweep.Stops (j + k) :=
          fun k hk hstop => hstops ⟨k, hk, hstop⟩
        obtain ⟨-, htrack, hrunning⟩ := hmoved hnone
        refine ⟨ticks, htrack, fun k hk => Sweep.track_le_of_not_stops h.bounded hnone hk,
          fun hperiod => ?_, fun _ => hrunning⟩
        rw [h.still hperiod, hidle hperiod]
  · rw [play_of_silenced hsounds]
    refine ⟨0, ⟨?_, fun _ => rfl, ?_, fun _ => ⟨rfl, h.frequency⟩⟩, 0, h.frequency, h.bounded,
      h.still, fun hon => absurd hon hsounds⟩
    · rw [if_neg hsounds]
    · rintro ⟨k, hk, -⟩
      exact absurd hk (Nat.not_lt_zero k)

theorem Prepared.refreshPitch_eq_self (h : Prepared rate ch) : ch.refreshPitch rate = ch := by
  rw [refreshPitch, ← h.phaseInc, ← h.note]

theorem OnTrack.prepare (h : OnTrack sweep j ch) (rate : Float32) :
    OnTrack sweep j (ch.prepare rate) := by
  rw [prepare_eq]
  exact { h with running := fun hon => h.running (Bool.and_eq_true_iff.mp hon).1 }

/-- A trigger puts the channel at the start of a track. -/
theorem onTrack_trigger (hkind : ch.voice.kind = .sweptSquare) (hrate : IsRate rate)
    {value : UInt8} (htrigger : value &&& 0x80 ≠ 0)
    (hfrequency : (ch.writeControl value rate).frequency ≤ 2047) :
    let first := ch.writeControl value rate
    let sweep := Sweep.start first.sweepRegister first.frequency rate
    first.voice.sweep? = some sweep ∧ first.OnTrack sweep 0 := by
  intro first sweep
  have hsweep : first.voice.sweep? = some sweep := by
    simp only [first, sweep, writeControl_of_trigger htrigger, trigger_eq, Voice.restarted_sweep?]
    rw [if_pos]
    rw [writeHigh_eq]
    exact hkind
  refine ⟨hsweep, rfl, fun k hk => ?_, fun _ => rfl, fun _ => ⟨sweep, hsweep, .refl sweep, ?_⟩⟩
  · obtain rfl : k = 0 := by omega
    exact UInt16.le_iff_toNat_le.mp hfrequency
  · exact Sweep.paced_start _ _ hrate

end Sound.Channel

namespace SoundUnit

/-! ### Runs -/

variable {unit : SoundUnit} {sweep : Sweep} {j : Nat}

theorem onTrack_spared (h : (unit.channels.get square1).OnTrack sweep j) {actions : List Action}
    (hspared : actions.all (Action.spares square1)) :
    ∃ k, ((unit.afterAll actions).channels.get square1).OnTrack sweep (j + k) := by
  apply spared_afterAll (P := fun ch => ∃ k, ch.OnTrack sweep (j + k)) _ _ hspared
  · exact ⟨0, h⟩
  · rintro ch left right ⟨k, h⟩
    exact ⟨k, { h with }⟩
  · rintro ch table decay frames h
    apply Channel.render_induction (P := fun ch => ∃ k, ch.OnTrack sweep (j + k))
    · rintro ch ⟨k, h⟩
      exact ⟨k, h.prepare _⟩
    · rintro ch ⟨k, h⟩
      obtain ⟨-, -, i, hplayed⟩ := h.play table unit.rate decay
      exact ⟨k + i, by rwa [← Nat.add_assoc]⟩
    · exact h

/-- The sweep keeps to its track. A trigger of the first channel starts a track at its frequency,
by the bits of the register of the sweep. As long as nothing is written that the channel hears of,
its frequency is on the track, and no place up to there is beyond eleven bits. It goes one way
only, and it stays where it is if the period is zero. In every frame it makes a step for each tick
that is due. A tick that would leave the eleven bits, or that has a period and no shift, stops the
channel and leaves its frequency; no other tick stops it. After a period, pitch and note are those
of the frequency. -/
theorem sweep_keeps_to_track {sampleRate : UInt32} (hunit : Reached sampleRate unit)
    (hrate : 1 ≤ sampleRate) {control : UInt8} (htrigger : control &&& 0x80 ≠ 0) :
    let start := unit.write (controlAddress square1) control
    let first := start.channels.get square1
    let sweep := Sweep.start first.sweepRegister first.frequency unit.rate
    first.voice.sweep? = some sweep ∧ sweep.StartsBy start.registers[0] first.frequency ∧
      ∀ actions : List Action, actions.all (Action.spares square1) →
        let later := start.afterAll actions
        let ch := later.channels.get square1
        (∃ j, ch.frequency.toNat = sweep.track j ∧ ∀ k ≤ j, sweep.track k ≤ 2047) ∧
          (sweep.period = 0 → ch.frequency = first.frequency) ∧
          (∀ more : List Action, more.all (Action.spares square1) →
            let last := (later.afterAll more).channels.get square1
            if sweep.falling then last.frequency ≤ ch.frequency
            else ch.frequency ≤ last.frequency) ∧
          ∀ n,
            let before := (later.play n).channels.get square1
            let next := (later.play (n + 1)).channels.get square1
            (∃ j ticks, before.frequency.toNat = sweep.track j ∧
              before.SweptFrame sweep j next ticks) ∧
              before.refreshPitch later.rate = before := by
  intro start first sweep
  have hwrite : first = (unit.channels.get square1).writeControl control unit.rate := by
    simp only [first, start, SoundUnit.write, ofAddress_controlAddress, writeRegister_channels]
    rfl
  have hreached : Reached sampleRate start := hunit.after (.write (controlAddress square1) control)
  have hfrequency : first.frequency ≤ 2047 := (hreached.fits square1).frequency
  have hstart : first.voice.sweep? = some sweep ∧ first.OnTrack sweep 0 := by
    simp only [sweep]
    rw [hwrite] at hfrequency ⊢
    exact Channel.onTrack_trigger (hunit.voiced square1) (hunit.isRate hrate) htrigger hfrequency
  have hregister : first.sweepRegister = start.registers[0] :=
    (hreached.decodes.channel square1).sweepRegister rfl
  have hfields : sweep.StartsBy start.registers[0] first.frequency := by
    rw [← hregister]
    exact Sweep.startsBy_start _ _ _
  refine ⟨hstart.1, hfields, fun actions hspared => ?_⟩
  obtain ⟨j, hj⟩ := onTrack_spared hstart.2 hspared
  refine ⟨⟨_, hj.frequency, hj.bounded⟩, fun hperiod => ?_, fun more hmore => ?_, fun n => ?_⟩
  · have hstill := hj.frequency
    rw [hj.still hperiod] at hstill
    exact UInt16.toNat_inj.mp hstill
  · obtain ⟨k, hk⟩ := onTrack_spared hj hmore
    simp only [UInt16.le_iff_toNat_le]
    rw [hj.frequency, hk.frequency]
    split
    · rename_i hfalling
      exact Sweep.track_of_falling hfalling (Nat.le_add_right _ _)
    · rename_i hrising
      exact Sweep.track_of_rising (by simpa using hrising) (Nat.le_add_right _ _)
  · have hplayed : [Action.render n].all (Action.spares square1) := rfl
    obtain ⟨k, hk⟩ := onTrack_spared hj hplayed
    obtain ⟨ticks, hframe, -⟩ := hk.play (start.afterAll actions).wave (start.afterAll actions).rate
      (decayAt (start.afterAll actions).sampleRate)
    have hprepared := ((start.afterAll actions).channels.get square1).prepared_render
      (start.afterAll actions).wave (start.afterAll actions).rate
      (decayAt (start.afterAll actions).sampleRate) n
    rw [← play_channels] at hprepared
    refine ⟨⟨_, ticks, hk.frequency, ?_⟩, hprepared.refreshPitch_eq_self⟩
    rw [play_succ_channels]
    exact hframe

/-- Two ticks fall into one sample. The frequency makes two steps in the first one; in the second
one it could make one more, but the tick after that stops the channel. -/
theorem sweep_keeps_to_track_overflow :
    let unit := (new 64).afterAll [.write 0xFF10 0x11, .write 0xFF12 0xF0]
    let start := unit.write (controlAddress square1) 0x82
    let first := start.channels.get square1
    let sweep := Sweep.start first.sweepRegister first.frequency unit.rate
    let later := start.afterAll [.write 0xFF17 0xF0, .render 1]
    let ch := later.channels.get square1
    first.frequency = 512 ∧ sweep.period.toNat = 1 ∧ sweep.shift.toNat = 1 ∧
      ch.frequency = 1152 ∧ ch.enabled ∧
      (∃ j, ch.frequency.toNat = sweep.track j ∧ ∀ k ≤ j, sweep.track k ≤ 2047) ∧
      ((later.play 1).channels.get square1).enabled = false ∧
      ((later.play 1).channels.get square1).frequency = 1152 := by
  intro unit start first sweep later ch
  have htrigger : (0x82 : UInt8) &&& 0x80 ≠ 0 := by decide
  have hunit : Reached 64 unit := ⟨_, rfl⟩
  obtain ⟨-, hfields, htrack⟩ := sweep_keeps_to_track hunit (by decide) htrigger
  have hregister : start.registers[0] = 0x11 := by decide +kernel
  rw [hregister] at hfields
  exact ⟨by decide +kernel, hfields.period, hfields.shift, by decide +kernel, by decide +kernel,
    (htrack [.write 0xFF17 0xF0, .render 1] (by decide)).1, by decide +kernel, by decide +kernel⟩

end SoundUnit
end Chiptune
