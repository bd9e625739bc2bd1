import Chiptune.Proofs.SparedRuns

/-!
# The envelope between writes

Between two writes the volume of a channel goes one way only, up or down, by one
with every tick. A tick that leaves it at an end stops the envelope by taking its
increment away. An envelope that has stopped never ticks again: its counter has
not passed one, and it grows no more. Writing the register of the envelope makes
the volume jump, maybe away from the end, but only a trigger gives the increment
back.
-/
namespace Chiptune
open Sound

namespace Sound.Envelope

variable {e : Envelope} {volume : UInt8}

/-! ### Ticks -/

/-- Whether a tick that leaves the volume there stops the envelope. -/
def StopsAt (e : Envelope) (volume : UInt8) : Prop := e.period ≠ 0 ∧ (volume = 0 ∨ volume = 15)

/-- A volume lies ahead of another in the direction in which the envelope goes. -/
def Toward (e : Envelope) (volume next : UInt8) : Prop :=
  if e.rising then volume ≤ next else next ≤ volume

theorem Toward.refl (e : Envelope) (volume : UInt8) : e.Toward volume volume := by
  unfold Toward
  split <;> exact UInt8.le_refl _

theorem Toward.trans {a b c : UInt8} (hab : e.Toward a b) (hbc : e.Toward b c) :
    e.Toward a c := by
  unfold Toward at *
  split at hab
  · rename_i hrising
    rw [if_pos hrising] at hbc ⊢
    exact UInt8.le_trans hab hbc
  · rename_i hfalling
    rw [if_neg hfalling] at hbc ⊢
    exact UInt8.le_trans hbc hab

theorem moved_of_period (h : e.period = 0) (volume : UInt8) : e.moved volume = volume := by
  simp [moved, h]

/-- A tick moves the volume by one within its four bits. -/
theorem toNat_moved (h : volume ≤ 15) (hperiod : e.period ≠ 0) :
    (e.moved volume).toNat =
      if e.rising then min (volume.toNat + 1) 15 else volume.toNat - 1 := by
  have hvolume : volume.toNat ≤ 15 := UInt8.le_iff_toNat_le.mp h
  have hfifteen : (15 : UInt8).toNat = 15 := rfl
  have hone : (1 : UInt8).toNat = 1 := rfl
  simp only [moved, beq_iff_eq, hperiod, if_false]
  split
  · split
    · rename_i hlow
      rw [UInt8.lt_iff_toNat_lt, hfifteen] at hlow
      rw [UInt8.toNat_add, hone]
      omega
    · rename_i hlow
      rw [UInt8.lt_iff_toNat_lt, hfifteen] at hlow
      omega
  · split
    · rename_i hhigh
      rw [UInt8.toNat_sub_of_le _ _ hhigh, hone]
    · rename_i hhigh
      have hzero : ¬ 0 < volume.toNat := fun hpos => hhigh (UInt8.lt_iff_toNat_lt.mpr hpos)
      omega

theorem toward_moved (h : volume ≤ 15) : e.Toward volume (e.moved volume) := by
  by_cases hperiod : e.period = 0
  · rw [moved_of_period hperiod]
    exact .refl e volume
  · have hmoved := toNat_moved h hperiod
    have hvolume : volume.toNat ≤ 15 := UInt8.le_iff_toNat_le.mp h
    unfold Toward
    split at hmoved
    · rename_i hrising
      rw [if_pos hrising, UInt8.le_iff_toNat_le]
      omega
    · rename_i hfalling
      rw [if_neg hfalling, UInt8.le_iff_toNat_le]
      omega

theorem moved_iterate_le (n : Nat) (h : volume ≤ 15) : e.moved^[n] volume ≤ 15 := by
  induction n generalizing volume with
  | zero => exact h
  | succ n ih => exact ih (e.moved_le h)

theorem toward_moved_iterate (n : Nat) (h : volume ≤ 15) :
    e.Toward volume (e.moved^[n] volume) := by
  induction n generalizing volume with
  | zero => exact .refl e volume
  | succ n ih => exact (toward_moved h).trans (ih (e.moved_le h))

/-- A tick that arrives at an end goes on to no other volume. -/
theorem moved_of_stopsAt (h : volume ≤ 15) (hstops : e.StopsAt (e.moved volume)) :
    e.moved (e.moved volume) = e.moved volume := by
  obtain ⟨hperiod, hend⟩ := hstops
  have hvolume : volume.toNat ≤ 15 := UInt8.le_iff_toNat_le.mp h
  have hfirst := toNat_moved h hperiod
  have hsecond := toNat_moved (e.moved_le h) hperiod
  have hend : (e.moved volume).toNat = 0 ∨ (e.moved volume).toNat = 15 :=
    hend.imp (congrArg UInt8.toNat) (congrArg UInt8.toNat)
  rw [← UInt8.toNat_inj, hsecond]
  split at hfirst
  · rename_i hrising
    rw [if_pos hrising]
    omega
  · rename_i hfalling
    rw [if_neg hfalling]
    omega

/-- Envelope and volume after a number of ticks. -/
def ticked : Nat → Envelope → UInt8 → Envelope × UInt8
  | 0, e, volume => (e, volume)
  | n + 1, e, volume => ticked n (e.tick volume).1 (e.tick volume).2

theorem runDue_eq_ticked {n limit : Nat} (hdue : Due e.counter n) (hn : n ≤ limit) :
    e.runDue limit volume = ticked n e volume := by
  induction limit generalizing n e volume with
  | zero =>
    obtain rfl : n = 0 := by omega
    rfl
  | succ limit ih =>
    cases hdue with
    | none h => rw [runDue, if_neg h, ticked]
    | tick h rest =>
      rw [runDue, if_pos h, ticked]
      exact ih rest (by omega)

/-- A sample makes the ticks that are due, if its whole part bounds their number. -/
theorem clock_eq_ticked {n : Nat} (volume : UInt8) (hdue : Due (e.counter + e.inc) n)
    (hn : n ≤ (e.counter + e.inc).toUInt64.toNat) :
    e.clock volume = ticked n { e with counter := e.counter + e.inc } volume := by
  rw [clock]
  split
  · exact runDue_eq_ticked hdue hn
  · rename_i h
    cases hdue with
    | none => rfl
    | tick h' => exact absurd h' h

/-- Ticks move the volume and lower the counter. The increment stays or is taken away. -/
theorem ticked_eq (n : Nat) (e : Envelope) (volume : UInt8) :
    ∃ inc, (inc = e.inc ∨ inc = 0.0) ∧
      ticked n e volume = ({ e with counter := lowered n e.counter, inc }, e.moved^[n] volume) := by
  induction n generalizing e volume with
  | zero => exact ⟨e.inc, .inl rfl, rfl⟩
  | succ n ih =>
    obtain ⟨inc, hinc, heq⟩ := ih (e.tick volume).1 (e.tick volume).2
    refine ⟨inc, ?_, heq⟩
    have htick : (e.tick volume).1.inc = e.inc ∨ (e.tick volume).1.inc = 0.0 := by
      simp only [tick]
      split
      · exact .inr rfl
      · exact .inl rfl
    obtain rfl | rfl := hinc
    · exact htick
    · exact .inr rfl

/-- Once a tick has stopped the envelope, its volume stays, and its increment is gone. -/
theorem ticked_of_stopsAt {k n : Nat} (h : volume ≤ 15) (hk : k < n)
    (hstops : e.StopsAt (e.moved^[k + 1] volume)) :
    (ticked n e volume).2 = e.moved^[k + 1] volume ∧ (ticked n e volume).1.inc = 0.0 := by
  induction k generalizing n e volume with
  | zero =>
    obtain ⟨m, rfl⟩ := Nat.exists_eq_add_of_lt hk
    have hfixed : Function.IsFixedPt e.moved (e.moved volume) := moved_of_stopsAt h hstops
    obtain ⟨inc, hinc, heq⟩ := ticked_eq (0 + m) (e.tick volume).1 (e.tick volume).2
    have htick : (e.tick volume).1.inc = 0.0 := by
      simp only [tick]
      exact if_pos (by simpa [StopsAt] using hstops)
    rw [ticked, heq]
    exact ⟨hfixed.iterate _, hinc.elim (·.trans htick) id⟩
  | succ k ih =>
    obtain ⟨m, rfl⟩ := Nat.exists_eq_add_of_lt hk
    exact ih (e.moved_le h) (by omega) hstops

/-! ### The counter -/

/-- What holds of every envelope: its counter has not passed one, and its increment is that of a
period, or none. -/
structure Steady (rate : Float32) (e : Envelope) : Prop where
  counter : UpTo 1 e.counter
  inc : e.inc = 0.0 ∨ ∃ period ≤ 7, e.inc = step period rate

theorem within_step {rate : Float32} {period : UInt8} (hrate : IsRate rate) (h : period ≤ 7) :
    Within (2 ^ (-35 : ℤ)) 250 (step period rate) := by
  simp only [step, beq_iff_eq]
  split
  · refine within_increment ?_ hrate
    exact (Within.of_unpack (2 ^ 23) (-20) rfl).widen (by norm_num [scaled])
      (by norm_num [scaled])
  · rename_i hne
    refine within_increment (within_slowed ?_ h hne) hrate
    exact (Within.of_unpack (2 ^ 23) (-17) rfl).widen (by norm_num [scaled])
      (by norm_num [scaled])

theorem Steady.inc_upTo {rate : Float32} (h : e.Steady rate) (hrate : IsRate rate) :
    UpTo 250 e.inc := by
  obtain hinc | ⟨period, hle, hinc⟩ := h.inc
  · rw [hinc]
    exact UpTo.zero.mono (by decide)
  · rw [hinc]
    exact (within_step hrate hle).upTo (by norm_num)

theorem Steady.running_iff {rate : Float32} (h : e.Steady rate) (hrate : IsRate rate) :
    e.running = false ↔ e.inc = 0.0 := by
  constructor
  · intro hstopped
    obtain hinc | ⟨period, hle, hinc⟩ := h.inc
    · exact hinc
    · obtain ⟨q, hq, -⟩ := within_step hrate hle
      rw [running, hinc, hq.bne_zero] at hstopped
      contradiction
  · intro hinc
    rw [running, hinc]
    rfl

/-- What a sample with a number of ticks makes of an envelope and a volume. -/
structure Sampled (rate : Float32) (e : Envelope) (volume : UInt8) (ticks : Nat)
    (next : Envelope × UInt8) : Prop where
  steady : next.1.Steady rate
  period : next.1.period = e.period
  rising : next.1.rising = e.rising
  moved : next.2 = e.moved^[ticks] volume
  stopped : e.running = false → ticks = 0 ∧ next.1.running = false
  stops : ∀ k < ticks, e.StopsAt (e.moved^[k + 1] volume) →
    next.2 = e.moved^[k + 1] volume ∧ next.1.running = false

theorem Steady.sampled_zero {rate : Float32} (h : e.Steady rate) (volume : UInt8) :
    Sampled rate e volume 0 (e, volume) :=
  ⟨h, rfl, rfl, rfl, fun hstopped => ⟨rfl, hstopped⟩, nofun⟩

theorem Steady.sampled_clock {rate : Float32} (h : e.Steady rate) (hrate : IsRate rate)
    (hvolume : volume ≤ 15) :
    ∃ ticks, Due (e.counter + e.inc) ticks ∧ Sampled rate e volume ticks (e.clock volume) := by
  have hsum : UpTo (1 + 250) (e.counter + e.inc) := h.counter.add (h.inc_upTo hrate) (by decide)
  obtain ⟨ticks, hdue, hbound, hleft⟩ := exists_due hsum (by decide)
  have hclock := clock_eq_ticked volume hdue hbound
  obtain ⟨inc, hinc, heq⟩ := ticked_eq ticks { e with counter := e.counter + e.inc } volume
  have hsteady : (e.clock volume).1.Steady rate := by
    rw [hclock, heq]
    obtain rfl | rfl := hinc
    · exact ⟨hleft, h.inc⟩
    · exact ⟨hleft, .inl rfl⟩
  refine ⟨ticks, hdue, hsteady, by rw [hclock, heq], by rw [hclock, heq], ?_, fun hstopped => ?_,
    fun k hk hstops => ?_⟩
  · rw [hclock, heq]
    rfl
  · have hzero := (h.running_iff hrate).mp hstopped
    have hstill : UpTo (1 + 0) (e.counter + e.inc) := by
      rw [hzero]
      exact h.counter.add .zero (by decide)
    refine ⟨hdue.unique (.none hstill.not_gt_one), (hsteady.running_iff hrate).mpr ?_⟩
    rw [hclock, heq]
    exact hinc.elim (·.trans hzero) id
  · have hstop := ticked_of_stopsAt (e := { e with counter := e.counter + e.inc }) hvolume hk hstops
    rw [← hclock] at hstop
    exact ⟨hstop.1, (hsteady.running_iff hrate).mpr hstop.2⟩

theorem steady_start {rate : Float32} (register : UInt8) : (start register rate).Steady rate :=
  ⟨UpTo.zero.mono (by decide), .inr ⟨_, and_le_of_mask register 7, rfl⟩⟩

theorem Steady.change {rate : Float32} (h : e.Steady rate) (register : UInt8) :
    (e.change register rate).Steady rate := by
  refine ⟨h.counter, ?_⟩
  simp only [Envelope.change]
  split
  · exact .inr ⟨_, and_le_of_mask register 7, rfl⟩
  · exact h.inc

end Sound.Envelope

namespace Sound.Channel

variable {ch : Channel} {rate : Float32}

/-! ### Channels -/

theorem clockSweep_envelope (ch : Channel) (rate : Float32) :
    (ch.clockSweep rate).envelope = ch.envelope ∧ (ch.clockSweep rate).volume = ch.volume := by
  simp only [clockSweep]
  split
  · split <;> exact ⟨rfl, rfl⟩
  · exact ⟨rfl, rfl⟩

/-- A sample clocks the envelope, if the channel sounds, and moves the volume in no other way. -/
theorem play_envelope (hwave : ch.voice.kind ≠ .wave) (table : WaveTable) (rate decay : Float32) :
    ((ch.play table rate decay).2.envelope, (ch.play table rate decay).2.volume) =
      if ch.countLength.enabled then ch.envelope.clock ch.volume
      else (ch.envelope, ch.volume) := by
  have hscaled : ∀ c : Channel, ((c.playScaled table decay).2.envelope,
      (c.playScaled table decay).2.volume) = (c.envelope, c.volume) := by
    intro c
    obtain ⟨_, h⟩ := c.playScaled_snd table decay
    rw [h]
    rfl
  simp only [play]
  split
  · split
    · have hsweep := ch.countLength.clockEnvelope.clockSweep_envelope rate
      split
      · rw [hscaled, hsweep.1, hsweep.2]
        rfl
      · simp only [silent]
        rw [hsweep.1, hsweep.2]
        rfl
    · rename_i hv
      have hv : ch.voice = .wave _ := hv
      rw [hv] at hwave
      exact absurd rfl hwave
    · rw [hscaled]
      rfl
  · rfl

theorem steady_trigger (h : ch.envelope.Steady rate) :
    (ch.trigger rate).envelope.Steady rate := by
  rw [trigger_eq]
  dsimp only
  split
  · exact h
  · exact Envelope.steady_start _

theorem steady_write (h : ch.envelope.Steady rate) (register : Fin 5) (value : UInt8) :
    (ch.write register value rate).envelope.Steady rate := by
  match register with
  | 0 => simp only [write, writeFirst]; split <;> exact h
  | 1 => simp only [write, writeLength]; split <;> exact h
  | 2 =>
    simp only [write, writeVolume, writeEnvelope]
    split
    · exact h
    · split
      · exact h
      · split
        · exact h.change value
        · exact h
  | 3 => simp only [write, writeLow]; split <;> exact h
  | 4 =>
    simp only [write, writeControl, writeHigh_eq]
    split
    · exact steady_trigger h
    · exact h

/-- What playing alone has made of a channel. -/
structure Follows (rate : Float32) (ch next : Channel) : Prop where
  steady : next.envelope.Steady rate
  kind : next.voice.kind = ch.voice.kind
  bounded : next.volume ≤ 15
  period : next.envelope.period = ch.envelope.period
  rising : next.envelope.rising = ch.envelope.rising
  toward : ch.envelope.Toward ch.volume next.volume
  stopped : ch.envelope.running = false → next.envelope.running = false
  still : ch.envelope.period = 0 ∨ ch.envelope.running = false → next.volume = ch.volume

theorem Follows.refl (hsteady : ch.envelope.Steady rate) (hvolume : ch.volume ≤ 15) :
    Follows rate ch ch :=
  ⟨hsteady, rfl, hvolume, rfl, rfl, .refl _ _, id, fun _ => rfl⟩

theorem Follows.trans {next last : Channel} (h : Follows rate ch next)
    (hlast : Follows rate next last) : Follows rate ch last := by
  have htoward : next.envelope.Toward = ch.envelope.Toward := by
    funext a b
    rw [Envelope.Toward, Envelope.Toward, h.rising]
  refine ⟨hlast.steady, hlast.kind.trans h.kind, hlast.bounded, hlast.period.trans h.period,
    hlast.rising.trans h.rising, h.toward.trans (htoward ▸ hlast.toward),
    hlast.stopped ∘ h.stopped, fun hstill => ?_⟩
  rw [hlast.still (hstill.imp h.period.trans h.stopped), h.still hstill]

/-- What one frame does to the volume of a channel. -/
structure Framed (ch next : Channel) (ticks : Nat) : Prop where
  due : if ch.countLength.enabled then Due (ch.envelope.counter + ch.envelope.inc) ticks
    else ticks = 0
  volume : next.volume = ch.envelope.moved^[ticks] ch.volume
  stops : ∀ k < ticks, ch.envelope.StopsAt (ch.envelope.moved^[k + 1] ch.volume) →
    next.volume = ch.envelope.moved^[k + 1] ch.volume ∧ next.envelope.running = false

/-- A channel that does not sound makes no ticks. -/
theorem sampled_play (hrate : IsRate rate) (hsteady : ch.envelope.Steady rate)
    (hwave : ch.voice.kind ≠ .wave) (hvolume : ch.volume ≤ 15) (table : WaveTable)
    (decay : Float32) :
    let next := (ch.play table rate decay).2
    ∃ ticks, (if ch.countLength.enabled then Due (ch.envelope.counter + ch.envelope.inc) ticks
        else ticks = 0) ∧
      ch.envelope.Sampled rate ch.volume ticks (next.envelope, next.volume) := by
  intro next
  rw [play_envelope hwave]
  split
  · exact hsteady.sampled_clock hrate hvolume
  · exact ⟨0, rfl, hsteady.sampled_zero _⟩

theorem framed_play (hrate : IsRate rate) (hsteady : ch.envelope.Steady rate)
    (hwave : ch.voice.kind ≠ .wave) (hvolume : ch.volume ≤ 15) (table : WaveTable)
    (decay : Float32) : ∃ ticks, Framed ch (ch.play table rate decay).2 ticks := by
  obtain ⟨ticks, hdue, hsampled⟩ := sampled_play hrate hsteady hwave hvolume table decay
  exact ⟨ticks, hdue, hsampled.moved, hsampled.stops⟩

theorem follows_play (hrate : IsRate rate) (hsteady : ch.envelope.Steady rate)
    (hwave : ch.voice.kind ≠ .wave) (hvolume : ch.volume ≤ 15) (table : WaveTable)
    (decay : Float32) : Follows rate ch (ch.play table rate decay).2 := by
  obtain ⟨ticks, -, h⟩ := sampled_play hrate hsteady hwave hvolume table decay
  have hmoved : (ch.play table rate decay).2.volume = ch.envelope.moved^[ticks] ch.volume :=
    h.moved
  refine ⟨h.steady, ch.play_kind table rate decay, ?_, h.period, h.rising, ?_,
    fun hstopped => (h.stopped hstopped).2, ?_⟩
  · rw [hmoved]
    exact Envelope.moved_iterate_le ticks hvolume
  · rw [hmoved]
    exact Envelope.toward_moved_iterate ticks hvolume
  · rw [hmoved]
    rintro (hperiod | hstopped)
    · exact Function.iterate_fixed (Envelope.moved_of_period hperiod _) ticks
    · rw [(h.stopped hstopped).1]
      rfl

theorem Follows.play {next : Channel} (h : Follows rate ch next) (hrate : IsRate rate)
    (hwave : ch.voice.kind ≠ .wave) (table : WaveTable) (decay : Float32) :
    Follows rate ch (next.play table rate decay).2 :=
  h.trans (follows_play hrate h.steady (h.kind ▸ hwave) h.bounded table decay)

theorem Follows.prepare {next : Channel} (h : Follows rate ch next) :
    Follows rate ch (next.prepare rate) := by
  rw [prepare_eq]
  exact { h with }

theorem Follows.render {next : Channel} (h : Follows rate ch next) (hrate : IsRate rate)
    (hwave : ch.voice.kind ≠ .wave) (table : WaveTable) (decay : Float32) (frames : Nat) :
    Follows rate ch (next.render table rate decay frames).2 :=
  render_induction table rate decay (fun _ h => h.prepare)
    (fun _ h => h.play hrate hwave table decay) frames h

theorem steady_step {index : Fin 4} {next : Channel} (hstep : Step index rate ch next)
    (hrate : IsRate rate) (hwave : ch.voice.kind ≠ .wave) (hvolume : ch.volume ≤ 15)
    (h : ch.envelope.Steady rate) : next.envelope.Steady rate := by
  cases hstep with
  | same | route | off => exact h
  | write register value => exact steady_write h register value
  | render table decay frames =>
    exact ((Follows.refl h hvolume).render hrate hwave table decay frames).steady
  | restart => exact ⟨UpTo.zero.mono (by decide), .inl rfl⟩

/-- Short of a trigger, no register starts an envelope that has stopped, and only its own moves the
volume. -/
theorem write_stopped (rate : Float32) (h : ch.envelope.running = false) {register : Fin 5}
    {value : UInt8} (hcontrol : register = 4 → value &&& 0x80 = 0) :
    (ch.write register value rate).envelope.running = false ∧
      (register ≠ 2 → (ch.write register value rate).volume = ch.volume) := by
  match register with
  | 0 => simp only [write, writeFirst]; split <;> exact ⟨h, fun _ => rfl⟩
  | 1 => simp only [write, writeLength]; split <;> exact ⟨h, fun _ => rfl⟩
  | 2 =>
    refine ⟨?_, fun hne => absurd rfl hne⟩
    simp only [write, writeVolume, writeEnvelope]
    split
    · exact h
    · split
      · exact h
      · split
        · simp only [Envelope.change, h]
          exact h
        · exact h
  | 3 => simp only [write, writeLow]; split <;> exact ⟨h, fun _ => rfl⟩
  | 4 =>
    simp only [write, writeControl, writeHigh_eq, hcontrol rfl]
    exact ⟨h, fun _ => rfl⟩

end Sound.Channel

namespace SoundUnit

variable {sampleRate : UInt32} {unit : SoundUnit} {i : Fin 4}

/-! ### Runs -/

/-- Where the register of the envelope lies. -/
def envelopeAddress (i : Fin 4) : UInt16 := 0xFF12 + 5 * UInt16.ofNat i

/-- Whether an action triggers a channel, with or without power, or resets it. -/
def Action.restarts (i : Fin 4) : Action → Bool
  | .write address value => address == controlAddress i && value &&& 0x80 != 0
  | .reset => true
  | .render _ | .setMuted .. | .toggleMute _ | .setMasterVolume _ => false

/-- Whatever happens to a channel, as long as it is not restarted, its envelope stands still, and
nothing but writing the register of the envelope moves its volume. -/
def StaysStopped (i : Fin 4) (unit : SoundUnit) : Prop :=
  ∀ actions : List Action, actions.any (Action.restarts i) = false →
    let later := unit.afterAll actions
    (later.channels.get i).envelope.running = false ∧
      ∀ action : Action, action.restarts i = false →
        (∀ value, action ≠ .write (envelopeAddress i) value) →
          ((later.after action).channels.get i).volume = (later.channels.get i).volume

theorem eq_envelopeAddress {address : UInt16} (h : Register.ofAddress address = .channel i 2) :
    address = envelopeAddress i := by
  have henvelope : ∀ i : Fin 4, (envelopeAddress i).toNat = 0xFF10 + 5 * i + (2 : Fin 5) := by
    decide
  exact UInt16.toNat_inj.mp ((Register.toNat_of_channel h).trans (henvelope i).symm)

theorem Reached.kind_ne_wave (hunit : Reached sampleRate unit) (hi : i ≠ Sound.wave) :
    (unit.channels.get i).voice.kind ≠ .wave := by
  rw [hunit.voiced i]
  exact Voice.initial_kind_ne_wave hi

theorem Reached.volume_le (hunit : Reached sampleRate unit) (hi : i ≠ Sound.wave) :
    (unit.channels.get i).volume ≤ 15 := by
  have h := (hunit.fits i).volume
  rwa [Voice.Kind.loudest_of_ne (Voice.initial_kind_ne_wave hi)] at h

theorem Reached.steady (hunit : Reached sampleRate unit) (hrate : 1 ≤ sampleRate)
    (hi : i ≠ Sound.wave) : (unit.channels.get i).envelope.Steady unit.rate := by
  have h : Reached sampleRate unit ∧ (unit.channels.get i).envelope.Steady unit.rate := by
    refine hunit.induction (P := fun unit => Reached sampleRate unit ∧
      (unit.channels.get i).envelope.Steady unit.rate) ⟨⟨[], rfl⟩, ?_⟩ ?_
    · rw [new_channels]
      exact ⟨UpTo.zero.mono (by decide), .inl rfl⟩
    · rintro unit action ⟨hunit, hsteady⟩
      have hkept : (unit.after action).rate = unit.rate := unit.rate_afterAll [action]
      refine ⟨hunit.after action, ?_⟩
      rw [hkept]
      exact Channel.steady_step (unit.step_after action i) (hunit.isRate hrate)
        (hunit.kind_ne_wave hi) (hunit.volume_le hi) hsteady
  exact h.2

theorem Reached.follows_spared (hunit : Reached sampleRate unit) (hrate : 1 ≤ sampleRate)
    (hi : i ≠ Sound.wave) {actions : List Action} (hspared : actions.all (Action.spares i)) :
    (unit.channels.get i).Follows unit.rate ((unit.afterAll actions).channels.get i) := by
  apply spared_afterAll (P := (unit.channels.get i).Follows unit.rate) _ _ hspared
  · exact .refl (hunit.steady hrate hi) (hunit.volume_le hi)
  · exact fun ch left right h => { h with }
  · exact fun ch table decay frames h =>
      h.render (hunit.isRate hrate) (hunit.kind_ne_wave hi) table decay frames

/-- An envelope that has stopped stays so in every action that does not restart it. -/
theorem Reached.stopped_after (hunit : Reached sampleRate unit) (hrate : 1 ≤ sampleRate)
    (hi : i ≠ Sound.wave) (hstopped : (unit.channels.get i).envelope.running = false)
    {action : Action} (haction : action.restarts i = false) :
    ((unit.after action).channels.get i).envelope.running = false ∧
      ((∀ value, action ≠ .write (envelopeAddress i) value) →
        ((unit.after action).channels.get i).volume = (unit.channels.get i).volume) := by
  cases action with
  | write address value =>
    simp only [SoundUnit.after, SoundUnit.write, writeRegister_channels]
    cases hregister : Register.ofAddress address with
    | channel index number =>
      rw [Channel.receive]
      split
      · rename_i hindex
        subst hindex
        have hcontrol : number = 4 → value &&& 0x80 = 0 := by
          rintro rfl
          simpa [Action.restarts, eq_controlAddress hregister] using haction
        obtain ⟨hkept, hvolume⟩ := Channel.write_stopped unit.rate hstopped hcontrol
        refine ⟨hkept, fun hother => hvolume ?_⟩
        rintro rfl
        exact hother value (by rw [eq_envelopeAddress hregister])
      · exact ⟨hstopped, fun _ => rfl⟩
    | power =>
      rw [Channel.receive]
      split <;> exact ⟨hstopped, fun _ => rfl⟩
    | routing | volume | wave | unused => exact ⟨hstopped, fun _ => rfl⟩
  | render frames =>
    have h : (unit.channels.get i).Follows unit.rate
        ((unit.after (.render frames)).channels.get i) :=
      @Reached.follows_spared _ _ _ hunit hrate hi [.render frames] rfl
    exact ⟨h.stopped hstopped, fun _ => h.still (.inr hstopped)⟩
  | reset => contradiction
  | setMuted | toggleMute | setMasterVolume => exact ⟨hstopped, fun _ => rfl⟩

theorem Reached.staysStopped (hunit : Reached sampleRate unit) (hrate : 1 ≤ sampleRate)
    (hi : i ≠ Sound.wave) (hstopped : (unit.channels.get i).envelope.running = false) :
    unit.StaysStopped i := by
  intro actions hactions
  induction actions generalizing unit with
  | nil =>
    exact ⟨hstopped, fun action haction =>
      (hunit.stopped_after hrate hi hstopped haction).2⟩
  | cons action rest ih =>
    rw [List.any_cons, Bool.or_eq_false_iff] at hactions
    exact ih (hunit.after action) (hunit.stopped_after hrate hi hstopped hactions.1).1 hactions.2

/-- Between writes the envelope is monotone, and it saturates. As long as nothing is written that a
square or noise hears of, its volume goes only the way of its envelope, up to fifteen or down to
zero, and it stays where it is if the period is zero or the envelope has stopped. In every frame the
volume is moved once for each tick that is due. If a tick with a period leaves it at an end, it is
there after the frame, and the envelope has stopped. From then on, until the channel is triggered or
the unit is reset, the envelope stands still, whatever is written, and only writing its register
moves the volume. -/
theorem envelope_saturates (hunit : Reached sampleRate unit) (hrate : 1 ≤ sampleRate)
    (hi : i ≠ Sound.wave) :
    let ch := unit.channels.get i
    (∀ actions : List Action, actions.all (Action.spares i) →
      let next := (unit.afterAll actions).channels.get i
      next.volume ≤ 15 ∧ ch.envelope.Toward ch.volume next.volume ∧
        next.envelope.rising = ch.envelope.rising ∧
        next.envelope.period = ch.envelope.period ∧
        (ch.envelope.period = 0 ∨ ch.envelope.running = false → next.volume = ch.volume)) ∧
      (∀ n, ∃ ticks,
        let before := (unit.play n).channels.get i
        before.Framed ((unit.play (n + 1)).channels.get i) ticks ∧
          ∀ k < ticks, before.envelope.StopsAt (before.envelope.moved^[k + 1] before.volume) →
            (unit.play (n + 1)).StaysStopped i) ∧
      (ch.envelope.running = false → unit.StaysStopped i) := by
  intro ch
  refine ⟨fun actions hspared => ?_, fun n => ?_, hunit.staysStopped hrate hi⟩
  · have h := hunit.follows_spared hrate hi hspared
    exact ⟨h.bounded, h.toward, h.rising, h.period, h.still⟩
  · have hbefore : Reached sampleRate (unit.play n) := hunit.after (.render n)
    have hafter : Reached sampleRate (unit.play (n + 1)) := hunit.after (.render (n + 1))
    obtain ⟨ticks, hframed⟩ := Channel.framed_play (hunit.isRate hrate)
      (hbefore.steady hrate hi) (hbefore.kind_ne_wave hi) (hbefore.volume_le hi) unit.wave
      (decayAt unit.sampleRate)
    rw [← play_succ_channels] at hframed
    exact ⟨ticks, hframed, fun k hk hstops =>
      hafter.staysStopped hrate hi (hframed.stops k hk hstops).2⟩

/-- A volume has fallen to zero. Turning the envelope around lifts it, but it does not rise. -/
theorem envelope_saturates_turned :
    let unit := (new 64).afterAll [.write 0xFF12 0x21, .write 0xFF14 0x80, .render 4]
    let turned := unit.afterAll [.write 0xFF12 0x29]
    (unit.channels.get square1).volume = 0 ∧ (unit.channels.get square1).envelope.running = false ∧
      unit.StaysStopped square1 ∧ (turned.channels.get square1).volume = 14 ∧
      ((turned.after (.render 8)).channels.get square1).volume =
        (turned.channels.get square1).volume := by
  intro unit turned
  have hvolume : (unit.channels.get square1).volume = 0 := by decide +kernel
  have hstopped : (unit.channels.get square1).envelope.running = false := by decide +kernel
  have hturned : (turned.channels.get square1).volume = 14 := by decide +kernel
  have hsquare : square1 ≠ Sound.wave := by decide
  have hstays : unit.StaysStopped square1 :=
    (envelope_saturates ⟨_, rfl⟩ (by decide) hsquare).2.2 hstopped
  exact ⟨hvolume, hstopped, hstays, hturned, (hstays [.write 0xFF12 0x29] rfl).2 _ rfl nofun⟩

end SoundUnit
end Chiptune
