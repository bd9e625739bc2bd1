import Chiptune.Proofs.Period

/-!
# Empty periods

A period without frames plays nothing, but it begins like any other: the pitch
of each channel is derived anew, and noise with a clock shift of 14 or 15 is
stopped. The pitch makes no difference to what is heard, since the next period
derives it again. The stop makes one exactly when the clock shift is written
before the next period, which would have stopped the noise itself.

To compare the two runs, `Channel.hush` forgets what cannot be heard of a
channel: its pitch, and the volume and the envelope of noise that is off, which
only a trigger brings back, and sets.
-/
namespace Chiptune
open Sound

namespace Sound.Channel

/-! ### What cannot be heard of a channel -/

/-- Noise that is off: only its length counter moves, until it is triggered. -/
def isIdleNoise (ch : Channel) : Bool := ch.voice.isNoise && !ch.enabled

/-- The channel without what a period derives anew, and what noise that is off has no use for. -/
def hush (ch : Channel) : Channel :=
  { ch with
    phaseInc := 0.0
    note := 0
    volume := if ch.isIdleNoise then 0 else ch.volume
    envelope := if ch.isIdleNoise then {} else ch.envelope }

variable (ch : Channel)

@[simp] theorem hush_hush : ch.hush.hush = ch.hush := by
  cases hidle : ch.isIdleNoise <;> simp_all [hush, isIdleNoise]

theorem hush_route (left right : Bool) :
    { ch.hush with left, right }.hush = { ch with left, right }.hush := by
  cases hidle : ch.isIdleNoise <;> simp_all [hush, isIdleNoise]

theorem hush_off : { ch.hush with enabled := false }.hush = { ch with enabled := false }.hush := by
  cases hnoise : ch.voice.isNoise <;> simp [hush, isIdleNoise, hnoise]

theorem hush_countLength : ch.hush.countLength.hush = ch.countLength.hush := by
  cases hnoise : ch.voice.isNoise with
  | false => simp [hush, isIdleNoise, countLength, hnoise]
  | true => cases hon : ch.enabled <;> simp [hush, isIdleNoise, countLength, hnoise, hon]

theorem hush_writeEnvelope (value : UInt8) (rate : Float32) :
    (ch.hush.writeEnvelope value rate).hush = (ch.writeEnvelope value rate).hush := by
  cases hnoise : ch.voice.isNoise with
  | false =>
    cases hpowered : value &&& 0xF8 != 0 with
    | false => simp [writeEnvelope, hush, isIdleNoise, hnoise, hpowered]
    | true =>
      cases hon : ch.enabled <;> simp [writeEnvelope, hush, isIdleNoise, hnoise, hpowered, hon]
  | true =>
    cases hpowered : value &&& 0xF8 != 0 with
    | false => simp [writeEnvelope, hush, isIdleNoise, hnoise, hpowered]
    | true =>
      cases hon : ch.enabled <;> simp [writeEnvelope, hush, isIdleNoise, hnoise, hpowered, hon]

theorem hush_writeControl (value : UInt8) (rate : Float32) :
    (ch.hush.writeControl value rate).hush = (ch.writeControl value rate).hush := by
  obtain ⟨enabled, _, _, _, _, _, _, _, _, _, _, _, _, _, _, voice⟩ := ch
  cases htrigger : value &&& 0x80 != 0 with
  | false =>
    cases voice with
    | square => simp [writeControl, writeHigh, hush, isIdleNoise, Voice.isNoise, htrigger]
    | wave => simp [writeControl, writeHigh, hush, isIdleNoise, Voice.isNoise, htrigger]
    | noise =>
      cases enabled <;> simp [writeControl, writeHigh, hush, isIdleNoise, Voice.isNoise, htrigger]
  | true =>
    cases voice with
    | square => simp [writeControl, writeHigh, trigger, hush, isIdleNoise, Voice.isNoise, htrigger]
    | wave => simp [writeControl, writeHigh, trigger, hush, isIdleNoise, Voice.isNoise, htrigger]
    | noise => simp [writeControl, writeHigh, trigger, hush, isIdleNoise, Voice.isNoise, htrigger]

theorem hush_write (register : Fin 5) (value : UInt8) (rate : Float32) :
    (ch.hush.write register value rate).hush = (ch.write register value rate).hush := by
  match register with
  | 2 =>
    have henvelope := ch.hush_writeEnvelope value rate
    simp only [write, writeVolume]
    cases hv : ch.voice with
    | square => simpa only [hush, hv] using henvelope
    | wave => simp [hush, isIdleNoise, Voice.isNoise, hv]
    | noise => simpa only [hush, hv] using henvelope
  | 4 => exact ch.hush_writeControl value rate
  | 0 | 1 | 3 =>
    obtain ⟨enabled, _, _, _, _, _, _, _, _, _, _, _, _, _, _, voice⟩ := ch
    cases voice with
    | square => rfl
    | wave => rfl
    | noise => cases enabled <;> rfl

theorem hush_receive (index : Fin 4) (value : UInt8) (rate : Float32) (register : Register) :
    (ch.hush.receive index value rate register).hush =
      (ch.receive index value rate register).hush := by
  cases register with
  | channel i number =>
    simp only [receive]
    split
    · exact ch.hush_write number value rate
    · exact ch.hush_hush
  | routing => exact ch.hush_route _ _
  | power =>
    simp only [receive]
    split
    · exact ch.hush_hush
    · exact ch.hush_off
  | volume | wave | unused => exact ch.hush_hush

theorem hush_prepare (h : ch.isIdleNoise = false) (rate : Float32) :
    ch.hush.prepare rate = ch.prepare rate := by
  simp [prepare_eq, hush, h, isSlowNoise]

theorem play_of_idle (h : ch.isIdleNoise) (table : WaveTable) (rate decay : Float32) :
    ch.play table rate decay = (0.0, ch.countLength) := by
  have hoff : ch.enabled = false := by simp_all [isIdleNoise]
  simp [play, countLength, silent, hoff]

theorem isIdleNoise_of_hush_eq {a b : Channel} (h : a.hush = b.hush) :
    a.isIdleNoise = b.isIdleNoise := by
  have henabled : a.hush.enabled = b.hush.enabled := by rw [h]
  have hvoice : a.hush.voice = b.hush.voice := by rw [h]
  simp only [hush] at henabled hvoice
  rw [isIdleNoise, isIdleNoise, henabled, hvoice]

/-- Idle noise plays silence, and only its length counter moves. -/
theorem playMany_of_idle (table : WaveTable) (rate decay : Float32) (n : Nat)
    (samples : Array Float32) {a b : Channel} (hidle : a.isIdleNoise) (h : a.hush = b.hush) :
    (playMany table rate decay n samples a).1 = (playMany table rate decay n samples b).1 ∧
      (playMany table rate decay n samples a).2.hush =
        (playMany table rate decay n samples b).2.hush := by
  induction n generalizing samples a b with
  | zero => exact ⟨rfl, h⟩
  | succ n ih =>
    have hidle' : b.isIdleNoise = true := by rw [← isIdleNoise_of_hush_eq h, hidle]
    simp only [playMany, play_of_idle a hidle, play_of_idle b hidle']
    apply ih
    · simp_all [isIdleNoise, countLength]
    · rw [← hush_countLength a, h, hush_countLength b]

/-- What is forgotten of a channel changes nothing of what it plays. -/
theorem hush_render (table : WaveTable) (rate decay : Float32) (frames : Nat) :
    (ch.hush.render table rate decay frames).1 = (ch.render table rate decay frames).1 ∧
      (ch.hush.render table rate decay frames).2.hush =
        (ch.render table rate decay frames).2.hush := by
  cases hidle : ch.isIdleNoise with
  | false =>
    rw [render, ch.hush_prepare hidle rate]
    exact ⟨rfl, rfl⟩
  | true =>
    apply playMany_of_idle
    · simp_all [prepare_eq, hush, isIdleNoise]
    · simp_all [prepare_eq, hush, isIdleNoise, isSlowNoise]

/-! ### Stopping slow noise -/

@[simp] theorem stopSlowNoise_stopSlowNoise :
    ch.stopSlowNoise.stopSlowNoise = ch.stopSlowNoise := by
  simp [stopSlowNoise_eq, isSlowNoise]

theorem stopSlowNoise_eq_self (h : ch.isSlowNoise → ch.enabled = false) :
    ch.stopSlowNoise = ch := by
  rw [stopSlowNoise_eq, enabled_and_not_slow h]

@[simp] theorem render_stopSlowNoise (table : WaveTable) (rate decay : Float32) (frames : Nat) :
    ch.stopSlowNoise.render table rate decay frames = ch.render table rate decay frames := by
  have hprepare : ch.stopSlowNoise.prepare rate = ch.prepare rate := by
    simp [prepare_eq, stopSlowNoise_eq, isSlowNoise]
  rw [render, hprepare]
  rfl

/-- An empty period stops slow noise; all else that it does is forgotten. -/
theorem hush_render_zero (table : WaveTable) (rate decay : Float32) :
    (ch.render table rate decay 0).2.hush = ch.stopSlowNoise.hush := by
  simp only [render, playMany, prepare_eq, stopSlowNoise_eq]
  rfl

theorem stopSlowNoise_route (left right : Bool) :
    { ch.stopSlowNoise with left, right }.stopSlowNoise =
      { ch with left, right }.stopSlowNoise := by
  simp [stopSlowNoise_eq, isSlowNoise]

theorem stopSlowNoise_off :
    { ch.stopSlowNoise with enabled := false }.stopSlowNoise =
      { ch with enabled := false }.stopSlowNoise := by
  simp [stopSlowNoise_eq]

/-- As long as the clock shift stays, noise that the next period would stop may be stopped now. -/
theorem stopSlowNoise_write (register : Fin 5) (value : UInt8) (rate : Float32)
    (hclock : ch.voice.isNoise → register ≠ 3) :
    (ch.stopSlowNoise.write register value rate).stopSlowNoise.hush =
      (ch.write register value rate).stopSlowNoise.hush := by
  cases hslow : ch.isSlowNoise with
  | false =>
    rw [ch.stopSlowNoise_eq_self (by simp [hslow])]
  | true =>
    obtain ⟨enabled, _, _, _, _, _, _, _, frequency, _, _, _, _, _, _, voice⟩ := ch
    cases voice with
    | square => simp [isSlowNoise, Voice.isNoise] at hslow
    | wave => simp [isSlowNoise, Voice.isNoise] at hslow
    | noise lfsr short divisor =>
      simp [isSlowNoise, Voice.isNoise] at hslow
      have hregister : register = 0 ∨ register = 1 ∨ register = 2 ∨ register = 3 ∨
          register = 4 := by omega
      obtain rfl | rfl | rfl | rfl | rfl := hregister
      · simp [stopSlowNoise, hslow, write, writeFirst]
      · simp [stopSlowNoise, hslow, write, writeLength]
      · cases hpowered : value &&& 0xF8 != 0 <;> cases enabled <;>
          simp [stopSlowNoise, hslow, write, writeVolume, writeEnvelope, hush, isIdleNoise,
            Voice.isNoise, hpowered]
      · exact absurd rfl (hclock rfl)
      · cases htrigger : value &&& 0x80 != 0 <;>
          simp [stopSlowNoise, hslow, write, writeControl, writeHigh, trigger, htrigger]

theorem stopSlowNoise_receive (index : Fin 4) (value : UInt8) (rate : Float32)
    (register : Register)
    (hclock : ch.voice.isNoise → register ≠ .channel index 3) :
    (ch.stopSlowNoise.receive index value rate register).stopSlowNoise.hush =
      (ch.receive index value rate register).stopSlowNoise.hush := by
  have hstop := ch.stopSlowNoise_stopSlowNoise
  cases register with
  | channel i number =>
    simp only [receive]
    split
    · rename_i hi
      subst hi
      exact ch.stopSlowNoise_write number value rate fun hnoise hnumber =>
        hclock hnoise (by rw [hnumber])
    · rw [hstop]
  | routing => exact congrArg hush (ch.stopSlowNoise_route _ _)
  | power =>
    simp only [receive]
    split
    · rw [hstop]
    · exact congrArg hush ch.stopSlowNoise_off
  | volume | wave | unused => exact congrArg hush hstop

end Sound.Channel

/-! ### Units that sound the same -/

namespace SoundUnit

/-- The unit without what cannot be heard of it any more. -/
def hushed (unit : SoundUnit) : SoundUnit :=
  { unit with channels := unit.channels.map Channel.hush, scopes := Vector.replicate 4 #[] }

/-- The unit with slow noise stopped, as the next period would do. -/
def stopped (unit : SoundUnit) : SoundUnit :=
  { unit with channels := unit.channels.map Channel.stopSlowNoise }

variable (unit : SoundUnit)

@[simp] theorem hushed_channels (i : Fin 4) :
    unit.hushed.channels.get i = (unit.channels.get i).hush := by
  simp [hushed]

@[simp] theorem stopped_channels (i : Fin 4) :
    unit.stopped.channels.get i = (unit.channels.get i).stopSlowNoise := by
  simp [stopped]

@[simp] theorem hushed_rate : unit.hushed.rate = unit.rate := rfl

@[simp] theorem stopped_rate : unit.stopped.rate = unit.rate := rfl

/-- Units with the same settings sound the same when what is heard of their channels is. -/
theorem hushed_ext {a b : SoundUnit}
    (hsettings : { a with channels := b.channels, scopes := b.scopes } = b)
    (hchannels : ∀ i : Fin 4, (a.channels.get i).hush = (b.channels.get i).hush) :
    a.hushed = b.hushed := by
  have h : a.channels.map Channel.hush = b.channels.map Channel.hush := by
    apply Vector.ext
    intro i hi
    rw [Vector.getElem_map, Vector.getElem_map]
    exact hchannels ⟨i, hi⟩
  rw [← hsettings]
  simp only [hushed, h]

theorem hushed_write (address : UInt16) (value : UInt8) :
    (unit.hushed.write address value).hushed = (unit.write address value).hushed := by
  apply hushed_ext
  · cases h : Register.ofAddress address <;> simp only [write, h] <;> rfl
  · intro i
    simp [write, writeRegister_channels, Channel.hush_receive]

theorem play_hushed_scopes (frames : Nat) (i : Fin 4) :
    (unit.hushed.play frames).scopes.get i = (unit.play frames).scopes.get i := by
  simp only [play_scopes, hushed_channels]
  exact (Channel.hush_render _ _ _ _ _).1

theorem hushed_play (frames : Nat) :
    (unit.hushed.play frames).hushed = (unit.play frames).hushed := by
  apply hushed_ext
  · rfl
  · intro i
    simp only [play_channels, hushed_channels]
    exact (Channel.hush_render _ _ _ _ _).2

theorem addChannel_play_hushed (frames : Nat) (block : Array Frame) (i : Fin 4) :
    (unit.hushed.play frames).addChannel block i = (unit.play frames).addChannel block i := by
  have hleft : unit.hushed.leftGain (unit.hushed.channels.get i) =
      unit.leftGain (unit.channels.get i) := by
    simp [leftGain, Channel.hush, hushed]
  have hright : unit.hushed.rightGain (unit.hushed.channels.get i) =
      unit.rightGain (unit.channels.get i) := by
    simp [rightGain, Channel.hush, hushed]
  have hmuted : (unit.hushed.play frames).muted = (unit.play frames).muted := rfl
  simp only [addChannel, Fin.getElem_fin, ← Vector.get_eq_getElem, play_leftGain, play_rightGain,
    hleft, hright, hmuted, play_hushed_scopes]

theorem block_hushed (action : Action) : unit.hushed.block action = unit.block action := by
  cases action with
  | render frames =>
    have hadd : (unit.hushed.play frames).addChannel = (unit.play frames).addChannel :=
      funext fun block => funext fun i => unit.addChannel_play_hushed frames block i
    simp only [block, render, mix, hadd]
    rfl
  | write | reset | setMuted | toggleMute | setMasterVolume => rfl

theorem hushed_after (action : Action) :
    (unit.hushed.after action).hushed = (unit.after action).hushed := by
  cases action with
  | write address value => exact unit.hushed_write address value
  | render frames => exact unit.hushed_play frames
  | reset => rfl
  | setMuted | toggleMute | setMasterVolume =>
    apply hushed_ext
    · rfl
    · intro i
      simp [after, setMuted, toggleMute, setMasterVolume]

/-- What is forgotten of a unit is never heard again. -/
theorem heard_hushed (actions : List Action) : unit.hushed.heard actions = unit.heard actions := by
  induction actions generalizing unit with
  | nil => rfl
  | cons action rest ih =>
    rw [heard_cons, heard_cons, block_hushed, ← ih (unit.hushed.after action), hushed_after, ih]

/-- Whether the clock shift of the noise is left alone until the next period or reset. -/
def ClockKept : List Action → Prop
  | [] | .render _ :: _ | .reset :: _ => True
  | .write address _ :: rest => Register.ofAddress address ≠ .channel noise 3 ∧ ClockKept rest
  | .setMuted .. :: rest | .toggleMute _ :: rest | .setMasterVolume _ :: rest => ClockKept rest

theorem stopped_stopped : unit.stopped.stopped = unit.stopped := by
  have h : ∀ ch : Channel, ch.stopSlowNoise.stopSlowNoise = ch.stopSlowNoise :=
    Channel.stopSlowNoise_stopSlowNoise
  simp [stopped, h]

theorem Voiced.stopped {unit : SoundUnit} (h : unit.Voiced) : unit.stopped.Voiced := by
  intro i
  simpa [Channel.stopSlowNoise_eq] using h i

/-- Only the last channel is noise. -/
theorem Voiced.eq_noise {unit : SoundUnit} (h : unit.Voiced) {i : Fin 4}
    (hnoise : (unit.channels.get i).voice.isNoise) : i = noise := by
  have hkind := h i
  cases hv : (unit.channels.get i).voice with
  | square | wave => simp [hv, Voice.isNoise] at hnoise
  | noise lfsr short divisor =>
    rw [hv] at hkind
    have hi : i = 0 ∨ i = 1 ∨ i = 2 ∨ i = 3 := by omega
    obtain rfl | rfl | rfl | rfl := hi
    · contradiction
    · contradiction
    · contradiction
    · rfl

theorem stopped_write (hvoiced : unit.Voiced) (address : UInt16) (value : UInt8)
    (hclock : Register.ofAddress address ≠ .channel noise 3) :
    (unit.stopped.write address value).stopped.hushed =
      (unit.write address value).stopped.hushed := by
  apply hushed_ext
  · cases h : Register.ofAddress address <;> simp only [write, h] <;> rfl
  · intro i
    simp only [write, stopped_channels, writeRegister_channels, stopped_rate]
    apply Channel.stopSlowNoise_receive
    intro hnoise hregister
    exact hclock (by rw [hregister, hvoiced.eq_noise hnoise])

theorem play_stopped (frames : Nat) : unit.stopped.play frames = unit.play frames := by
  simp [play, stopped, rate, Function.comp_def]

/-- Slow noise may as well be stopped now, if the next period finds it still slow. -/
theorem heard_stopped (hvoiced : unit.Voiced) (later : List Action) (h : ClockKept later) :
    unit.stopped.heard later = unit.heard later := by
  induction later generalizing unit with
  | nil => rfl
  | cons action rest ih =>
    -- An action that makes no block leads to units that again differ by the stop.
    have hrest (hblock : ∀ unit : SoundUnit, unit.block action = #[]) (hkept : ClockKept rest)
        (hafter : (unit.stopped.after action).stopped.hushed =
          (unit.after action).stopped.hushed) :
        unit.stopped.heard (action :: rest) = unit.heard (action :: rest) := by
      rw [heard_cons, heard_cons, hblock, hblock, ← ih _ (hvoiced.stopped.after action) hkept,
        ← ih _ (hvoiced.after action) hkept, ← heard_hushed, hafter, heard_hushed]
    cases action with
    | write address value =>
      exact hrest (fun _ => rfl) h.2 (unit.stopped_write hvoiced address value h.1)
    | render frames => simp only [heard_cons, after, block, render, play_stopped]
    | reset => rfl
    | setMuted index muted =>
      exact hrest (fun _ => rfl) h (congrArg hushed (unit.setMuted index muted).stopped_stopped)
    | toggleMute index =>
      exact hrest (fun _ => rfl) h (congrArg hushed (unit.toggleMute index).stopped_stopped)
    | setMasterVolume volume =>
      exact hrest (fun _ => rfl) h (congrArg hushed (unit.setMasterVolume volume).stopped_stopped)

/-! ### Empty periods anywhere in a run -/

/-- Empty periods play nothing. -/
theorem afterAll_empty (k : Nat) :
    unit.afterAll (.replicate (k + 1) (.render 0)) = unit.play 0 := by
  induction k with
  | zero => rfl
  | succ k ih =>
    rw [List.replicate_succ', afterAll_append, ih]
    exact unit.play_zero_play 0

theorem heard_empty (k : Nat) : unit.heard (.replicate k (.render 0)) = #[] := by
  induction k generalizing unit with
  | zero => rfl
  | succ k ih =>
    have hblock : unit.block (.render 0) = #[] := by
      apply Array.eq_empty_of_size_eq_zero
      exact unit.mix_size 0
    rw [List.replicate_succ, heard_cons, ih, hblock]
    rfl

theorem hushed_play_zero : (unit.play 0).hushed = unit.stopped.hushed := by
  apply hushed_ext
  · rfl
  · intro i
    simp [Channel.hush_render_zero]

/-- Empty periods do no more than stop slow noise. -/
theorem heard_empty_append (k : Nat) (later : List Action) :
    unit.heard (.replicate (k + 1) (.render 0) ++ later) = unit.stopped.heard later := by
  rw [heard_append, heard_empty, afterAll_empty, ← heard_hushed, hushed_play_zero, heard_hushed]
  simp

/-- Whether the next period would stop nothing. -/
def StopsNothing : Prop :=
  ∀ i : Fin 4, (unit.channels.get i).isSlowNoise → (unit.channels.get i).enabled = false

theorem StopsNothing.stopped_eq {unit : SoundUnit} (h : unit.StopsNothing) :
    unit.stopped = unit := by
  have hchannels : unit.channels.map Channel.stopSlowNoise = unit.channels := by
    apply Vector.ext
    intro i hi
    rw [Vector.getElem_map]
    exact Channel.stopSlowNoise_eq_self _ (h ⟨i, hi⟩)
  rw [stopped, hchannels]

/-- Sound does not depend on how it is cut into periods: neither the frames, nor the scopes taken
together, nor the state of the unit at the end. Empty periods anywhere in a run have the effect of
stopping slow noise early, so nothing is heard of them unless there is noise to stop and its clock
shift is written before the next period. -/
theorem Reached.cut_independent {sampleRate : UInt32} {start : SoundUnit}
    (hreached : Reached sampleRate start) (n m : Nat) (before later : List Action) (k : Nat) :
    let first := start.render n
    let second := first.2.render m
    let whole := start.render (n + m)
    whole.1 = first.1 ++ second.1 ∧
      (∀ i : Fin 4, whole.2.scopes.get i = first.2.scopes.get i ++ second.2.scopes.get i) ∧
      { whole.2 with scopes := second.2.scopes } = second.2 ∧
      start.heard (before ++ .replicate (k + 1) (.render 0) ++ later) =
        start.heard before ++ (start.afterAll before).stopped.heard later ∧
      ((start.afterAll before).StopsNothing ∨ ClockKept later →
        start.heard (before ++ .replicate k (.render 0) ++ later) =
          start.heard (before ++ later)) := by
  have hempty (k : Nat) : start.heard (before ++ .replicate (k + 1) (.render 0) ++ later) =
      start.heard before ++ (start.afterAll before).stopped.heard later := by
    rw [List.append_assoc, heard_append, heard_empty_append]
  refine ⟨start.mix_play_add n m, start.play_add_scopes n m, start.play_add n m, hempty k, ?_⟩
  intro hkept
  have hstopped : (start.afterAll before).stopped.heard later =
      (start.afterAll before).heard later := by
    obtain hnothing | hclock := hkept
    · rw [hnothing.stopped_eq]
    · have hvoiced : (start.afterAll before).Voiced :=
        afterAll_induction (fun _ action h => h.after action) hreached.voiced before
      exact heard_stopped _ hvoiced later hclock
  cases k with
  | zero => simp
  | succ k => rw [hempty, hstopped, heard_append]

/-- Noise that is triggered with the clock shift 14. -/
def slowNoise : List Action :=
  [.write 0xFF24 0x77, .write 0xFF25 0xFF, .write 0xFF21 0xF0, .write 0xFF22 0xE0,
    .write 0xFF23 0x80]

theorem cut_independent_slowNoise :
    Reached 48000 (new 48000) ∧ ClockKept [.write 0xFF21 0x10, .render 800] ∧
      (new 48000).heard (slowNoise ++ .replicate 3 (.render 0) ++
          [.write 0xFF21 0x10, .render 800]) =
        (new 48000).heard (slowNoise ++ [.write 0xFF21 0x10, .render 800]) := by
  have hreached : Reached 48000 (new 48000) := ⟨[], rfl⟩
  have hkept : ClockKept [.write 0xFF21 0x10, .render 800] := ⟨by decide, trivial⟩
  exact ⟨hreached, hkept, (hreached.cut_independent 0 0 slowNoise _ 3).2.2.2.2 (.inr hkept)⟩

/-- An empty period after which the clock shift is written silences noise that would be heard. -/
theorem empty_period_heard :
    ¬ ∀ (sampleRate : UInt32) (start : SoundUnit) (before later : List Action) (k : Nat),
      1 ≤ sampleRate → Reached sampleRate start →
        start.heard (before ++ .replicate k (.render 0) ++ later) =
          start.heard (before ++ later) := by
  intro h
  have hsame := h 48000 (new 48000) slowNoise [.write 0xFF22 0x50, .render 1] 1 (by decide)
    ⟨[], rfl⟩
  have hsilent : ((new 48000).heard (slowNoise ++ .replicate 1 (.render 0) ++
      [.write 0xFF22 0x50, .render 1])).map (·.left) = #[0.0] := by decide +kernel
  have hloud : ((new 48000).heard (slowNoise ++ [.write 0xFF22 0x50, .render 1])).map (·.left) =
      #[-0.25] := by decide +kernel
  rw [hsame, hloud] at hsilent
  exact absurd hsilent (by decide)

end SoundUnit
end Chiptune
