import Chiptune.Proofs.ChannelIsolation

/-!
# The power switch

Clearing bit 7 of the power register stops every channel, and so does a reset.
From there on the switch does not hold anything back: the registers of a unit
that is off are written like those of one that is on, since they are set up
before it is switched on, and a trigger among these writes starts its channel.

A trigger is also all that does. As long as a channel has not been triggered
since the unit was switched off, it stays off and plays silence, whatever else
is written, also when the unit is switched on again.
-/
namespace Chiptune
open Sound

/-! ### What turns a channel on -/

namespace Sound.Channel

variable {ch : Channel}

/-- Of the writes to a channel that is off, only a trigger turns it on, and only if it has power. -/
theorem enabled_of_write {register : Fin 5} {value : UInt8} {rate : Float32}
    (h : (ch.write register value rate).enabled) :
    ch.enabled ∨ (register = 4 ∧ value &&& 0x80 ≠ 0 ∧ ch.powered) := by
  match register with
  | 0 =>
    left
    simp only [write, writeFirst] at h
    split at h
    · exact h
    · exact (Bool.and_eq_true_iff.mp h).2
    · exact h
  | 1 =>
    left
    simp only [write, writeLength] at h
    split at h <;> exact h
  | 2 =>
    left
    simp only [write, writeVolume, writeEnvelope] at h
    split at h
    · exact h
    · split at h
      · contradiction
      · split at h <;> exact h
  | 3 =>
    left
    simp only [write, writeLow] at h
    split at h <;> exact h
  | 4 =>
    have hhigh : (ch.writeHigh value).enabled = ch.enabled ∧
        (ch.writeHigh value).powered = ch.powered := by
      simp only [writeHigh]
      split <;> exact ⟨rfl, rfl⟩
    simp only [write, writeControl] at h
    split at h
    · rename_i htrigger
      refine .inr ⟨rfl, by simpa using htrigger, ?_⟩
      rw [← hhigh.2]
      simp only [trigger] at h
      split at h <;> exact h
    · exact .inl (hhigh.1 ▸ h)

/-- A channel that is off plays silence. -/
theorem play_of_off (h : ch.enabled = false) (table : WaveTable) (rate decay : Float32) :
    ch.play table rate decay = (0.0, ch.countLength) := by
  simp [play, countLength, silent, h]

theorem playMany_of_off (table : WaveTable) (rate decay : Float32) (n : Nat)
    (samples : Array Float32) {ch : Channel} (h : ch.enabled = false) :
    (playMany table rate decay n samples ch).1 = samples ++ Array.replicate n 0.0 ∧
      (playMany table rate decay n samples ch).2.enabled = false := by
  induction n generalizing samples ch with
  | zero => simp [playMany, h]
  | succ n ih =>
    have hcount : ch.countLength.enabled = false := by simp [countLength, h]
    simp only [playMany, play_of_off h]
    obtain ⟨hsamples, hoff⟩ := ih (samples.push 0.0) hcount
    refine ⟨?_, hoff⟩
    rw [hsamples, Array.push_eq_append, Array.append_assoc, ← Array.replicate_succ']

theorem render_of_off (h : ch.enabled = false) (table : WaveTable) (rate decay : Float32)
    (frames : Nat) :
    (ch.render table rate decay frames).1 = Array.replicate frames 0.0 ∧
      (ch.render table rate decay frames).2.enabled = false := by
  have hprepare : (ch.prepare rate).enabled = false := by
    rw [prepare_eq]
    simp [h]
  simpa [render] using playMany_of_off table rate decay frames #[] hprepare

end Sound.Channel

/-! ### What stops and starts a channel in a run -/

namespace SoundUnit

open Register (powerAddress)

/-- Where the control register of a channel lies. -/
def controlAddress (i : Fin 4) : UInt16 := 0xFF14 + 5 * UInt16.ofNat i

/-- Whether the power register reads with bit 7 clear. -/
def isOff (unit : SoundUnit) : Bool := unit.read powerAddress &&& 0x80 == 0

/-- Whether an action switches the unit off. -/
def Action.switchesOff : Action → Bool
  | .write address value => address == powerAddress && value &&& 0x80 == 0
  | .reset => true
  | _ => false

/-- Whether an action triggers a channel that has power. -/
def starts (unit : SoundUnit) (i : Fin 4) : Action → Bool
  | .write address value =>
    address == controlAddress i && value &&& 0x80 != 0 && (unit.channels.get i).powered
  | _ => false

/-- Whether a run triggers a channel, with power, at any point. -/
def startsIn (i : Fin 4) : SoundUnit → List Action → Bool
  | _, [] => false
  | unit, action :: rest => unit.starts i action || (unit.after action).startsIn i rest

/-- Whether a run triggers a channel, with power, while the unit is off, and does not switch the
unit off again after that. -/
def startsWhileOff (i : Fin 4) : SoundUnit → List Action → Bool
  | _, [] => false
  | unit, action :: rest =>
    (unit.isOff && unit.starts i action && !rest.any Action.switchesOff) ||
      (unit.after action).startsWhileOff i rest

variable {unit : SoundUnit}

/-- Bit 7 of the power register tells whether the unit is switched on. -/
theorem isOff_eq (unit : SoundUnit) : unit.isOff = !unit.powered := unit.read_power.2

theorem eq_controlAddress {address : UInt16} {i : Fin 4}
    (h : Register.ofAddress address = .channel i 4) : address = controlAddress i := by
  have hcontrol : ∀ i : Fin 4, (controlAddress i).toNat = 0xFF10 + 5 * i + (4 : Fin 5) := by decide
  exact UInt16.toNat_inj.mp ((Register.toNat_of_channel h).trans (hcontrol i).symm)

theorem switchesOff_write_eq_false {address : UInt16} (value : UInt8)
    (h : Register.ofAddress address ≠ .power) :
    (Action.write address value).switchesOff = false := by
  have hpower : Register.ofAddress powerAddress = .power := by decide
  have hne : address ≠ powerAddress := by
    rintro rfl
    exact h hpower
  simp [Action.switchesOff, hne]

/-- An action after which a channel is on has not switched the unit off. It started the channel, or
the channel was on before. -/
theorem enabled_of_after {action : Action} {i : Fin 4}
    (h : ((unit.after action).channels.get i).enabled) :
    action.switchesOff = false ∧ (unit.starts i action ∨ (unit.channels.get i).enabled) := by
  cases action with
  | write address value =>
    simp only [after, SoundUnit.write, writeRegister_channels] at h
    cases hregister : Register.ofAddress address with
    | channel index number =>
      refine ⟨switchesOff_write_eq_false value (by simp [hregister]), ?_⟩
      rw [hregister, Channel.receive] at h
      by_cases hindex : index = i
      · subst hindex
        rw [if_pos rfl] at h
        obtain hon | ⟨rfl, htrigger, hpowered⟩ := Channel.enabled_of_write h
        · exact .inr hon
        · left
          simp [starts, eq_controlAddress hregister, htrigger, hpowered]
      · rw [if_neg hindex] at h
        exact .inr h
    | power =>
      rw [hregister, Channel.receive] at h
      split at h
      · rename_i hset
        have hset : value &&& 0x80 ≠ 0 := by simpa using hset
        exact ⟨by simp [Action.switchesOff, hset], .inr h⟩
      · contradiction
    | routing | volume | wave | unused =>
      rw [hregister] at h
      exact ⟨switchesOff_write_eq_false value (by simp [hregister]), .inr h⟩
  | render frames =>
    refine ⟨rfl, .inr ?_⟩
    simp only [after, render_snd, play_channels] at h
    by_contra hoff
    rw [(Channel.render_of_off (by simpa using hoff) _ _ _ _).2] at h
    contradiction
  | reset => simp [after, reset, Channel.initial] at h
  | setMuted | toggleMute | setMasterVolume => exact ⟨rfl, .inr h⟩

/-- A unit that is off after an action was switched off by it, or was off before. -/
theorem isOff_of_after {action : Action} (h : (unit.after action).isOff) :
    unit.isOff ∨ action.switchesOff := by
  simp only [isOff_eq, Bool.not_eq_true'] at h ⊢
  cases action with
  | write address value =>
    cases hregister : Register.ofAddress address with
    | power =>
      right
      simp only [after, SoundUnit.write, hregister, writeRegister] at h
      simpa [Action.switchesOff, Register.eq_powerAddress hregister] using h
    | channel | routing | volume | wave | unused =>
      left
      simpa only [after, SoundUnit.write, hregister, writeRegister] using h
  | reset => exact .inr rfl
  | render | setMuted | toggleMute | setMasterVolume => exact .inl h

/-- A channel that is on while the unit is off was triggered while it was off, or it was on, and the
unit off, all along. -/
theorem startsWhileOff_of_enabled (actions : List Action) {i : Fin 4}
    (hoff : (unit.afterAll actions).isOff)
    (hon : ((unit.afterAll actions).channels.get i).enabled) :
    unit.startsWhileOff i actions ∨
      ((unit.channels.get i).enabled ∧ unit.isOff ∧ actions.any Action.switchesOff = false) := by
  induction actions generalizing unit with
  | nil => exact .inr ⟨hon, hoff, rfl⟩
  | cons action rest ih =>
    obtain hlater | ⟨henabled, hstill, hkept⟩ := ih hoff hon
    · left
      simp [startsWhileOff, hlater]
    obtain ⟨haction, hcause⟩ := enabled_of_after henabled
    have hbefore : unit.isOff := by
      obtain hbefore | hswitched := isOff_of_after hstill
      · exact hbefore
      · rw [haction] at hswitched
        contradiction
    obtain hstarts | hbeforeOn := hcause
    · left
      simp [startsWhileOff, hbefore, hstarts, hkept]
    · right
      exact ⟨hbeforeOn, hbefore, by simp [haction, hkept]⟩

/-- A channel that is off and is not triggered stays off. -/
theorem enabled_eq_false_of_startsIn (later : List Action) {i : Fin 4}
    (hoff : (unit.channels.get i).enabled = false) (h : unit.startsIn i later = false) :
    ((unit.afterAll later).channels.get i).enabled = false := by
  induction later generalizing unit with
  | nil => exact hoff
  | cons action rest ih =>
    simp only [startsIn, Bool.or_eq_false_iff] at h
    obtain ⟨hstarts, hrest⟩ := h
    apply ih _ hrest
    by_contra hon
    obtain hstarted | hbefore := (enabled_of_after (by simpa using hon)).2
    · rw [hstarts] at hstarted
      contradiction
    · rw [hoff] at hbefore
      contradiction

/-- Nothing sounds while the unit is off, unless it was triggered while it was off. After any run
that leaves the power register reading with bit 7 clear, a channel that was not triggered since the
unit was switched off reads as off and is off. It then plays silence, period after period, whatever
is written, until it is triggered; switching the unit on does not start it. -/
theorem silent_while_off (sampleRate : UInt32) (actions : List Action) (i : Fin 4)
    (hoff : ((new sampleRate).afterAll actions).isOff)
    (hstarts : (new sampleRate).startsWhileOff i actions = false) :
    let unit := (new sampleRate).afterAll actions
    routes (unit.read powerAddress) i = false ∧ (unit.channels.get i).enabled = false ∧
      ∀ (later : List Action) (frames : Nat), unit.startsIn i later = false →
        ((unit.afterAll later).render frames).2.scopes.get i = Array.replicate frames 0.0 := by
  intro unit
  have henabled : (unit.channels.get i).enabled = false := by
    by_contra hon
    obtain hstarted | ⟨hstart, -⟩ := startsWhileOff_of_enabled actions hoff (by simpa using hon)
    · rw [hstarts] at hstarted
      contradiction
    · simp [Channel.initial] at hstart
  refine ⟨by rw [routes_read_power, henabled], henabled, fun later frames hlater => ?_⟩
  rw [render_snd, play_scopes]
  exact (Channel.render_of_off (enabled_eq_false_of_startsIn later henabled hlater) _ _ _ _).1

/-- The first channel plays while the unit is on and is set up again while it is off, but not
triggered. -/
theorem silent_while_off_square1 :
    let actions : List Action := [.write powerAddress 0x80, .write 0xFF12 0xF0, .write 0xFF14 0x80,
      .render 2, .write powerAddress 0x00, .write 0xFF12 0xF3, .write 0xFF14 0x47]
    let later : List Action := [.render 2, .write powerAddress 0x80, .write 0xFF13 0xFF]
    let unit := (new 48000).afterAll actions
    unit.isOff ∧ (new 48000).startsWhileOff square1 actions = false ∧
      unit.startsIn square1 later = false ∧
      ((unit.afterAll later).render 4).2.scopes.get square1 = Array.replicate 4 0.0 := by
  intro actions later unit
  have hoff : unit.isOff := by decide +kernel
  have hstarts : (new 48000).startsWhileOff square1 actions = false := by decide +kernel
  have hlater : unit.startsIn square1 later = false := by decide +kernel
  exact ⟨hoff, hstarts, hlater, (silent_while_off 48000 actions square1 hoff hstarts).2.2 later 4
    hlater⟩

/-- A channel that is triggered before the unit is switched on reads as on, is on and plays. -/
theorem triggered_plays_while_off :
    let unit := (new 48000).afterAll [.write 0xFF12 0xF0, .write 0xFF14 0x80]
    unit.isOff ∧ routes (unit.read powerAddress) square1 = true ∧
      (unit.channels.get square1).enabled ∧
      (unit.render 1).2.scopes.get square1 ≠ Array.replicate 1 0.0 := by
  decide +kernel

end SoundUnit
end Chiptune
