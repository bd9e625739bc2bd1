import Chiptune.Proofs.PowerSwitch
import Chiptune.Proofs.RegisterFile

/-!
# What a trigger forgets

A trigger starts a channel from what its registers hold. Where the note before
it had got to makes no difference: volume, length, envelope, sweep and the noise
register are set anew, each from its own register. What a trigger does not touch
is what would be heard as a click: the phase, the step of a duty pattern and the
level that the filter has found.
-/
namespace Chiptune
open Sound

namespace Sound

/-- The voice from its first cell on, with the sweep, if it has one. A square goes on with the step
at which it stands. -/
def Voice.restarted (sweep : Sweep) : Voice → Voice
  | .square duty step old => .square duty step (old.map fun _ => sweep)
  | .wave _ => .wave 0
  | .noise _ short divisor => .noise 0 short divisor

def Voice.sweep? : Voice → Option Sweep
  | .square _ _ sweep => sweep
  | .wave _ | .noise .. => none

/-- The step of a duty pattern. -/
def Voice.step? : Voice → Option UInt8
  | .square _ step _ => some step
  | .wave _ | .noise .. => none

theorem Voice.restarted_kind (sweep : Sweep) (voice : Voice) :
    (voice.restarted sweep).kind = voice.kind := by
  cases voice with
  | square duty step old => cases old <;> rfl
  | wave | noise => rfl

theorem Voice.restarted_step? (sweep : Sweep) (voice : Voice) :
    (voice.restarted sweep).step? = voice.step? := by
  cases voice <;> rfl

theorem Voice.average_sweep? (table : WaveTable) (volume : UInt8) (inc phase : Float32)
    (voice : Voice) : (voice.average table volume inc phase).cell.sweep? = voice.sweep? := by
  cases voice <;> rfl

theorem Voice.restarted_sweep? (sweep : Sweep) (voice : Voice) :
    (voice.restarted sweep).sweep? = if voice.kind = .sweptSquare then some sweep else none := by
  cases voice with
  | square duty step old => cases old <;> rfl
  | wave | noise => rfl

namespace Channel

/-- Two channels agree on what their registers have set. -/
structure SameSetup (ch other : Channel) : Prop where
  /-- The duty of a square, the width and the divisor of noise. -/
  voice : ch.voice.rewound = other.voice.rewound
  sweepRegister : ch.sweepRegister = other.sweepRegister
  envelopeRegister : ch.envelopeRegister = other.envelopeRegister
  load : ch.length.load = other.length.load
  initialVolume : ch.initialVolume = other.initialVolume
  powered : ch.powered = other.powered
  frequency : ch.frequency = other.frequency

/-- Two channels agree on what a trigger sets. -/
structure SameStart (ch other : Channel) : Prop where
  enabled : ch.enabled = other.enabled
  volume : ch.volume = other.volume
  frequency : ch.frequency = other.frequency
  length : ch.length = other.length
  /-- The wave has no envelope. -/
  envelope : ch.voice.kind ≠ .wave → ch.envelope = other.envelope
  sweep : ch.voice.sweep? = other.voice.sweep?

/-- How a trigger leaves a channel that was in the state `before`. -/
structure StartedFrom (before ch : Channel) : Prop where
  enabled : ch.enabled = before.powered
  volume : ch.volume = before.initialVolume
  kind : ch.voice.kind = before.voice.kind
  position : ∀ position, ch.voice = .wave position → position = 0
  lfsr : ∀ lfsr short divisor, ch.voice = .noise lfsr short divisor → lfsr = 0
  step : ch.voice.step? = before.voice.step?
  phase : ch.phase = before.phase
  capacitor : ch.capacitor = before.capacitor

theorem trigger_eq (ch : Channel) (rate : Float32) :
    ch.trigger rate =
      { ch with
        enabled := ch.powered
        volume := ch.initialVolume
        length := ch.length.reload ch.voice.kind.longest rate
        envelope :=
          if ch.voice.kind = .wave then ch.envelope else Envelope.start ch.envelopeRegister rate
        voice := ch.voice.restarted (Sweep.start ch.sweepRegister ch.frequency rate) } := by
  rw [← Voice.longest_eq]
  obtain ⟨_, _, _, _, _, _, _, _, _, _, _, _, _, _, _, voice⟩ := ch
  cases voice with
  | square duty step sweep => cases sweep <;> rfl
  | wave | noise => rfl

/-- Only the frequency is written, and not that of noise. -/
theorem writeHigh_eq (ch : Channel) (value : UInt8) :
    ch.writeHigh value =
      { ch with
        frequency :=
          if ch.voice.kind = .noise then ch.frequency
          else (ch.frequency &&& 0x00FF) ||| (value &&& 0x07).toUInt16 * 256 } := by
  obtain ⟨_, _, _, _, _, _, _, _, _, _, _, _, _, _, _, voice⟩ := ch
  cases voice with
  | square duty step sweep => cases sweep <;> rfl
  | wave | noise => rfl

variable {ch other : Channel} {value : UInt8}

theorem writeControl_of_trigger (h : value &&& 0x80 ≠ 0) (rate : Float32) :
    ch.writeControl value rate =
      { ch.writeHigh value with
        length := { ch.length with enabled := value &&& 0x40 != 0 } }.trigger rate := by
  have hlength : (ch.writeHigh value).length = ch.length := by rw [writeHigh_eq]
  simp only [writeControl, hlength]
  rw [if_pos (by simpa using h)]

theorem sameStart_of_trigger (hsetup : ch.SameSetup other)
    (hkind : ch.voice.kind = other.voice.kind) (h : value &&& 0x80 ≠ 0) (rate : Float32) :
    (ch.writeControl value rate).SameStart (other.writeControl value rate) := by
  have hfrequency : (ch.writeHigh value).frequency = (other.writeHigh value).frequency := by
    simp only [writeHigh_eq, hkind, hsetup.frequency]
  rw [writeControl_of_trigger h, writeControl_of_trigger h, trigger_eq, trigger_eq]
  simp only [hfrequency]
  simp only [writeHigh_eq]
  constructor
  · exact hsetup.powered
  · exact hsetup.initialVolume
  · rfl
  · simp only [LengthCounter.reload, hsetup.load, hkind]
  · intro hwave
    have hwave : ch.voice.kind ≠ .wave := by rwa [Voice.restarted_kind] at hwave
    have hwave' : other.voice.kind ≠ .wave := hkind ▸ hwave
    simp only [if_neg hwave, if_neg hwave', hsetup.envelopeRegister]
  · simp only [hsetup.sweepRegister]
    rw [Voice.restarted_sweep?, Voice.restarted_sweep?, hkind]

theorem startedFrom_of_trigger (h : value &&& 0x80 ≠ 0) (rate : Float32) :
    StartedFrom ch (ch.writeControl value rate) := by
  rw [writeControl_of_trigger h, trigger_eq]
  simp only [writeHigh_eq]
  refine ⟨rfl, rfl, Voice.restarted_kind _ _, ?_, ?_, Voice.restarted_step? _ _, rfl, rfl⟩
  · intro position hvoice
    cases hv : ch.voice with
    | wave old =>
      rw [hv] at hvoice
      exact (Voice.wave.inj hvoice).symm
    | square | noise =>
      rw [hv] at hvoice
      exact absurd hvoice nofun
  · intro lfsr short divisor hvoice
    cases hv : ch.voice with
    | noise old =>
      rw [hv] at hvoice
      exact (Voice.noise.inj hvoice).1.symm
    | square | wave =>
      rw [hv] at hvoice
      exact absurd hvoice nofun

end Channel
end Sound

namespace SoundUnit

theorem ofAddress_controlAddress : ∀ i : Fin 4,
    Register.ofAddress (controlAddress i) = .channel i 4 := by decide

theorem sampleRate_after (unit : SoundUnit) (action : Action) :
    (unit.after action).sampleRate = unit.sampleRate := by
  cases action with
  | write address value => exact writeRegister_sampleRate unit value _
  | render | reset | setMuted | toggleMute | setMasterVolume => rfl

theorem Reached.sampleRate_eq {sampleRate : UInt32} {unit : SoundUnit}
    (h : Reached sampleRate unit) : unit.sampleRate = sampleRate :=
  h.induction (P := fun unit => unit.sampleRate = sampleRate) rfl
    fun unit action h => (unit.sampleRate_after action).trans h

/-- A trigger forgets the note before it. Two units of one sample rate, each after a run of its own,
agree on what the registers of a channel have set. The same trigger then leaves the channel of both
the same in all that it starts: it is on if it has power, its volume is the initial one, and its
frequency, length counter, envelope and sweep are the same. The noise register and the position of
the wave start at zero. Phase, duty step and filter go on as they were, and so do the other
channels. -/
theorem trigger_forgets {sampleRate : UInt32} {unit other : SoundUnit}
    (hunit : Reached sampleRate unit) (hother : Reached sampleRate other) {i : Fin 4}
    (hsetup : (unit.channels.get i).SameSetup (other.channels.get i)) {control : UInt8}
    (htrigger : control &&& 0x80 ≠ 0) :
    let next := unit.write (controlAddress i) control
    let otherNext := other.write (controlAddress i) control
    (next.channels.get i).SameStart (otherNext.channels.get i) ∧
      (unit.channels.get i).StartedFrom (next.channels.get i) ∧
      ∀ j, j ≠ i → next.channels.get j = unit.channels.get j ∧
        next.scopes.get j = unit.scopes.get j := by
  have hkind := (hunit.voiced i).trans (hother.voiced i).symm
  have hrate : other.rate = unit.rate := by
    rw [rate, rate, hunit.sampleRate_eq, hother.sampleRate_eq]
  have hreceive : ∀ unit : SoundUnit, ∀ j, (unit.write (controlAddress i) control).channels.get j =
      (unit.channels.get j).receive j control unit.rate (.channel i 4) := by
    intro unit j
    rw [SoundUnit.write, ofAddress_controlAddress, writeRegister_channels]
  have hwrite : ∀ unit : SoundUnit, (unit.write (controlAddress i) control).channels.get i =
      (unit.channels.get i).writeControl control unit.rate := by
    intro unit
    rw [hreceive, Channel.receive, if_pos rfl]
    rfl
  intro next otherNext
  refine ⟨?_, ?_, fun j hj => ⟨?_, ?_⟩⟩
  · rw [hwrite, hwrite, hrate]
    exact Channel.sameStart_of_trigger hsetup hkind htrigger unit.rate
  · rw [hwrite]
    exact Channel.startedFrom_of_trigger htrigger unit.rate
  · rw [hreceive, Channel.receive, if_neg (Ne.symm hj)]
  · exact congrArg (·.get j) (writeRegister_scopes unit control _)

/-- A tone whose envelope has ticked, and one that has been set up but not played. -/
theorem trigger_forgets_ticked :
    let unit := (new 64).afterAll [.write 0xFF12 0xA1, .write 0xFF14 0x80, .render 2]
    let other := (new 64).afterAll [.write 0xFF12 0xA1]
    (unit.channels.get square1).volume = 9 ∧
      (unit.channels.get square1).SameSetup (other.channels.get square1) ∧
      (0xC0 : UInt8) &&& 0x80 ≠ 0 ∧
      ((unit.write 0xFF14 0xC0).channels.get square1).SameStart
        ((other.write 0xFF14 0xC0).channels.get square1) := by
  intro unit other
  have hsetup : (unit.channels.get square1).SameSetup (other.channels.get square1) := by
    constructor <;> decide +kernel
  have hvolume : (unit.channels.get square1).volume = 9 := by decide +kernel
  have htrigger : (0xC0 : UInt8) &&& 0x80 ≠ 0 := by decide
  exact ⟨hvolume, hsetup, htrigger, (trigger_forgets ⟨_, rfl⟩ ⟨_, rfl⟩ hsetup htrigger).1⟩

end SoundUnit
end Chiptune
