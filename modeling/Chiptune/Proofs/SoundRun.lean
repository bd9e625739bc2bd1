import Chiptune.Sound.Basic
import Mathlib

/-!
# Runs of the sound unit

An action is anything that can be asked of a sound unit. A run is a list of
actions, and what is heard of it is the blocks of its renders, one after the
other. A unit is reached when some run leads to it from power-on.

Whatever an action does to a unit, it moves each channel by one step of
`Channel.Step`, so a fact about channels that every step keeps holds after every
run. In the same way a sample moves a channel by the operations of
`Channel.play_induction`.
-/
namespace Chiptune
open Sound

/-! ### The addresses of the registers -/

namespace Sound

/-- Where the power register lies. -/
def Register.powerAddress : UInt16 := 0xFF26

/-- Where a register lies. -/
inductive Register.LiesAt (address : Nat) : Register → Prop where
  | channel {index : Fin 4} {number : Fin 5} (h : address = 0xFF10 + 5 * index + number) :
    LiesAt address (.channel index number)
  | volume (h : address = 0xFF24) : LiesAt address .volume
  | routing (h : address = 0xFF25) : LiesAt address .routing
  | power (h : address = 0xFF26) : LiesAt address .power
  | wave {index : Fin 16} (h : address = 0xFF30 + index) : LiesAt address (.wave index)
  | unused : LiesAt address .unused

theorem Register.liesAt_ofOffset (offset : Nat) :
    (Register.ofOffset offset).LiesAt (base + offset) := by
  unfold ofOffset base
  by_cases hchannel : offset < 20
  · rw [dif_pos hchannel]
    exact .channel (by dsimp only; omega)
  rw [dif_neg hchannel]
  by_cases hvolume : offset = 20
  · rw [if_pos hvolume]
    exact .volume (by omega)
  rw [if_neg hvolume]
  by_cases hrouting : offset = 21
  · rw [if_pos hrouting]
    exact .routing (by omega)
  rw [if_neg hrouting]
  by_cases hpower : offset = 22
  · rw [if_pos hpower]
    exact .power (by omega)
  rw [if_neg hpower]
  by_cases hgap : offset < 32
  · rw [if_pos hgap]
    exact .unused
  rw [if_neg hgap]
  by_cases hwave : offset < 48
  · rw [if_pos hwave]
    have hindex : (Fin.ofNat 16 offset).val = offset % 16 := rfl
    exact .wave (by omega)
  · rw [if_neg hwave]
    exact .unused

theorem Register.liesAt_ofAddress (address : UInt16) :
    (Register.ofAddress address).LiesAt address.toNat := by
  unfold ofAddress
  by_cases hbase : base ≤ address.toNat
  · rw [if_pos hbase]
    have haddress : base + (address.toNat - base) = address.toNat := by omega
    have h := liesAt_ofOffset (address.toNat - base)
    rwa [haddress] at h
  · rw [if_neg hbase]
    exact .unused

theorem Register.eq_powerAddress {address : UInt16} (h : Register.ofAddress address = .power) :
    address = powerAddress := by
  have hlies := liesAt_ofAddress address
  rw [h] at hlies
  cases hlies with
  | power hlies => exact UInt16.toNat_inj.mp hlies

theorem Register.toNat_of_channel {address : UInt16} {index : Fin 4} {number : Fin 5}
    (h : Register.ofAddress address = .channel index number) :
    address.toNat = 0xFF10 + 5 * index + number := by
  have hlies := liesAt_ofAddress address
  rw [h] at hlies
  cases hlies with
  | channel hlies => exact hlies

end Sound

/-! ### Oscillators, samples and periods -/

namespace Sound

/-- An oscillator only ever moves on to the next cell. -/
theorem Averaged.sum_induction {Cell : Type} {P : Cell → Prop} {next : Cell → Cell}
    (level : Cell → Float32) (hnext : ∀ cell, P cell → P (next cell)) (limit : Nat)
    (phase remaining total : Float32) {cell : Cell} (h : P cell) :
    P (Averaged.sum next level limit phase remaining total cell).cell := by
  induction limit generalizing phase remaining total cell with
  | zero => exact h
  | succ limit ih =>
    simp only [Averaged.sum]
    split
    · exact ih _ _ _ (hnext _ h)
    · exact h

theorem Averaged.across_induction {Cell : Type} {P : Cell → Prop} {next : Cell → Cell}
    (level : Cell → Float32) (hnext : ∀ cell, P cell → P (next cell)) (inc phase : Float32)
    {cell : Cell} (h : P cell) : P (Averaged.across next level inc phase cell).cell := by
  simp only [Averaged.across]
  split
  · exact h
  · exact Averaged.sum_induction level hnext _ _ _ _ h

/-- A voice that has played a sample is the same voice with its cell moved on. -/
theorem Voice.average_induction {P : Voice → Prop} (table : WaveTable) (volume : UInt8)
    (inc phase : Float32) {voice : Voice}
    (square : ∀ duty step sweep, P (.square duty step sweep) →
      P (.square duty (nextStep step) sweep))
    (wave : ∀ position, P (.wave position) → P (.wave (nextPosition position)))
    (noise : ∀ lfsr short divisor, P (.noise lfsr short divisor) →
      P (.noise (nextNoise short lfsr) short divisor))
    (h : P voice) : P (voice.average table volume inc phase).cell := by
  cases voice with
  | square duty step sweep =>
    exact Averaged.across_induction (P := fun step => P (.square duty step sweep)) _
      (fun step => square duty step sweep) inc phase h
  | wave position => exact Averaged.across_induction (P := fun p => P (.wave p)) _ wave inc phase h
  | noise lfsr short divisor =>
    exact Averaged.across_induction (P := fun lfsr => P (.noise lfsr short divisor)) _
      (fun lfsr => noise lfsr short divisor) inc phase h

/-- What a voice is, whatever its parameters. -/
inductive Voice.Kind where
  | sweptSquare
  | square
  | wave
  | noise
  deriving DecidableEq

def Voice.kind : Voice → Kind
  | .square _ _ (some _) => .sweptSquare
  | .square _ _ none => .square
  | .wave _ => .wave
  | .noise .. => .noise

@[simp] theorem Voice.average_kind (table : WaveTable) (volume : UInt8) (inc phase : Float32)
    (voice : Voice) : (voice.average table volume inc phase).cell.kind = voice.kind := by
  cases voice with
  | square duty step sweep => cases sweep <;> rfl
  | wave position => rfl
  | noise lfsr short divisor => rfl

/-- An envelope ticks, and does nothing else to the volume. -/
theorem Envelope.runDue_induction {P : Envelope → UInt8 → Prop}
    (tick : ∀ e volume, P e volume → P (e.tick volume).1 (e.tick volume).2) (limit : Nat)
    {e : Envelope} {volume : UInt8} (h : P e volume) :
    P (e.runDue limit volume).1 (e.runDue limit volume).2 := by
  induction limit generalizing e volume with
  | zero => exact h
  | succ limit ih =>
    simp only [Envelope.runDue]
    split
    · exact ih (tick e volume h)
    · exact h

theorem Envelope.clock_induction {P : Envelope → UInt8 → Prop}
    (tick : ∀ e volume, P e volume → P (e.tick volume).1 (e.tick volume).2)
    {e : Envelope} {volume : UInt8} (h : P { e with counter := e.counter + e.inc } volume) :
    P (e.clock volume).1 (e.clock volume).2 := by
  simp only [Envelope.clock]
  split
  · exact Envelope.runDue_induction tick _ h
  · exact h

namespace Channel

/-- The channel after its voice has played a sample. -/
def advance (ch : Channel) (table : WaveTable) : Channel :=
  let mean := ch.voice.average table ch.volume ch.phaseInc ch.phase
  { ch with phase := mean.phase, voice := mean.cell }

/-- Playing the mean of a sample moves the voice on, and at most charges the filter. -/
theorem playMean_induction {P : Channel → Prop} (table : WaveTable) (decay : Float32)
    (scale : Float32 → Option Float32) {ch : Channel} (h : P (ch.advance table))
    (filter : ∀ ch c, P ch → P { ch with capacitor := c }) :
    P (ch.playMean table decay scale).2 := by
  simp only [playMean]
  split
  · exact filter _ _ h
  · exact h

/-- What one sample may do to a channel: a fact that each of these operations keeps is kept by the
sample. Only a channel that is on gets past counting its length, and the wave has no envelope. -/
theorem play_induction {P : Channel → Prop} (table : WaveTable) (rate decay : Float32)
    {ch : Channel}
    (length : ∀ ch, P ch → P ch.countLength)
    (envelope : ∀ ch, ch.enabled → (∀ p, ch.voice ≠ .wave p) → P ch → P ch.clockEnvelope)
    (sweep : ∀ ch, ch.enabled → P ch → P (ch.clockSweep rate))
    (advance : ∀ ch, ch.enabled → P ch → P (ch.advance table))
    (filter : ∀ ch c, P ch → P { ch with capacitor := c })
    (h : P ch) : P (ch.play table rate decay).2 := by
  have hcount := length ch h
  simp only [play]
  split
  · rename_i hon
    split
    · rename_i duty step sw hv
      have hclock := sweep _ (by exact hon) (envelope _ hon (by simp [hv]) hcount)
      split
      · rename_i hstill
        exact playMean_induction table decay _ (advance _ hstill hclock) filter
      · exact hclock
    · exact playMean_induction table decay _ (advance _ hon hcount) filter
    · rename_i lfsr short divisor hv
      have hclock := envelope _ hon (by simp [hv]) hcount
      exact playMean_induction table decay _ (advance _ (by exact hon) hclock) filter
  · exact hcount

/-- A fact that every sample keeps is kept by any number of them. -/
theorem playMany_induction {P : Channel → Prop} (table : WaveTable) (rate decay : Float32)
    (hplay : ∀ ch, P ch → P (ch.play table rate decay).2) (n : Nat) (samples : Array Float32)
    {ch : Channel} (h : P ch) : P (playMany table rate decay n samples ch).2 := by
  induction n generalizing samples ch with
  | zero => exact h
  | succ n ih => exact ih _ (hplay ch h)

theorem clockSweep_kind (ch : Channel) (rate : Float32) :
    (ch.clockSweep rate).voice.kind = ch.voice.kind := by
  simp only [clockSweep]
  split
  · rename_i hv
    split <;> simp [hv, Voice.kind, refreshPitch]
  · rfl

theorem prepare_voice (ch : Channel) (rate : Float32) : (ch.prepare rate).voice = ch.voice := by
  simp only [prepare, stopSlowNoise]
  split
  · split <;> rfl
  · rfl

/-- Playing keeps the kind of the voice. -/
theorem play_kind (ch : Channel) (table : WaveTable) (rate decay : Float32) :
    (ch.play table rate decay).2.voice.kind = ch.voice.kind := by
  apply play_induction (P := fun c => c.voice.kind = ch.voice.kind) table rate decay
  · exact fun _ h => h
  · exact fun _ _ _ h => h
  · exact fun c _ h => (c.clockSweep_kind rate).trans h
  · exact fun c _ h => (Voice.average_kind _ _ _ _ _).trans h
  · exact fun _ _ h => h
  · rfl

theorem render_kind (ch : Channel) (table : WaveTable) (rate decay : Float32) (frames : Nat) :
    (ch.render table rate decay frames).2.voice.kind = ch.voice.kind := by
  apply playMany_induction (P := fun c => c.voice.kind = ch.voice.kind)
  · exact fun c h => (c.play_kind table rate decay).trans h
  · rw [prepare_voice]

theorem trigger_kind (ch : Channel) (rate : Float32) :
    (ch.trigger rate).voice.kind = ch.voice.kind := by
  obtain ⟨_, _, _, _, _, _, _, _, _, _, _, _, _, _, _, voice⟩ := ch
  cases voice with
  | square duty step sweep => cases sweep <;> rfl
  | wave position => rfl
  | noise lfsr short divisor => rfl

/-- Writing a register keeps the kind of the voice. -/
theorem write_kind (ch : Channel) (register : Fin 5) (value : UInt8) (rate : Float32) :
    (ch.write register value rate).voice.kind = ch.voice.kind := by
  match register with
  | 0 => simp only [write, writeFirst]; split <;> rfl
  | 1 =>
    simp only [write, writeLength]
    split
    · rename_i duty step sweep hv
      cases sweep <;> simp [hv, Voice.kind]
    · rfl
    · rfl
  | 2 =>
    simp only [write, writeVolume, writeEnvelope]
    split
    · rfl
    · split
      · rfl
      · split <;> rfl
  | 3 =>
    simp only [write, writeLow]
    split
    · rename_i hv
      simp [hv, Voice.kind]
    · rfl
  | 4 =>
    have hhigh : (ch.writeHigh value).voice = ch.voice := by
      simp only [writeHigh]
      split <;> rfl
    simp only [write, writeControl]
    split
    · rw [trigger_kind, hhigh]
    · rw [hhigh]

/-- What writing a register of the unit does to the channel with an index. -/
def receive (index : Fin 4) (value : UInt8) (rate : Float32) (ch : Channel) : Register → Channel
  | .channel i number => if i = index then ch.write number value rate else ch
  | .routing =>
    { ch with
      left := SoundUnit.routes value (4 + index)
      right := SoundUnit.routes value index }
  | .power => if value &&& 0x80 != 0 then ch else { ch with enabled := false }
  | .volume | .wave _ | .unused => ch

/-- What may happen to a channel in one action on its unit. -/
inductive Step (index : Fin 4) (rate : Float32) (ch : Channel) : Channel → Prop where
  | same : Step index rate ch ch
  | write (register : Fin 5) (value : UInt8) : Step index rate ch (ch.write register value rate)
  | route (left right : Bool) : Step index rate ch { ch with left, right }
  | off : Step index rate ch { ch with enabled := false }
  | render (table : WaveTable) (decay : Float32) (frames : Nat) :
    Step index rate ch (ch.render table rate decay frames).2
  | restart : Step index rate ch (initial index)

theorem step_receive (index : Fin 4) (value : UInt8) (rate : Float32) (ch : Channel)
    (register : Register) : Step index rate ch (ch.receive index value rate register) := by
  cases register with
  | channel i number =>
    simp only [receive]
    split
    · exact .write number value
    · exact .same
  | routing => exact .route _ _
  | power =>
    simp only [receive]
    split
    · exact .same
    · exact .off
  | volume | wave | unused => exact .same

/-- Every channel has the kind of voice that its index says. -/
theorem Step.kind_eq {index : Fin 4} {rate : Float32} {ch next : Channel}
    (h : Step index rate ch next) (hkind : ch.voice.kind = (Voice.initial index).kind) :
    next.voice.kind = (Voice.initial index).kind := by
  cases h with
  | same | route | off => exact hkind
  | write register value => rw [write_kind, hkind]
  | render table decay frames => rw [render_kind, hkind]
  | restart => rfl

end Channel
end Sound

/-! ### Actions -/

namespace SoundUnit

inductive Action where
  | write (address : UInt16) (value : UInt8)
  | render (frames : Nat)
  | reset
  | setMuted (index : Fin 4) (muted : Bool)
  | toggleMute (index : Fin 4)
  | setMasterVolume (volume : Float32)

/-- The unit after an action. -/
def after (unit : SoundUnit) : Action → SoundUnit
  | .write address value => unit.write address value
  | .render frames => (unit.render frames).2
  | .reset => unit.reset
  | .setMuted index muted => unit.setMuted index muted
  | .toggleMute index => unit.toggleMute index
  | .setMasterVolume volume => unit.setMasterVolume volume

/-- What is heard of an action: only a render makes a block. -/
def block (unit : SoundUnit) : Action → Array Frame
  | .render frames => (unit.render frames).1
  | _ => #[]

def afterAll (unit : SoundUnit) (actions : List Action) : SoundUnit := actions.foldl after unit

/-- Everything heard of a run. -/
def heard : SoundUnit → List Action → Array Frame
  | _, [] => #[]
  | unit, action :: rest => unit.block action ++ (unit.after action).heard rest

/-- Some run leads from power-on to the unit. -/
def Reached (sampleRate : UInt32) (unit : SoundUnit) : Prop :=
  ∃ actions, (new sampleRate).afterAll actions = unit

@[simp] theorem afterAll_nil (unit : SoundUnit) : unit.afterAll [] = unit := rfl

@[simp] theorem afterAll_cons (unit : SoundUnit) (action : Action) (rest : List Action) :
    unit.afterAll (action :: rest) = (unit.after action).afterAll rest := rfl

@[simp] theorem heard_nil (unit : SoundUnit) : unit.heard [] = #[] := rfl

@[simp] theorem heard_cons (unit : SoundUnit) (action : Action) (rest : List Action) :
    unit.heard (action :: rest) = unit.block action ++ (unit.after action).heard rest := rfl

@[simp] theorem afterAll_append (unit : SoundUnit) (xs ys : List Action) :
    unit.afterAll (xs ++ ys) = (unit.afterAll xs).afterAll ys := List.foldl_append

theorem heard_append (unit : SoundUnit) (xs ys : List Action) :
    unit.heard (xs ++ ys) = unit.heard xs ++ (unit.afterAll xs).heard ys := by
  induction xs generalizing unit with
  | nil => simp
  | cons action rest ih => simp [ih, Array.append_assoc]

/-- A fact that every action keeps is kept by every run. -/
theorem afterAll_induction {P : SoundUnit → Prop}
    (step : ∀ unit action, P unit → P (unit.after action)) {unit : SoundUnit} (h : P unit)
    (actions : List Action) : P (unit.afterAll actions) := by
  induction actions generalizing unit with
  | nil => exact h
  | cons action rest ih => exact ih (step unit action h)

theorem Reached.induction {P : SoundUnit → Prop} {sampleRate : UInt32} {unit : SoundUnit}
    (h : Reached sampleRate unit) (start : P (new sampleRate))
    (step : ∀ unit action, P unit → P (unit.after action)) : P unit := by
  obtain ⟨actions, rfl⟩ := h
  exact afterAll_induction step start actions

theorem Reached.after {sampleRate : UInt32} {unit : SoundUnit} (h : Reached sampleRate unit)
    (action : Action) : Reached sampleRate (unit.after action) := by
  obtain ⟨actions, rfl⟩ := h
  exact ⟨actions ++ [action], by simp⟩

@[simp] theorem new_channels (sampleRate : UInt32) (i : Fin 4) :
    (new sampleRate).channels.get i = Channel.initial i := by
  simp [new]

@[simp] theorem render_snd (unit : SoundUnit) (frames : Nat) :
    (unit.render frames).2 = unit.play frames := rfl

@[simp] theorem play_channels (unit : SoundUnit) (frames : Nat) (i : Fin 4) :
    (unit.play frames).channels.get i =
      ((unit.channels.get i).render unit.wave unit.rate (decayAt unit.sampleRate) frames).2 := by
  simp [play]

@[simp] theorem play_scopes (unit : SoundUnit) (frames : Nat) (i : Fin 4) :
    (unit.play frames).scopes.get i =
      ((unit.channels.get i).render unit.wave unit.rate (decayAt unit.sampleRate) frames).1 := by
  simp [play]

theorem writeRegister_channels (unit : SoundUnit) (value : UInt8) (register : Register)
    (i : Fin 4) :
    (unit.writeRegister value register).channels.get i =
      (unit.channels.get i).receive i value unit.rate register := by
  rw [Vector.get_eq_getElem, Vector.get_eq_getElem]
  cases register with
  | channel index number =>
    by_cases hi : index = i
    · subst index
      simp [writeRegister, Channel.receive]
    · have hne : index.val ≠ i.val := fun h => hi (Fin.ext h)
      simp [writeRegister, Channel.receive, hi, hne]
  | routing => simp [writeRegister, Channel.receive]
  | power =>
    cases hpowered : value &&& 0x80 != 0 <;> simp [writeRegister, Channel.receive, hpowered]
  | volume | wave | unused => rfl

/-- Every action moves every channel by one step. -/
theorem step_after (unit : SoundUnit) (action : Action) (i : Fin 4) :
    Channel.Step i unit.rate (unit.channels.get i) ((unit.after action).channels.get i) := by
  cases action with
  | write address value =>
    simpa [after, write, writeRegister_channels] using Channel.step_receive _ _ _ _ _
  | render frames =>
    simpa [after] using Channel.Step.render unit.wave (decayAt unit.sampleRate) frames
  | reset => simpa [after, reset] using Channel.Step.restart
  | setMuted index muted => exact .same
  | toggleMute index => exact .same
  | setMasterVolume volume => exact .same

/-- Every channel has the voice that belongs to it. -/
def Voiced (unit : SoundUnit) : Prop :=
  ∀ i : Fin 4, (unit.channels.get i).voice.kind = (Voice.initial i).kind

theorem Voiced.after {unit : SoundUnit} (h : unit.Voiced) (action : Action) :
    (unit.after action).Voiced :=
  fun i => (unit.step_after action i).kind_eq (h i)

theorem Reached.voiced {sampleRate : UInt32} {unit : SoundUnit} (h : Reached sampleRate unit) :
    unit.Voiced := by
  apply h.induction
  · intro i
    simp [Channel.initial]
  · exact fun unit action h => h.after action

end SoundUnit
end Chiptune
