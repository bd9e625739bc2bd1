import Chiptune.Proofs.CheckedParts

/-!
# A sound unit that checks every step

The operations of the channels and of the unit, put together from their checked
parts. A checked operation has no result when any of its parts has none. What
fits keeps fitting, so from power-on a checked run never stops, and it is the
plain run.
-/
namespace Chiptune
open Sound

/-! ### Channels -/

namespace Sound.Channel

def refreshPitch? (lib : Library) (ch : Channel) (sampleRate : Float32) : Option Channel := do
  let toneHz ← ch.voice.toneHz? ch.frequency
  let note ← lib.noteOf? toneHz
  some { ch with phaseInc := ch.voice.cellHz toneHz / sampleRate, note }

/-- Reloading the length is the only step of a trigger that is not always defined. -/
def trigger? (ch : Channel) (sampleRate : Float32) : Option Channel := do
  let length ← ch.length.reload? ch.voice.longest sampleRate
  some { (ch.trigger sampleRate) with length }

def writeControl? (ch : Channel) (value : UInt8) (sampleRate : Float32) : Option Channel :=
  let ch := ch.writeHigh value
  let ch := { ch with length := { ch.length with enabled := value &&& 0x40 != 0 } }
  if value &&& 0x80 != 0 then ch.trigger? sampleRate else some ch

def write? (ch : Channel) (register : Fin 5) (value : UInt8) (sampleRate : Float32) :
    Option Channel :=
  match register with
  | 4 => ch.writeControl? value sampleRate
  | _ => some (ch.write register value sampleRate)

def clockEnvelope? (ch : Channel) : Option Channel := do
  let clocked ← ch.envelope.clock? ch.volume
  some { ch with envelope := clocked.1, volume := clocked.2 }

def clockSweep? (lib : Library) (ch : Channel) (sampleRate : Float32) : Option Channel :=
  match ch.voice with
  | .square duty step (some sweep) => do
    let clocked ← sweep.clock?
    let ch := { ch with voice := .square duty step (some clocked.1) }
    match clocked.2 with
    | .idle => some ch
    | .moved frequency => refreshPitch? lib { ch with frequency } sampleRate
    | .overflow => some { ch with enabled := false }
  | _ => some ch

def playMean? (ch : Channel) (table : WaveTable) (decay : Float32)
    (scale : Float32 → Option (Option Float32)) : Option Played := do
  let mean ← ch.voice.average? table ch.volume ch.phaseInc ch.phase
  let ch := { ch with phase := mean.phase, voice := mean.cell }
  let sample ← scale mean.level
  match sample with
  | some sample => some (ch.filtered sample decay)
  | none => some ch.silent

def playScaled? (ch : Channel) (table : WaveTable) (decay : Float32) : Option Played :=
  ch.playMean? table decay fun level => some (some (level * (ch.volume.toFloat32 / 15.0)))

def waveOffsets : Vector Float32 3 := #v[7.5, 3.75, 1.5]

def waveCentre? (volume : UInt8) : Option Float32 := do
  let index ← checked (1 ≤ volume) (volume - 1)
  waveOffsets[index.toNat]?

def playWave? (ch : Channel) (table : WaveTable) (decay : Float32) : Option Played :=
  ch.playMean? table decay fun level =>
    if ch.volume > 0 then do
      let centre ← waveCentre? ch.volume
      some (some ((level - centre) / 7.5))
    else some none

def play? (lib : Library) (table : WaveTable) (sampleRate decay : Float32) (ch : Channel) :
    Option Played :=
  let ch := ch.countLength
  if ch.enabled then
    match ch.voice with
    | .square .. => do
      let ch ← ch.clockEnvelope?
      let ch ← ch.clockSweep? lib sampleRate
      if ch.enabled then ch.playScaled? table decay else some ch.silent
    | .wave _ => ch.playWave? table decay
    | .noise .. => do
      let ch ← ch.clockEnvelope?
      ch.playScaled? table decay
  else some ch.silent

def playMany? (lib : Library) (table : WaveTable) (sampleRate decay : Float32) :
    Nat → Array Float32 → Channel → Option (Array Float32 × Channel)
  | 0, samples, ch => some (samples, ch)
  | n + 1, samples, ch => do
    let played ← ch.play? lib table sampleRate decay
    playMany? lib table sampleRate decay n (samples.push played.1) played.2

def render? (lib : Library) (ch : Channel) (table : WaveTable) (sampleRate decay : Float32)
    (frames : Nat) : Option (Array Float32 × Channel) := do
  let ch ← ch.refreshPitch? lib sampleRate
  playMany? lib table sampleRate decay frames #[] ch.stopSlowNoise

variable {lib : Library} {kind : Voice.Kind} {ch : Channel}

theorem refreshPitch?_eq (hlib : lib.Documented) (h : ch.voice.Fits) (rate : Float32) :
    ch.refreshPitch? lib rate = some (ch.refreshPitch rate) := by
  have hnote := hlib.noteOf?_eq (Voice.below_toneHz ch.frequency h)
  simp [refreshPitch?, refreshPitch, Voice.toneHz?_eq h, hnote]

theorem one_le_longest (voice : Voice) : 1 ≤ voice.longest := by
  cases voice with
  | wave position => exact (by decide : (1 : UInt16) ≤ 256)
  | square | noise => exact (by decide : (1 : UInt16) ≤ 64)

theorem trigger?_eq (ch : Channel) (rate : Float32) :
    ch.trigger? rate = some (ch.trigger rate) := by
  have hlength : (ch.trigger rate).length = ch.length.reload ch.voice.longest rate := by
    simp only [trigger]
    split <;> rfl
  rw [trigger?, LengthCounter.reload?_eq _ _ (one_le_longest _), ← hlength]
  rfl

theorem write?_eq (ch : Channel) (register : Fin 5) (value : UInt8) (rate : Float32) :
    ch.write? register value rate = some (ch.write register value rate) := by
  match register with
  | 4 =>
    simp only [write?, write, writeControl?, writeControl, trigger?_eq]
    split <;> rfl
  | 0 | 1 | 2 | 3 => rfl

theorem clockEnvelope?_eq (ch : Channel) : ch.clockEnvelope? = some ch.clockEnvelope := by
  simp [clockEnvelope?, clockEnvelope, Envelope.clock?_eq]

theorem clockSweep?_eq (hlib : lib.Documented) (h : ch.voice.Fits) (rate : Float32) :
    ch.clockSweep? lib rate = some (ch.clockSweep rate) := by
  cases hv : ch.voice with
  | wave | noise => simp only [clockSweep?, clockSweep, hv]
  | square duty step sweep =>
    cases sweep with
    | none => simp only [clockSweep?, clockSweep, hv]
    | some sweep =>
      rw [hv] at h
      obtain ⟨hshadow, hshift⟩ := h.2.2 sweep rfl
      have hclock := Sweep.clock_fits hshadow
      have hfits : (Voice.square duty step (some sweep.clock.1)).Fits := by
        refine ⟨h.1, h.2.1, ?_⟩
        rintro s ⟨⟩
        exact ⟨hclock.1, hclock.2.1 ▸ hshift⟩
      simp only [clockSweep?, clockSweep, hv, Sweep.clock?_eq hshift, Option.bind_eq_bind,
        Option.bind_some]
      cases hevent : sweep.clock.2 with
      | idle | overflow => rfl
      | moved frequency => exact refreshPitch?_eq hlib hfits rate

theorem playMean?_eq (h : ch.Fits kind) (table : WaveTable) (decay : Float32)
    {scale : Float32 → Option Float32} {scale? : Float32 → Option (Option Float32)}
    (hscale : ∀ level, scale? level = some (scale level)) :
    ch.playMean? table decay scale? = some (ch.playMean table decay scale) := by
  have hmean := Voice.average?_eq table ch.phaseInc ch.phase h.voice (h.kind_eq ▸ h.volume)
  simp only [playMean?, playMean, hmean, hscale, Option.bind_eq_bind, Option.bind_some]
  cases scale (ch.voice.average table ch.volume ch.phaseInc ch.phase).level with
  | none | some => rfl

theorem playScaled?_eq (h : ch.Fits kind) (table : WaveTable) (decay : Float32) :
    ch.playScaled? table decay = some (ch.playScaled table decay) :=
  playMean?_eq h table decay fun _ => rfl

theorem waveCentre?_eq {volume : UInt8} (hpositive : 0 < volume) (hvolume : volume ≤ 3) :
    waveCentre? volume = some (waveCentre volume) := by
  have h : ∀ v : Fin 3, waveCentre? (UInt8.ofNat (v + 1)) =
      some (waveCentre (UInt8.ofNat (v + 1))) := by decide
  have hpositive : 0 < volume.toNat := UInt8.lt_iff_toNat_lt.mp hpositive
  have hvolume : volume.toNat ≤ 3 := UInt8.le_iff_toNat_le.mp hvolume
  have hv := h ⟨volume.toNat - 1, by omega⟩
  rwa [Nat.sub_add_cancel hpositive, UInt8.ofNat_toNat] at hv

theorem playWave?_eq (h : ch.Fits .wave) (table : WaveTable) (decay : Float32) :
    ch.playWave? table decay = some (ch.playWave table decay) := by
  apply playMean?_eq h
  intro level
  split
  · rename_i hpositive
    rw [waveCentre?_eq hpositive h.volume]
    rfl
  · rfl

theorem play?_eq (hlib : lib.Documented) (h : ch.Fits kind) (table : WaveTable)
    (rate decay : Float32) :
    ch.play? lib table rate decay = some (ch.play table rate decay) := by
  have hcount := h.countLength
  by_cases hon : ch.countLength.enabled
  · simp only [play?, play, hon, if_true]
    cases hv : ch.countLength.voice with
    | square duty step sweep =>
      have hne : kind ≠ .wave := hcount.kind_eq ▸ Voice.kind_ne_wave (by simp [hv])
      have hclock := hcount.clockEnvelope hne
      simp only [clockEnvelope?_eq, clockSweep?_eq hlib hclock.voice, Option.bind_eq_bind,
        Option.bind_some]
      split
      · exact playScaled?_eq (hclock.clockSweep rate) table decay
      · rfl
    | wave position =>
      have hkind : kind = .wave := by
        rw [← hcount.kind_eq, hv]
        rfl
      subst hkind
      exact playWave?_eq hcount table decay
    | noise lfsr short divisor =>
      have hne : kind ≠ .wave := hcount.kind_eq ▸ Voice.kind_ne_wave (by simp [hv])
      simp only [clockEnvelope?_eq, Option.bind_eq_bind, Option.bind_some]
      exact playScaled?_eq (hcount.clockEnvelope hne) table decay
  · simp only [play?, play, hon]
    rfl

theorem playMany?_eq (hlib : lib.Documented) (table : WaveTable) (rate decay : Float32) (n : Nat)
    (samples : Array Float32) {ch : Channel} (h : ch.Fits kind) :
    playMany? lib table rate decay n samples ch =
      some (playMany table rate decay n samples ch) := by
  induction n generalizing samples ch with
  | zero => rfl
  | succ n ih =>
    simp only [playMany?, playMany, play?_eq hlib h, Option.bind_eq_bind, Option.bind_some]
    exact ih _ (h.play table rate decay)

theorem render?_eq (hlib : lib.Documented) (h : ch.Fits kind) (table : WaveTable)
    (rate decay : Float32) (frames : Nat) :
    ch.render? lib table rate decay frames = some (ch.render table rate decay frames) := by
  simp only [render?, refreshPitch?_eq hlib h.voice, Option.bind_eq_bind, Option.bind_some]
  exact playMany?_eq hlib table rate decay frames #[] (h.prepare rate)

end Sound.Channel

/-! ### The unit -/

/-- All the results of a vector, if each of them is there. -/
def allSome {α : Type} {n : Nat} (results : Vector (Option α) n) : Option (Vector α n) :=
  if h : ∀ i : Fin n, results[i].isSome then some (Vector.ofFn fun i => results[i].get (h i))
  else none

theorem allSome_of {α : Type} {n : Nat} {results : Vector (Option α) n} {values : Vector α n}
    (h : ∀ i : Fin n, results[i] = some values[i]) : allSome results = some values := by
  have hsome : ∀ i : Fin n, results[i].isSome := fun i => by rw [h i]; rfl
  rw [allSome, dif_pos hsome]
  congr 1
  apply Vector.ext
  intro i hi
  have hi := h ⟨i, hi⟩
  simp_all

namespace SoundUnit

def writeRegister? (unit : SoundUnit) (value : UInt8) : Register → Option SoundUnit
  | .channel ⟨i, hi⟩ register => do
    let ch ← unit.channels[i].write? register value unit.rate
    some { unit.writeRegister value (.channel ⟨i, hi⟩ register) with
      channels := unit.channels.set i ch }
  | register => some (unit.writeRegister value register)

def play? (lib : Library) (unit : SoundUnit) (frames : Nat) : Option SoundUnit := do
  let decay := decayAt unit.sampleRate
  let played ← allSome (unit.channels.map (·.render? lib unit.wave unit.rate decay frames))
  some { unit with channels := played.map (·.2), scopes := played.map (·.1) }

/-- A block has two samples for each frame, and their number fits in a word. -/
def render? (lib : Library) (unit : SoundUnit) (frames : Nat) :
    Option (Array Frame × SoundUnit) := do
  let _ ← checked (2 * frames < 2 ^ 64) (2 * frames)
  let unit ← unit.play? lib frames
  some (unit.mix frames, unit)

def shownVolume? (unit : SoundUnit) (ch : Channel) (routed : Bool) : Option UInt8 := do
  let flag : UInt8 := if routed then 1 else 0
  let volume ← checked (ch.volume.toNat * flag.toNat < 256) (ch.volume * flag)
  match ch.voice with
  | .wave _ =>
    if volume == 0 then some 0
    else do
      let rest ← checked (volume ≤ 4) (4 - volume)
      some (5.0 * rest.toFloat32 * unit.wave.range).toUInt8
  | _ => some volume

def level? (unit : SoundUnit) (index : Fin 4) : Option (UInt8 × UInt8) := do
  let ch := unit.channels.get index
  let left ← unit.shownVolume? ch ch.left
  let right ← unit.shownVolume? ch ch.right
  some (left, right)

def after? (lib : Library) (unit : SoundUnit) : Action → Option SoundUnit
  | .write address value => unit.writeRegister? value (Register.ofAddress address)
  | .render frames => (·.2) <$> unit.render? lib frames
  | action => some (unit.after action)

def afterAll? (lib : Library) : SoundUnit → List Action → Option SoundUnit
  | unit, [] => some unit
  | unit, action :: rest => do
    let next ← unit.after? lib action
    next.afterAll? lib rest

variable {lib : Library} {unit : SoundUnit}

theorem writeRegister?_eq (unit : SoundUnit) (value : UInt8) (register : Register) :
    unit.writeRegister? value register = some (unit.writeRegister value register) := by
  cases register with
  | channel index number =>
    obtain ⟨i, hi⟩ := index
    simp only [writeRegister?, Channel.write?_eq, Option.bind_eq_bind, Option.bind_some]
    rfl
  | volume | routing | power | wave | unused => rfl

theorem play?_eq (hlib : lib.Documented) (h : unit.Fits) (frames : Nat) :
    unit.play? lib frames = some (unit.play frames) := by
  have hplayed : allSome (unit.channels.map
        (·.render? lib unit.wave unit.rate (decayAt unit.sampleRate) frames)) =
      some (unit.channels.map
        (·.render unit.wave unit.rate (decayAt unit.sampleRate) frames)) := by
    apply allSome_of
    intro i
    have hrender := Channel.render?_eq hlib (h i) unit.wave unit.rate (decayAt unit.sampleRate)
      frames
    simpa [Vector.get_eq_getElem] using hrender
  simp only [play?, hplayed, Option.bind_eq_bind, Option.bind_some]
  rfl

theorem render?_eq (hlib : lib.Documented) (h : unit.Fits) {frames : Nat}
    (hframes : 2 * frames < 2 ^ 64) :
    unit.render? lib frames = some (unit.render frames) := by
  simp only [render?, checked_of hframes, play?_eq hlib h, Option.bind_eq_bind, Option.bind_some]
  rfl

theorem shownVolume?_eq {kind : Voice.Kind} {ch : Channel} (h : ch.Fits kind) (routed : Bool) :
    unit.shownVolume? ch routed = some (unit.shownVolume ch routed) := by
  have hbyte := ch.volume.toNat_lt
  have hflag : ch.volume.toNat * (if routed then 1 else 0 : UInt8).toNat < 256 := by
    cases routed with
    | false => exact (by decide : 0 < 256)
    | true => simpa using hbyte
  have hproduct : ch.volume * (if routed then 1 else 0) = if routed then ch.volume else 0 := by
    cases routed <;> simp
  simp only [shownVolume?, shownVolume, checked_of hflag, hproduct, Option.bind_eq_bind,
    Option.bind_some]
  cases hv : ch.voice with
  | square | noise => rfl
  | wave position =>
    have hkind : kind = .wave := by
      rw [← h.kind_eq, hv]
      rfl
    subst hkind
    have hcode : (if routed then ch.volume else 0) ≤ 4 := by
      cases routed with
      | false => exact UInt8.zero_le
      | true => exact UInt8.le_trans h.volume (by decide : (3 : UInt8) ≤ 4)
    simp only [checked_of hcode, Option.bind_some]
    exact (apply_ite some _ _ _).symm

theorem level?_eq (h : unit.Fits) (index : Fin 4) :
    unit.level? index = some (unit.level index) := by
  simp only [level?, shownVolume?_eq (h index), Option.bind_eq_bind, Option.bind_some]
  rfl

/-- An action that a caller can ask for: a block of samples has to fit in memory. -/
def Action.Representable : Action → Prop
  | .render frames => 2 * frames < 2 ^ 64
  | _ => True

theorem after?_eq (hlib : lib.Documented) (h : unit.Fits) {action : Action}
    (haction : action.Representable) : unit.after? lib action = some (unit.after action) := by
  cases action with
  | write address value => exact writeRegister?_eq unit value _
  | render frames =>
    simp only [after?, render?_eq hlib h haction]
    rfl
  | reset | setMuted | toggleMute | setMasterVolume => rfl

/-- A checked run from what fits never stops. -/
theorem afterAll?_eq (hlib : lib.Documented) (h : unit.Fits) {actions : List Action}
    (hactions : ∀ action ∈ actions, action.Representable) :
    unit.afterAll? lib actions = some (unit.afterAll actions) := by
  induction actions generalizing unit with
  | nil => rfl
  | cons action rest ih =>
    have haction := hactions action List.mem_cons_self
    have hrest : ∀ action ∈ rest, action.Representable :=
      fun action hmem => hactions action (List.mem_cons_of_mem _ hmem)
    simp only [afterAll?, after?_eq hlib h haction, Option.bind_eq_bind, Option.bind_some]
    exact ih (h.after action) hrest

/-- From power-on on, whatever is written, played or set, every field keeps to what it can hold, and
no step of any operation is undefined: neither of those that the run took, nor of those that the
state at its end allows. -/
theorem fits_and_checked_of_run (hlib : lib.Documented) (sampleRate : UInt32)
    {actions : List Action} (hactions : ∀ action ∈ actions, action.Representable) :
    let unit := (new sampleRate).afterAll actions
    unit.Fits ∧
      (new sampleRate).afterAll? lib actions = some unit ∧
      (∀ i : Fin 4,
        let ch := unit.channels.get i
        ch.voice.level? unit.wave ch.volume = some (ch.voice.level unit.wave ch.volume) ∧
          ch.voice.average? unit.wave ch.volume ch.phaseInc ch.phase =
            some (ch.voice.average unit.wave ch.volume ch.phaseInc ch.phase) ∧
          ch.refreshPitch? lib unit.rate = some (ch.refreshPitch unit.rate) ∧
          ch.length.reload? ch.voice.longest unit.rate =
            some (ch.length.reload ch.voice.longest unit.rate) ∧
          unit.level? i = some (unit.level i)) ∧
      ∀ frames, 2 * frames < 2 ^ 64 → unit.render? lib frames = some (unit.render frames) := by
  have hfits : ((new sampleRate).afterAll actions).Fits := Reached.fits ⟨actions, rfl⟩
  refine ⟨hfits, afterAll?_eq hlib (fits_new sampleRate) hactions, fun i => ?_, fun frames h =>
    render?_eq hlib hfits h⟩
  have hch := hfits i
  have hvolume := hch.volume
  rw [← hch.kind_eq] at hvolume
  exact ⟨Voice.level?_eq _ hch.voice hvolume, Voice.average?_eq _ _ _ hch.voice hvolume,
    Channel.refreshPitch?_eq hlib hch.voice _,
    LengthCounter.reload?_eq _ _ (Channel.one_le_longest _), level?_eq hfits i⟩

/-- A library with its results for the pitches of a unit whose frequencies were not written. -/
def restingLibrary : Library where
  ln x :=
    if x = semitone then .ofBits 0x3D6C982C
    else if x = 64.0 / 440.0 then .ofBits 0xBFF6C528
    else if x = 32.0 / 440.0 then .ofBits 0xC027BF1A
    else if x = 524288.0 / 440.0 then .ofBits 0x40E2A81D
    else 0.0
  round x :=
    if x = .ofBits 0xBFF6C528 / .ofBits 0x3D6C982C then -33.0
    else if x = .ofBits 0xC027BF1A / .ofBits 0x3D6C982C then -45.0
    else if x = .ofBits 0x40E2A81D / .ofBits 0x3D6C982C then 123.0
    else 0.0

theorem documented_restingLibrary : restingLibrary.Documented where
  ln_below x _ := by
    simp only [restingLibrary]
    repeat' split
    all_goals decide
  ln_semitone := by decide
  round_below k x h := by
    have hzero : ∀ y : Float32, Below 0 y → Below (k + 1) y :=
      fun y hy => hy.mono (by omega)
    simp only [restingLibrary]
    split
    · exact hzero _ (by decide)
    · split
      · exact hzero _ (by decide)
      · split
        · rename_i hx
          subst hx
          have hlarge : ¬ Below 6 (.ofBits 0x40E2A81D / .ofBits 0x3D6C982C) := by decide
          have hk : 7 ≤ (k : Int) := by
            by_contra hk
            exact hlarge (h.mono (by omega))
          have hnote : Below 7 123.0 := by decide
          exact hnote.mono (by omega)
        · exact hzero _ (by decide)

/-- A wave that is powered and triggered, with every frequency left at zero. -/
def restingWave : List Action :=
  [.write 0xFF26 0x80, .write 0xFF1A 0x80, .write 0xFF1C 0x20, .write 0xFF1E 0x80, .render 4]

theorem fits_and_checked_of_restingWave :
    restingLibrary.Documented ∧ (∀ action ∈ restingWave, action.Representable) ∧
      ((new 48000).afterAll restingWave).Fits ∧
      (new 48000).afterAll? restingLibrary restingWave =
        some ((new 48000).afterAll restingWave) ∧
      ((new 48000).afterAll restingWave).level? Sound.wave =
        some (((new 48000).afterAll restingWave).level Sound.wave) ∧
      ((new 48000).afterAll restingWave).render? restingLibrary 1 =
        some (((new 48000).afterAll restingWave).render 1) := by
  have hactions : ∀ action ∈ restingWave, action.Representable := by
    simp [restingWave, Action.Representable]
  have h := fits_and_checked_of_run documented_restingLibrary 48000 hactions
  exact ⟨documented_restingLibrary, hactions, h.1, h.2.1, (h.2.2.1 Sound.wave).2.2.2.2,
    h.2.2.2 1 (by decide)⟩

end SoundUnit
end Chiptune
