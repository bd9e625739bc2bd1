import Chiptune.Proofs.SoundRun

/-!
# What the fields of the sound unit hold

The fields of a channel are wider than what they hold: a volume of a byte stays
within its four bits, a frequency of a word within eleven, a position within its
table. None of these bounds stands alone. The sweep writes the frequency from
its own shadow, a trigger takes the volume from the one last written, and
writing the envelope jumps with arithmetic that wraps. `Channel.Fits` is the
joint invariant that every operation keeps.
-/
namespace Chiptune
open Sound

namespace Sound

/-- The bounds of what a voice holds. -/
def Voice.Fits : Voice → Prop
  | .square duty step sweep =>
    duty ≤ 3 ∧ step ≤ 7 ∧ ∀ s ∈ sweep, s.shadow ≤ 2047 ∧ s.shift ≤ 7
  | .wave position => position ≤ 31
  | .noise lfsr _ divisor => lfsr ≤ 0x7FFF ∧ divisor ≤ 7

namespace Voice.Kind

/-- The highest volume: four bits, or the two bits of the wave's volume code. -/
def loudest : Kind → UInt8
  | .wave => 3
  | _ => 15

/-- The highest frequency: eleven bits, or the four bits of the noise's clock shift. -/
def highest : Kind → UInt16
  | .noise => 15
  | _ => 2047

/-- The longest time of the length counter, in its ticks. -/
def longest : Kind → UInt16
  | .wave => 256
  | _ => 64

end Voice.Kind

theorem Voice.Kind.loudest_of_ne {kind : Kind} (h : kind ≠ .wave) : kind.loudest = 15 := by
  cases kind with
  | wave => contradiction
  | sweptSquare | square | noise => rfl

theorem Voice.Kind.highest_of_ne {kind : Kind} (h : kind ≠ .noise) : kind.highest = 2047 := by
  cases kind with
  | noise => contradiction
  | sweptSquare | square | wave => rfl

theorem Voice.kind_ne_wave {voice : Voice} (h : ∀ position, voice ≠ .wave position) :
    voice.kind ≠ .wave := by
  cases voice with
  | square _ _ sweep => cases sweep <;> exact nofun
  | wave position => exact absurd rfl (h position)
  | noise => exact nofun

theorem Voice.kind_ne_noise {voice : Voice}
    (h : ∀ lfsr short divisor, voice ≠ .noise lfsr short divisor) : voice.kind ≠ .noise := by
  cases voice with
  | square _ _ sweep => cases sweep <;> exact nofun
  | wave => exact nofun
  | noise lfsr short divisor => exact absurd rfl (h lfsr short divisor)

/-- The kind of a voice knows how long its length counter may run. -/
theorem Voice.longest_eq (voice : Voice) : voice.longest = voice.kind.longest := by
  cases voice with
  | square _ _ sweep => cases sweep <;> rfl
  | wave | noise => rfl

namespace Channel

/-- What holds of a channel with a kind of voice after every run. -/
structure Fits (kind : Voice.Kind) (ch : Channel) : Prop where
  kind_eq : ch.voice.kind = kind
  voice : ch.voice.Fits
  volume : ch.volume ≤ kind.loudest
  initialVolume : ch.initialVolume ≤ kind.loudest
  /-- The wave has no envelope that moves its volume away from the one written. -/
  waveVolume : kind = .wave → ch.volume = ch.initialVolume
  frequency : ch.frequency ≤ kind.highest
  load : ch.length.load < kind.longest
  powered : ch.enabled → ch.powered

end Channel

/-! ### Bits of a register -/

theorem and_le_of_mask (value mask : UInt8) : value &&& mask ≤ mask := by
  rw [UInt8.le_iff_toNat_le, UInt8.toNat_and]
  exact Nat.and_le_right

theorem toUInt16_and_lt (value : UInt8) : (value &&& 0x3F).toUInt16 < 64 := by
  have h := UInt8.le_iff_toNat_le.mp (and_le_of_mask value 0x3F)
  rw [UInt16.lt_iff_toNat_lt, UInt8.toNat_toUInt16]
  exact Nat.lt_succ_of_le h

theorem toUInt16_lt (value : UInt8) : value.toUInt16 < 256 := by
  rw [UInt16.lt_iff_toNat_lt, UInt8.toNat_toUInt16]
  exact value.toNat_lt

theorem high_nibble_le (value : UInt8) : value >>> 4 ≤ 15 := by
  have h := value.toNat_lt
  rw [UInt8.le_iff_toNat_le, UInt8.toNat_shiftRight]
  simp [Nat.shiftRight_eq_div_pow]
  omega

theorem duty_le (value : UInt8) : value >>> 6 ≤ 3 := by
  have h := value.toNat_lt
  rw [UInt8.le_iff_toNat_le, UInt8.toNat_shiftRight]
  simp [Nat.shiftRight_eq_div_pow]
  omega

theorem nextStep_le (step : UInt8) : nextStep step ≤ 7 := by
  rw [nextStep, UInt8.le_iff_toNat_le, UInt8.toNat_mod]
  exact Nat.le_of_lt_succ (Nat.mod_lt _ (by decide))

theorem nextPosition_le (position : UInt8) : nextPosition position ≤ 31 := by
  rw [nextPosition, UInt8.le_iff_toNat_le, UInt8.toNat_mod]
  exact Nat.le_of_lt_succ (Nat.mod_lt _ (by decide))

theorem nextNoise_le (short : Bool) (lfsr : UInt16) : nextNoise short lfsr ≤ 0x7FFF := by
  simp only [nextNoise]
  rw [UInt16.le_iff_toNat_le, UInt16.toNat_and]
  exact Nat.and_le_right

theorem low_frequency_le (frequency : UInt16) (value : UInt8) :
    (frequency &&& 0x0700) ||| value.toUInt16 ≤ 2047 := by
  have hhigh : (frequency.toNat &&& 0x0700) < 2 ^ 11 :=
    Nat.lt_of_le_of_lt Nat.and_le_right (by decide)
  have hlow : value.toNat < 2 ^ 11 := Nat.lt_trans value.toNat_lt (by decide)
  rw [UInt16.le_iff_toNat_le, UInt16.toNat_or, UInt16.toNat_and, UInt8.toNat_toUInt16]
  exact Nat.le_of_lt_succ (Nat.or_lt_two_pow hhigh hlow)

theorem high_frequency_le (frequency : UInt16) (value : UInt8) :
    (frequency &&& 0x00FF) ||| (value &&& 0x07).toUInt16 * 256 ≤ 2047 := by
  have hlow : (frequency.toNat &&& 0x00FF) < 2 ^ 11 :=
    Nat.lt_of_le_of_lt Nat.and_le_right (by decide)
  have hbits : (value &&& 0x07).toNat ≤ 7 := UInt8.le_iff_toNat_le.mp (and_le_of_mask value 0x07)
  have hhigh : (value &&& 0x07).toNat * 256 % 2 ^ 16 < 2 ^ 11 := by omega
  rw [UInt16.le_iff_toNat_le, UInt16.toNat_or, UInt16.toNat_and, UInt16.toNat_mul,
    UInt8.toNat_toUInt16]
  exact Nat.le_of_lt_succ (Nat.or_lt_two_pow hlow hhigh)

theorem clock_shift_le (value : UInt8) : (value >>> 4).toUInt16 ≤ 15 := by
  have h := UInt8.le_iff_toNat_le.mp (high_nibble_le value)
  rw [UInt16.le_iff_toNat_le, UInt8.toNat_toUInt16]
  exact h

theorem jumped_le (volume old new : UInt8) : Envelope.jumped volume old new ≤ 15 :=
  and_le_of_mask _ _

/-! ### Envelope and sweep -/

theorem Envelope.moved_le (e : Envelope) {volume : UInt8} (h : volume ≤ 15) :
    e.moved volume ≤ 15 := by
  rw [UInt8.le_iff_toNat_le] at h
  simp only [Envelope.moved]
  split
  · exact h
  · split
    · split
      · rename_i hlow
        rw [UInt8.lt_iff_toNat_lt] at hlow
        have hlow : volume.toNat < 15 := hlow
        rw [UInt8.le_iff_toNat_le, UInt8.toNat_add]
        simp
        omega
      · exact h
    · split
      · rename_i hhigh
        rw [UInt8.le_iff_toNat_le, UInt8.toNat_sub_of_le _ _ hhigh]
        have h : volume.toNat ≤ 15 := h
        exact Nat.le_trans (Nat.sub_le _ _) h
      · exact h

theorem Envelope.clock_le (e : Envelope) {volume : UInt8} (h : volume ≤ 15) :
    (e.clock volume).2 ≤ 15 :=
  Envelope.clock_induction (P := fun _ volume => volume ≤ 15) (fun e _ h => e.moved_le h) h

def SweepEvent.Fits : SweepEvent → Prop
  | .moved frequency => frequency ≤ 2047
  | .idle | .overflow => True

theorem Sweep.runDue_fits (limit : Nat) {s : Sweep} {event : SweepEvent}
    (hshadow : s.shadow ≤ 2047) (hevent : event.Fits) :
    (s.runDue limit event).1.shadow ≤ 2047 ∧ (s.runDue limit event).1.shift = s.shift ∧
      (s.runDue limit event).2.Fits := by
  induction limit generalizing s event with
  | zero => exact ⟨hshadow, rfl, hevent⟩
  | succ limit ih =>
    simp only [Sweep.runDue]
    split
    · split
      · split
        · exact ⟨hshadow, rfl, trivial⟩
        · rename_i hnext
          have hnext : s.next ≤ 2047 := UInt16.not_lt.mp hnext
          exact ih hnext hnext
      · split
        · exact ⟨hshadow, rfl, trivial⟩
        · exact ih hshadow hevent
    · exact ⟨hshadow, rfl, hevent⟩

theorem Sweep.clock_fits {s : Sweep} (hshadow : s.shadow ≤ 2047) :
    s.clock.1.shadow ≤ 2047 ∧ s.clock.1.shift = s.shift ∧ s.clock.2.Fits := by
  simp only [Sweep.clock]
  split
  · exact Sweep.runDue_fits _ hshadow trivial
  · exact ⟨hshadow, rfl, trivial⟩

theorem Voice.average_fits (table : WaveTable) (volume : UInt8) (inc phase : Float32)
    {voice : Voice} (h : voice.Fits) : (voice.average table volume inc phase).cell.Fits := by
  apply Voice.average_induction table volume inc phase
  · exact fun duty step sweep h => ⟨h.1, nextStep_le step, h.2.2⟩
  · exact fun position _ => nextPosition_le position
  · exact fun lfsr short divisor h => ⟨nextNoise_le short lfsr, h.2⟩
  · exact h

/-! ### Channels -/

namespace Channel

theorem fits_initial (index : Fin 4) : (initial index).Fits (Voice.initial index).kind := by
  have hoff : (initial index).enabled ≠ true := Bool.false_ne_true
  have hindex : index = 0 ∨ index = 1 ∨ index = 2 ∨ index = 3 := by omega
  obtain rfl | rfl | rfl | rfl := hindex
  all_goals
    refine ⟨rfl, ?_, by decide, by decide, fun _ => rfl, by decide, by decide,
      fun hon => absurd hon hoff⟩
    simp [initial, Voice.initial, Voice.Fits]

variable {kind : Voice.Kind} {ch : Channel}

theorem Fits.off (h : ch.Fits kind) : { ch with enabled := false }.Fits kind :=
  { h with powered := nofun }

theorem Fits.writeFirst (h : ch.Fits kind) (value : UInt8) : (ch.writeFirst value).Fits kind := by
  simp only [Channel.writeFirst]
  split
  · exact { h with }
  · exact { h with powered := fun hon => (Bool.and_eq_true_iff.mp hon).1 }
  · exact h

theorem Fits.writeLength (h : ch.Fits kind) (value : UInt8) :
    (ch.writeLength value).Fits kind := by
  have hkind := h.kind_eq
  have hvoice := h.voice
  simp only [Channel.writeLength]
  split
  · rename_i duty step sweep hv
    rw [hv] at hkind hvoice
    subst hkind
    refine { h with kind_eq := ?_, voice := ⟨duty_le value, hvoice.2⟩, load := ?_ }
    · cases sweep <;> rfl
    · cases sweep <;> exact toUInt16_and_lt value
  · rename_i position hv
    rw [hv] at hkind
    subst hkind
    exact { h with load := toUInt16_lt value }
  · rename_i lfsr short divisor hv
    rw [hv] at hkind
    subst hkind
    exact { h with load := toUInt16_and_lt value }

theorem Fits.writeEnvelope (h : ch.Fits kind) (hwave : kind ≠ .wave) (value : UInt8)
    (rate : Float32) : (ch.writeEnvelope value rate).Fits kind := by
  have hloudest := Voice.Kind.loudest_of_ne hwave
  have hinitial : value >>> 4 ≤ kind.loudest := hloudest ▸ high_nibble_le value
  simp only [Channel.writeEnvelope]
  split
  · exact { h with
      initialVolume := hinitial
      waveVolume := fun hw => absurd hw hwave
      powered := fun hon => absurd hon Bool.false_ne_true }
  · rename_i hpowered
    have hpowered : (value &&& 0xF8 != 0) = true := by simpa using hpowered
    split
    · exact { h with
        volume := hloudest ▸ jumped_le ch.volume ch.envelopeRegister value
        initialVolume := hinitial
        waveVolume := fun hw => absurd hw hwave
        powered := fun _ => hpowered }
    · exact { h with
        initialVolume := hinitial
        waveVolume := fun hw => absurd hw hwave
        powered := fun _ => hpowered }

theorem Fits.writeVolume (h : ch.Fits kind) (value : UInt8) (rate : Float32) :
    (ch.writeVolume value rate).Fits kind := by
  have hkind := h.kind_eq
  simp only [Channel.writeVolume]
  split
  · rename_i position hv
    rw [hv] at hkind
    subst hkind
    exact { h with
      volume := and_le_of_mask _ 3
      initialVolume := and_le_of_mask _ 3
      waveVolume := fun _ => rfl }
  · rename_i hv
    exact h.writeEnvelope (hkind ▸ Voice.kind_ne_wave hv) value rate

theorem Fits.writeLow (h : ch.Fits kind) (value : UInt8) : (ch.writeLow value).Fits kind := by
  have hkind := h.kind_eq
  have hvoice := h.voice
  simp only [Channel.writeLow]
  split
  · rename_i lfsr short divisor hv
    rw [hv] at hkind hvoice
    subst hkind
    exact { h with
      kind_eq := rfl
      voice := ⟨hvoice.1, and_le_of_mask value 7⟩
      frequency := clock_shift_le value }
  · rename_i hv
    have hhighest := Voice.Kind.highest_of_ne (Voice.kind_ne_noise hv)
    rw [hkind] at hhighest
    exact { h with frequency := hhighest ▸ low_frequency_le ch.frequency value }

theorem Fits.trigger (h : ch.Fits kind) (rate : Float32) : (ch.trigger rate).Fits kind := by
  have hkind := h.kind_eq
  have hvoice := h.voice
  have hfrequency := h.frequency
  simp only [Channel.trigger]
  split
  · rename_i duty step sweep hv
    rw [hv] at hkind hvoice
    refine { h with
      kind_eq := ?_, voice := ⟨hvoice.1, hvoice.2.1, ?_⟩, volume := h.initialVolume
      waveVolume := fun _ => rfl, powered := id }
    · rw [← hkind]
      cases sweep <;> rfl
    · intro s hs
      obtain ⟨old, _, rfl⟩ := Option.map_eq_some_iff.mp hs
      have hne : (Voice.square duty step sweep).kind ≠ .noise := Voice.kind_ne_noise (by simp)
      rw [hkind] at hne
      exact ⟨Voice.Kind.highest_of_ne hne ▸ hfrequency, and_le_of_mask _ 7⟩
  · rename_i position hv
    rw [hv] at hkind
    exact { h with
      kind_eq := hkind, voice := UInt8.zero_le, volume := h.initialVolume
      waveVolume := fun _ => rfl, powered := id }
  · rename_i lfsr short divisor hv
    rw [hv] at hkind hvoice
    exact { h with
      kind_eq := hkind, voice := ⟨UInt16.zero_le, hvoice.2⟩, volume := h.initialVolume
      waveVolume := fun _ => rfl, powered := id }

theorem Fits.writeControl (h : ch.Fits kind) (value : UInt8) (rate : Float32) :
    (ch.writeControl value rate).Fits kind := by
  have hhigh : (ch.writeHigh value).Fits kind := by
    simp only [writeHigh]
    split
    · exact h
    · rename_i hv
      have hhighest := Voice.Kind.highest_of_ne (Voice.kind_ne_noise hv)
      rw [h.kind_eq] at hhighest
      exact { h with frequency := hhighest ▸ high_frequency_le ch.frequency value }
  simp only [Channel.writeControl]
  split
  · refine Fits.trigger ?_ rate
    exact { hhigh with }
  · exact { hhigh with }

theorem Fits.write (h : ch.Fits kind) (register : Fin 5) (value : UInt8) (rate : Float32) :
    (ch.write register value rate).Fits kind := by
  match register with
  | 0 => exact h.writeFirst value
  | 1 => exact h.writeLength value
  | 2 => exact h.writeVolume value rate
  | 3 => exact h.writeLow value
  | 4 => exact h.writeControl value rate

theorem Fits.countLength (h : ch.Fits kind) : ch.countLength.Fits kind := by
  refine { h with load := ?_, powered := ?_ }
  · simp only [Channel.countLength, LengthCounter.count]
    split <;> exact h.load
  · exact fun hon => h.powered (Bool.and_eq_true_iff.mp hon).1

theorem Fits.clockEnvelope (h : ch.Fits kind) (hwave : kind ≠ .wave) :
    ch.clockEnvelope.Fits kind := by
  have hloudest := Voice.Kind.loudest_of_ne hwave
  have hvolume : ch.volume ≤ 15 := hloudest ▸ h.volume
  exact { h with
    volume := hloudest ▸ ch.envelope.clock_le hvolume, waveVolume := fun hw => absurd hw hwave }

theorem Fits.refreshPitch (h : ch.Fits kind) (rate : Float32) : (ch.refreshPitch rate).Fits kind :=
  { h with }

theorem Fits.clockSweep (h : ch.Fits kind) (rate : Float32) : (ch.clockSweep rate).Fits kind := by
  have hkind := h.kind_eq
  have hvoice := h.voice
  simp only [Channel.clockSweep]
  split
  · rename_i duty step sweep hv
    rw [hv] at hkind hvoice
    obtain ⟨hshadow, hshift⟩ := hvoice.2.2 sweep rfl
    have hclock := Sweep.clock_fits hshadow
    have hfits : (Voice.square duty step (some sweep.clock.1)).Fits := by
      refine ⟨hvoice.1, hvoice.2.1, ?_⟩
      rintro s ⟨⟩
      exact ⟨hclock.1, hclock.2.1 ▸ hshift⟩
    split
    · exact { h with kind_eq := hkind, voice := hfits }
    · rename_i frequency hevent
      have hmoved : frequency ≤ 2047 := by
        have hevent' := hclock.2.2
        rwa [hevent] at hevent'
      have hne : (Voice.square duty step (some sweep)).kind ≠ .noise :=
        Voice.kind_ne_noise (by simp)
      rw [hkind] at hne
      refine Fits.refreshPitch ?_ rate
      exact { h with
        kind_eq := hkind, voice := hfits, frequency := Voice.Kind.highest_of_ne hne ▸ hmoved }
    · exact { h with
        kind_eq := hkind, voice := hfits, powered := fun hon => absurd hon Bool.false_ne_true }
  · exact h

theorem Fits.advance (h : ch.Fits kind) (table : WaveTable) : (ch.advance table).Fits kind :=
  { h with
    kind_eq := (Voice.average_kind _ _ _ _ _).trans h.kind_eq
    voice := Voice.average_fits _ _ _ _ h.voice }

theorem Fits.play (h : ch.Fits kind) (table : WaveTable) (rate decay : Float32) :
    (ch.play table rate decay).2.Fits kind := by
  apply play_induction (P := Fits kind) table rate decay
  · exact fun ch h => h.countLength
  · exact fun ch _ hv h => h.clockEnvelope (h.kind_eq ▸ Voice.kind_ne_wave hv)
  · exact fun ch _ h => h.clockSweep rate
  · exact fun ch _ h => h.advance table
  · exact fun ch c h => { h with }
  · exact h

theorem Fits.prepare (h : ch.Fits kind) (rate : Float32) : (ch.prepare rate).Fits kind := by
  simp only [Channel.prepare, stopSlowNoise]
  split
  · split
    · exact (h.refreshPitch rate).off
    · exact h.refreshPitch rate
  · exact h.refreshPitch rate

theorem Fits.render (h : ch.Fits kind) (table : WaveTable) (rate decay : Float32) (frames : Nat) :
    (ch.render table rate decay frames).2.Fits kind :=
  playMany_induction table rate decay (fun _ h => h.play table rate decay) frames #[]
    (h.prepare rate)

theorem Fits.step {index : Fin 4} {rate : Float32} {next : Channel}
    (hstep : Step index rate ch next) (h : ch.Fits (Voice.initial index).kind) :
    next.Fits (Voice.initial index).kind := by
  cases hstep with
  | same => exact h
  | write register value => exact h.write register value rate
  | route left right => exact { h with }
  | off => exact h.off
  | render table decay frames => exact h.render table rate decay frames
  | restart => exact fits_initial index

end Channel
end Sound

namespace SoundUnit

/-- Every channel holds what belongs to it. -/
def Fits (unit : SoundUnit) : Prop :=
  ∀ i : Fin 4, (unit.channels.get i).Fits (Voice.initial i).kind

theorem fits_new (sampleRate : UInt32) : (new sampleRate).Fits := by
  intro i
  simpa using Channel.fits_initial i

theorem Fits.after {unit : SoundUnit} (h : unit.Fits) (action : Action) :
    (unit.after action).Fits :=
  fun i => (h i).step (unit.step_after action i)

theorem Reached.fits {sampleRate : UInt32} {unit : SoundUnit} (h : Reached sampleRate unit) :
    unit.Fits :=
  h.induction (fits_new sampleRate) fun _ action h => h.after action

end SoundUnit
end Chiptune
