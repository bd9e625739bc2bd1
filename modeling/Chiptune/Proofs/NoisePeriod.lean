import Chiptune.Proofs.ShiftRegister
import Chiptune.Proofs.Trigger

/-!
# The period of the noise

The noise register has sixteen bits, of which fifteen take part, or the lowest
seven in short mode. Cell by cell these are a shift register of full period,
whatever the bits above them are: from the zeros that a trigger leaves they go
through all patterns but one, and that one, all ones, is the one at which the
register would stand still.

Of all that can be asked of the unit, only the fourth register of the channel
changes the width. As long as it is kept, the register that a trigger has
cleared stays on its round.
-/
namespace Chiptune
open Sound

namespace Sound
open Function

/-! ### The bits that take part -/

/-- How many bits of the noise register take part. -/
def noiseWidth (short : Bool) : Nat := if short then 7 else 15

def lowBits (short : Bool) (lfsr : UInt16) : BitVec (noiseWidth short) := lfsr.toBitVec.setWidth _

theorem noiseWidth_bounds (short : Bool) : 1 < noiseWidth short ∧ noiseWidth short ≤ 15 := by
  cases short <;> decide

theorem toNat_lowBits (short : Bool) (lfsr : UInt16) :
    (lowBits short lfsr).toNat = lfsr.toNat % 2 ^ noiseWidth short :=
  BitVec.toNat_setWidth _ _

theorem getMsbD_lowBits (short : Bool) (lfsr : UInt16) {i : Nat} (hi : i < noiseWidth short) :
    (lowBits short lfsr).getMsbD i = lfsr.toBitVec.getLsbD (noiseWidth short - 1 - i) := by
  have hlt : noiseWidth short - 1 - i < noiseWidth short := by omega
  rw [lowBits, BitVec.getMsbD_eq_getLsbD, BitVec.getLsbD_setWidth, decide_eq_true hi,
    decide_eq_true hlt, Bool.true_and, Bool.true_and]

theorem getLsbD_nextNoise_zero (short : Bool) (lfsr : UInt16) :
    (nextNoise short lfsr).toBitVec.getLsbD 0 =
      (lfsr.toBitVec.getLsbD (noiseWidth short - 1) ==
        lfsr.toBitVec.getLsbD (noiseWidth short - 2)) := by
  have hequal : ∀ top second : Bool, (top ^^ second) = !(top == second) := by decide
  cases short <;> simp [nextNoise, noiseWidth, hequal]

theorem getLsbD_nextNoise_succ (short : Bool) (lfsr : UInt16) {i : Nat} (hi : i + 1 < 15) :
    (nextNoise short lfsr).toBitVec.getLsbD (i + 1) = lfsr.toBitVec.getLsbD i := by
  have hlt : i + 1 < 16 := by omega
  have hmask : (0x7FFF#16)[i + 1] = true := by
    have hones := Nat.testBit_two_pow_sub_one 15 (i + 1)
    rw [decide_eq_true hi] at hones
    rw [← BitVec.getLsbD_eq_getElem, BitVec.getLsbD_ofNat, decide_eq_true hlt]
    exact hones
  rw [BitVec.getLsbD_eq_getElem (Nat.lt_of_succ_lt hlt)]
  cases short <;> simp [nextNoise, hlt, hmask]

/-- The bits that take part are a shift register of their own. -/
theorem lowBits_nextNoise (short : Bool) (lfsr : UInt16) :
    lowBits short (nextNoise short lfsr) = shifted (lowBits short lfsr) := by
  obtain ⟨hone, hmost⟩ := noiseWidth_bounds short
  apply BitVec.eq_of_getLsbD_eq
  intro i hi
  rw [shifted, BitVec.getLsbD_shiftConcat, getMsbD_lowBits _ _ (by omega), getMsbD_lowBits _ _ hone,
    lowBits, lowBits, BitVec.getLsbD_setWidth, decide_eq_true hi, Bool.true_and, Bool.true_and]
  cases i with
  | zero => exact getLsbD_nextNoise_zero short lfsr
  | succ i =>
    rw [getLsbD_nextNoise_succ _ _ (by omega), if_neg (by omega), BitVec.getLsbD_setWidth,
      decide_eq_true (by omega), Bool.true_and]
    rfl

/-! ### The round from zero -/

/-- The noise register some cells after a trigger. -/
def noiseAfter (short : Bool) (cells : Nat) : UInt16 := (nextNoise short)^[cells] 0

theorem noiseAfter_succ (short : Bool) (k : Nat) :
    noiseAfter short (k + 1) = nextNoise short (noiseAfter short k) :=
  iterate_succ_apply' _ _ _

theorem lowBits_noiseAfter (short : Bool) (k : Nat) :
    lowBits short (noiseAfter short k) = shifted^[k] 0 := by
  have hsemiconj : Semiconj (lowBits short) (nextNoise short) shifted := lowBits_nextNoise short
  have hzero : lowBits short 0 = 0 := by cases short <;> rfl
  rw [noiseAfter, (hsemiconj.iterate_right k).eq, hzero]

theorem minimalPeriod_lowBits (short : Bool) :
    minimalPeriod shifted (0 : BitVec (noiseWidth short)) = 2 ^ noiseWidth short - 1 := by
  cases short with
  | false => exact minimalPeriod_fifteen
  | true => exact minimalPeriod_seven

theorem lowBits_noiseAfter_eq_iff (short : Bool) (j k : Nat) :
    lowBits short (noiseAfter short j) = lowBits short (noiseAfter short k) ↔
      j ≡ k [MOD 2 ^ noiseWidth short - 1] := by
  have hpos : 0 < 2 ^ noiseWidth short - 1 := by cases short <;> decide
  rw [lowBits_noiseAfter, lowBits_noiseAfter]
  exact iterate_eq_iff_modEq hpos (minimalPeriod_lowBits short) j k

/-- The round leaves out all ones, where the register would stand still. -/
theorem lowBits_noiseAfter_ne (short : Bool) (k : Nat) :
    lowBits short (noiseAfter short k) ≠ BitVec.allOnes _ := by
  have hpos : 0 < 2 ^ noiseWidth short - 1 := by cases short <;> decide
  have hperiod := isPeriodicPt_minimalPeriod shifted (0 : BitVec (noiseWidth short))
  have hstuck : IsFixedPt shifted (BitVec.allOnes (noiseWidth short)) := by
    cases short <;> decide
  have hne : (0 : BitVec (noiseWidth short)) ≠ BitVec.allOnes _ := by cases short <;> decide
  rw [minimalPeriod_lowBits] at hperiod
  rw [lowBits_noiseAfter]
  exact iterate_ne_of_isFixedPt hpos hperiod hstuck hne k

/-- In long mode all bits take part. -/
theorem noiseAfter_le (k : Nat) : noiseAfter false k ≤ 0x7FFF := by
  cases k with
  | zero => decide
  | succ k => rw [noiseAfter_succ]; exact nextNoise_le _ _

theorem lowBits_false_eq_iff {lfsr other : UInt16} (h : lfsr ≤ 0x7FFF) (hother : other ≤ 0x7FFF) :
    lowBits false lfsr = lowBits false other ↔ lfsr = other := by
  have h : lfsr.toNat < 2 ^ 15 := Nat.lt_succ_of_le (UInt16.le_iff_toNat_le.mp h)
  have hother : other.toNat < 2 ^ 15 := Nat.lt_succ_of_le (UInt16.le_iff_toNat_le.mp hother)
  rw [← BitVec.toNat_inj, toNat_lowBits, toNat_lowBits, ← UInt16.toNat_inj]
  exact Eq.congr (Nat.mod_eq_of_lt h) (Nat.mod_eq_of_lt hother)

/-- In short mode the lowest seven bits take part. -/
theorem toNat_and_seven (lfsr : UInt16) : (lfsr &&& 0x7F).toNat = (lowBits true lfsr).toNat := by
  rw [toNat_lowBits, UInt16.toNat_and]
  exact Nat.and_two_pow_sub_one_eq_mod lfsr.toNat 7

theorem and_seven_eq_iff (lfsr other : UInt16) :
    lfsr &&& 0x7F = other &&& 0x7F ↔ lowBits true lfsr = lowBits true other := by
  rw [← UInt16.toNat_inj, toNat_and_seven, toNat_and_seven, BitVec.toNat_inj]

/-! ### The channel on its round -/

namespace Channel

variable {ch : Channel} {short : Bool}

/-- The noise register is some cells away from a trigger. -/
def OnRound (short : Bool) (ch : Channel) : Prop :=
  ∃ k divisor, ch.voice = .noise (noiseAfter short k) short divisor

/-- What each register does to a voice of noise. -/
theorem write_voice_of_noise {lfsr : UInt16} {divisor : UInt8}
    (h : ch.voice = .noise lfsr short divisor) (register : Fin 5) (value : UInt8)
    (rate : Float32) :
    (ch.write register value rate).voice =
      if register = 3 then .noise lfsr (value &&& 0x08 != 0) (value &&& 0x07)
      else if register = 4 ∧ value &&& 0x80 ≠ 0 then .noise 0 short divisor
      else .noise lfsr short divisor := by
  match register with
  | 0 => simp [write, writeFirst, h]
  | 1 => simp [write, writeLength, h]
  | 2 =>
    simp only [write, writeVolume, h, writeEnvelope]
    split
    · rfl
    · split <;> rfl
  | 3 => simp [write, writeLow, h]
  | 4 =>
    have hhigh : ch.writeHigh value = ch := by simp [writeHigh, h]
    simp only [write, writeControl, hhigh]
    by_cases htrigger : value &&& 0x80 = 0
    · simp [htrigger, h]
    · simp [htrigger, trigger, h]

theorem OnRound.write (h : ch.OnRound short) {register : Fin 5} {value : UInt8}
    (hwidth : register = 3 → (value &&& 0x08 != 0) = short) (rate : Float32) :
    (ch.write register value rate).OnRound short := by
  obtain ⟨k, divisor, hvoice⟩ := h
  rw [OnRound, write_voice_of_noise hvoice]
  by_cases hthree : register = 3
  · rw [if_pos hthree, hwidth hthree]
    exact ⟨k, _, rfl⟩
  · rw [if_neg hthree]
    split
    · exact ⟨0, divisor, rfl⟩
    · exact ⟨k, divisor, rfl⟩

/-- A sample moves the register on, cell by cell. -/
theorem OnRound.play (h : ch.OnRound short) (table : WaveTable) (rate decay : Float32) :
    (ch.play table rate decay).2.OnRound short := by
  apply play_induction (P := OnRound short) table rate decay
  · exact fun _ h => h
  · exact fun _ _ _ h => h
  · rintro ch - ⟨k, divisor, hvoice⟩
    exact ⟨k, divisor, by simp [clockSweep, hvoice]⟩
  · intro ch _ h
    refine Voice.average_induction
      (P := fun voice => ∃ k divisor, voice = .noise (noiseAfter short k) short divisor)
      table ch.volume ch.phaseInc ch.phase ?_ ?_ ?_ h
    · rintro duty step sweep ⟨k, divisor, hvoice⟩
      contradiction
    · rintro position ⟨k, divisor, hvoice⟩
      contradiction
    · rintro lfsr width divisor ⟨k, _, hvoice⟩
      obtain ⟨rfl, rfl, -⟩ := Voice.noise.inj hvoice
      exact ⟨k + 1, divisor, by rw [noiseAfter_succ]⟩
  · exact fun _ _ h => h
  · exact h

theorem OnRound.render (h : ch.OnRound short) (table : WaveTable) (rate decay : Float32)
    (frames : Nat) : (ch.render table rate decay frames).2.OnRound short := by
  apply playMany_induction table rate decay fun _ h => h.play table rate decay
  rw [OnRound, prepare_voice]
  exact h

end Channel
end Sound

/-! ### The unit -/

namespace SoundUnit

variable {unit : SoundUnit} {short : Bool}

/-- Whether the noise is in short mode. -/
def shortNoise (unit : SoundUnit) : Bool :=
  match (unit.channels.get noise).voice with
  | .noise _ short _ => short
  | _ => false

/-- Whether a write to a register leaves the noise in its mode. -/
def keepsMode (short : Bool) (value : UInt8) : Register → Bool
  | .channel index number =>
    index != noise || number.val != 3 || (value &&& 0x08 != 0) == short
  | .routing | .wave _ | .volume | .power | .unused => true

def Action.keepsMode (short : Bool) : Action → Bool
  | .write address value => SoundUnit.keepsMode short value (Register.ofAddress address)
  | .reset => !short
  | .render _ | .setMuted .. | .toggleMute _ | .setMasterVolume _ => true

theorem onRound_after (h : (unit.channels.get noise).OnRound short) {action : Action}
    (haction : action.keepsMode short) :
    ((unit.after action).channels.get noise).OnRound short := by
  cases action with
  | write address value =>
    simp only [after, SoundUnit.write, writeRegister_channels]
    cases hregister : Register.ofAddress address with
    | channel index number =>
      rw [Channel.receive]
      split
      · rename_i hindex
        subst hindex
        refine h.write ?_ unit.rate
        rintro rfl
        simpa [Action.keepsMode, SoundUnit.keepsMode, hregister] using haction
      · exact h
    | routing => exact h
    | power =>
      rw [Channel.receive]
      split <;> exact h
    | volume | wave | unused => exact h
  | render frames =>
    simp only [after, render_snd, play_channels]
    exact h.render _ _ _ frames
  | reset =>
    have hlong : short = false := by simpa [Action.keepsMode] using haction
    subst hlong
    exact ⟨0, 0, rfl⟩
  | setMuted | toggleMute | setMasterVolume => exact h

theorem onRound_afterAll (h : (unit.channels.get noise).OnRound short) {actions : List Action}
    (hactions : actions.all (Action.keepsMode short)) :
    ((unit.afterAll actions).channels.get noise).OnRound short := by
  induction actions generalizing unit with
  | nil => exact h
  | cons action rest ih =>
    obtain ⟨haction, hrest⟩ := Bool.and_eq_true_iff.mp hactions
    exact ih (onRound_after h haction) hrest

theorem Reached.noise_voice {sampleRate : UInt32} (h : Reached sampleRate unit) :
    ∃ lfsr divisor, (unit.channels.get noise).voice = .noise lfsr unit.shortNoise divisor := by
  have hkind := h.voiced noise
  rw [shortNoise]
  cases hvoice : (unit.channels.get noise).voice with
  | square duty step sweep =>
    rw [hvoice] at hkind
    cases sweep <;> contradiction
  | wave position =>
    rw [hvoice] at hkind
    contradiction
  | noise lfsr short divisor => exact ⟨lfsr, divisor, rfl⟩

/-- The noise goes through its full round and never stands still. A trigger of the noise channel
clears its register; from then on, as long as the mode is kept, the register is always some cells
away from zero. In long mode, all ones are never reached, and the register is the same after two
counts of cells just when they agree modulo 32767. In short mode, the lowest seven bits are never
all ones, they follow from the lowest seven bits before alone, and they are the same after two
counts of cells just when these agree modulo 127. -/
theorem noise_has_full_period {sampleRate : UInt32} (hunit : Reached sampleRate unit)
    {control : UInt8} (htrigger : control &&& 0x80 ≠ 0) :
    let start := unit.write (controlAddress noise) control
    start.noiseRegister = 0 ∧
      (∀ later : List Action, later.all (Action.keepsMode unit.shortNoise) →
        ∃ k, (start.afterAll later).noiseRegister = (nextNoise unit.shortNoise)^[k] 0) ∧
      (∀ k, (nextNoise false)^[k] 0 ≠ 0x7FFF) ∧
      (∀ j k, (nextNoise false)^[j] 0 = (nextNoise false)^[k] 0 ↔ j ≡ k [MOD 32767]) ∧
      (∀ k, (nextNoise true)^[k] 0 &&& 0x7F ≠ 0x7F) ∧
      (∀ lfsr, nextNoise true lfsr &&& 0x7F = nextNoise true (lfsr &&& 0x7F) &&& 0x7F) ∧
      ∀ j k, (nextNoise true)^[j] 0 &&& 0x7F = (nextNoise true)^[k] 0 &&& 0x7F ↔
        j ≡ k [MOD 127] := by
  intro start
  obtain ⟨lfsr, divisor, hvoice⟩ := hunit.noise_voice
  have hstart : (start.channels.get noise).voice = .noise 0 unit.shortNoise divisor := by
    simp only [start, SoundUnit.write, ofAddress_controlAddress, writeRegister_channels,
      Channel.receive, if_pos]
    rw [Channel.write_voice_of_noise hvoice, if_neg (by decide), if_pos ⟨rfl, htrigger⟩]
  refine ⟨?_, fun later hlater => ?_, fun k hones => ?_, fun j k => ?_, fun k hones => ?_,
    fun lfsr => ?_, fun j k => ?_⟩
  · rw [noiseRegister, hstart]
  · obtain ⟨k, divisor, hround⟩ := onRound_afterAll ⟨0, divisor, hstart⟩ hlater
    exact ⟨k, by rw [noiseRegister, hround]; rfl⟩
  · exact lowBits_noiseAfter_ne false k (congrArg (lowBits false) hones)
  · exact (lowBits_false_eq_iff (noiseAfter_le j) (noiseAfter_le k)).symm.trans
      (lowBits_noiseAfter_eq_iff false j k)
  · have hones : noiseAfter true k &&& 0x7F = 0x7F &&& 0x7F := hones
    exact lowBits_noiseAfter_ne true k ((and_seven_eq_iff _ _).mp hones)
  · rw [and_seven_eq_iff, lowBits_nextNoise, lowBits_nextNoise]
    have hmasked : (lfsr &&& 0x7F) &&& 0x7F = lfsr &&& 0x7F := by
      rw [UInt16.and_assoc, UInt16.and_self]
    rw [(and_seven_eq_iff _ _).mp hmasked]
  · rw [and_seven_eq_iff]
    exact lowBits_noiseAfter_eq_iff true j k

/-- Noise in short mode, triggered and played, with its divisor written anew. -/
theorem noise_has_full_period_short :
    let unit := (new 8192).afterAll [.write 0xFF21 0xF0, .write 0xFF22 0x68]
    let later : List Action := [.render 9, .write 0xFF22 0x6A, .render 4]
    let start := unit.write (controlAddress noise) 0x80
    (0x80 : UInt8) &&& 0x80 ≠ 0 ∧ later.all (Action.keepsMode unit.shortNoise) ∧
      unit.shortNoise = true ∧
      ∃ k, (start.afterAll later).noiseRegister = (nextNoise true)^[k] 0 := by
  intro unit later start
  have hunit : Reached 8192 unit := ⟨_, rfl⟩
  have htrigger : (0x80 : UInt8) &&& 0x80 ≠ 0 := by decide
  have hshort : unit.shortNoise = true := by decide +kernel
  have hlater : later.all (Action.keepsMode unit.shortNoise) := by decide +kernel
  have hround := (noise_has_full_period hunit htrigger).2.1 later hlater
  rw [hshort] at hround
  exact ⟨htrigger, hlater, hshort, hround⟩

end SoundUnit
end Chiptune
