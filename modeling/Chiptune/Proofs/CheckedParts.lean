import Chiptune.Proofs.Magnitude
import Chiptune.Proofs.SoundBounds

/-!
# The parts of a channel that check every step

The levels, oscillators, clocks and pitches of a channel once more, with every
look-up in a table, shift and sum of machine words as a step that has a result
only where it is defined. The tables are the ones that the levels and pitches
are read from. On what fits, each part has a result, and it is the plain one.

Logarithms and rounding belong to a library, of which only what is documented is
used: how large their results can be.
-/
namespace Chiptune.Sound
open Chiptune

/-- A result that is there under a condition only. -/
def checked {α : Type} (ok : Prop) [Decidable ok] (result : α) : Option α :=
  if ok then some result else none

theorem checked_of {α : Type} {ok : Prop} [Decidable ok] (h : ok) (result : α) :
    checked ok result = some result := if_pos h

theorem min_le_second (a b : UInt16) : min a b ≤ b := by
  show (if a ≤ b then a else b) ≤ b
  split
  · assumption
  · exact UInt16.le_refl b

/-! ### Levels -/

def dutyTable : Vector (Vector UInt8 8) 4 := #v[
  #v[0, 0, 0, 0, 0, 0, 0, 1],
  #v[1, 0, 0, 0, 0, 0, 0, 1],
  #v[1, 0, 0, 0, 0, 1, 1, 1],
  #v[0, 1, 1, 1, 1, 1, 1, 0]]

def squareLevel? (duty step : UInt8) : Option Float32 := do
  let row ← dutyTable[duty.toNat]?
  let bit ← row[step.toNat]?
  some (if bit != 0 then 1.0 else -1.0)

def waveLevel? (table : WaveTable) (volume position : UInt8) : Option Float32 :=
  if volume == 0 then some 0.0
  else do
    let byte ← table[(position / 2).toNat]?
    let nibble := if position % 2 == 0 then byte / 16 else byte % 16
    let shift ← checked (1 ≤ volume) (volume - 1)
    let level ← checked (shift < 8) (nibble >>> shift)
    some level.toFloat32

/-- The level of the cell that a voice stands at. -/
def Voice.level (table : WaveTable) (volume : UInt8) : Voice → Float32
  | .square duty step _ => squareLevel duty step
  | .wave position => waveLevel table volume position
  | .noise lfsr _ _ => noiseLevel lfsr

def Voice.level? (table : WaveTable) (volume : UInt8) : Voice → Option Float32
  | .square duty step _ => squareLevel? duty step
  | .wave position => waveLevel? table volume position
  | .noise lfsr _ _ => some (noiseLevel lfsr)

theorem squareLevel?_eq {duty step : UInt8} (hduty : duty ≤ 3) (hstep : step ≤ 7) :
    squareLevel? duty step = some (squareLevel duty step) := by
  have h : ∀ d : Fin 4, ∀ s : Fin 8,
      squareLevel? (UInt8.ofNat d) (UInt8.ofNat s) =
        some (squareLevel (UInt8.ofNat d) (UInt8.ofNat s)) := by decide
  have hduty := UInt8.le_iff_toNat_le.mp hduty
  have hstep := UInt8.le_iff_toNat_le.mp hstep
  simpa using h ⟨duty.toNat, Nat.lt_succ_of_le hduty⟩ ⟨step.toNat, Nat.lt_succ_of_le hstep⟩

theorem waveLevel?_eq (table : WaveTable) {volume position : UInt8} (hvolume : volume ≤ 3)
    (hposition : position ≤ 31) :
    waveLevel? table volume position = some (waveLevel table volume position) := by
  have hposition : position.toNat ≤ 31 := UInt8.le_iff_toNat_le.mp hposition
  have hvolume : volume.toNat ≤ 3 := UInt8.le_iff_toNat_le.mp hvolume
  have hbyte : position.toNat / 2 < 16 := by omega
  by_cases hzero : volume = 0
  · subst hzero
    rfl
  · have hone : 1 ≤ volume := by
      have hne : volume.toNat ≠ 0 := fun h => hzero (UInt8.toNat_inj.mp h)
      rw [UInt8.le_iff_toNat_le]
      exact Nat.one_le_iff_ne_zero.mpr hne
    have hshift : volume - 1 < 8 := by
      rw [UInt8.lt_iff_toNat_lt, UInt8.toNat_sub_of_le _ _ hone]
      exact Nat.lt_of_le_of_lt (Nat.sub_le _ _) (Nat.lt_of_le_of_lt hvolume (by decide))
    simp [waveLevel?, waveLevel, WaveTable.nibble, WaveTable.byte, hzero, hbyte,
      checked_of hone, checked_of hshift]

theorem Voice.level?_eq (table : WaveTable) {volume : UInt8} {voice : Voice} (h : voice.Fits)
    (hvolume : volume ≤ voice.kind.loudest) :
    voice.level? table volume = some (voice.level table volume) := by
  cases voice with
  | square duty step sweep => exact squareLevel?_eq h.1 h.2.1
  | wave position => exact waveLevel?_eq table hvolume h
  | noise lfsr short divisor => rfl

/-! ### Oscillators -/

namespace Averaged

variable {Cell : Type}

def sum? (next : Cell → Option Cell) (level : Cell → Option Float32) :
    Nat → Float32 → Float32 → Float32 → Cell → Option (Averaged Cell)
  | 0, phase, remaining, total, cell => do
    let height ← level cell
    some ⟨total + remaining * height, phase + remaining, cell⟩
  | limit + 1, phase, remaining, total, cell =>
    if phase + remaining > 1.0 then do
      let step := 1.0 - phase
      let height ← level cell
      let moved ← next cell
      sum? next level limit 0.0 (remaining - step) (total + step * height) moved
    else do
      let height ← level cell
      some ⟨total + remaining * height, phase + remaining, cell⟩

def across? (next : Cell → Option Cell) (level : Cell → Option Float32) (inc phase : Float32)
    (cell : Cell) : Option (Averaged Cell) :=
  if inc ≤ 0.0 then do
    let height ← level cell
    some ⟨height, phase, cell⟩
  else do
    let total ← sum? next level ((phase + inc).toUInt64.toNat + 1) phase inc 0.0 cell
    some { total with level := total.level / inc }

variable {P : Cell → Prop} {next : Cell → Cell} {next? : Cell → Option Cell}
  {level : Cell → Float32} {level? : Cell → Option Float32}

/-- On cells where a step and the level are there, so is the sum. -/
theorem sum?_eq (hnext : ∀ cell, P cell → next? cell = some (next cell) ∧ P (next cell))
    (hlevel : ∀ cell, P cell → level? cell = some (level cell)) (limit : Nat)
    (phase remaining total : Float32) {cell : Cell} (h : P cell) :
    sum? next? level? limit phase remaining total cell =
      some (sum next level limit phase remaining total cell) := by
  induction limit generalizing phase remaining total cell with
  | zero => simp [sum?, sum, hlevel cell h]
  | succ limit ih =>
    obtain ⟨hmoved, hP⟩ := hnext cell h
    simp only [sum?, sum, hlevel cell h, hmoved, Option.bind_eq_bind, Option.bind_some]
    split
    · exact ih _ _ _ hP
    · rfl

theorem across?_eq (hnext : ∀ cell, P cell → next? cell = some (next cell) ∧ P (next cell))
    (hlevel : ∀ cell, P cell → level? cell = some (level cell)) (inc phase : Float32)
    {cell : Cell} (h : P cell) :
    across? next? level? inc phase cell = some (across next level inc phase cell) := by
  simp only [across?, across, hlevel cell h, sum?_eq hnext hlevel _ _ _ _ h,
    Option.bind_eq_bind, Option.bind_some]
  split <;> rfl

end Averaged

def nextStep? (step : UInt8) : Option UInt8 := do
  let moved ← checked (step.toNat + 1 < 256) (step + 1)
  some (moved % 8)

def nextPosition? (position : UInt8) : Option UInt8 := do
  let moved ← checked (position.toNat + 1 < 256) (position + 1)
  some (moved % 32)

def nextNoise? (short : Bool) (lfsr : UInt16) : Option UInt16 := do
  let top : UInt16 := if short then 6 else 14
  let below ← checked (1 ≤ top) (top - 1)
  let high ← checked (top < 16) (lfsr >>> top)
  let low ← checked (below < 16) (lfsr >>> below)
  let bit := ~~~(high ^^^ low) &&& 1
  some (((lfsr <<< 1) ||| bit) &&& 0x7FFF)

theorem nextStep?_eq {step : UInt8} (h : step ≤ 7) : nextStep? step = some (nextStep step) := by
  have h : step.toNat ≤ 7 := UInt8.le_iff_toNat_le.mp h
  rw [nextStep?, checked_of (by omega)]
  rfl

theorem nextPosition?_eq {position : UInt8} (h : position ≤ 31) :
    nextPosition? position = some (nextPosition position) := by
  have h : position.toNat ≤ 31 := UInt8.le_iff_toNat_le.mp h
  rw [nextPosition?, checked_of (by omega)]
  rfl

theorem nextNoise?_eq (short : Bool) (lfsr : UInt16) :
    nextNoise? short lfsr = some (nextNoise short lfsr) := by
  cases short <;> rfl

def Voice.average? (table : WaveTable) (volume : UInt8) (inc phase : Float32) :
    Voice → Option (Averaged Voice)
  | .square duty step sweep => do
    let mean ← Averaged.across? nextStep? (squareLevel? duty) inc phase step
    some ⟨mean.level, mean.phase, .square duty mean.cell sweep⟩
  | .wave position => do
    let mean ← Averaged.across? nextPosition? (waveLevel? table volume) inc phase position
    some ⟨mean.level, mean.phase, .wave mean.cell⟩
  | .noise lfsr short divisor => do
    let mean ←
      Averaged.across? (nextNoise? short) (fun lfsr => some (noiseLevel lfsr)) inc phase lfsr
    some ⟨mean.level, mean.phase, .noise mean.cell short divisor⟩

theorem Voice.average?_eq (table : WaveTable) {volume : UInt8} (inc phase : Float32)
    {voice : Voice} (h : voice.Fits) (hvolume : volume ≤ voice.kind.loudest) :
    voice.average? table volume inc phase = some (voice.average table volume inc phase) := by
  cases voice with
  | square duty step sweep =>
    have hmean : Averaged.across? nextStep? (squareLevel? duty) inc phase step =
        some (Averaged.across nextStep (squareLevel duty) inc phase step) :=
      Averaged.across?_eq (P := (· ≤ 7))
        (fun step hstep => ⟨nextStep?_eq hstep, nextStep_le step⟩)
        (fun step hstep => squareLevel?_eq h.1 hstep) inc phase h.2.1
    simp [average?, average, hmean]
  | wave position =>
    have hmean : Averaged.across? nextPosition? (waveLevel? table volume) inc phase position =
        some (Averaged.across nextPosition (waveLevel table volume) inc phase position) :=
      Averaged.across?_eq (P := (· ≤ 31))
        (fun position hposition => ⟨nextPosition?_eq hposition, nextPosition_le position⟩)
        (fun position hposition => waveLevel?_eq table hvolume hposition) inc phase h
    simp [average?, average, hmean]
  | noise lfsr short divisor =>
    have hmean : Averaged.across? (nextNoise? short) (fun lfsr => some (noiseLevel lfsr)) inc phase
        lfsr = some (Averaged.across (nextNoise short) noiseLevel inc phase lfsr) :=
      Averaged.across?_eq (P := fun _ => True)
        (fun lfsr _ => ⟨nextNoise?_eq short lfsr, trivial⟩) (fun _ _ => rfl) inc phase trivial
    simp [average?, average, hmean]

/-! ### Envelope, sweep and length -/

namespace Envelope

def moved? (e : Envelope) (volume : UInt8) : Option UInt8 :=
  if e.period == 0 then some volume
  else if e.rising then
    if volume < 15 then checked (volume.toNat + 1 < 256) (volume + 1) else some volume
  else if volume > 0 then checked (1 ≤ volume) (volume - 1) else some volume

def tick? (e : Envelope) (volume : UInt8) : Option (Envelope × UInt8) := do
  let volume ← e.moved? volume
  let stops := e.period != 0 && (volume == 0 || volume == 15)
  some ({ e with inc := if stops then 0.0 else e.inc, counter := e.counter - 1.0 }, volume)

def runDue? : Nat → Envelope → UInt8 → Option (Envelope × UInt8)
  | 0, e, volume => some (e, volume)
  | limit + 1, e, volume =>
    if e.counter > 1.0 then do
      let next ← e.tick? volume
      runDue? limit next.1 next.2
    else some (e, volume)

def clock? (e : Envelope) (volume : UInt8) : Option (Envelope × UInt8) :=
  let e := { e with counter := e.counter + e.inc }
  if e.counter > 1.0 then e.runDue? e.counter.toUInt64.toNat volume else some (e, volume)

theorem moved?_eq (e : Envelope) (volume : UInt8) : e.moved? volume = some (e.moved volume) := by
  simp only [moved?, moved]
  split
  · rfl
  · split
    · split
      · rename_i hlow
        have hlow : volume.toNat < 15 := UInt8.lt_iff_toNat_lt.mp hlow
        exact checked_of (by omega) _
      · rfl
    · split
      · rename_i hhigh
        have hhigh : 0 < volume.toNat := UInt8.lt_iff_toNat_lt.mp hhigh
        have hone : 1 ≤ volume := UInt8.le_iff_toNat_le.mpr hhigh
        exact checked_of hone _
      · rfl

theorem runDue?_eq (limit : Nat) (e : Envelope) (volume : UInt8) :
    e.runDue? limit volume = some (e.runDue limit volume) := by
  induction limit generalizing e volume with
  | zero => rfl
  | succ limit ih =>
    simp only [runDue?, runDue, tick?, moved?_eq, Option.bind_eq_bind, Option.bind_some]
    split
    · exact ih _ _
    · rfl

theorem clock?_eq (e : Envelope) (volume : UInt8) : e.clock? volume = some (e.clock volume) := by
  simp only [clock?, clock, runDue?_eq]
  split <;> rfl

end Envelope

namespace Sweep

def next? (s : Sweep) : Option UInt16 := do
  let delta ← checked (s.shift < 16) (s.shadow >>> s.shift.toUInt16)
  some (if s.falling then s.shadow - delta else s.shadow + delta)

def runDue? : Nat → Sweep → SweepEvent → Option (Sweep × SweepEvent)
  | 0, s, event => some (s, event)
  | limit + 1, s, event =>
    if s.counter > 1.0 then
      let s := { s with counter := s.counter - 1.0 }
      if s.shift != 0 then do
        let moved ← s.next?
        if moved > highestFrequency then some (s, .overflow)
        else runDue? limit { s with shadow := moved } (.moved moved)
      else if s.period != 0 then some (s, .overflow)
      else runDue? limit s event
    else some (s, event)

def clock? (s : Sweep) : Option (Sweep × SweepEvent) :=
  let s := { s with counter := s.counter + s.inc }
  if s.counter > 1.0 then s.runDue? s.counter.toUInt64.toNat .idle else some (s, .idle)

theorem next?_eq {s : Sweep} (h : s.shift ≤ 7) : s.next? = some s.next := by
  have h : s.shift.toNat ≤ 7 := UInt8.le_iff_toNat_le.mp h
  have hshift : s.shift < 16 := UInt8.lt_iff_toNat_lt.mpr (Nat.lt_of_le_of_lt h (by decide))
  rw [next?, checked_of hshift]
  rfl

theorem runDue?_eq (limit : Nat) {s : Sweep} (event : SweepEvent) (h : s.shift ≤ 7) :
    s.runDue? limit event = some (s.runDue limit event) := by
  induction limit generalizing s event with
  | zero => rfl
  | succ limit ih =>
    have hnext : { s with counter := s.counter - 1.0 }.next? =
        some { s with counter := s.counter - 1.0 }.next := next?_eq h
    simp only [runDue?, runDue, hnext, Option.bind_eq_bind, Option.bind_some]
    split
    · split
      · split
        · rfl
        · exact ih _ h
      · split
        · rfl
        · exact ih _ h
    · rfl

theorem clock?_eq {s : Sweep} (h : s.shift ≤ 7) : s.clock? = some s.clock := by
  have hdue : ∀ limit, { s with counter := s.counter + s.inc }.runDue? limit .idle =
      some ({ s with counter := s.counter + s.inc }.runDue limit .idle) :=
    fun limit => runDue?_eq limit .idle h
  simp only [clock?, clock, hdue]
  split <;> rfl

end Sweep

def LengthCounter.reload? (length : LengthCounter) (longest : UInt16) (sampleRate : Float32) :
    Option LengthCounter := do
  let last ← checked (1 ≤ longest) (longest - 1)
  let ticks ← checked (min length.load last ≤ longest) (longest - min length.load last)
  some { length with inc := 256.0 / ticks.toFloat32 / sampleRate, counter := 0.0 }

theorem LengthCounter.reload?_eq (length : LengthCounter) {longest : UInt16}
    (sampleRate : Float32) (h : 1 ≤ longest) :
    length.reload? longest sampleRate = some (length.reload longest sampleRate) := by
  have hlast : longest - 1 ≤ longest := by
    rw [UInt16.le_iff_toNat_le, UInt16.toNat_sub_of_le _ _ h]
    exact Nat.sub_le _ _
  have hmin : min length.load (longest - 1) ≤ longest :=
    UInt16.le_trans (min_le_second _ _) hlast
  rw [reload?, checked_of h]
  simp only [Option.bind_eq_bind, Option.bind_some, checked_of hmin]
  rfl

/-! ### Pitch -/

/-- The functions of numbers that are not computed by the program itself. -/
structure Library where
  ln : Float32 → Float32
  round : Float32 → Float32

/-- What is documented of natural logarithms and of rounding to the nearest whole number, as far as
the size of a note depends on it. -/
structure Library.Documented (lib : Library) : Prop where
  /-- The logarithm of a number below `2 ^ 64` is less than forty-five. -/
  ln_below : ∀ x, Below 64 x → Below 6 (lib.ln x)
  /-- The logarithm of `1.0594631` is about `0.0578`. -/
  ln_semitone : AtLeast (-5) (lib.ln semitone)
  /-- What is less than a power of two is rounded to that power at most. -/
  round_below : ∀ (k : Nat) x, Below k x → Below (k + 1) (lib.round x)

/-- How many semitones a frequency is away from the concert pitch. -/
def Library.offset (lib : Library) (hz : Float32) : Int :=
  wholePart (lib.round (lib.ln (hz / 440.0) / lib.ln semitone))

/-- The note of a frequency, if the sum of its offset and the note of the concert pitch fits in 32
bits with sign. -/
def Library.noteOf? (lib : Library) (hz : Float32) : Option UInt8 :=
  checked (-2 ^ 31 ≤ lib.offset hz + concertNote ∧ lib.offset hz + concertNote < 2 ^ 31) (noteOf hz)

def noiseDivisors : Vector UInt32 8 := #v[8, 16, 32, 48, 64, 80, 96, 112]

def tonePeriod? (frequency : UInt16) : Option Float32 := do
  let period ← checked (frequency &&& 0x7FF ≤ 2048) (2048 - (frequency &&& 0x7FF))
  some period.toFloat32

def Voice.toneHz? (voice : Voice) (frequency : UInt16) : Option Float32 :=
  match voice with
  | .square .. => do
    let period ← tonePeriod? frequency
    some (131072.0 / period)
  | .wave _ => do
    let period ← tonePeriod? frequency
    some (65536.0 / period)
  | .noise _ _ divisor => do
    let clocks ← noiseDivisors[divisor.toNat]?
    let shifted ← checked ((min frequency 15).toUInt32 < 32)
      (clocks <<< (min frequency 15).toUInt32)
    some (clockHz / shifted.toFloat32)

theorem tonePeriod?_eq (frequency : UInt16) :
    tonePeriod? frequency = some (tonePeriod frequency) := by
  have hmask : frequency &&& 0x7FF ≤ 2048 := by
    rw [UInt16.le_iff_toNat_le, UInt16.toNat_and]
    exact Nat.le_trans Nat.and_le_right (by decide)
  rw [tonePeriod?, checked_of hmask]
  rfl

theorem Voice.toneHz?_eq {voice : Voice} {frequency : UInt16} (h : voice.Fits) :
    voice.toneHz? frequency = some (voice.toneHz frequency) := by
  cases voice with
  | square => simp [toneHz?, toneHz, tonePeriod?_eq]
  | wave => simp [toneHz?, toneHz, tonePeriod?_eq]
  | noise lfsr short divisor =>
    have hclocks : ∀ d : Fin 8, noiseDivisors[(UInt8.ofNat d).toNat]? =
        some (noiseClocks (UInt8.ofNat d)) := by decide
    have hdivisor : divisor.toNat ≤ 7 := UInt8.le_iff_toNat_le.mp h.2
    have hclocks : noiseDivisors[divisor.toNat]? = some (noiseClocks divisor) := by
      simpa using hclocks ⟨divisor.toNat, Nat.lt_succ_of_le hdivisor⟩
    have hshift : (min frequency 15).toUInt32 < 32 := by
      have hmin : (min frequency 15).toNat ≤ 15 :=
        UInt16.le_iff_toNat_le.mp (min_le_second frequency 15)
      rw [UInt32.lt_iff_toNat_lt, UInt16.toNat_toUInt32]
      exact Nat.lt_of_le_of_lt hmin (by decide)
    simp [toneHz?, toneHz, hclocks, checked_of hshift]

theorem atLeast_tonePeriod (frequency : UInt16) : AtLeast 0 (tonePeriod frequency) := by
  apply atLeast_toFloat32
  intro hzero
  have hmask : (frequency &&& 0x7FF).toNat < 2048 := by
    rw [UInt16.toNat_and]
    exact Nat.lt_of_le_of_lt Nat.and_le_right (by decide)
  have hsub : (2048 - (frequency &&& 0x7FF)).toNat = 2048 - (frequency &&& 0x7FF).toNat :=
    UInt16.toNat_sub_of_le _ _ (UInt16.le_iff_toNat_le.mpr (Nat.le_of_lt hmask))
  rw [hzero] at hsub
  have hsub : 0 = 2048 - (frequency &&& 0x7FF).toNat := hsub
  omega

theorem atLeast_noisePeriod {divisor : UInt8} (frequency : UInt16) (hdivisor : divisor ≤ 7) :
    AtLeast 0 (noiseClocks divisor <<< (min frequency 15).toUInt32).toFloat32 := by
  have h : ∀ d : Fin 8, ∀ s : Fin 16,
      noiseClocks (UInt8.ofNat d) <<< (UInt16.ofNat s).toUInt32 ≠ 0 := by decide
  have hdivisor : divisor.toNat ≤ 7 := UInt8.le_iff_toNat_le.mp hdivisor
  have hmin : (min frequency 15).toNat ≤ 15 :=
    UInt16.le_iff_toNat_le.mp (min_le_second frequency 15)
  apply atLeast_toFloat32_of_ne
  simpa using h ⟨divisor.toNat, Nat.lt_succ_of_le hdivisor⟩
    ⟨(min frequency 15).toNat, Nat.lt_succ_of_le hmin⟩

/-- No tone comes near the largest numbers. -/
theorem Voice.below_toneHz {voice : Voice} (frequency : UInt16) (h : voice.Fits) :
    Below 24 (voice.toneHz frequency) := by
  cases voice with
  | square =>
    have hclock : Below 18 131072.0 := by decide
    exact (hclock.div (atLeast_tonePeriod frequency) (by decide) (by decide)).mono (by decide)
  | wave =>
    have hclock : Below 17 65536.0 := by decide
    exact (hclock.div (atLeast_tonePeriod frequency) (by decide) (by decide)).mono (by decide)
  | noise lfsr short divisor =>
    have hclock : Below 23 clockHz := by decide
    exact hclock.div (atLeast_noisePeriod frequency h.2) (by decide) (by decide)

theorem wholePart_lt {k : Nat} {x : Float32} (h : Below k x) : wholePart x < 2 ^ k := by
  have hwhole : x.toUInt32.toNat < 2 ^ k := h.toUInt32_lt
  have hcast : ((2 ^ k : Nat) : Int) = 2 ^ k := by push_cast; rfl
  have hpos := Nat.two_pow_pos k
  have hmin := Nat.min_le_left x.toUInt32.toNat (wordCount / 2 - 1)
  rw [wholePart, ← hcast]
  split
  · omega
  · show ((min x.toUInt32.toNat (wordCount / 2 - 1) : Nat) : Int) < (2 ^ k : Nat)
    omega

theorem le_wholePart (x : Float32) : -2 ^ 31 ≤ wholePart x := by
  have hmin : min (-x).toUInt32.toNat (wordCount / 2) ≤ 2 ^ 31 := Nat.min_le_right _ _
  rw [wholePart]
  split
  · show (-2 ^ 31 : Int) ≤ -((min (-x).toUInt32.toNat (wordCount / 2) : Nat) : Int)
    omega
  · omega

/-- The sum for a note fits, whatever library with documented behaviour takes the logarithms. -/
theorem Library.Documented.noteOf?_eq {lib : Library} (hlib : lib.Documented) {hz : Float32}
    (h : Below 24 hz) : lib.noteOf? hz = some (noteOf hz) := by
  have hconcert : AtLeast 8 (440.0 : Float32) := by decide
  have hpart : Below 64 (hz / 440.0) := (h.div hconcert (by decide) (by decide)).mono (by decide)
  have hlog : Below 6 (lib.ln (hz / 440.0)) := hlib.ln_below _ hpart
  have hsemitones : Below (12 : Nat) (lib.ln (hz / 440.0) / lib.ln semitone) :=
    hlog.div hlib.ln_semitone (by decide) (by decide)
  have hround : Below (13 : Nat) (lib.round (lib.ln (hz / 440.0) / lib.ln semitone)) :=
    hlib.round_below 12 _ hsemitones
  have hhigh : lib.offset hz < 2 ^ 13 := wholePart_lt hround
  have hlow : -2 ^ 31 ≤ lib.offset hz := le_wholePart _
  have hnote : concertNote = 48 := rfl
  exact checked_of ⟨by omega, by omega⟩ _

end Chiptune.Sound
