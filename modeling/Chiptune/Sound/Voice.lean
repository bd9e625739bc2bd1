import Chiptune.Sound.Phase
import Chiptune.Sound.Pitch
import Chiptune.Sound.Sweep

/-!
# Voices

What a channel plays: a square wave, a wave table or noise. A voice moves on by
one cell at a time: a step of the duty pattern, a nibble of the table, or a
shift of the noise register.
-/
namespace Chiptune.Sound

inductive Voice where
  /-- A duty pattern and the step in it; only the first channel has a sweep. -/
  | square (duty step : UInt8) (sweep : Option Sweep)
  | wave (position : UInt8)
  | noise (lfsr : UInt16) (short : Bool) (divisor : UInt8)
  deriving DecidableEq

/-- The table of thirty-two nibbles, the high one of each byte first. -/
abbrev WaveTable := Vector UInt8 16

namespace WaveTable

def byte (table : WaveTable) (i : Nat) : UInt8 := table[i]?.getD 0

def nibble (table : WaveTable) (position : UInt8) : UInt8 :=
  let byte := table.byte (position / 2).toNat
  if position % 2 == 0 then byte / 16 else byte % 16

/-- The distance of the highest from the lowest nibble, as a part of fifteen. -/
def range (table : WaveTable) : Float32 :=
  let nibbles := table.toList.flatMap fun byte => [byte / 16, byte % 16]
  let low := nibbles.foldl min 15
  let high := nibbles.foldl max 0
  UInt8.toFloat32 (if low ≤ high then high - low else 0) / 15.0

end WaveTable

/-- The eight steps of a duty pattern as bits, the first one highest. -/
def dutyPattern (duty : UInt8) : UInt8 :=
  match duty.toNat with
  | 0 => 0b00000001
  | 1 => 0b10000001
  | 2 => 0b10000111
  | _ => 0b01111110

def squareLevel (duty step : UInt8) : Float32 :=
  if (dutyPattern duty >>> (7 - step)) % 2 == 1 then 1.0 else -1.0

def nextStep (step : UInt8) : UInt8 := (step + 1) % 8

/-- The nibble under the volume code, which shifts it; code zero is silence. -/
def waveLevel (table : WaveTable) (volume position : UInt8) : Float32 :=
  if volume == 0 then 0.0 else (table.nibble position >>> (volume - 1)).toFloat32

def nextPosition (position : UInt8) : UInt8 := (position + 1) % 32

def noiseLevel (lfsr : UInt16) : Float32 := if lfsr % 2 == 1 then 1.0 else -1.0

/-- Shifts the noise register, feeding back the equality of two neighbouring bits: the top two of
fifteen, or of seven in short mode. -/
def nextNoise (short : Bool) (lfsr : UInt16) : UInt16 :=
  let top : UInt16 := if short then 6 else 14
  let bit := ~~~((lfsr >>> top) ^^^ (lfsr >>> (top - 1))) &&& 1
  ((lfsr <<< 1) ||| bit) &&& 0x7FFF

/-- The mean of a full wave after the shift of a volume code. -/
def waveCentre (volume : UInt8) : Float32 :=
  match volume.toNat with
  | 1 => 7.5
  | 2 => 3.75
  | _ => 1.5

/-- The clocks per cell of noise, before the clock shift. -/
def noiseClocks (divisor : UInt8) : UInt32 :=
  if divisor == 0 then 8 else 16 * divisor.toUInt32

/-- The length of one tone in clocks of its channel, from the eleven bits of a frequency. -/
def tonePeriod (frequency : UInt16) : Float32 := (2048 - (frequency &&& 0x7FF)).toFloat32

namespace Voice

/-- The voice that a channel has after power-on. -/
def initial : Fin 4 → Voice
  | 0 => .square 0 0 (some {})
  | 1 => .square 0 0 none
  | 2 => .wave 0
  | 3 => .noise 0 false 0

/-- How many tones per second a frequency gives; for noise, how many cells. -/
def toneHz (voice : Voice) (frequency : UInt16) : Float32 :=
  match voice with
  | .square .. => 131072.0 / tonePeriod frequency
  | .wave _ => 65536.0 / tonePeriod frequency
  | .noise _ _ divisor =>
    clockHz / (noiseClocks divisor <<< (min frequency 15).toUInt32).toFloat32

/-- How many cells per second make up a tone. -/
def cellHz (voice : Voice) (toneHz : Float32) : Float32 :=
  match voice with
  | .square .. => toneHz * 8.0
  | .wave _ => toneHz * 32.0
  | .noise .. => toneHz

/-- The mean level over one sample, with the phase and the voice after it. -/
def average (table : WaveTable) (volume : UInt8) (inc phase : Float32) :
    Voice → Averaged Voice
  | .square duty step sweep =>
    let mean := Averaged.across nextStep (squareLevel duty) inc phase step
    ⟨mean.level, mean.phase, .square duty mean.cell sweep⟩
  | .wave position =>
    let mean := Averaged.across nextPosition (waveLevel table volume) inc phase position
    ⟨mean.level, mean.phase, .wave mean.cell⟩
  | .noise lfsr short divisor =>
    let mean := Averaged.across (nextNoise short) noiseLevel inc phase lfsr
    ⟨mean.level, mean.phase, .noise mean.cell short divisor⟩

/-- The longest time of the length counter, in its ticks. -/
def longest : Voice → UInt16
  | .wave _ => 256
  | _ => 64

end Voice
end Chiptune.Sound
