/-!
# Pitch

Notes are numbered in equal-tempered semitones, with 440 Hz as note 48.
-/
namespace Chiptune.Sound

/-- The clock of the processor, in Hz. -/
def clockHz : Float32 := 4194304.0

/-- The ratio of two neighbouring semitones. -/
def semitone : Float32 := 1.0594631

def concertNote : Int := 48

/-- How many words of 32 bits there are. -/
def wordCount : Nat := 0x100000000

/-- A finite value rounded toward zero and kept within 32 bits with sign; what is not a number
gives zero. -/
def wholePart (x : Float32) : Int :=
  if x < 0 then -((-x).toUInt32.toNat.min (wordCount / 2))
  else x.toUInt32.toNat.min (wordCount / 2 - 1)

/-- The nearest note to a frequency, kept within a byte. The sum is one of 32-bit words. -/
def noteOf (hz : Float32) : UInt8 :=
  let offset := wholePart ((hz / 440.0).log / semitone.log).round
  let note := (offset + concertNote).bmod wordCount
  UInt8.ofNat (min note.toNat 255)

/-- The decay per sample of the filter that removes a constant level. -/
def decayAt (sampleRate : UInt32) : Float32 :=
  (0.999958 : Float32).pow (clockHz / sampleRate.toFloat32)

end Chiptune.Sound
