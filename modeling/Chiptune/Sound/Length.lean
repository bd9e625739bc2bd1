/-!
# The length counter

A counter may stop a channel after a time. It counts in fractions of its whole
time and expires when it has passed one.
-/
namespace Chiptune.Sound

structure LengthCounter where
  load : UInt16 := 0
  enabled : Bool := false
  counter : Float32 := 0.0
  inc : Float32 := 0.0
  deriving DecidableEq

namespace LengthCounter

/-- Starts the count over: `longest - load` ticks of a clock of 256 Hz. -/
def reload (length : LengthCounter) (longest : UInt16) (sampleRate : Float32) : LengthCounter :=
  let ticks := longest - min length.load (longest - 1)
  { length with inc := 256.0 / ticks.toFloat32 / sampleRate, counter := 0.0 }

/-- Counts one sample. -/
def count (length : LengthCounter) : LengthCounter :=
  if length.enabled then
    let counter := length.counter + length.inc
    { length with counter := if counter > 1.0 then 0.0 else counter }
  else length

/-- True when counting one sample makes the counter expire. -/
def expires (length : LengthCounter) : Bool :=
  length.enabled && length.counter + length.inc > 1.0

end LengthCounter
end Chiptune.Sound
