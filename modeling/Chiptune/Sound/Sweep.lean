/-!
# The frequency sweep

A sweep moves the frequency of the first channel by a part of itself at every
tick. A step beyond eleven bits, or a sweep without a shift, stops the channel.
-/
namespace Chiptune.Sound

structure Sweep where
  /-- The frequency that the next step starts from. -/
  shadow : UInt16 := 0
  period : UInt8 := 0
  falling : Bool := false
  shift : UInt8 := 0
  counter : Float32 := 0.0
  inc : Float32 := 0.0
  deriving DecidableEq

/-- What the ticks of one sample come to. -/
inductive SweepEvent where
  | idle
  | moved (frequency : UInt16)
  | overflow
  deriving DecidableEq, Repr

namespace Sweep

def highestFrequency : UInt16 := 2047

/-- The least number above one. -/
def justDue : Float32 := Float32.ofBits 0x3F800001

/-- The sweep that a register value starts at a frequency. Period zero never ticks; any other is
due on the first sample. -/
def start (register : UInt8) (frequency : UInt16) (sampleRate : Float32) : Sweep :=
  let period := (register >>> 4) &&& 0x07
  { shadow := frequency
    period
    falling := register &&& 0x08 != 0
    shift := register &&& 0x07
    inc := if period == 0 then 0.0 else 128.0 / period.toFloat32 / sampleRate
    counter := if period == 0 then 0.0 else justDue }

/-- The frequency one step on. -/
def next (s : Sweep) : UInt16 :=
  let delta := s.shadow >>> s.shift.toUInt16
  if s.falling then s.shadow - delta else s.shadow + delta

/-- Runs the ticks that are due, at most `limit` of them; an overflow drops those that are left. -/
def runDue : Nat → Sweep → SweepEvent → Sweep × SweepEvent
  | 0, s, event => (s, event)
  | limit + 1, s, event =>
    if s.counter > 1.0 then
      let s := { s with counter := s.counter - 1.0 }
      if s.shift != 0 then
        if s.next > highestFrequency then (s, .overflow)
        else runDue limit { s with shadow := s.next } (.moved s.next)
      else if s.period != 0 then (s, .overflow)
      else runDue limit s event
    else (s, event)

/-- One sample. A tick lowers the counter by one, so its whole part bounds their number. -/
def clock (s : Sweep) : Sweep × SweepEvent :=
  let s := { s with counter := s.counter + s.inc }
  if s.counter > 1.0 then s.runDue s.counter.toUInt64.toNat .idle else (s, .idle)

end Sweep
end Chiptune.Sound
