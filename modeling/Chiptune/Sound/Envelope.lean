/-!
# The volume envelope

An envelope moves the volume of a channel by one at every tick, up or down. A
tick is due whenever the counter has passed one. When the volume arrives at
either end, the envelope stops: its increment becomes zero.
-/
namespace Chiptune.Sound

structure Envelope where
  period : UInt8 := 0
  rising : Bool := false
  counter : Float32 := 0.0
  inc : Float32 := 0.0
  deriving DecidableEq

namespace Envelope

/-- The progress per sample: 64 Hz divided by the period; period zero runs at 8 Hz. -/
def step (period : UInt8) (sampleRate : Float32) : Float32 :=
  if period == 0 then 8.0 / sampleRate else 64.0 / period.toFloat32 / sampleRate

def periodOf (register : UInt8) : UInt8 := register &&& 0x07

def risingOf (register : UInt8) : Bool := register &&& 0x08 != 0

/-- The envelope that a register value starts. -/
def start (register : UInt8) (sampleRate : Float32) : Envelope :=
  { period := periodOf register
    rising := risingOf register
    inc := step (periodOf register) sampleRate
    counter := 0.0 }

def running (e : Envelope) : Bool := e.inc != 0.0

/-- The volume after a tick. -/
def moved (e : Envelope) (volume : UInt8) : UInt8 :=
  if e.period == 0 then volume
  else if e.rising then if volume < 15 then volume + 1 else volume
  else if volume > 0 then volume - 1 else volume

/-- A tick that leaves the volume at an end stops the envelope. -/
def tick (e : Envelope) (volume : UInt8) : Envelope × UInt8 :=
  let volume := e.moved volume
  let stops := e.period != 0 && (volume == 0 || volume == 15)
  ({ e with inc := if stops then 0.0 else e.inc, counter := e.counter - 1.0 }, volume)

/-- Runs the ticks that are due, at most `limit` of them. -/
def runDue : Nat → Envelope → UInt8 → Envelope × UInt8
  | 0, e, volume => (e, volume)
  | limit + 1, e, volume =>
    if e.counter > 1.0 then
      let next := e.tick volume
      runDue limit next.1 next.2
    else (e, volume)

/-- One sample. A tick lowers the counter by one, so its whole part bounds their number. -/
def clock (e : Envelope) (volume : UInt8) : Envelope × UInt8 :=
  let e := { e with counter := e.counter + e.inc }
  if e.counter > 1.0 then e.runDue e.counter.toUInt64.toNat volume else (e, volume)

/-- The changes of the volume when the register is written while the channel plays. -/
inductive Jump where
  | one
  | two
  | reflect
  deriving DecidableEq, Repr

/-- The jumps that writing the register makes, in order. -/
def jumps (volume old new : UInt8) : List Jump :=
  let automatic := if risingOf old then volume < 15 else volume > 0
  let first :=
    if periodOf old == 0 && automatic then [.one] else if risingOf old then [] else [.two]
  if risingOf old == risingOf new then first else first ++ [.reflect]

def Jump.apply (volume : UInt8) : Jump → UInt8
  | .one => volume + 1
  | .two => volume + 2
  | .reflect => 16 - volume

/-- The volume after the register is written while the channel plays. -/
def jumped (volume old new : UInt8) : UInt8 :=
  (jumps volume old new).foldl Jump.apply volume &&& 0x0F

/-- The envelope after its register is written while the channel plays. A stopped one stays so. -/
def change (e : Envelope) (new : UInt8) (sampleRate : Float32) : Envelope :=
  { e with
    period := periodOf new
    rising := risingOf new
    inc := if e.running then step (periodOf new) sampleRate else e.inc }

end Envelope
end Chiptune.Sound
