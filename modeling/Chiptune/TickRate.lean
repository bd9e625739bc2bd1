/-!
# How often the music driver runs

The timer registers choose the rate of driver ticks, a user setting speeds it
up or slows it down, and the sample rate then gives the number of output
samples that one tick is worth. The derived fields are kept up to date by
`recompute`, which every setter ends with.
-/
namespace Chiptune

structure TickRate where
  /-- The timer modulo register, 0xFF06. -/
  modulo : UInt8
  /-- The timer control register, 0xFF07. -/
  control : UInt8
  speed : Float32
  sampleRate : UInt32
  /-- Ticks per second. -/
  hz : Float32
  /-- Interleaved stereo samples per tick: two for every frame. -/
  samplesPerTick : Nat
  deriving DecidableEq

namespace TickRate

/-- The rate while the timer is off: that of the screen's vertical blank. -/
def verticalBlankHz : Float32 := 59.7

def slowest : Float32 := 0.1

def fastest : Float32 := 2.0

/-- The clock that the low two bits of the control register select. -/
def clockHz (control : UInt8) : Float32 :=
  match (control % 4).toNat with
  | 0 => 4096.0
  | 1 => 262144.0
  | 2 => 65536.0
  | _ => 16384.0

/-- The rate that the timer registers ask for. Bit 2 turns the timer on, and then bit 7 doubles
its clock. -/
def timerHz (modulo control : UInt8) : Float32 :=
  if control &&& 0x04 == 0 then verticalBlankHz
  else
    let hz := clockHz control / (256 - modulo.toUInt32).toFloat32
    if control &&& 0x80 == 0 then hz else hz * 2.0

/-- Keeps a speed within its limits; what is not a number stays. -/
def clampSpeed (speed : Float32) : Float32 :=
  if speed < slowest then slowest else if fastest < speed then fastest else speed

def recompute (rate : TickRate) : TickRate :=
  let hz := timerHz rate.modulo rate.control * rate.speed
  { rate with
    hz
    samplesPerTick := (rate.sampleRate.toFloat32 / hz).toUInt64.toNat * 2 }

def new (sampleRate : UInt32) : TickRate :=
  recompute
    { modulo := 0, control := 0, speed := 1.0, sampleRate, hz := verticalBlankHz,
      samplesPerTick := 0 }

def framesPerTick (rate : TickRate) : Nat := rate.samplesPerTick / 2

def read (rate : TickRate) (address : UInt16) : UInt8 :=
  if address = 0xFF06 then rate.modulo
  else if address = 0xFF07 then rate.control
  else 0xFF

/-- True when writing `value` at `address` changes a timer register. -/
def changedBy (rate : TickRate) (address : UInt16) (value : UInt8) : Bool :=
  (address == 0xFF06 && rate.modulo != value) || (address == 0xFF07 && rate.control != value)

/-- Writes a timer register. A write that changes nothing leaves the rate as it is. -/
def write (rate : TickRate) (address : UInt16) (value : UInt8) : TickRate :=
  if rate.changedBy address value then
    if address = 0xFF06 then recompute { rate with modulo := value }
    else recompute { rate with control := value }
  else rate

def setTimer (rate : TickRate) (modulo control : UInt8) : TickRate :=
  recompute { rate with modulo, control }

def setSpeed (rate : TickRate) (speed : Float32) : TickRate :=
  recompute { rate with speed := clampSpeed speed }

end TickRate
end Chiptune
