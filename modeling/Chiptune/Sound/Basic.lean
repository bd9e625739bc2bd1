import Chiptune.Sound.Channel
import Chiptune.Sound.Frame
import Chiptune.Sound.Register

/-!
# The sound unit

Four channels, the registers that set them up, and the mixer. Mute flags and
the master volume are settings of the user: they change what is heard, and
resetting the unit keeps them.
-/
namespace Chiptune
open Sound

structure SoundUnit where
  channels : Vector Channel 4
  wave : WaveTable
  /-- The registers from 0xFF10 to 0xFF25 as last written. -/
  registers : Vector UInt8 22
  powered : Bool
  volumeLeft : Float32
  volumeRight : Float32
  muted : Vector Bool 4
  masterVolume : Float32
  sampleRate : UInt32
  /-- What each channel played in the last period. -/
  scopes : Vector (Array Float32) 4

namespace SoundUnit

def new (sampleRate : UInt32) : SoundUnit where
  channels := Vector.ofFn Channel.initial
  wave := Vector.replicate 16 0
  registers := Vector.replicate 22 0
  powered := false
  volumeLeft := 0.0
  volumeRight := 0.0
  muted := Vector.replicate 4 false
  masterVolume := 1.0
  sampleRate
  scopes := Vector.replicate 4 #[]

/-- The state after power-on, with the settings of the user kept. -/
def reset (unit : SoundUnit) : SoundUnit :=
  { new unit.sampleRate with muted := unit.muted, masterVolume := unit.masterVolume }

/-- The sample rate as a number to calculate with. -/
def rate (unit : SoundUnit) : Float32 := unit.sampleRate.toFloat32

/-- One bit for every channel that is on. -/
def enabledBits (unit : SoundUnit) : UInt8 :=
  (List.finRange 4).foldl
    (fun bits i => if unit.channels[i].enabled then bits ||| (1 <<< UInt8.ofNat i) else bits) 0

/-- The bits that a register holds, before those that always read as one. -/
def stored (unit : SoundUnit) : Register → UInt8
  | .channel index number => unit.registers.get (Register.slot index number)
  | .volume => unit.registers.get Register.volumeSlot
  | .routing => unit.registers.get Register.routingSlot
  | .power => (if unit.powered then 0x80 else 0) ||| unit.enabledBits
  | .wave index => unit.wave.get index
  | .unused => 0

def read (unit : SoundUnit) (address : UInt16) : UInt8 :=
  let register := Register.ofAddress address
  unit.stored register ||| register.mask

/-- A volume field of three bits as a part of seven. -/
def volumePart (bits : UInt8) : Float32 := (bits &&& 0x07).toFloat32 / 7.0

/-- Whether bit `index` is set. -/
def routes (value : UInt8) (index : Nat) : Bool := (value >>> UInt8.ofNat index) &&& 1 != 0

def writeRegister (unit : SoundUnit) (value : UInt8) : Register → SoundUnit
  | .channel index register =>
    { unit with
      registers := unit.registers.set (Register.slot index register) value
      channels := unit.channels.set index (unit.channels[index].write register value unit.rate) }
  | .volume =>
    { unit with
      registers := unit.registers.set Register.volumeSlot value
      volumeLeft := volumePart (value >>> 4)
      volumeRight := volumePart value }
  | .routing =>
    { unit with
      registers := unit.registers.set Register.routingSlot value
      channels := unit.channels.mapIdx fun i ch =>
        { ch with left := routes value (4 + i), right := routes value i } }
  | .power =>
    let powered := value &&& 0x80 != 0
    { unit with
      powered
      channels :=
        if powered then unit.channels
        else unit.channels.map fun ch => { ch with enabled := false } }
  | .wave index => { unit with wave := unit.wave.set index value }
  | .unused => unit

def write (unit : SoundUnit) (address : UInt16) (value : UInt8) : SoundUnit :=
  unit.writeRegister value (Register.ofAddress address)

/-- Each channel's share of the mix. -/
def channelGain : Float32 := 0.25

def leftGain (unit : SoundUnit) (ch : Channel) : Float32 :=
  if ch.left then channelGain * unit.volumeLeft else 0.0

def rightGain (unit : SoundUnit) (ch : Channel) : Float32 :=
  if ch.right then channelGain * unit.volumeRight else 0.0

/-- Adds what one channel played to a block, unless it is muted. -/
def addChannel (unit : SoundUnit) (block : Array Frame) (index : Fin 4) : Array Frame :=
  if unit.muted[index] then block
  else
    let left := unit.leftGain unit.channels[index]
    let right := unit.rightGain unit.channels[index]
    Array.zipWith (fun frame sample => frame.add sample left right) block unit.scopes[index]

/-- The block of what the channels played last: the channels that are not muted, one after the
other, then the master volume. -/
def mix (unit : SoundUnit) (frames : Nat) : Array Frame :=
  ((List.finRange 4).foldl unit.addChannel (Array.replicate frames .silence)).map
    (·.scale unit.masterVolume)

/-- Plays a period on every channel. -/
def play (unit : SoundUnit) (frames : Nat) : SoundUnit :=
  let decay := decayAt unit.sampleRate
  let played := unit.channels.map (·.render unit.wave unit.rate decay frames)
  { unit with channels := played.map (·.2), scopes := played.map (·.1) }

/-- Plays a period and mixes it. -/
def render (unit : SoundUnit) (frames : Nat) : Array Frame × SoundUnit :=
  let unit := unit.play frames
  (unit.mix frames, unit)

/-- Keeps a volume within zero and one; what is not a number stays. -/
def clampVolume (volume : Float32) : Float32 :=
  if volume < 0.0 then 0.0 else if volume > 1.0 then 1.0 else volume

def setMasterVolume (unit : SoundUnit) (volume : Float32) : SoundUnit :=
  { unit with masterVolume := clampVolume volume }

def isMuted (unit : SoundUnit) (index : Fin 4) : Bool := unit.muted[index]

def setMuted (unit : SoundUnit) (index : Fin 4) (muted : Bool) : SoundUnit :=
  { unit with muted := unit.muted.set index muted }

def toggleMute (unit : SoundUnit) (index : Fin 4) : SoundUnit :=
  unit.setMuted index !unit.isMuted index

/-- Whether nothing of a channel can be heard. -/
def isSilent (unit : SoundUnit) (index : Fin 4) : Bool :=
  let ch := unit.channels[index]
  unit.muted[index] || !ch.enabled || !ch.powered || !(ch.left || ch.right) || ch.volume == 0

/-- The note of a channel, while it can be heard. -/
def note? (unit : SoundUnit) (index : Fin 4) : Option UInt8 :=
  if unit.isSilent index then none else some unit.channels[index].note

/-- The level of a channel on each side, as shown. A wave's volume code is turned into a level with
the range of its table. -/
def shownVolume (unit : SoundUnit) (ch : Channel) (routed : Bool) : UInt8 :=
  let volume := if routed then ch.volume else 0
  match ch.voice with
  | .wave _ =>
    if volume == 0 then 0 else (5.0 * (4 - volume).toFloat32 * unit.wave.range).toUInt8
  | _ => volume

def level (unit : SoundUnit) (index : Fin 4) : UInt8 × UInt8 :=
  let ch := unit.channels[index]
  (unit.shownVolume ch ch.left, unit.shownVolume ch ch.right)

/-- The noise register of the last channel. -/
def noiseRegister (unit : SoundUnit) : UInt16 :=
  match (unit.channels.get noise).voice with
  | .noise lfsr _ _ => lfsr
  | _ => 0

end SoundUnit
end Chiptune
