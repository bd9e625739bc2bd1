import Chiptune.Log.Event
import Chiptune.Memory.Basic

/-!
# Events of writing memory

What a write makes the log tell is determined by the memory before it.
-/
namespace Chiptune

open Log (Event)

/-- The rate after it has been derived anew. -/
def TickRate.event (rate : TickRate) : Event := .rateChanged rate.hz rate.samplesPerTick

def TickRate.writeEvents (rate : TickRate) (address : UInt16) (value : UInt8) : List Event :=
  if rate.changedBy address value then [(rate.write address value).event] else []

/-- A write to the register of an envelope tells the jumps of a playing channel, and a write to the
last register tells the trigger. -/
def Sound.Channel.writeEvents (ch : Channel) (index : Fin 4) (register : Fin 5) (value : UInt8) :
    List Event :=
  match register with
  | 2 =>
    match ch.voice with
    | .wave _ => []
    | _ =>
      if ch.enabled && value &&& 0xF8 != 0 then
        (Envelope.jumps ch.volume ch.envelopeRegister value).map .volumeJumped
      else []
  | 4 => if value &&& 0x80 != 0 then [.triggered index ch.enabled] else []
  | _ => []

def SoundUnit.writeEvents (unit : SoundUnit) (address : UInt16) (value : UInt8) : List Event :=
  let effects :=
    match Sound.Register.ofAddress address with
    | .channel index register => (unit.channels.get index).writeEvents index register value
    | _ => []
  .soundWritten address value :: effects

namespace Memory

def selectEvent (memory : Memory) (number : Nat) : Event :=
  if number = 0 ∨ Album.bankLimit ≤ number then .bankIgnored number
  else
    match memory.rom.bank? number with
    | none => .bankMissing number
    | some _ => .bankMapped number

/-- The interrupt registers are plain memory that is never acted upon. -/
def plainEvents (address : UInt16) (value : UInt8) : List Event :=
  if address = 0xFF0F ∨ address = 0xFFFF then [.interruptWritten address value] else []

def writeEvents (memory : Memory) (address : UInt16) (value : UInt8) : List Event :=
  match Region.ofAddress address with
  | .rom => [.romWritten address value]
  | .bankSelect => [memory.selectEvent value.toNat]
  | .timer => .timerWritten address value :: memory.rate.writeEvents address value
  | .sound => memory.sound.writeEvents address value
  | .plain => plainEvents address value

def applyEvents (memory : Memory) : Store → List Event
  | .none => []
  | .byte address value => memory.writeEvents address value
  | .word address value =>
    memory.writeEvents address (Word.low value)
      ++ (memory.write address (Word.low value)).writeEvents (address + 1) (Word.high value)

/-- The events of writing bytes at consecutive addresses. -/
def writeAllEvents (memory : Memory) (address : UInt16) : List UInt8 → List Event
  | [] => []
  | value :: rest =>
    memory.writeEvents address value ++
      (memory.write address value).writeAllEvents (address + 1) rest

end Memory
end Chiptune
