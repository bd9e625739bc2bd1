import Chiptune.Album.Header
import Chiptune.Cpu.Registers
import Chiptune.Log.Level
import Chiptune.Sound.Envelope
import Chiptune.Storage.FileError
import Chiptune.Text.Decimal
import Chiptune.Text.Steering

/-!
# Log events

An event is something that the log can tell about. Each has a level, a source
and a message, and the text of the log is made of the three. A message may have
several lines, of which the further ones are indented, and may name things in
characters that would steer a terminal; these are left out.
-/
namespace Chiptune.Log

open Text (hexByte hexWord)

inductive Event where
  | bankLoaded (bank size : Nat)
  | albumLoaded (header : Album.Header)
  | rateChanged (hz : Float32) (samples : Nat)
  | startTrackReplaced (number : UInt8)
  /-- A track, counted from zero, of so many starts. -/
  | trackStarted (track count : Nat)
  | cpuReady (registers : Registers)
  | budgetSpent (steps : Nat) (registers : Registers)
  | ticksBatched (count : Nat)
  | romWritten (address : UInt16) (value : UInt8)
  | timerWritten (address : UInt16) (value : UInt8)
  | interruptWritten (address : UInt16) (value : UInt8)
  /-- A number outside the range of banks was selected. -/
  | bankIgnored (bank : Nat)
  /-- A bank that the album does not have was selected. -/
  | bankMissing (bank : Nat)
  | bankMapped (bank : Nat)
  | soundWritten (address : UInt16) (value : UInt8)
  | triggered (channel : Fin 4) (again : Bool)
  | volumeJumped (jump : Sound.Envelope.Jump)
  | recorded (frames : Nat) (path : String)
  | settingsSaved (path : String)
  | settingsNotSaved (path : String) (cause : FileError)
  deriving DecidableEq

namespace Event

def level : Event → Level
  | .startTrackReplaced .. | .budgetSpent .. | .bankMissing .. | .settingsNotSaved .. => .warn
  | .albumLoaded .. | .trackStarted .. | .recorded .. | .settingsSaved .. => .info
  | .bankLoaded .. | .rateChanged .. | .cpuReady .. | .triggered .. | .volumeJumped .. => .debug
  | .ticksBatched .. | .romWritten .. | .timerWritten .. | .interruptWritten .. | .bankIgnored ..
  | .bankMapped .. | .soundWritten .. => .trace

/-- The part of the program that an event comes from. -/
def source : Event → String
  | .bankLoaded .. | .albumLoaded .. => "chiptick_core::gbs"
  | .rateChanged .. => "chiptick_core::timer"
  | .startTrackReplaced .. | .trackStarted .. | .cpuReady .. | .budgetSpent .. | .ticksBatched .. =>
    "chiptick_core::machine"
  | .romWritten .. | .timerWritten .. | .interruptWritten .. | .bankIgnored .. | .bankMissing ..
  | .bankMapped .. => "chiptick_core::mmu"
  | .soundWritten .. | .triggered .. | .volumeJumped .. => "chiptick_core::apu"
  | .recorded .. => "chiptick::wav"
  | .settingsSaved .. | .settingsNotSaved .. => "chiptick"

/-- A value written at an address. -/
def writeText (address : UInt16) (value : UInt8) : String :=
  hexWord address ++ " <- " ++ hexByte value

/-- The short name of a channel. -/
def channelName : Fin 4 → String
  | 0 => "sq1"
  | 1 => "sq2"
  | 2 => "wave"
  | 3 => "noise"

def jumpText : Sound.Envelope.Jump → String
  | .one => "(zombie vol++)"
  | .two => "(zombie vol+=2)"
  | .reflect => "(zombie swap)"

def message : Event → String
  | .bankLoaded bank size => s!"Bank {bank}: {size} bytes"
  | .albumLoaded header =>
    "Loaded GBS: \"" ++ header.title ++ "\" by " ++ header.author ++ " (" ++ header.copyright
      ++ "), " ++ toString header.trackCount ++ " tracks"
  | .rateChanged hz samples =>
    "Tick rate " ++ Text.fixed 4 hz ++ " Hz (" ++ toString samples ++ " samples per tick)"
  | .startTrackReplaced number => s!"Start track {number} out of range, starting at track 1"
  | .trackStarted track count => "Starting track " ++ toString (track + 1) ++ "/" ++ toString count
  | .cpuReady registers => "CPU ready: " ++ registers.text
  | .budgetSpent steps registers =>
    "Driver tick exceeded " ++ toString steps ++ " instructions at " ++ registers.text
  | .ticksBatched count => s!"{count} driver ticks batched into one frame"
  | .romWritten address value => "Ignored ROM write: " ++ writeText address value
  | .timerWritten address value => "Timer write: " ++ writeText address value
  | .interruptWritten address value => "Interrupt register write: " ++ writeText address value
  | .bankIgnored bank => s!"Ignored bank switch to {bank}"
  | .bankMissing bank => s!"Ignored bank switch to unmapped bank {bank}"
  | .bankMapped bank => s!"Bank {bank} mapped"
  | .soundWritten address value => "Audio write: " ++ writeText address value
  | .triggered channel again =>
    "(trigger " ++ channelName channel ++ (if again then ", retrigger)" else ")")
  | .volumeJumped jump => jumpText jump
  | .recorded frames path => s!"Wrote {frames} frames to {path}"
  | .settingsSaved path => s!"Saved config to {path}"
  | .settingsNotSaved path cause => s!"Failed to save config {path}: {cause.message}"

/-- The lines of an event, the last one ended too. -/
def lines (event : Event) : String :=
  "[" ++ event.level.label ++ " " ++ event.source ++ "] " ++ event.message.replace "\n" "\n    "
    ++ "\n"

/-- What the log shows of an event. -/
def text (event : Event) : String := Text.withoutSteering event.lines

end Event
end Chiptune.Log
