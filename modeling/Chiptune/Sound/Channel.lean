import Chiptune.Sound.Envelope
import Chiptune.Sound.Length
import Chiptune.Sound.Voice

/-!
# Channels

A channel is a voice with a volume, a frequency, a length counter, an envelope
and a filter that removes a constant level. Its five registers set it up, its
last one also triggers it, and `Channel.render` plays it sample by sample.
-/
namespace Chiptune.Sound

structure Channel where
  enabled : Bool := false
  /-- Whether the channel has power; without it a trigger does not start it. -/
  powered : Bool := false
  left : Bool := false
  right : Bool := false
  volume : UInt8 := 0
  /-- The volume that a trigger starts with. -/
  initialVolume : UInt8 := 0
  /-- The envelope register as last written; a trigger starts the envelope from it. -/
  envelopeRegister : UInt8 := 0
  /-- The sweep register as last written. -/
  sweepRegister : UInt8 := 0
  /-- Eleven bits for tones, the clock shift for noise. -/
  frequency : UInt16 := 0
  phase : Float32 := 0.0
  /-- How many cells one sample is worth. -/
  phaseInc : Float32 := 0.0
  note : UInt8 := 0
  length : LengthCounter := {}
  envelope : Envelope := {}
  /-- The constant level that the filter has found so far. -/
  capacitor : Float32 := 0.0
  voice : Voice
  deriving DecidableEq

namespace Channel

def initial (index : Fin 4) : Channel := { voice := Voice.initial index }

/-- Derives the increment of the phase and the note from the frequency. -/
def refreshPitch (ch : Channel) (sampleRate : Float32) : Channel :=
  let toneHz := ch.voice.toneHz ch.frequency
  { ch with phaseInc := ch.voice.cellHz toneHz / sampleRate, note := noteOf toneHz }

/-- The first register: the sweep of a square, the power of the wave. -/
def writeFirst (ch : Channel) (value : UInt8) : Channel :=
  match ch.voice with
  | .square .. => { ch with sweepRegister := value }
  | .wave _ =>
    let powered := value &&& 0x80 != 0
    { ch with powered, enabled := powered && ch.enabled }
  | .noise .. => ch

/-- The second register: the duty of a square and the length. -/
def writeLength (ch : Channel) (value : UInt8) : Channel :=
  match ch.voice with
  | .square _ step sweep =>
    { ch with
      voice := .square (value >>> 6) step sweep
      length := { ch.length with load := (value &&& 0x3F).toUInt16 } }
  | .wave _ => { ch with length := { ch.length with load := value.toUInt16 } }
  | .noise .. => { ch with length := { ch.length with load := (value &&& 0x3F).toUInt16 } }

/-- The third register of a square or of noise. Its high five bits power the channel; writing it
while the channel plays makes the volume jump. -/
def writeEnvelope (ch : Channel) (value : UInt8) (sampleRate : Float32) : Channel :=
  let powered := value &&& 0xF8 != 0
  let old := ch.envelopeRegister
  let ch := { ch with envelopeRegister := value, initialVolume := value >>> 4, powered }
  if !powered then { ch with enabled := false }
  else if ch.enabled then
    { ch with
      volume := Envelope.jumped ch.volume old value
      envelope := ch.envelope.change value sampleRate }
  else ch

/-- The third register: the volume code of the wave, or the envelope. -/
def writeVolume (ch : Channel) (value : UInt8) (sampleRate : Float32) : Channel :=
  match ch.voice with
  | .wave _ =>
    let code := (value >>> 5) &&& 0x03
    { ch with initialVolume := code, volume := code }
  | _ => ch.writeEnvelope value sampleRate

/-- The fourth register: the low bits of the frequency, or the parameters of the noise. -/
def writeLow (ch : Channel) (value : UInt8) : Channel :=
  match ch.voice with
  | .noise lfsr _ _ =>
    { ch with
      voice := .noise lfsr (value &&& 0x08 != 0) (value &&& 0x07)
      frequency := (value >>> 4).toUInt16 }
  | _ => { ch with frequency := (ch.frequency &&& 0x0700) ||| value.toUInt16 }

/-- Starts the channel from what its registers hold. The wave has neither envelope nor sweep. -/
def trigger (ch : Channel) (sampleRate : Float32) : Channel :=
  let envelope := Envelope.start ch.envelopeRegister sampleRate
  let ch :=
    { ch with
      enabled := ch.powered
      volume := ch.initialVolume
      length := ch.length.reload ch.voice.longest sampleRate }
  match ch.voice with
  | .square duty step sweep =>
    let sweep := sweep.map fun _ => Sweep.start ch.sweepRegister ch.frequency sampleRate
    { ch with envelope, voice := .square duty step sweep }
  | .wave _ => { ch with voice := .wave 0 }
  | .noise _ short divisor => { ch with envelope, voice := .noise 0 short divisor }

/-- The high bits of the frequency, which noise does not have. -/
def writeHigh (ch : Channel) (value : UInt8) : Channel :=
  match ch.voice with
  | .noise .. => ch
  | _ => { ch with frequency := (ch.frequency &&& 0x00FF) ||| (value &&& 0x07).toUInt16 * 256 }

/-- The fifth register: the high bits of the frequency, the switch of the length counter, and the
trigger. -/
def writeControl (ch : Channel) (value : UInt8) (sampleRate : Float32) : Channel :=
  let ch := ch.writeHigh value
  let ch := { ch with length := { ch.length with enabled := value &&& 0x40 != 0 } }
  if value &&& 0x80 != 0 then ch.trigger sampleRate else ch

def write (ch : Channel) (register : Fin 5) (value : UInt8) (sampleRate : Float32) : Channel :=
  match register with
  | 0 => ch.writeFirst value
  | 1 => ch.writeLength value
  | 2 => ch.writeVolume value sampleRate
  | 3 => ch.writeLow value
  | 4 => ch.writeControl value sampleRate

/-- Counts the length by one sample, which may stop the channel. -/
def countLength (ch : Channel) : Channel :=
  { ch with enabled := ch.enabled && !ch.length.expires, length := ch.length.count }

def clockEnvelope (ch : Channel) : Channel :=
  let clocked := ch.envelope.clock ch.volume
  { ch with envelope := clocked.1, volume := clocked.2 }

def clockSweep (ch : Channel) (sampleRate : Float32) : Channel :=
  match ch.voice with
  | .square duty step (some sweep) =>
    let clocked := sweep.clock
    let ch := { ch with voice := .square duty step (some clocked.1) }
    match clocked.2 with
    | .idle => ch
    | .moved frequency => { ch with frequency }.refreshPitch sampleRate
    | .overflow => { ch with enabled := false }
  | _ => ch

/-- What is played, and the channel after it. -/
abbrev Played := Float32 × Channel

def silent (ch : Channel) : Played := (0.0, ch)

/-- Removes the constant level from a sample. -/
def filtered (ch : Channel) (sample decay : Float32) : Played :=
  let out := sample - ch.capacitor
  (out, { ch with capacitor := sample - out * decay })

/-- Moves the voice on by one sample and plays `scale` of its mean level, if there is any. -/
@[inline] def playMean (ch : Channel) (table : WaveTable) (decay : Float32)
    (scale : Float32 → Option Float32) : Played :=
  let mean := ch.voice.average table ch.volume ch.phaseInc ch.phase
  let ch := { ch with phase := mean.phase, voice := mean.cell }
  match scale mean.level with
  | some sample => ch.filtered sample decay
  | none => ch.silent

def playScaled (ch : Channel) (table : WaveTable) (decay : Float32) : Played :=
  ch.playMean table decay fun level => some (level * (ch.volume.toFloat32 / 15.0))

def playWave (ch : Channel) (table : WaveTable) (decay : Float32) : Played :=
  ch.playMean table decay fun level =>
    if ch.volume > 0 then some ((level - waveCentre ch.volume) / 7.5) else none

/-- One sample. A channel that is off, or goes off in this sample, is silent and stands still. -/
def play (table : WaveTable) (sampleRate decay : Float32) (ch : Channel) : Played :=
  let ch := ch.countLength
  if ch.enabled then
    match ch.voice with
    | .square .. =>
      let ch := ch.clockEnvelope.clockSweep sampleRate
      if ch.enabled then ch.playScaled table decay else ch.silent
    | .wave _ => ch.playWave table decay
    | .noise .. => ch.clockEnvelope.playScaled table decay
  else ch.silent

/-- Clock shifts of fourteen and fifteen stop the noise. -/
def stopSlowNoise (ch : Channel) : Channel :=
  match ch.voice with
  | .noise .. => if ch.frequency ≥ 14 then { ch with enabled := false } else ch
  | _ => ch

def prepare (ch : Channel) (sampleRate : Float32) : Channel :=
  (ch.refreshPitch sampleRate).stopSlowNoise

/-- Appends samples to those already played. -/
def playMany (table : WaveTable) (sampleRate decay : Float32) :
    Nat → Array Float32 → Channel → Array Float32 × Channel
  | 0, samples, ch => (samples, ch)
  | n + 1, samples, ch =>
    let played := ch.play table sampleRate decay
    playMany table sampleRate decay n (samples.push played.1) played.2

/-- Plays a period. -/
def render (ch : Channel) (table : WaveTable) (sampleRate decay : Float32) (frames : Nat) :
    Array Float32 × Channel :=
  playMany table sampleRate decay frames #[] (ch.prepare sampleRate)

end Channel
end Chiptune.Sound
