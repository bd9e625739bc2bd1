import Chiptune.Deck.Basic
import Chiptune.Recording.Wave

/-!
# Recordings

A recording holds a given number of frames of what a deck plays, tick by tick.
The last block is cut to fit. A paused deck records nothing.
-/
namespace Chiptune

open Sound (Frame)

/-- A recording that is still missing frames cannot go on when a tick has no sound. -/
inductive RecordError where
  | noAudio (written : Nat)
  deriving DecidableEq, Repr

def RecordError.message : RecordError → String
  | .noAudio written => s!"driver produced no audio after {written} frames"

namespace Deck

/-- Appends `missing` more frames to what has been recorded. -/
def recordMore (missing : Nat) (recorded : Array Frame) (deck : Deck) :
    Except RecordError (Array Frame × Deck) :=
  if missing = 0 then .ok (recorded, deck)
  else
    match deck.playTick with
    | (none, deck) => .ok (recorded, deck)
    | (some block, deck) =>
      if block.size = 0 then .error (.noAudio recorded.size)
      else recordMore (missing - block.size) (recorded ++ block.take missing) deck
termination_by missing

/-- Records a number of frames. -/
def record (deck : Deck) (frames : Nat) : Except RecordError (Array Frame × Deck) :=
  recordMore frames #[] deck

/-- How many frames a time in seconds takes; negative times and what is not a number take none. -/
def framesIn (sampleRate : UInt32) (seconds : Float32) : Nat :=
  let seconds := if 0.0 < seconds then seconds else 0.0
  (seconds * sampleRate.toFloat32).toUInt64.toNat

end Deck
end Chiptune
