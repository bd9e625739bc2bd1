import Chiptune.Recording.Basic
import Chiptune.Storage.Basic

/-!
# Why a session fails

A failure is told as a chain: what could not be done, then its cause, then the
cause of that. The report gives the chain as text.
-/
namespace Chiptune.Session

inductive Failure where
  | albumUnusable (path : Path) (cause : AlbumError)
  | nothingToPlay (cause : AlbumError)
  | trackMissing (cause : AlbumError)
  | recordingStopped (cause : RecordError)
  | waveNotStored (cause : StoreError)
  | noDevice
  deriving DecidableEq, Repr

/-- The messages from a problem of an album down to its last cause. -/
def albumChain (cause : AlbumError) : List String :=
  match cause with
  | .unreadable reason => [cause.message, reason.message]
  | _ => [cause.message]

/-- The messages from what failed down to the last cause. -/
def Failure.chain : Failure → List String
  | .albumUnusable path cause => s!"failed to load {path}" :: albumChain cause
  | .nothingToPlay cause => albumChain cause
  | .trackMissing cause => "cannot start requested track" :: albumChain cause
  | .recordingStopped cause => [cause.message]
  | .waveNotStored (.directory path cause) => [s!"failed to create {path}", cause.message]
  | .waveNotStored (.file path cause) => [s!"failed to create WAV file {path}", cause.message]
  | .noDevice => ["no audio output device"]

/-- The causes below the first message; several ones are numbered. -/
def causeLines : List String → List String
  | [cause] => ["    " ++ cause]
  | causes => causes.mapIdx fun i cause => "    " ++ toString i ++ ": " ++ cause

/-- The report of a chain of messages. -/
def reportOf : List String → String
  | [] => "Error"
  | [message] => "Error: " ++ message
  | message :: causes =>
    "Error: " ++ message ++ "\n\nCaused by:\n" ++ "\n".intercalate (causeLines causes)

def Failure.report (failure : Failure) : String := reportOf failure.chain

end Chiptune.Session
