import Chiptune.Log.Recording
import Chiptune.Session.Options
import Chiptune.Session.Report
import Chiptune.Settings

/-!
# Sessions

A session is one run of the program: it reads the settings and an album, records
a track of the album to a wave file, and keeps the settings for the next
session. What it does to the storage comes last and in this order, so a session
that fails before has changed nothing.
-/
namespace Chiptune

open Log (Event Journal Threshold)

namespace Session

/-- What the surroundings of the program ask for. -/
structure Surroundings where
  settingsPath : Path
  threshold : Threshold := .standard

/-- How a session ends. -/
inductive Ending where
  | success
  | failed (failure : Failure)
  /-- The recording has no sample rate, so there is only a blank head for it. -/
  | aborted
  /-- The arguments were misused, so there was no session. -/
  | misused
  deriving DecidableEq, Repr

/-- What the program leaves to be seen. -/
structure Outcome where
  ending : Ending
  /-- The lines of the standard output. -/
  output : List String := []
  log : String := ""

namespace Outcome

def exitCode (outcome : Outcome) : UInt8 :=
  match outcome.ending with
  | .success => 0
  | .failed _ => 1
  | .misused => 2
  | .aborted => 101

def report? (outcome : Outcome) : Option String :=
  match outcome.ending with
  | .failed failure => some failure.report
  | _ => none

end Outcome

namespace Options

/-- How long a recording is unless its length is given. -/
def standardSeconds : Float32 := 120.0

/-- The speed as a part of one, within a tenth and two. -/
def speedPart (options : Options) : Float32 :=
  (max 10 (min options.speed 200)).toFloat32 / 100.0

/-- How the deck is set up. -/
def deckConfig (options : Options) (settings : Settings) : Deck.Config where
  sampleRate := options.sampleRate
  volume := settings.volume.part
  speed := options.speedPart

/-- How many frames to record. -/
def frames (options : Options) : Nat :=
  Deck.framesIn options.sampleRate (options.seconds.getD standardSeconds)

def threshold (options : Options) (standard : Threshold) : Threshold :=
  if options.debug then .upTo .trace else standard

/-- The settings with those that the options override. -/
def override (options : Options) (settings : Settings) : Settings :=
  match options.volume with
  | some volume => { settings with volume }
  | none => settings

end Options

def loadAlbum (path : Path) (file : Except FileError ByteArray) : Except Failure Album :=
  match file with
  | .error cause => .error (.albumUnusable path (.unreadable cause))
  | .ok data =>
    match Album.ofBytes data with
    | .error cause => .error (.albumUnusable path cause)
    | .ok album => .ok album

def albumEvents (file : Except FileError ByteArray) : List Event :=
  match file with
  | .error _ => []
  | .ok data => Album.loadEvents data

/-- What is said about an album. -/
def introduction (options : Options) (album : Album) : List String :=
  if options.quiet then []
  else
    let header := album.header
    [header.title, header.author, header.copyright, toString header.trackCount ++ " tracks"]

/-- A deck with the album, on the track that is wanted. -/
def startDeck (options : Options) (settings : Settings) (album : Album) : Except Failure Deck :=
  match Deck.new album (options.deckConfig settings) with
  | .error cause => .error (.nothingToPlay cause)
  | .ok deck =>
    match options.track with
    | none => .ok deck
    | some track =>
      match deck.selectTrack track with
      | .error cause => .error (.trackMissing cause)
      | .ok selected => .ok selected

def startEvents (options : Options) (settings : Settings) (album : Album) : List Event :=
  let config := options.deckConfig settings
  let selected :=
    match Deck.new album config, options.track with
    | .ok deck, some track => deck.selectEvents track
    | _, _ => []
  Deck.newEvents album config ++ selected

/-- The recording as a wave file, if it has one, and the number of its frames. -/
def renderWave (options : Options) (deck : Deck) : Except Failure (Nat × Option ByteArray) :=
  match deck.record options.frames with
  | .error cause => .error (.recordingStopped cause)
  | .ok (frames, _) => .ok (frames.size, Wave.encode? options.sampleRate frames)

/-- Watches a recording, unless the log shows nothing anyway. -/
def watch (options : Options) (deck : Deck) (journal : Journal) : Journal :=
  if journal.threshold = .off then journal else deck.watchRecording options.frames journal

/-- The deck that a session records, and where to. -/
structure Recorder where
  deck : Deck
  path : Path

/-- What a session does with the album file before it stores anything. Without a wave file it would
have to play, but there is no device. -/
def prepare (options : Options) (settings : Settings) (file : Except FileError ByteArray) :
    Except Failure Recorder := do
  let album ← loadAlbum options.album file
  match options.wave with
  | none => throw .noDevice
  | some path => return { deck := ← startDeck options settings album, path }

def prepareEvents (options : Options) (settings : Settings) (file : Except FileError ByteArray) :
    List Event :=
  let started :=
    match loadAlbum options.album file, options.wave with
    | .ok album, some _ => startEvents options settings album
    | _, _ => []
  albumEvents file ++ started

def outputOf (options : Options) (file : Except FileError ByteArray) : List String :=
  match loadAlbum options.album file with
  | .error _ => []
  | .ok album => introduction options album

variable {m : Type → Type} [Monad m] [Storage m]

def loadSettings (surroundings : Surroundings) (options : Options) : m Settings := do
  if options.noConfig then return {}
  else return Settings.ofFile (← Storage.read surroundings.settingsPath)

/-- Records to the file that has been created for it. -/
def recordTo (path : Path) (options : Options) (deck : Deck) (journal : Journal) :
    m (Except Ending Journal) := do
  match renderWave options deck with
  | .error failure => return .error (.failed failure)
  | .ok (frames, wave) =>
    match ← Storage.writeAt path (wave.getD Wave.blankHead.toByteArray), wave with
    | .error cause, _ => return .error (.failed (.waveNotStored cause))
    | .ok _, none => return .error .aborted
    | .ok _, some _ => return .ok ((watch options deck journal).add [.recorded frames path])

/-- Stores the recording and goes on with the journal, unless the session ends here. The file is
created before anything is recorded, so no recording is made in vain. -/
def record (options : Options) (recorder : Recorder) (journal : Journal) :
    m (Except Ending Journal) := do
  match ← Storage.store recorder.path .empty with
  | .error cause => return .error (.failed (.waveNotStored cause))
  | .ok _ => recordTo recorder.path options recorder.deck journal

/-- Keeps the settings for the next session. A session goes well even if that fails. -/
def saveSettings (surroundings : Surroundings) (options : Options) (settings : Settings) :
    m (List Event) := do
  let path := surroundings.settingsPath
  if options.noConfig then return []
  else
    match ← Storage.store path settings.content with
    | .ok _ => return [.settingsSaved path]
    | .error cause => return [.settingsNotSaved path cause.cause]

def play (surroundings : Surroundings) (options : Options) : m Outcome := do
  let settings := options.override (← loadSettings surroundings options)
  let file ← Storage.read options.album
  let output := outputOf options file
  let journal : Journal := { threshold := options.threshold surroundings.threshold }
  let journal := journal.add (prepareEvents options settings file)
  match prepare options settings file with
  | .error failure => return { ending := .failed failure, output, log := journal.text }
  | .ok recorder =>
    match ← record options recorder journal with
    | .error ending => return { ending, output, log := journal.text }
    | .ok journal =>
      let journal := journal.add (← saveSettings surroundings options settings)
      return { ending := .success, output, log := journal.text }

/-- A session with the arguments of the program. -/
def run (surroundings : Surroundings) (arguments : List String) : m Outcome := do
  match Options.parse? arguments with
  | none => return { ending := .misused }
  | some options => play surroundings options

end Session
end Chiptune
