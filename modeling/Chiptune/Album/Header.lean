import Chiptune.Storage.FileError
import Chiptune.Text.Blank
import Chiptune.Word

/-!
# The header of an album

A GBS image begins with 0x70 bytes of fixed layout: the magic, a version, the
number of tracks, four little-endian words, two timer registers and three text
fields of 32 Latin-1 characters, each cut at its first NUL and trimmed.
`Header.parse` reads that layout and `Header.layout` writes it.
-/
namespace Chiptune

/-- What is wrong with an album, or with a request for one of its tracks. -/
inductive AlbumError where
  | tooShort (size : Nat)
  | badMagic
  | unsupportedVersion (version : UInt8)
  | trackOutOfRange (track count : Nat)
  | tooManyBanks (limit : Nat)
  | unreadable (cause : FileError)
  deriving DecidableEq, Repr

def AlbumError.message : AlbumError → String
  | .tooShort size => s!"file is {size} bytes, too short to hold a GBS header"
  | .badMagic => "not a GBS file (bad magic)"
  | .unsupportedVersion version => s!"GBS version {version} is not supported, only version 1 is"
  | .trackOutOfRange track count =>
    s!"the file has {count} tracks, index {track} is out of range"
  | .tooManyBanks limit => s!"ROM image needs more than {limit} banks"
  | .unreadable cause => s!"failed to read GBS file: {cause.message}"

namespace Album

structure Header where
  version : UInt8
  trackTotal : UInt8
  /-- The track to play first, counted from one; zero means the first. -/
  startTrack : UInt8
  loadAddress : UInt16
  initAddress : UInt16
  playAddress : UInt16
  stackPointer : UInt16
  timerModulo : UInt8
  timerControl : UInt8
  title : String
  author : String
  copyright : String
  deriving DecidableEq, Repr

namespace Header

def size : Nat := 0x70

def magic : List UInt8 := [0x47, 0x42, 0x53]

def supportedVersion : UInt8 := 1

def textWidth : Nat := 32

/-- The byte at an offset; offsets past the end read as zero. -/
def byteAt (data : ByteArray) (offset : Nat) : UInt8 := data[offset]?.getD 0

def bytesAt (data : ByteArray) (offset count : Nat) : List UInt8 :=
  (List.range count).map fun i => byteAt data (offset + i)

def wordAt (data : ByteArray) (offset : Nat) : UInt16 :=
  Word.ofBytes (byteAt data (offset + 1)) (byteAt data offset)

/-- Latin-1: every byte is the character of the same code point. -/
def latin1 (bytes : List UInt8) : List Char := bytes.map Char.ofUInt8

/-- The text of a field: cut at the first NUL, then trimmed. -/
def fieldText (bytes : List UInt8) : String :=
  String.ofList (Text.trim (latin1 (bytes.takeWhile (· != 0))))

def textAt (data : ByteArray) (offset : Nat) : String :=
  fieldText (bytesAt data offset textWidth)

def parse (data : ByteArray) : Except AlbumError Header :=
  if data.size < size then .error (.tooShort data.size)
  else if bytesAt data 0 3 != magic then .error .badMagic
  else if byteAt data 3 != supportedVersion then .error (.unsupportedVersion (byteAt data 3))
  else .ok {
    version := byteAt data 0x03
    trackTotal := byteAt data 0x04
    startTrack := byteAt data 0x05
    loadAddress := wordAt data 0x06
    initAddress := wordAt data 0x08
    playAddress := wordAt data 0x0A
    stackPointer := wordAt data 0x0C
    timerModulo := byteAt data 0x0E
    timerControl := byteAt data 0x0F
    title := textAt data 0x10
    author := textAt data 0x30
    copyright := textAt data 0x50 }

/-- A word as two bytes, the low one first. -/
def wordBytes (word : UInt16) : List UInt8 := [Word.low word, Word.high word]

/-- A text field: the code points as bytes, filled up with NULs. -/
def fieldBytes (text : String) : List UInt8 :=
  (text.toList.map (fun c : Char => UInt8.ofNat c.toNat) ++
    List.replicate textWidth 0).take textWidth

/-- The header written in its fixed layout. -/
def layout (h : Header) : List UInt8 :=
  magic ++ [h.version, h.trackTotal, h.startTrack] ++ wordBytes h.loadAddress
    ++ wordBytes h.initAddress ++ wordBytes h.playAddress ++ wordBytes h.stackPointer
    ++ [h.timerModulo, h.timerControl]
    ++ fieldBytes h.title ++ fieldBytes h.author ++ fieldBytes h.copyright

def trackCount (h : Header) : Nat := h.trackTotal.toNat

/-- The track to start on, counted from zero. -/
def defaultTrack (h : Header) : Nat := h.startTrack.toNat - 1

def checkTrack (h : Header) (track : Nat) : Except AlbumError Unit :=
  if track < h.trackCount then .ok () else .error (.trackOutOfRange track h.trackCount)

end Header
end Album
end Chiptune
