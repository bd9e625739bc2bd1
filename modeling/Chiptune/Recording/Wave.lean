import Chiptune.Sound.Frame

/-!
# Wave files

A wave file holds stereo frames of 32-bit floating-point samples. Its head
names the format in the extensible form, with both front speakers, and is
followed by the samples, interleaved and little-endian.
-/
namespace Chiptune.Wave

open Sound (Frame)

def bytes16 (n : Nat) : List UInt8 := [UInt8.ofNat n, UInt8.ofNat (n / 0x100)]

def bytes32 (n : Nat) : List UInt8 := bytes16 n ++ bytes16 (n / 0x10000)

def ascii (text : String) : List UInt8 := text.toList.map fun (c : Char) => c.toUInt8

/-- The identifier of floating-point samples. -/
def floatFormat : List UInt8 :=
  bytes32 3 ++ [0x00, 0x00, 0x10, 0x00, 0x80, 0x00, 0x00, 0xAA, 0x00, 0x38, 0x9B, 0x71]

/-- The size of a frame in bytes. -/
def frameSize : Nat := 8

/-- How many bytes a second takes, in 32 bits. -/
def byteRate (sampleRate : UInt32) : UInt32 := sampleRate * 8

/-- The size of a frame as the head tells it: the byte rate over the sample rate. -/
def statedFrameSize (sampleRate : UInt32) : UInt32 := byteRate sampleRate / sampleRate

/-- The format chunk. -/
def format (sampleRate : UInt32) : List UInt8 :=
  bytes16 0xFFFE ++ bytes16 2 ++ bytes32 sampleRate.toNat
    ++ bytes32 (byteRate sampleRate).toNat ++ bytes16 (statedFrameSize sampleRate).toNat
    ++ bytes16 32 ++ bytes16 22 ++ bytes16 32 ++ bytes32 3 ++ floatFormat

/-- Everything before the samples. -/
def head (sampleRate : UInt32) (frames : Nat) : List UInt8 :=
  ascii "RIFF" ++ bytes32 (frames * frameSize + 60) ++ ascii "WAVE"
    ++ ascii "fmt " ++ bytes32 40 ++ format sampleRate
    ++ ascii "data" ++ bytes32 (frames * frameSize)

def sampleBytes (sample : Float32) : List UInt8 := bytes32 sample.toBits.toNat

def frameBytes (frame : Frame) : List UInt8 := sampleBytes frame.left ++ sampleBytes frame.right

/-- The samples as they stand in a file. -/
def data (frames : Array Frame) : ByteArray :=
  frames.foldl (fun bytes frame => (frameBytes frame).foldl ByteArray.push bytes) .empty

/-- An otherwise blank head with the two sizes that a file without frames has. -/
def blankHead : List UInt8 :=
  bytes32 0 ++ bytes32 60 ++ List.replicate 56 0 ++ bytes32 0

/-- The wave file of a recording. There is none without a sample rate, since the head cannot tell
the size of a frame then. -/
def encode? (sampleRate : UInt32) (frames : Array Frame) : Option ByteArray :=
  if sampleRate = 0 then none
  else some ((head sampleRate frames.size).toByteArray ++ data frames)

end Chiptune.Wave
