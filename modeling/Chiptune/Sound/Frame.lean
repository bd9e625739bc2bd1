/-!
# Stereo frames

A frame is one sample for each side. A block of frames is written interleaved,
the left sample first.
-/
namespace Chiptune.Sound

structure Frame where
  left : Float32
  right : Float32
  deriving DecidableEq

namespace Frame

def silence : Frame := ⟨0.0, 0.0⟩

/-- Adds a mono sample with a gain for each side. -/
def add (frame : Frame) (sample left right : Float32) : Frame :=
  ⟨frame.left + sample * left, frame.right + sample * right⟩

def scale (frame : Frame) (volume : Float32) : Frame :=
  ⟨frame.left * volume, frame.right * volume⟩

/-- The samples of a block, interleaved. -/
def interleave (block : List Frame) : List Float32 := block.flatMap fun f => [f.left, f.right]

/-- The frames that interleaved samples make up; an odd last sample is dropped. -/
def ofInterleaved : List Float32 → List Frame
  | left :: right :: rest => ⟨left, right⟩ :: ofInterleaved rest
  | _ => []

end Frame
end Chiptune.Sound
