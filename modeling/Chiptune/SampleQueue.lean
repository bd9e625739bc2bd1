import Chiptune.Sound.Frame

/-!
# The queue of samples

A ring of slots between the renderer and the sound device. Frames leave it in
the order in which they came, and a frame that finds it full is refused. One
slot more than the capacity tells a full ring from an empty one. `toList` is
the content, oldest first.
-/
namespace Chiptune

open Sound (Frame)

structure SampleQueue where
  slots : Array Frame
  /-- The slot that the next frame is written to. -/
  head : Nat
  /-- The slot of the oldest frame, when there is one. -/
  tail : Nat
  two_le_size : 2 ≤ slots.size
  head_lt : head < slots.size
  tail_lt : tail < slots.size

namespace SampleQueue

/-- An empty queue for `capacity` frames, and for one at the least. -/
def ofCapacity (capacity : Nat) : SampleQueue where
  slots := Array.replicate (max (capacity + 1) 2) .silence
  head := 0
  tail := 0
  two_le_size := by simp only [Array.size_replicate]; omega
  head_lt := by simp only [Array.size_replicate]; omega
  tail_lt := by simp only [Array.size_replicate]; omega

def capacity (queue : SampleQueue) : Nat := queue.slots.size - 1

def length (queue : SampleQueue) : Nat :=
  if queue.tail ≤ queue.head then queue.head - queue.tail
  else queue.slots.size - queue.tail + queue.head

def isEmpty (queue : SampleQueue) : Bool := queue.length == 0

def free (queue : SampleQueue) : Nat := queue.capacity - queue.length

/-- The slot after a slot, around the ring. -/
def after (queue : SampleQueue) (slot : Nat) : Nat :=
  if slot + 1 = queue.slots.size then 0 else slot + 1

theorem after_lt (queue : SampleQueue) {slot : Nat} (h : slot < queue.slots.size) :
    queue.after slot < queue.slots.size := by
  unfold after
  split <;> omega

/-- The slot at a distance from the oldest one, around the ring. -/
def slotAt (queue : SampleQueue) (distance : Nat) : Nat :=
  (queue.tail + distance) % queue.slots.size

/-- The frames in the queue, oldest first. -/
def toList (queue : SampleQueue) : List Frame :=
  (List.range queue.length).map fun i => (queue.slots[queue.slotAt i]?).getD .silence

/-- Appends a frame; none when the queue is full. -/
def push? (queue : SampleQueue) (frame : Frame) : Option SampleQueue :=
  if queue.after queue.head = queue.tail then none
  else some
    { slots := queue.slots.set queue.head frame queue.head_lt
      head := queue.after queue.head
      tail := queue.tail
      two_le_size := by simpa using queue.two_le_size
      head_lt := by simpa using queue.after_lt queue.head_lt
      tail_lt := by simpa using queue.tail_lt }

/-- Appends frames until one is refused. The count is of those that were taken. -/
def pushMany (queue : SampleQueue) : List Frame → Nat × SampleQueue
  | [] => (0, queue)
  | frame :: rest =>
    match queue.push? frame with
    | none => (0, queue)
    | some next =>
      let taken := next.pushMany rest
      (taken.1 + 1, taken.2)

/-- Appends the frames of interleaved samples. -/
def pushInterleaved (queue : SampleQueue) (samples : List Float32) : Nat × SampleQueue :=
  queue.pushMany (Frame.ofInterleaved samples)

/-- Removes the oldest frame. -/
def pop? (queue : SampleQueue) : Option (Frame × SampleQueue) :=
  if queue.tail = queue.head then none
  else
    have := queue.tail_lt
    let next :=
      { queue with tail := queue.after queue.tail, tail_lt := queue.after_lt queue.tail_lt }
    some (queue.slots[queue.tail], next)

end SampleQueue
end Chiptune
