/-!
# Averaging an oscillator over a sample

An oscillator is a sequence of cells of equal length, each with a level. The
phase is the part of the current cell that has passed. One output sample is
worth `inc` cells, and its level is the mean of the cells, weighted by time.
-/
namespace Chiptune.Sound

/-- A level together with where the oscillator stands after it. -/
structure Averaged (Cell : Type) where
  level : Float32
  phase : Float32
  cell : Cell

namespace Averaged

variable {Cell : Type}

/-- Adds up the cells that end within the sample, at most `limit` of them, and the part of the last
one. -/
@[specialize] def sum (next : Cell → Cell) (level : Cell → Float32) :
    Nat → Float32 → Float32 → Float32 → Cell → Averaged Cell
  | 0, phase, remaining, total, cell =>
    ⟨total + remaining * level cell, phase + remaining, cell⟩
  | limit + 1, phase, remaining, total, cell =>
    if phase + remaining > 1.0 then
      let step := 1.0 - phase
      sum next level limit 0.0 (remaining - step) (total + step * level cell) (next cell)
    else ⟨total + remaining * level cell, phase + remaining, cell⟩

/-- One sample of an oscillator. Without an increment it stands still. Every cell takes one from
what is left of the sample, so the whole part of its end bounds their number. -/
@[specialize] def across (next : Cell → Cell) (level : Cell → Float32) (inc phase : Float32)
    (cell : Cell) : Averaged Cell :=
  if inc ≤ 0.0 then ⟨level cell, phase, cell⟩
  else
    let total := sum next level ((phase + inc).toUInt64.toNat + 1) phase inc 0.0 cell
    { total with level := total.level / inc }

end Averaged
end Chiptune.Sound
