/-!
# Percentages

A whole percentage from zero to a hundred.
-/
namespace Chiptune

abbrev Percent := Fin 101

namespace Percent

/-- A number cut down to a hundred. -/
def cut (n : Nat) : Percent := ⟨min n 100, by omega⟩

/-- A percentage as a part of one. -/
def part (percent : Percent) : Float32 := percent.val.toUInt32.toFloat32 / 100.0

end Percent
end Chiptune
