import Chiptune.Memory.Basic

/-!
# The processor

One step fetches the instruction at the program counter, moves the counter past
it and carries it out. There are no interrupts and no cycles are counted.
-/
namespace Chiptune

structure Cpu where
  registers : Registers := {}
  /-- The address of the first restart vector. -/
  vectors : UInt16 := 0
  deriving DecidableEq, Repr

/-- The outcome of a step. -/
structure Stepped where
  cpu : Cpu
  memory : Memory
  /-- True when a return was taken. -/
  returned : Bool

namespace Cpu

/-- The instruction at an address; its bytes may wrap around the end of memory. -/
@[specialize] def fetch (read : UInt16 → UInt8) (address : UInt16) : Instruction :=
  .decode (read address) (read (address + 1)) (read (address + 2))

/-- What the next instruction does. -/
@[specialize] def effect (cpu : Cpu) (read : UInt16 → UInt8) : Effect :=
  let r := cpu.registers
  let instruction := fetch read r.pc
  instruction.effect read cpu.vectors { r with pc := r.pc + UInt16.ofNat instruction.length }

/-- The effect of the next instruction in a memory. -/
def effectIn (cpu : Cpu) (memory : Memory) : Effect := cpu.effect fun address => memory.read address

def step (cpu : Cpu) (memory : Memory) : Stepped :=
  let effect := cpu.effectIn memory
  ⟨{ cpu with registers := effect.registers }, memory.apply effect.store, effect.returned⟩

end Cpu
end Chiptune
