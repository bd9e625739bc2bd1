import Chiptune.Memory.Cells
import Chiptune.Sound.Basic
import Chiptune.TickRate
import Chiptune.Cpu.Execution

/-!
# The memory map

The processor sees 64 KB. Below 0x8000 lies ROM: bank 0, and a window that holds
a copy of a selected bank. Writing there selects the bank or does nothing. The
timer and the sound unit answer for their own registers, and all other cells
are plain memory.
-/
namespace Chiptune

open Album (Bank Rom)

/-- What lies at an address. -/
inductive Region where
  | rom
  | bankSelect
  | timer
  | sound
  | plain
  deriving DecidableEq, Repr

def Region.ofAddress (address : UInt16) : Region :=
  if address < 0x8000 then
    if address < 0x2000 then .rom else if address < 0x4000 then .bankSelect else .rom
  else if address < 0xFF06 then .plain
  else if address ≤ 0xFF07 then .timer
  else if address < 0xFF10 then .plain
  else if address ≤ 0xFF3F then .sound
  else .plain

structure Memory where
  cells : Cells
  rom : Rom
  /-- The number of the bank in the window. -/
  bank : Nat
  sound : SoundUnit
  rate : TickRate

namespace Memory

def new (rom : Rom) (sampleRate : UInt32) : Memory where
  cells := .zero
  rom
  bank := 1
  sound := .new sampleRate
  rate := .new sampleRate

def read (memory : Memory) (address : UInt16) : UInt8 :=
  match Region.ofAddress address with
  | .timer => memory.rate.read address
  | .sound => memory.sound.read address
  | _ => memory.cells.get address

def readWord (memory : Memory) (address : UInt16) : UInt16 :=
  Chiptune.readWord memory.read address

/-- The bank that a number selects: one from 1 to 31 that the image covers. -/
def selectable? (memory : Memory) (number : Nat) : Option Bank :=
  if 0 < number ∧ number < Album.bankLimit then memory.rom.bank? number else none

/-- Copies a bank into the window. Numbers that select nothing are ignored. -/
def selectBank (memory : Memory) (number : Nat) : Memory :=
  match memory.selectable? number with
  | some bank => { memory with cells := memory.cells.mapWindow bank, bank := number }
  | none => memory

def write (memory : Memory) (address : UInt16) (value : UInt8) : Memory :=
  match Region.ofAddress address with
  | .rom => memory
  | .bankSelect => memory.selectBank value.toNat
  | .timer => { memory with rate := memory.rate.write address value }
  | .sound => { memory with sound := memory.sound.write address value }
  | .plain => { memory with cells := memory.cells.set address value }

def writeWord (memory : Memory) (address value : UInt16) : Memory :=
  (memory.write address (Word.low value)).write (address + 1) (Word.high value)

def apply (memory : Memory) : Store → Memory
  | .none => memory
  | .byte address value => memory.write address value
  | .word address value => memory.writeWord address value

/-- Banks 0 and 1 mapped and everything above them cleared. -/
def clear (memory : Memory) : Memory :=
  { memory with
    cells := .ofBanks (memory.rom.bankOrEmpty 0) (memory.rom.bankOrEmpty 1)
    bank := 1 }

def copyVectors (memory : Memory) (load : UInt16) : Memory :=
  { memory with cells := memory.cells.copyVectors load }

end Memory
end Chiptune
