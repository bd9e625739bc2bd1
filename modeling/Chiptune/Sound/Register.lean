/-!
# The registers of the sound unit

The registers lie from 0xFF10 on: five for each channel, then the master
volume, the routing and the power switch, a gap, and the wave table.
-/
namespace Chiptune.Sound

/-- What an address of the sound unit stands for. -/
inductive Register where
  | channel (index : Fin 4) (number : Fin 5)
  | volume
  | routing
  | power
  | wave (index : Fin 16)
  | unused
  deriving DecidableEq, Repr

/-- The first channel, the square with a sweep. -/
def square1 : Fin 4 := ⟨0, by decide⟩

def square2 : Fin 4 := ⟨1, by decide⟩

def wave : Fin 4 := ⟨2, by decide⟩

def noise : Fin 4 := ⟨3, by decide⟩

namespace Register

def base : Nat := 0xFF10

def ofOffset (offset : Nat) : Register :=
  if h : offset < 20 then .channel ⟨offset / 5, by omega⟩ ⟨offset % 5, by omega⟩
  else if offset = 20 then .volume
  else if offset = 21 then .routing
  else if offset = 22 then .power
  else if offset < 32 then .unused
  else if offset < 48 then .wave (Fin.ofNat 16 offset)
  else .unused

def ofAddress (address : UInt16) : Register :=
  if base ≤ address.toNat then ofOffset (address.toNat - base) else .unused

/-- The bits of each register that always read as one, from 0xFF10 to 0xFF26. -/
def masks : Vector UInt8 23 :=
  #v[0x80, 0x3F, 0x00, 0xFF, 0xBF,
    0xFF, 0x3F, 0x00, 0xFF, 0xBF,
    0x7F, 0xFF, 0x9F, 0xFF, 0xBF,
    0xFF, 0xFF, 0x00, 0x00, 0xBF,
    0x00, 0x00, 0x70]

/-- The place of a channel's register in the register file. -/
def slot (index : Fin 4) (number : Fin 5) : Fin 22 :=
  ⟨5 * index.val + number.val, by omega⟩

def volumeSlot : Fin 22 := 20

def routingSlot : Fin 22 := 21

/-- The bits that always read as one. -/
def mask : Register → UInt8
  | .channel index number => masks[(slot index number).val]
  | .volume => masks[20]
  | .routing => masks[21]
  | .power => masks[22]
  | .wave _ => 0x00
  | .unused => 0xFF

end Register
end Chiptune.Sound
