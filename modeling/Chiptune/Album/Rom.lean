import Chiptune.Album.Header

/-!
# The ROM image of an album

The image follows the header and is placed at the load address. It is cut into
banks of 16 KB, one after the other, until nothing is left of it or the banks run
out. Bytes of a bank outside the image are zero.
-/
namespace Chiptune.Album

def bankSize : Nat := 0x4000

theorem bankSize_pos : 0 < bankSize := Nat.zero_lt_succ _

def bankLimit : Nat := 32

def zeros (count : Nat) : ByteArray := ⟨Array.replicate count 0⟩

@[simp] theorem size_zeros (count : Nat) : (zeros count).size = count := by
  simp [zeros, ByteArray.size]

structure Bank where
  bytes : ByteArray
  size_eq : bytes.size = bankSize

namespace Bank

def get (bank : Bank) (i : Nat) (h : i < bankSize) : UInt8 :=
  bank.bytes.get i (by rw [bank.size_eq]; exact h)

theorem get_eq_getD (bank : Bank) (i : Nat) (h : i < bankSize) :
    bank.get i h = bank.bytes.data[i]?.getD 0 := by
  rw [get, Array.getElem?_eq_getElem, Option.getD_some]
  rfl

/-- A bank that holds `part` from `offset` on and zeros elsewhere. -/
def place (offset : Nat) (part : ByteArray) (h : offset + part.size ≤ bankSize) : Bank where
  bytes := zeros offset ++ part ++ zeros (bankSize - offset - part.size)
  size_eq := by simp only [ByteArray.size_append, size_zeros]; omega

def empty : Bank where
  bytes := zeros bankSize
  size_eq := size_zeros bankSize

end Bank

/-- The banks that have been filled; an image need not cover all of them. -/
structure Rom where
  banks : Vector (Option Bank) bankLimit

namespace Rom

/-- No bank is filled. -/
def blank : Rom := ⟨Vector.replicate bankLimit none⟩

def put (rom : Rom) (number : Nat) (bank : Bank) : Rom :=
  ⟨rom.banks.setIfInBounds number (some bank)⟩

/-- The bank with number `index`, if it is filled. -/
def bank? (rom : Rom) (index : Nat) : Option Bank := rom.banks[index]?.join

/-- The bank with number `index`, or zeros. -/
def bankOrEmpty (rom : Rom) (index : Nat) : Bank := (rom.bank? index).getD .empty

def bankCount (rom : Rom) : Nat := rom.banks.countP Option.isSome

/-- How many bytes of an image a bank takes from `offset` on. -/
def taken (offset : Fin bankSize) (image : ByteArray) : Nat := min image.size (bankSize - offset)

theorem offset_add_size_le (offset : Fin bankSize) (image : ByteArray) :
    offset + (image.extract 0 (taken offset image)).size ≤ bankSize := by
  rw [ByteArray.size_extract, taken]
  omega

/-- The bank that takes these bytes. -/
def page (offset : Fin bankSize) (image : ByteArray) : Bank :=
  .place offset (image.extract 0 (taken offset image)) (offset_add_size_le offset image)

/-- What it leaves of the image. -/
def remainder (offset : Fin bankSize) (image : ByteArray) : ByteArray :=
  image.extract (taken offset image) image.size

/-- Where an image that is placed at `load` begins in its first bank. -/
def firstOffset (load : Nat) : Fin bankSize := ⟨load % bankSize, Nat.mod_lt load bankSize_pos⟩

/-- Fills one bank after the other until nothing is left of an image, the first one from `offset`
on. -/
def fill (rom : Rom) (number : Nat) (offset : Fin bankSize) (remaining : ByteArray) :
    Except AlbumError Rom :=
  if bankLimit ≤ number then .error (.tooManyBanks bankLimit)
  else
    let filled := rom.put number (page offset remaining)
    let rest := remainder offset remaining
    if rest.isEmpty then .ok filled else filled.fill (number + 1) ⟨0, bankSize_pos⟩ rest
termination_by bankLimit - number

/-- Cuts an image, placed at `load`, into banks. -/
def cut (image : ByteArray) (load : Nat) : Except AlbumError Rom :=
  blank.fill (load / bankSize) (firstOffset load) image

end Rom
end Chiptune.Album
