import Chiptune.Album.Rom

/-!
# Memory cells

The 64 KB that the processor addresses. Every operation has a lemma that says
what can be read after it.
-/
namespace Chiptune

open Album (Bank bankSize zeros size_zeros)

def addressCount : Nat := 0x10000

structure Cells where
  bytes : ByteArray
  size_eq : bytes.size = addressCount

theorem size_setByte (bytes : ByteArray) (i : Nat) (value : UInt8) (h : i < bytes.size) :
    (bytes.set i value h).size = bytes.size := by
  cases bytes
  simp [ByteArray.set, ByteArray.size]

namespace Cells

theorem toNat_lt_size (cells : Cells) (address : UInt16) : address.toNat < cells.bytes.size := by
  rw [cells.size_eq]
  exact address.toNat_lt

def get (cells : Cells) (address : UInt16) : UInt8 :=
  cells.bytes.get address.toNat (cells.toNat_lt_size address)

theorem get_eq_getD (cells : Cells) (address : UInt16) :
    cells.get address = cells.bytes.data[address.toNat]?.getD 0 := by
  rw [get, Array.getElem?_eq_getElem, Option.getD_some]
  rfl

theorem ext_get {x y : Cells} (h : ∀ address, x.get address = y.get address) : x = y := by
  cases x with | mk xs hx =>
  cases y with | mk ys hy =>
  congr
  apply ByteArray.ext
  apply Array.ext
  · rw [ByteArray.size_data, ByteArray.size_data, hx, hy]
  · intro i hi _
    rw [ByteArray.size_data, hx] at hi
    have := h (UInt16.ofNat i)
    have e : (UInt16.ofNat i).toNat = i := UInt16.toNat_ofNat_of_lt hi
    simp only [get_eq_getD, e] at this
    rw [Array.getElem?_eq_getElem, Array.getElem?_eq_getElem] at this
    exact this

def zero : Cells := ⟨zeros addressCount, size_zeros _⟩

def set (cells : Cells) (address : UInt16) (value : UInt8) : Cells where
  bytes := cells.bytes.set address.toNat value (cells.toNat_lt_size address)
  size_eq := (size_setByte ..).trans cells.size_eq

theorem get_set (cells : Cells) (a b : UInt16) (value : UInt8) :
    (cells.set a value).get b = if a = b then value else cells.get b := by
  simp only [get_eq_getD, set, ByteArray.data_set, Array.getElem?_set, UInt16.toNat_inj]
  split
  · rfl
  · rfl

/-- The cells with a bank in the window from 0x4000 to 0x7FFF. -/
def mapWindow (cells : Cells) (bank : Bank) : Cells where
  bytes := bank.bytes.copySlice 0 cells.bytes bankSize bankSize
  size_eq := by
    rw [ByteArray.copySlice_eq_append]
    simp only [ByteArray.size_append, ByteArray.size_extract, bank.size_eq, cells.size_eq,
      ByteArray.size_data]
    decide

theorem get_mapWindow (cells : Cells) (bank : Bank) (address : UInt16) :
    (cells.mapWindow bank).get address =
      if h : bankSize ≤ address.toNat ∧ address.toNat < 2 * bankSize then
        bank.get (address.toNat - bankSize) (by omega)
      else cells.get address := by
  have hlt := address.toNat_lt
  have hb := bank.size_eq
  have hc := cells.size_eq
  rw [← ByteArray.size_data] at hb hc
  simp only [get_eq_getD, Bank.get_eq_getD, mapWindow, ByteArray.copySlice_eq_append,
    ByteArray.data_append, ByteArray.data_extract, Array.getElem?_append, Array.size_append,
    Array.size_extract, Array.getElem?_extract, hb, hc]
  have hbank : bankSize = 0x4000 := rfl
  have hcount : addressCount = 0x10000 := rfl
  generalize bankSize = width at *
  generalize addressCount = count at *
  repeat' split
  all_goals first | omega | (congr 2; omega)

/-- Two banks from address zero on, and zeros above them. -/
def ofBanks (low window : Bank) : Cells where
  bytes := low.bytes ++ window.bytes ++ zeros (addressCount - 2 * bankSize)
  size_eq := by
    simp only [ByteArray.size_append, low.size_eq, window.size_eq, size_zeros]
    decide

theorem get_ofBanks (low window : Bank) (address : UInt16) :
    (ofBanks low window).get address =
      if h : address.toNat < bankSize then low.get address.toNat h
      else if h : address.toNat < 2 * bankSize then
        window.get (address.toNat - bankSize) (by omega)
      else 0 := by
  have hlt := address.toNat_lt
  have hl := low.size_eq
  have hw := window.size_eq
  rw [← ByteArray.size_data] at hl hw
  simp only [get_eq_getD, Bank.get_eq_getD, ofBanks, ByteArray.data_append, Array.getElem?_append,
    Array.size_append, hl, hw, zeros, Array.getElem?_replicate]
  have hbank : bankSize = 0x4000 := rfl
  have hcount : addressCount = 0x10000 := rfl
  generalize bankSize = width at *
  generalize addressCount = count at *
  repeat' split
  all_goals first | omega | congr 2

/-- How many bytes at the load address are copied down to the fixed vectors. -/
def vectorCount : Nat := 0x62

/-- The last address, at most `vectorCount` bytes on. -/
def vectorEnd (load : UInt16) : Nat := min (load.toNat + vectorCount) addressCount

/-- The cells with the bytes at the load address copied down to address zero, so that calls of the
fixed vectors arrive in the image. -/
def copyVectors (cells : Cells) (load : UInt16) : Cells where
  bytes :=
    cells.bytes.extract load.toNat (vectorEnd load)
      ++ cells.bytes.extract (vectorEnd load - load.toNat) addressCount
  size_eq := by
    have := load.toNat_lt
    simp only [ByteArray.size_append, ByteArray.size_extract, cells.size_eq, vectorEnd,
      vectorCount, addressCount]
    omega

theorem get_copyVectors (cells : Cells) (load address : UInt16) :
    (cells.copyVectors load).get address =
      if address.toNat < vectorCount ∧ load.toNat + address.toNat < addressCount then
        cells.get (load + address)
      else cells.get address := by
  have hlt := address.toNat_lt
  have hload := load.toNat_lt
  have hc := cells.size_eq
  have hsum : (load + address).toNat = (load.toNat + address.toNat) % 65536 := by
    simp [UInt16.toNat_add]
  rw [← ByteArray.size_data] at hc
  simp only [get_eq_getD, copyVectors, ByteArray.data_append, ByteArray.data_extract,
    Array.getElem?_append, Array.size_extract, Array.getElem?_extract, hc, hsum]
  simp only [vectorEnd, vectorCount, addressCount] at *
  grind

end Cells
end Chiptune
