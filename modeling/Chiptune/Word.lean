/-!
# Words made of bytes

A word is a high and a low byte. Signed offsets are bytes that are widened with
their sign.
-/
namespace Chiptune.Word

def ofBytes (high low : UInt8) : UInt16 := high.toUInt16 * 256 + low.toUInt16

def high (word : UInt16) : UInt8 := (word / 256).toUInt8

def low (word : UInt16) : UInt8 := word.toUInt8

def ofOffset (offset : Int8) : UInt16 := offset.toInt16.toUInt16

@[simp] theorem toNat_ofBytes (h l : UInt8) : (ofBytes h l).toNat = 256 * h.toNat + l.toNat := by
  have := h.toNat_lt
  have := l.toNat_lt
  simp only [ofBytes, UInt16.toNat_add, UInt16.toNat_mul, UInt8.toNat_toUInt16, UInt16.toNat_ofNat]
  omega

@[simp] theorem toNat_high (w : UInt16) : (high w).toNat = w.toNat / 256 := by
  have := w.toNat_lt
  simp only [high, UInt16.toNat_toUInt8, UInt16.toNat_div, UInt16.toNat_ofNat, Nat.reducePow,
    Nat.reduceMod]
  omega

@[simp] theorem toNat_low (w : UInt16) : (low w).toNat = w.toNat % 256 := by
  simp only [low, UInt16.toNat_toUInt8]

@[simp] theorem high_ofBytes (h l : UInt8) : high (ofBytes h l) = h := by
  have := h.toNat_lt
  have := l.toNat_lt
  apply UInt8.toNat_inj.mp
  simp only [toNat_high, toNat_ofBytes]
  omega

@[simp] theorem low_ofBytes (h l : UInt8) : low (ofBytes h l) = l := by
  have := l.toNat_lt
  apply UInt8.toNat_inj.mp
  simp only [toNat_low, toNat_ofBytes]
  omega

@[simp] theorem ofBytes_high_low (w : UInt16) : ofBytes (high w) (low w) = w := by
  apply UInt16.toNat_inj.mp
  simp only [toNat_ofBytes, toNat_high, toNat_low]
  omega

end Chiptune.Word
