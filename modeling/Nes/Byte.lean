/-! Bytes, addresses and the words that two bytes make. All arithmetic wraps at
the width of its type, so an address never leaves the 64 KiB space and a byte
never leaves its page. -/
namespace Nes

abbrev Byte := UInt8
abbrev Address := UInt16

/-- Bit `i` of a byte, counted from the least significant. -/
def bit (b : Byte) (i : Nat) : Bool := b.toNat.testBit i

/-- The little-endian word of two bytes. -/
def word (lo hi : Byte) : Address := UInt16.ofNat (256 * hi.toNat + lo.toNat)

def low (a : Address) : Byte := UInt8.ofNat a.toNat
def high (a : Address) : Byte := UInt8.ofNat (a.toNat / 256)

/-- The two's complement reading of a byte, as a displacement of addresses. -/
def displacement (b : Byte) : Address :=
  if b < 0x80 then b.toUInt16 else b.toUInt16 + 0xFF00

/-- The following address, with the page held fixed. -/
def nextInPage (a : Address) : Address := word (low a + 1) (high a)

theorem toNat_word (lo hi : Byte) : (word lo hi).toNat = 256 * hi.toNat + lo.toNat := by
  have := lo.toNat_lt
  have := hi.toNat_lt
  simp only [word, UInt16.toNat_ofNat']
  omega

theorem toNat_low (a : Address) : (low a).toNat = a.toNat % 256 := by
  simp [low]

theorem toNat_high (a : Address) : (high a).toNat = a.toNat / 256 := by
  have := a.toNat_lt
  simp only [high, UInt8.toNat_ofNat']
  omega

@[simp] theorem low_word (lo hi : Byte) : low (word lo hi) = lo := by
  have := lo.toNat_lt
  apply UInt8.toNat_inj.1
  rw [toNat_low, toNat_word]
  omega

@[simp] theorem high_word (lo hi : Byte) : high (word lo hi) = hi := by
  have := lo.toNat_lt
  apply UInt8.toNat_inj.1
  rw [toNat_high, toNat_word]
  omega

@[simp] theorem word_low_high (a : Address) : word (low a) (high a) = a := by
  apply UInt16.toNat_inj.1
  rw [toNat_word, toNat_low, toNat_high]
  omega

end Nes
