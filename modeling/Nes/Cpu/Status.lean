import Nes.Byte

/-! The eight status flags and the byte they are stored as. Two of the flags
only say how the byte got onto the stack. -/
namespace Nes

structure Status where
  carry : Bool := false
  zero : Bool := false
  interruptDisable : Bool := false
  decimal : Bool := false
  breakLow : Bool := false
  breakHigh : Bool := false
  overflow : Bool := false
  negative : Bool := false
  deriving DecidableEq

namespace Status

/-- Carry is the least significant bit, negative the most significant. -/
def toByte (s : Status) : Byte :=
  UInt8.ofNat (s.carry.toNat + 2 * s.zero.toNat + 4 * s.interruptDisable.toNat +
    8 * s.decimal.toNat + 16 * s.breakLow.toNat + 32 * s.breakHigh.toNat +
    64 * s.overflow.toNat + 128 * s.negative.toNat)

def ofByte (b : Byte) : Status where
  carry := bit b 0
  zero := bit b 1
  interruptDisable := bit b 2
  decimal := bit b 3
  breakLow := bit b 4
  breakHigh := bit b 5
  overflow := bit b 6
  negative := bit b 7

/-- Whether all flags of a mask are set. -/
def contains (s : Status) (mask : Byte) : Bool := s.toByte &&& mask == mask

/-- Sets or clears all flags of a mask. -/
def assign (s : Status) (mask : Byte) (on : Bool) : Status :=
  ofByte (if on then s.toByte ||| mask else s.toByte &&& ~~~mask)

/-- Zero and negative as a result byte has them. -/
def ofResult (s : Status) (result : Byte) : Status :=
  { s with zero := result == 0, negative := bit result 7 }

def withBreak (s : Status) (on : Bool) : Status := { s with breakLow := on, breakHigh := on }

@[simp] theorem ofByte_toByte (s : Status) : ofByte s.toByte = s := by
  obtain ⟨c, z, i, d, b, h, v, n⟩ := s
  revert c z i d b h v n
  decide

end Status
end Nes
