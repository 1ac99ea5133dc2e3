import Nes.Byte

/-! The control byte and the status flags of the picture unit. -/
namespace Nes.Ppu

structure Control where
  bits : Byte := 0
  deriving DecidableEq

namespace Control

/-- How far the pointer moves after an access: across a row or down a column. -/
def increment (c : Control) : Byte := if bit c.bits 2 then 32 else 1

/-- The address of the selected nametable. -/
def nametable (c : Control) : Address := 0x2000 + 0x400 * (c.bits % 4).toUInt16

end Control

structure Flags where
  spriteOverflow : Bool := false
  spriteZeroHit : Bool := false
  vblank : Bool := false
  deriving DecidableEq

def Flags.toByte (f : Flags) : Byte :=
  UInt8.ofNat (0x20 * f.spriteOverflow.toNat + 0x40 * f.spriteZeroHit.toNat + 0x80 * f.vblank.toNat)

end Nes.Ppu
