import Nes.Cartridge.Mirroring

/-! Cartridges. The header says how many banks of program and of pattern memory
there are and how the screen is mirrored; the cartridge carries the banks. The
CPU sees program memory through a 32 KiB window, in which a single bank appears
twice. -/
namespace Nes

/-- What the first sixteen bytes of an image declare. -/
structure Header where
  prgBanks : Byte
  chrBanks : Byte
  mapper : Byte
  version : Byte
  mirroring : Mirroring
  hasTrainer : Bool
  deriving DecidableEq

namespace Header

abbrev prgBankSize : Nat := 0x4000
abbrev chrBankSize : Nat := 0x2000

def prgSize (h : Header) : Nat := prgBankSize * h.prgBanks.toNat
def chrSize (h : Header) : Nat := chrBankSize * h.chrBanks.toNat

end Header

/-- A cartridge with at least one program bank and banks as declared. -/
structure Cartridge where
  header : Header
  prgRom : Array Byte
  chrRom : Array Byte
  prg_size : prgRom.size = header.prgSize
  chr_size : chrRom.size = header.chrSize
  prgBanks_pos : 0 < header.prgBanks.toNat

namespace Cartridge

/-- Where program memory answers an offset into its address space: a single bank
repeats, more banks follow one another. -/
def prgOffset (c : Cartridge) (offset : Nat) : Nat :=
  if c.prgRom.size = Header.prgBankSize then offset % Header.prgBankSize else offset

theorem prgOffset_lt (c : Cartridge) (offset : Fin 0x8000) :
    c.prgOffset offset < c.prgRom.size := by
  have size := c.prg_size
  have pos := c.prgBanks_pos
  simp only [Header.prgSize, Header.prgBankSize] at size
  simp only [prgOffset, Header.prgBankSize]
  split <;> omega

/-- The byte at an offset into the CPU's window. -/
def prgByte (c : Cartridge) (offset : Fin 0x8000) : Byte :=
  have := c.prgOffset_lt offset
  c.prgRom[c.prgOffset offset]

/-- The byte at any CPU address, counted from the start of the window. Addresses
below the window lie far behind it, where only a cartridge with enough banks has
a byte. -/
def prgByte? (c : Cartridge) (a : Address) : Option Byte :=
  c.prgRom[c.prgOffset (a - 0x8000).toNat]?

theorem prgByte?_eq_prgByte (c : Cartridge) (offset : Fin 0x8000) (a : Address)
    (inWindow : a.toNat = 0x8000 + offset) : c.prgByte? a = some (c.prgByte offset) := by
  have distance : (a - 0x8000).toNat = offset := by
    rw [UInt16.toNat_sub_of_le _ _ (by rw [UInt16.le_iff_toNat_le]; simp; omega)]
    simp; omega
  have bound := c.prgOffset_lt offset
  simp only [prgByte?, prgByte, distance]
  exact Array.getElem?_eq_getElem bound

def mirroring (c : Cartridge) : Mirroring := c.header.mirroring

end Cartridge
end Nes
