import Nes.Byte

/-! Screen mirroring: how the four logical nametables of the picture are laid
over the nametable memory that is really there. -/
namespace Nes

inductive Mirroring where
  | horizontal
  | vertical
  | fourScreen
  deriving DecidableEq, Inhabited

namespace Mirroring

def label : Mirroring → String
  | horizontal => "Horizontal"
  | vertical => "Vertical"
  | fourScreen => "FourScreen"

def ofLabel? (text : String) : Option Mirroring :=
  [horizontal, vertical, fourScreen].find? (·.label == text)

/-- The bytes of one nametable. -/
abbrev tableSize : Nat := 0x400

/-- The bytes of nametable memory: four tables, or two that are shared. -/
def vramSize : Mirroring → Nat
  | fourScreen => 0x1000
  | horizontal | vertical => 0x800

/-- The bank that backs a logical nametable: horizontal mirroring shares a bank
between neighbours in a row, vertical between neighbours in a column. -/
def bank (m : Mirroring) (table : Nat) : Nat :=
  match m with
  | horizontal => table / 2
  | vertical => table % 2
  | fourScreen => table

/-- The index in nametable memory of an address. Only the low twelve bits of the
address select a table and an offset. -/
def vramIndex (m : Mirroring) (a : Address) : Nat :=
  m.bank (a.toNat % 0x1000 / tableSize) * tableSize + a.toNat % tableSize

theorem vramIndex_lt (m : Mirroring) (a : Address) : m.vramIndex a < m.vramSize := by
  cases m <;> simp only [vramIndex, vramSize, bank, tableSize] <;> omega

end Mirroring
end Nes
