import Nes.WorkRam

/-! The CPU's address map: which part of the console answers an address. -/
namespace Nes

inductive Region where
  | ram (cell : WorkRam.Cell)
  | registers
  | rom (offset : Fin 0x8000)
  | unmapped
  deriving DecidableEq

def Region.ofAddress (a : Address) : Region :=
  if a < 0x2000 then .ram (WorkRam.cellOf a)
  else if a < 0x4000 then .registers
  else if h : 0x8000 ≤ a.toNat then
    .rom ⟨a.toNat - 0x8000, by have := a.toNat_lt; omega⟩
  else .unmapped

/-- Where the address of the first instruction is kept. -/
def resetAddress : Address := 0xFFFC

/-- The byte of the reset vector at an offset into the program window, if any. -/
def vectorIndex? (offset : Fin 0x8000) : Option (Fin 2) :=
  if offset = 0x7FFC then some 0 else if offset = 0x7FFD then some 1 else none

end Nes
