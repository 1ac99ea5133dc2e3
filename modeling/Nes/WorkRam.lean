import Nes.Byte

/-! Work RAM: 2 KiB of cells. The address lines above the eleventh are not
connected, so every cell answers at four addresses of its window. -/
namespace Nes

structure WorkRam where
  cells : Vector Byte 0x800 := .replicate 0x800 0

namespace WorkRam

abbrev Cell := Fin 0x800

/-- The cell that answers an address. -/
def cellOf (a : Address) : Cell := ⟨a.toNat % 0x800, Nat.mod_lt _ (by decide)⟩

def get (ram : WorkRam) (cell : Cell) : Byte := ram.cells[cell]

def set (ram : WorkRam) (cell : Cell) (v : Byte) : WorkRam := { ram with cells := ram.cells.set cell v }

def read (ram : WorkRam) (a : Address) : Byte := ram.get (cellOf a)

def write (ram : WorkRam) (a : Address) (v : Byte) : WorkRam := ram.set (cellOf a) v

/-- The position behind a block that begins at `start`. There is none beyond the reach of
64 bits. -/
def stop? (start : UInt64) (size : Nat) :
    Option { stop : UInt64 // stop.toNat = start.toNat + size } :=
  if bound : start.toNat + size < UInt64.size then
    some ⟨UInt64.ofNat (start.toNat + size), UInt64.toNat_ofNat_of_lt' bound⟩
  else none

/-- Copies bytes to consecutive cells, the first of them to the cell numbered `start`. -/
def copy (ram : WorkRam) (start : Nat) :
    (bytes : List Byte) → start + bytes.length ≤ 0x800 → WorkRam
  | [], _ => ram
  | v :: rest, room =>
    have here : start + rest.length < 0x800 := room
    (ram.set ⟨start, by omega⟩ v).copy (start + 1) rest (by omega)

/-- Copies a block to the cells from `start` on, if there are that many. Otherwise nothing is
copied. Answers whether it was. -/
def load (ram : WorkRam) (start : UInt64) (block : Array Byte) : Bool × WorkRam :=
  match stop? start block.size with
  | none => (false, ram)
  | some ⟨stop, ends⟩ =>
    if inside : start ≤ stop ∧ stop ≤ 0x800 then
      have room : start.toNat + block.toList.length ≤ 0x800 :=
        ends ▸ UInt64.le_iff_toNat_le.1 inside.2
      (true, ram.copy start.toNat block.toList room)
    else (false, ram)

@[simp] theorem get_set_same (ram : WorkRam) (cell : Cell) (v : Byte) :
    (ram.set cell v).get cell = v := by
  simp [get, set]

@[simp] theorem get_set_other (ram : WorkRam) {cell other : Cell} (v : Byte) (h : other ≠ cell) :
    (ram.set cell v).get other = ram.get other := by
  have apart : cell.val ≠ other.val := fun same => h (Fin.ext same.symm)
  simp [get, set, apart]

@[ext] theorem ext {ram other : WorkRam} (h : ∀ cell, ram.get cell = other.get cell) :
    ram = other := by
  obtain ⟨cells⟩ := ram
  obtain ⟨others⟩ := other
  congr 1
  exact Vector.ext fun i hi => h ⟨i, hi⟩

end WorkRam
end Nes
