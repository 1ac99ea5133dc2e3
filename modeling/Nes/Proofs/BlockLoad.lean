import Nes.WorkRam

/-! A block is loaded into work RAM as a whole or not at all. Its end is reckoned in 64 bits, which
does not change what fits: the answer is that of exact numbers. The cells are written by their
numbers, and what was written is found at all of their addresses. -/
namespace Nes.WorkRam

/-- Bytes lie in the cells from `start` on, in order, and the other cells are as they were. -/
structure Overlaid (ram : WorkRam) (start : Nat) (bytes : List Byte) (after : WorkRam) : Prop where
  inside : ∀ i v, bytes[i]? = some v → ∃ cell : Cell, cell.val = start + i ∧ after.get cell = v
  outside : ∀ cell : Cell, cell.val < start ∨ start + bytes.length ≤ cell.val →
    after.get cell = ram.get cell

namespace Overlaid

variable {ram after : WorkRam} {start : Nat} {v : Byte} {bytes : List Byte}

theorem nothing (ram : WorkRam) (start : Nat) : Overlaid ram start [] ram where
  inside _ _ found := by cases found
  outside _ _ := rfl

/-- One byte, and the others over the cells behind it. -/
theorem cons {cell : Cell} (here : cell.val = start)
    (overlaid : Overlaid (ram.set cell v) (start + 1) bytes after) :
    Overlaid ram start (v :: bytes) after where
  inside i w found := by
    cases i with
    | zero =>
      cases found
      exact ⟨cell, here, (overlaid.outside cell (.inl (by omega))).trans (get_set_same ram cell v)⟩
    | succ i =>
      obtain ⟨next, placed, got⟩ := overlaid.inside i w found
      exact ⟨next, by omega, got⟩
  outside other apart := by
    rw [List.length_cons] at apart
    have elsewhere : other ≠ cell := by
      rintro rfl
      omega
    exact (overlaid.outside other (by omega)).trans (get_set_other ram v elsewhere)

/-- A byte that lies in a cell is read at every address of the cell. -/
theorem read (overlaid : Overlaid ram start bytes after) (found : bytes[i]? = some v) {a : Address}
    (mirror : a.toNat % 0x800 = start + i) : after.read a = v := by
  obtain ⟨cell, placed, got⟩ := overlaid.inside i v found
  have same : cellOf a = cell := Fin.ext (mirror.trans placed.symm)
  rw [WorkRam.read, same, got]

end Overlaid

theorem copy_overlaid (ram : WorkRam) (start : Nat) (bytes : List Byte)
    (room : start + bytes.length ≤ 0x800) : Overlaid ram start bytes (ram.copy start bytes room) := by
  induction bytes generalizing ram start with
  | nil => exact .nothing ram start
  | cons v rest ih => exact .cons rfl (ih _ _ _)

/-- There are more positions than cells, so that a block that fits ends at one. -/
theorem stop?_of_le {start : UInt64} (room : start.toNat + size ≤ 0x800) :
    ∃ stop, stop? start size = some stop :=
  ⟨_, dif_pos (Nat.lt_of_le_of_lt room (by decide))⟩

theorem range_iff {start stop : UInt64} (ends : stop.toNat = start.toNat + size) :
    start ≤ stop ∧ stop ≤ 0x800 ↔ start.toNat + size ≤ 0x800 := by
  rw [UInt64.le_iff_toNat_le, UInt64.le_iff_toNat_le, ends]
  exact and_iff_right (Nat.le_add_right start.toNat size)

section

variable (ram : WorkRam) {start : UInt64} {block : Array Byte}

theorem load_fitting (room : start.toNat + block.size ≤ 0x800) :
    ram.load start block = (true, ram.copy start.toNat block.toList room) := by
  obtain ⟨⟨stop, ends⟩, found⟩ := stop?_of_le room
  simp only [load, found, dif_pos ((range_iff ends).2 room)]

/-- A block that does not fit ends behind the last cell, if at any position. -/
theorem load_exceeding (exceeds : 0x800 < start.toNat + block.size) :
    ram.load start block = (false, ram) := by
  unfold load
  split
  · rfl
  next stop ends _ =>
    have beyond : ¬ (start ≤ stop ∧ stop ≤ 0x800) :=
      mt (range_iff ends).1 (Nat.not_le.2 exceeds)
    exact dif_neg beyond

end

theorem load_overlaid {ram loaded : WorkRam} {start : UInt64} {block : Array Byte}
    (done : ram.load start block = (true, loaded)) :
    start.toNat + block.size ≤ 0x800 ∧ Overlaid ram start.toNat block.toList loaded := by
  by_cases room : start.toNat + block.size ≤ 0x800
  · rw [load_fitting ram room] at done
    cases done
    exact ⟨room, copy_overlaid ram _ _ room⟩
  · rw [load_exceeding ram (Nat.lt_of_not_le room)] at done
    cases done

/-- A block is loaded exactly if it ends with the last cell or before it. Its bytes are then in the
cells from its start on and are read at all addresses of these, and no other cell has changed. If it
is refused, none has. -/
theorem load_all_or_nothing (ram : WorkRam) (start : UInt64) (block : Array Byte) :
    ((∃ loaded, ram.load start block = (true, loaded)) ↔ start.toNat + block.size ≤ 0x800) ∧
    (∀ loaded, ram.load start block = (true, loaded) →
      (∀ i v, block[i]? = some v →
        (∃ cell : Cell, cell.val = start.toNat + i ∧ loaded.get cell = v) ∧
        ∀ a : Address, a.toNat % 0x800 = start.toNat + i → loaded.read a = v) ∧
      ∀ cell : Cell, cell.val < start.toNat ∨ start.toNat + block.size ≤ cell.val →
        loaded.get cell = ram.get cell) ∧
    (0x800 < start.toNat + block.size → ram.load start block = (false, ram)) := by
  refine ⟨⟨?_, ?_⟩, ?_, load_exceeding ram⟩
  · rintro ⟨loaded, done⟩
    exact (load_overlaid done).1
  · intro room
    exact ⟨_, load_fitting ram room⟩
  · intro loaded done
    obtain ⟨_, overlaid⟩ := load_overlaid done
    refine ⟨fun i v found => ?_, overlaid.outside⟩
    rw [← Array.getElem?_toList] at found
    exact ⟨overlaid.inside i v found, fun a mirror => overlaid.read found mirror⟩

/-- Two bytes end with the last cell, and the second is read at the four addresses of that. One cell
later they do not fit, and no byte fits at the last position of all. An empty block may begin where
the cells end, but not behind that. -/
theorem load_all_or_nothing_at_end :
    ∃ loaded, load {} 0x7FE #[1, 2] = (true, loaded) ∧ loaded.get 0x7FD = 0 ∧
      loaded.read 0x07FF = 2 ∧ loaded.read 0x0FFF = 2 ∧ loaded.read 0x17FF = 2 ∧
      loaded.read 0x1FFF = 2 ∧
      loaded.load 0x7FF #[3, 4] = (false, loaded) ∧
      loaded.load 0xFFFFFFFFFFFFFFFF #[3] = (false, loaded) ∧
      (∃ again, loaded.load 0x800 #[] = (true, again)) ∧
      loaded.load 0x801 #[] = (false, loaded) := by
  obtain ⟨fits, holds, _⟩ := load_all_or_nothing {} 0x7FE #[1, 2]
  obtain ⟨loaded, done⟩ := fits.2 (by decide)
  obtain ⟨inside, outside⟩ := holds loaded done
  have before : get {} 0x7FD = 0 := Vector.getElem_replicate _
  have last := (inside 1 2 rfl).2
  refine ⟨loaded, done, (outside 0x7FD (by decide)).trans before, ?_, ?_, ?_, ?_, ?_, ?_, ?_, ?_⟩
  · exact last 0x07FF (by decide)
  · exact last 0x0FFF (by decide)
  · exact last 0x17FF (by decide)
  · exact last 0x1FFF (by decide)
  · exact (load_all_or_nothing loaded 0x7FF #[3, 4]).2.2 (by decide)
  · exact (load_all_or_nothing loaded 0xFFFFFFFFFFFFFFFF #[3]).2.2 (by decide)
  · exact (load_all_or_nothing loaded 0x800 #[]).1.2 (by decide)
  · exact (load_all_or_nothing loaded 0x801 #[]).2.2 (by decide)

end Nes.WorkRam
