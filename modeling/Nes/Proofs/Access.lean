import Nes.Bus.Basic
import Nes.Proofs.Action

/-! What a single access can do. A read moves the bus along `Bus.Steady`: it leaves
every memory and every setting alone, and changes the transient state of the picture
unit only. A failed access changes nothing at all. -/
namespace Nes

open Nes.Action

namespace Ppu

/-- What reads may change: the vertical blank, the pointer with its latch, the latch of
the scroll position, and the buffer. -/
structure Transient where
  vblank : Bool
  pointer : Pointer
  expectsY : Bool
  buffer : Byte

def transient (p : Ppu) : Transient := ⟨p.flags.vblank, p.pointer, p.scroll.expectsY, p.buffer⟩

def withTransient (p : Ppu) (t : Transient) : Ppu :=
  { p with
    flags := { p.flags with vblank := t.vblank }
    pointer := t.pointer
    scroll := { p.scroll with expectsY := t.expectsY }
    buffer := t.buffer }

/-- The unit differs at most in its transient state. -/
def Steady (p q : Ppu) : Prop := ∃ t, q = p.withTransient t

theorem Steady.refl (p : Ppu) : Steady p p := ⟨p.transient, rfl⟩

theorem Steady.trans {p q r : Ppu} (first : Steady p q) (second : Steady q r) : Steady p r := by
  obtain ⟨t, rfl⟩ := first
  obtain ⟨u, rfl⟩ := second
  exact ⟨u, rfl⟩

theorem readData_fault {p q : Ppu} (h : readData.run p = .error e q) : q = p := by
  rw [readData, run_of] at h
  split at h
  · split at h <;> cases h
    rfl
  · cases h
  · cases h
  · cases h; rfl

theorem writeData_fault {p q : Ppu} (h : (writeData v).run p = .error e q) : q = p := by
  rw [writeData, run_of] at h
  split at h <;> cases h <;> rfl

/-- A read at the pointer that succeeds moves on, from a buffer that may have been filled. -/
theorem readData_advances {p q : Ppu} (h : readData.run p = .ok v q) :
    ∃ buffer, q = { p with buffer }.advance := by
  rw [readData, run_of] at h
  split at h
  · split at h <;> cases h
    exact ⟨_, rfl⟩
  · cases h
    exact ⟨_, rfl⟩
  · cases h
    exact ⟨p.buffer, rfl⟩
  · cases h

/-- A write at the pointer that succeeds moves on, from memories of which one has changed. -/
theorem writeData_advances {p q : Ppu} (h : (writeData v).run p = .ok u q) :
    ∃ vram palette, q = { p with vram, palette }.advance := by
  rw [writeData, run_of] at h
  split at h
  · cases h
  · cases h
    exact ⟨_, p.palette, rfl⟩
  · cases h
    exact ⟨p.vram, _, rfl⟩
  · cases h

theorem readData_steady : Moves Steady readData := by
  apply Moves.of_ok Steady.refl readData_fault
  intro p v q h
  obtain ⟨buffer, rfl⟩ := readData_advances h
  exact ⟨{ p.advance.transient with buffer }, rfl⟩

theorem readRegister_steady (a : Address) : Moves Steady (readRegister a) := by
  unfold readRegister
  split
  · exact fun p => ⟨p.readStatus.2.transient, rfl⟩
  · exact Steady.refl
  · exact readData_steady
  · exact Steady.refl
  · exact Steady.refl

theorem readRegister_fault {p q : Ppu} (h : (readRegister a).run p = .error e q) : q = p := by
  unfold readRegister at h
  split at h
  · cases h
  · cases h
  · exact readData_fault h
  · cases h; rfl
  · cases h; rfl

theorem writeRegister_fault {p q : Ppu} (h : (writeRegister a v).run p = .error e q) : q = p := by
  unfold writeRegister at h
  split at h
  case h_8 => exact writeData_fault h
  all_goals cases h <;> rfl

end Ppu

namespace Bus

/-- The bus differs at most in the transient state of its picture unit. -/
def Steady (b c : Bus) : Prop := ∃ t, c = { b with ppu := b.ppu.withTransient t }

theorem Steady.refl (b : Bus) : Steady b b := ⟨b.ppu.transient, rfl⟩

theorem Steady.trans {b c d : Bus} (first : Steady b c) (second : Steady c d) : Steady b d := by
  obtain ⟨t, rfl⟩ := first
  obtain ⟨u, rfl⟩ := second
  exact ⟨u, rfl⟩

theorem Steady.of_ppu {b : Bus} {q : Ppu} (h : Ppu.Steady b.ppu q) : Steady b { b with ppu := q } := by
  obtain ⟨t, rfl⟩ := h
  exact ⟨t, rfl⟩

theorem Steady.ram {b c : Bus} (steady : Steady b c) : c.ram = b.ram := by
  obtain ⟨t, rfl⟩ := steady
  rfl

theorem Steady.picture {b c : Bus} (steady : Steady b c) : Ppu.Steady b.ppu c.ppu := by
  obtain ⟨t, rfl⟩ := steady
  exact ⟨t, rfl⟩

theorem onPpu_answer (act : Action Ppu α) (b : Bus) : (onPpu act).answer b = act.answer b.ppu :=
  focus_answer _ act b

theorem onPpu_after (act : Action Ppu α) (b : Bus) :
    (onPpu act).after b = { b with ppu := act.after b.ppu } :=
  focus_after _ act b

theorem onPpu_steady {act : Action Ppu α} (moves : Moves Ppu.Steady act) :
    Moves Steady (onPpu act) := by
  intro b
  rw [onPpu_after]
  exact .of_ppu (moves b.ppu)

theorem onPpu_fault {act : Action Ppu α} {b c : Bus}
    (harmless : ∀ {p q : Ppu}, act.run p = .error e q → q = p)
    (h : (onPpu act).run b = .error e c) : c = b := by
  rw [run_onPpu] at h
  cases inner : act.run b.ppu with
  | ok v q => rw [inner] at h; cases h
  | error f q =>
    rw [inner] at h
    cases h
    rw [harmless inner]

theorem read_steady (a : Address) : Moves Steady (read a) := by
  unfold read
  split
  · exact Steady.refl
  · exact onPpu_steady (Ppu.readRegister_steady a)
  · intro b
    rw [after, run_of]
    cases b.romByte? _ <;> exact .refl b
  · exact Steady.refl

theorem read_fault {b c : Bus} (h : (read a).run b = .error e c) : c = b := by
  unfold read at h
  split at h
  · cases h
  · exact onPpu_fault Ppu.readRegister_fault h
  · rw [run_of] at h
    split at h <;> cases h
    rfl
  · cases h; rfl

theorem write_fault {b c : Bus} (h : (write a v).run b = .error e c) : c = b := by
  unfold write at h
  split at h
  · cases h
  · exact onPpu_fault Ppu.writeRegister_fault h
  · rw [run_of] at h
    split at h <;> cases h <;> rfl
  · cases h; rfl

theorem ofAddress_ram (below : a < 0x2000) : Region.ofAddress a = .ram (WorkRam.cellOf a) := by
  simp only [Region.ofAddress, below, ↓reduceIte]

theorem ram_of_ofAddress (h : Region.ofAddress a = .ram cell) :
    a < 0x2000 ∧ cell = WorkRam.cellOf a := by
  by_cases below : a < 0x2000
  · rw [ofAddress_ram below] at h
    exact ⟨below, (Region.ram.inj h).symm⟩
  · simp only [Region.ofAddress, below, ↓reduceIte] at h
    split at h
    · cases h
    · split at h <;> cases h

theorem ofAddress_rom (inWindow : 0x8000 ≤ a.toNat) :
    ∃ offset : Fin 0x8000, Region.ofAddress a = .rom offset ∧ a.toNat = 0x8000 + offset.val := by
  have above (bound : Address) (small : bound.toNat ≤ 0x8000) : ¬ a < bound := by
    rw [UInt16.lt_iff_toNat_lt]
    omega
  have inside : a.toNat - 0x8000 < 0x8000 := by
    have := a.toNat_lt
    omega
  refine ⟨⟨a.toNat - 0x8000, inside⟩, ?_, by simp only; omega⟩
  simp only [Region.ofAddress, above 0x2000 (by decide), above 0x4000 (by decide), inWindow,
    ↓reduceIte, ↓reduceDIte]

theorem rom_of_ofAddress (region : Region.ofAddress a = .rom offset) :
    a.toNat = 0x8000 + offset.val := by
  unfold Region.ofAddress at region
  split at region
  · cases region
  split at region
  · cases region
  split at region
  next inWindow =>
    rw [← Region.rom.inj region]
    exact (Nat.add_sub_of_le inWindow).symm
  · cases region

/-- The reset vector takes two bytes of the program window. -/
theorem vectorIndex_eq_none_iff (region : Region.ofAddress a = .rom offset) :
    vectorIndex? offset = none ↔ a ≠ 0xFFFC ∧ a ≠ 0xFFFD := by
  have placed := rom_of_ofAddress region
  have first : a = 0xFFFC ↔ offset = 0x7FFC := by
    rw [← UInt16.toNat_inj, placed, Fin.ext_iff]
    exact Nat.add_left_cancel_iff (n := 0x8000) (k := 0x7FFC)
  have second : a = 0xFFFD ↔ offset = 0x7FFD := by
    rw [← UInt16.toNat_inj, placed, Fin.ext_iff]
    exact Nat.add_left_cancel_iff (n := 0x8000) (k := 0x7FFD)
  rw [ne_eq, ne_eq, first, second, vectorIndex?]
  split
  · simp [*]
  · split <;> simp [*]

theorem read_ram (b : Bus) (below : a < 0x2000) : (read a).run b = .ok (b.ram.read a) b := by
  simp only [read, ofAddress_ram below]
  rfl

theorem write_ram (b : Bus) (v : Byte) (below : a < 0x2000) :
    (write a v).run b = .ok () { b with ram := b.ram.write a v } := by
  simp only [write, ofAddress_ram below]
  rfl

/-- Behind the window of work RAM a write reaches other parts only. -/
theorem write_elsewhere {b c : Bus} (h : (write a v).run b = .ok u c) (beyond : ¬ a < 0x2000) :
    c.ram = b.ram := by
  unfold write at h
  split at h
  next cell inRam => exact absurd (ram_of_ofAddress inRam).1 beyond
  · rw [run_onPpu] at h
    split at h <;> cases h
    rfl
  · rw [run_of] at h
    split at h <;> cases h
    rfl
  · cases h

/-- A byte that can be looked at is read without effect. -/
theorem read_of_peek {b : Bus} (h : b.peek? a = some v) : (read a).run b = .ok v b := by
  unfold peek? at h
  unfold read
  split at h
  next cell region =>
    cases h
    simp only [region]
    rfl
  next offset region => simp only [region, run_of, h]
  · cases h
  · cases h

theorem dataTarget_ram (b : Bus) (below : a < 0x2000) : b.dataTarget? a = none := by
  simp only [dataTarget?, ofAddress_ram below]

end Bus
end Nes
