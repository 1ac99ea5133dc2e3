import Nes.Proofs.BusMirrors
import Nes.Proofs.CheckedCommand

/-! The outcome of every access to the bus. Which accesses are refused, and with which fault, is
written down in terms of the address, of the cartridge, and of where the picture unit's pointer
points. An access faults just where it says so, with just that fault, and then nothing has changed. -/
namespace Nes

open Nes.Action

/-- An action faults if it is refused, with the fault it is refused with and without a change to the
state. Otherwise it succeeds. -/
structure Action.FaultsExactly (refused : Fault → Prop) (act : Action σ α) (s : σ) : Prop where
  fault : ∀ e t, act.run s = .error e t ↔ refused e ∧ t = s
  success : (∃ v t, act.run s = .ok v t) ↔ ∀ e, ¬ refused e

theorem Action.FaultsExactly.intro {refused : Fault → Prop} {act : Action σ α} {s : σ}
    (harmless : ∀ {e t}, act.run s = .error e t → t = s)
    (sound : ∀ {e t}, act.run s = .error e t → refused e)
    (complete : ∀ {e}, refused e → act.run s = .error e s) : FaultsExactly refused act s where
  fault e t := by
    constructor
    · exact fun failed => ⟨sound failed, harmless failed⟩
    · rintro ⟨refused, rfl⟩
      exact complete refused
  success := by
    constructor
    · rintro ⟨v, t, succeeded⟩ e refused
      cases succeeded.symm.trans (complete refused)
    · intro allowed
      cases ended : act.run s with
      | ok v t => exact ⟨v, t, rfl⟩
      | error e t => exact absurd (sound ended) (allowed e)

namespace Ppu

/-- Nothing answers between the nametables and the palette. -/
def InGap (a : Address) : Prop := 0x3000 ≤ a ∧ a < 0x3F00

instance (a : Address) : Decidable (InGap a) := inferInstanceAs (Decidable (_ ∧ _))

/-- A register answers writes only, or there is nothing to read where the pointer points: beyond the
end of pattern memory, or in the gap. -/
inductive ReadRefused (p : Ppu) (a : Address) : Fault → Prop
  | writeOnly : a.toNat % 8 ∈ [0, 1, 3, 5, 6] → ReadRefused p a (.writeOnly a)
  | pattern : a.toNat % 8 = 7 → p.address < 0x2000 → p.chr.size ≤ p.address.toNat →
      ReadRefused p a (.unmapped p.address)
  | gap : a.toNat % 8 = 7 → InGap p.address → ReadRefused p a (.unmapped p.address)

/-- The status is read only, and so is pattern memory, whether or not there is any where the pointer
points. -/
inductive WriteRefused (p : Ppu) (a : Address) : Fault → Prop
  | status : a.toNat % 8 = 2 → WriteRefused p a (.readOnly a)
  | pattern : a.toNat % 8 = 7 → p.address < 0x2000 → WriteRefused p a (.readOnly p.address)
  | gap : a.toNat % 8 = 7 → InGap p.address → WriteRefused p a (.unmapped p.address)

/-- What the three lowest address lines carry when they choose a register. -/
def Register.lines : Register → Nat
  | control => 0
  | mask => 1
  | status => 2
  | oamAddress => 3
  | oamData => 4
  | scroll => 5
  | pointer => 6
  | data => 7

theorem Register.ofAddress?_eq_some_iff (inside : Bus.InRegisters a) :
    ofAddress? a = some r ↔ a.toNat % 8 = r.lines := by
  have low : a.toNat % 8 < 8 := Nat.mod_lt _ (by decide)
  rw [ofAddress?, inside.line, if_neg (by decide)]
  generalize a.toNat % 8 = n at low
  cases r <;> revert n <;> decide

/-! Where the pointer points. -/

theorem location_of_inGap {p : Ppu} (gap : InGap p.address) : p.location = .unmapped :=
  location_of_beyond (UInt16.not_lt.2 gap.1) fun inside =>
    UInt16.not_lt.2 inside.1 gap.2

theorem location_cases {p : Ppu} (inside : p.address < 0x4000) :
    (p.address < 0x2000 ∧ p.location = .pattern p.address.toNat) ∨
    (∃ index, p.location = .nametable index) ∨
    (InGap p.address ∧ p.location = .unmapped) ∨
    (∃ entry, p.location = .palette entry) := by
  by_cases pattern : p.address < 0x2000
  · exact .inl ⟨pattern, location_of_pattern pattern⟩
  by_cases table : p.address < 0x3000
  · exact .inr (.inl ⟨_, location_of_inNametables ⟨UInt16.not_lt.1 pattern, table⟩⟩)
  by_cases below : p.address < 0x3F00
  · have gap : InGap p.address := ⟨UInt16.not_lt.1 table, below⟩
    exact .inr (.inr (.inl ⟨gap, location_of_inGap gap⟩))
  · exact .inr (.inr (.inr ⟨_, location_of_inPalette ⟨UInt16.not_lt.1 below, inside⟩⟩))

/-! Accesses at the pointer. -/

theorem readData_refused {p q : Ppu} (inside : p.address < 0x4000)
    (line : a.toNat % 8 = 7) (h : readData.run p = .error e q) : p.ReadRefused a e := by
  rw [readData, run_of] at h
  obtain ⟨pattern, here⟩ | ⟨index, here⟩ | ⟨gap, here⟩ | ⟨entry, here⟩ := location_cases inside
  · rw [here] at h
    dsimp only at h
    split at h
    · cases h
    next absent =>
      cases h
      exact .pattern line pattern (Array.getElem?_eq_none_iff.1 absent)
  · rw [here] at h
    cases h
  · rw [here] at h
    cases h
    exact .gap line gap
  · rw [here] at h
    cases h

theorem writeData_refused {p q : Ppu} (inside : p.address < 0x4000)
    (line : a.toNat % 8 = 7) (h : (writeData v).run p = .error e q) : p.WriteRefused a e := by
  rw [writeData, run_of] at h
  obtain ⟨pattern, here⟩ | ⟨index, here⟩ | ⟨gap, here⟩ | ⟨entry, here⟩ := location_cases inside
  · rw [here] at h
    cases h
    exact .pattern line pattern
  · rw [here] at h
    cases h
  · rw [here] at h
    cases h
    exact .gap line gap
  · rw [here] at h
    cases h

theorem readData_pattern {p : Ppu} (pattern : p.address < 0x2000)
    (absent : p.chr.size ≤ p.address.toNat) :
    readData.run p = .error (.unmapped p.address) p := by
  rw [readData, run_of, location_of_pattern pattern]
  simp only [Array.getElem?_eq_none absent]

/-! Registers. -/

variable {p : Ppu} {a : Address}

theorem readRegister_refused {q : Ppu} (window : Bus.InRegisters a) (inside : p.address < 0x4000)
    (h : (readRegister a).run p = .error e q) : p.ReadRefused a e := by
  obtain ⟨r, chosen⟩ := Bus.selects_of_inRegisters window
  have lines := (Register.ofAddress?_eq_some_iff window).1 chosen
  simp only [readRegister, chosen] at h
  cases r with
  | status | oamData => cases h
  | data => exact readData_refused inside lines h
  | control | mask | oamAddress | scroll | pointer =>
    cases h
    exact .writeOnly (by rw [lines]; decide)

theorem writeRegister_refused {q : Ppu} (window : Bus.InRegisters a) (inside : p.address < 0x4000)
    (h : (writeRegister a v).run p = .error e q) : p.WriteRefused a e := by
  obtain ⟨r, chosen⟩ := Bus.selects_of_inRegisters window
  have lines := (Register.ofAddress?_eq_some_iff window).1 chosen
  simp only [writeRegister, chosen] at h
  cases r with
  | control | mask | oamAddress | oamData | scroll | pointer => cases h
  | status =>
    cases h
    exact .status lines
  | data => exact writeData_refused inside lines h

theorem ReadRefused.run (window : Bus.InRegisters a) (refused : p.ReadRefused a e) :
    (readRegister a).run p = .error e p := by
  cases refused with
  | writeOnly among =>
    obtain ⟨r, chosen⟩ := Bus.selects_of_inRegisters window
    rw [(Register.ofAddress?_eq_some_iff window).1 chosen] at among
    simp only [readRegister, chosen]
    cases r with
    | control | mask | oamAddress | scroll | pointer => rfl
    | status | oamData | data => exact absurd among (by decide)
  | pattern line pattern absent =>
    have data : Register.ofAddress? a = some .data :=
      (Register.ofAddress?_eq_some_iff window).2 line
    simp only [readRegister, data]
    exact readData_pattern pattern absent
  | gap line gap =>
    have data : Register.ofAddress? a = some .data :=
      (Register.ofAddress?_eq_some_iff window).2 line
    simp only [readRegister, data, readData, run_of, location_of_inGap gap]

theorem WriteRefused.run (v : Byte) (window : Bus.InRegisters a) (refused : p.WriteRefused a e) :
    (writeRegister a v).run p = .error e p := by
  cases refused with
  | status line =>
    have status : Register.ofAddress? a = some .status :=
      (Register.ofAddress?_eq_some_iff window).2 line
    simp only [writeRegister, status, run_throw]
  | pattern line pattern =>
    have data : Register.ofAddress? a = some .data :=
      (Register.ofAddress?_eq_some_iff window).2 line
    simp only [writeRegister, data, writeData, run_of, location_of_pattern pattern]
  | gap line gap =>
    have data : Register.ofAddress? a = some .data :=
      (Register.ofAddress?_eq_some_iff window).2 line
    simp only [writeRegister, data, writeData, run_of, location_of_inGap gap]

end Ppu

namespace Bus

def InVector (a : Address) : Prop := a = 0xFFFC ∨ a = 0xFFFD

/-- A register refuses, or nothing answers. Between the registers and the program window nothing ever
does, and in the window without a cartridge only the reset vector. -/
inductive ReadRefused (b : Bus) (a : Address) : Fault → Prop
  | register : InRegisters a → b.ppu.ReadRefused a e → ReadRefused b a e
  | unmapped : 0x4000 ≤ a → a < 0x8000 → ReadRefused b a (.unmapped a)
  | empty : b.cartridge = none → InRom a → ¬ InVector a → ReadRefused b a (.unmapped a)

/-- As for reads, but that a cartridge is read only. -/
inductive WriteRefused (b : Bus) (a : Address) : Fault → Prop
  | register : InRegisters a → b.ppu.WriteRefused a e → WriteRefused b a e
  | rom : b.cartridge ≠ none → InRom a → WriteRefused b a (.readOnly a)
  | unmapped : 0x4000 ≤ a → a < 0x8000 → WriteRefused b a (.unmapped a)
  | empty : b.cartridge = none → InRom a → ¬ InVector a → WriteRefused b a (.unmapped a)

theorem ofAddress_unmapped_iff : Region.ofAddress a = .unmapped ↔ 0x4000 ≤ a ∧ a < 0x8000 := by
  unfold Region.ofAddress
  simp only [UInt16.lt_iff_toNat_lt, UInt16.le_iff_toNat_le, UInt16.reduceToNat]
  split
  · simp only [reduceCtorEq, false_iff]
    omega
  split
  · simp only [reduceCtorEq, false_iff]
    omega
  split
  · simp only [reduceCtorEq, false_iff]
    omega
  · simp only [true_iff]
    omega

theorem romByte_eq_none_iff (b : Bus) (offset : Fin 0x8000) :
    b.romByte? offset = none ↔ b.cartridge = none ∧ vectorIndex? offset = none := by
  unfold romByte?
  cases b.cartridge with
  | none => simp only [Option.map_eq_none_iff, true_and]
  | some c => simp only [reduceCtorEq, false_and]

variable {b c : Bus} {a : Address}

theorem inRom_of_ofAddress (region : Region.ofAddress a = .rom offset) : InRom a := by
  have placed := rom_of_ofAddress region
  exact UInt16.le_iff_toNat_le.2 (placed ▸ Nat.le_add_right _ _)

theorem outside_vector_iff (region : Region.ofAddress a = .rom offset) :
    vectorIndex? offset = none ↔ ¬ InVector a := by
  rw [vectorIndex_eq_none_iff region, InVector, not_or]

theorem read_refused (inside : b.ppu.address < 0x4000) (h : (read a).run b = .error e c) :
    b.ReadRefused a e := by
  unfold read at h
  split at h
  · cases h
  next region =>
    have window := registers_of_ofAddress region
    rw [run_onPpu] at h
    split at h
    · cases h
    next failed =>
      cases h
      exact .register window (Ppu.readRegister_refused window inside failed)
  next offset region =>
    rw [run_of] at h
    split at h
    · cases h
    next absent =>
      cases h
      obtain ⟨empty, elsewhere⟩ := (romByte_eq_none_iff b offset).1 absent
      exact .empty empty (inRom_of_ofAddress region) ((outside_vector_iff region).1 elsewhere)
  next region =>
    cases h
    obtain ⟨above, below⟩ := ofAddress_unmapped_iff.1 region
    exact .unmapped above below

theorem write_refused (inside : b.ppu.address < 0x4000) (h : (write a v).run b = .error e c) :
    b.WriteRefused a e := by
  unfold write at h
  split at h
  · cases h
  next region =>
    have window := registers_of_ofAddress region
    rw [run_onPpu] at h
    split at h
    · cases h
    next failed =>
      cases h
      exact .register window (Ppu.writeRegister_refused window inside failed)
  next offset region =>
    rw [run_of] at h
    split at h
    next inserted =>
      cases h
      exact .rom (by rw [inserted]; exact Option.some_ne_none _) (inRom_of_ofAddress region)
    · cases h
    next empty elsewhere =>
      cases h
      exact .empty empty (inRom_of_ofAddress region) ((outside_vector_iff region).1 elsewhere)
  next region =>
    cases h
    obtain ⟨above, below⟩ := ofAddress_unmapped_iff.1 region
    exact .unmapped above below

theorem ReadRefused.run (refused : b.ReadRefused a e) : (read a).run b = .error e b := by
  cases refused with
  | register window refused =>
    simp only [read, ofAddress_registers window, run_onPpu, refused.run window]
  | unmapped above below =>
    simp only [read, ofAddress_unmapped_iff.2 ⟨above, below⟩, run_throw]
  | empty empty window elsewhere =>
    obtain ⟨offset, region, -⟩ := ofAddress_rom (UInt16.le_iff_toNat_le.1 window)
    have absent : b.romByte? offset = none :=
      (romByte_eq_none_iff b offset).2 ⟨empty, (outside_vector_iff region).2 elsewhere⟩
    simp only [read, region, run_of, absent]

theorem WriteRefused.run (v : Byte) (refused : b.WriteRefused a e) :
    (write a v).run b = .error e b := by
  cases refused with
  | register window refused =>
    simp only [write, ofAddress_registers window, run_onPpu, refused.run v window]
  | rom inserted window =>
    obtain ⟨c, inserted⟩ := Option.ne_none_iff_exists'.1 inserted
    exact write_window inserted v window
  | unmapped above below =>
    simp only [write, ofAddress_unmapped_iff.2 ⟨above, below⟩, run_throw]
  | empty empty window elsewhere =>
    obtain ⟨offset, region, -⟩ := ofAddress_rom (UInt16.le_iff_toNat_le.1 window)
    simp only [write, region, run_of, empty, (outside_vector_iff region).2 elsewhere]

/-- The pointer of every machine's picture unit stays within fourteen bits, and while it does, an
access faults just where it is refused, with the fault it is refused with and without a change to
the bus. Everywhere else it succeeds. -/
theorem access_outcomes :
    (∀ threshold history,
      ((Machine.powerOn threshold).afterAll history).bus.ppu.address < 0x4000) ∧
    ∀ b : Bus, b.ppu.address < 0x4000 → ∀ a,
      FaultsExactly (b.ReadRefused a) (read a) b ∧
      ∀ v, FaultsExactly (b.WriteRefused a) (write a v) b := by
  refine ⟨fun threshold history => ?_, fun b inside a => ⟨?_, fun v => ?_⟩⟩
  · have stays : StaysInside (Machine.powerOn threshold).bus
        ((Machine.powerOn threshold).afterAll history).bus :=
      Machine.moves_through_inserts StaysInside.kept StaysInside.attach _ history
    have within := Ppu.address_le_of_inside (stays (by decide : (0 : Byte) < 0x40))
    exact UInt16.lt_of_le_of_lt within (by decide)
  · exact .intro read_fault (read_refused inside) ReadRefused.run
  · exact .intro write_fault (write_refused inside) (WriteRefused.run v)

/-- On the empty bus nothing is behind the data register and the program window, but for the reset
vector. -/
theorem access_outcomes_empty :
    empty.ppu.address < 0x4000 ∧
    (read 0x2007).run empty = .error (.unmapped 0x0000) empty ∧
    (write 0x2007 0x12).run empty = .error (.readOnly 0x0000) empty ∧
    (read 0xFFFB).run empty = .error (.unmapped 0xFFFB) empty ∧
    ∃ c, (write 0xFFFC 0x12).run empty = .ok () c := by
  have inside : empty.ppu.address < 0x4000 := by decide
  have outcomes := access_outcomes.2 empty inside
  refine ⟨inside, ?_, ?_, ?_, ?_⟩
  · refine ((outcomes 0x2007).1.fault _ _).2 ⟨.register (by decide) (.pattern ?_ ?_ ?_), rfl⟩
    all_goals decide
  · refine (((outcomes 0x2007).2 0x12).fault _ _).2 ⟨.register (by decide) (.pattern ?_ ?_), rfl⟩
    all_goals decide
  · refine ((outcomes 0xFFFB).1.fault _ _).2 ⟨.empty rfl (by decide) ?_, rfl⟩
    rintro (first | second)
    · exact absurd first (by decide)
    · exact absurd second (by decide)
  · have allowed (e : Fault) : ¬ empty.WriteRefused 0xFFFC e := by
      intro refused
      cases refused with
      | register window _ => exact absurd window (by decide)
      | rom inserted _ => exact inserted rfl
      | unmapped _ below => exact absurd below (by decide)
      | empty _ _ elsewhere => exact elsewhere (.inl rfl)
    obtain ⟨u, c, succeeded⟩ := ((outcomes 0xFFFC).2 0x12).success.2 allowed
    exact ⟨c, succeeded⟩

end Bus
end Nes
