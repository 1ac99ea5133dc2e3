import Mathlib.Data.List.Forall2
import Nes.Proofs.CartridgeView
import Nes.Proofs.History
import Nes.Proofs.PictureMemory

/-! The bus leaves address lines open, so that most of what is on it answers at several addresses.
Which of them an access uses cannot be told from what it does: only a fault that reports the address
it was made with does. Work RAM holds the last byte written through any of a cell's addresses. -/
namespace Nes.Bus

open Nes.Action

/-- An access to the bus. -/
inductive Access where
  | read (a : Address)
  | write (a : Address) (v : Byte)

namespace Access

abbrev Answer : Access → Type
  | read _ => Byte
  | write _ _ => Unit

def act : (x : Access) → Action Bus x.Answer
  | read a => Bus.read a
  | write a v => Bus.write a v

/-- The byte that an access writes, and where. -/
def written? : Access → Option (Address × Byte)
  | read _ => none
  | write a v => some (a, v)

end Access

def InRegisters (a : Address) : Prop := 0x2000 ≤ a ∧ a < 0x4000
def InRom (a : Address) : Prop := 0x8000 ≤ a

instance (a : Address) : Decidable (InRegisters a) := inferInstanceAs (Decidable (_ ∧ _))
instance (a : Address) : Decidable (InRom a) := inferInstanceAs (Decidable (_ ≤ _))

def IsStatus (a : Address) : Prop := InRegisters a ∧ Ppu.Register.ofAddress? a = some .status

instance (a : Address) : Decidable (IsStatus a) := inferInstanceAs (Decidable (_ ∧ _))

/-- Two addresses at which the same thing answers, while a cartridge is in or none is. A cartridge
with one bank shows it twice. -/
inductive Mirror (inserted : Option Cartridge) : Address → Address → Prop
  | same : Mirror inserted a a
  | ram : a < 0x2000 → a' < 0x2000 → a.toNat % 0x800 = a'.toNat % 0x800 → Mirror inserted a a'
  | register : InRegisters a → InRegisters a' → a.toNat % 8 = a'.toNat % 8 → Mirror inserted a a'
  | rom : InRom a → InRom a' → inserted = some c → c.header.prgBanks = 1 →
      a.toNat % 0x4000 = a'.toNat % 0x4000 → Mirror inserted a a'

/-- The same access at a mirror of its address. -/
inductive Mirrored (inserted : Option Cartridge) : Access → Access → Prop
  | read : Mirror inserted a a' → Mirrored inserted (.read a) (.read a')
  | write : Mirror inserted a a' → Mirrored inserted (.write a v) (.write a' v)

/-- The same answer, but for the address of the access where a fault reports it: in a read of a
register that answers writes only, or a write of the status register or of read-only memory. -/
inductive SameAnswer : Answered Access.Answer → Answered Access.Answer → Prop
  | read {r : Except Fault Byte} : SameAnswer ⟨.read a, r⟩ ⟨.read a', r⟩
  | write {r : Except Fault Unit} : SameAnswer ⟨.write a v, r⟩ ⟨.write a' v, r⟩
  | writeOnly : InRegisters a → InRegisters a' →
      SameAnswer ⟨.read a, .error (.writeOnly a)⟩ ⟨.read a', .error (.writeOnly a')⟩
  | readOnly : IsStatus a ∧ IsStatus a' ∨ InRom a ∧ InRom a' →
      SameAnswer ⟨.write a v, .error (.readOnly a)⟩ ⟨.write a' v, .error (.readOnly a')⟩

/-! Work RAM. -/

/-- The addresses of a cell of work RAM, given one of them. -/
abbrev SameCell (a w : Address) : Prop := w < 0x2000 ∧ w.toNat % 0x800 = a.toNat % 0x800

theorem ramByte_after (b : Bus) (x : Access) (a : Address) :
    (x.act.after b).ram.read a =
      Ppu.lastWritten (SameCell a) (b.ram.read a) x.written?.toList := by
  cases x with
  | read w => exact congrArg (·.read a) (read_steady w b).ram
  | write w v =>
    rw [Access.written?, Option.toList_some, Ppu.lastWritten_one]
    change ((write w v).after b).ram.read a = _
    by_cases below : w < 0x2000
    · rw [after_ok (write_ram b v below)]
      by_cases same : w.toNat % 0x800 = a.toNat % 0x800
      · have cell : WorkRam.cellOf a = WorkRam.cellOf w := Fin.ext same.symm
        rw [if_pos ⟨below, same⟩]
        change (b.ram.set (WorkRam.cellOf w) v).get (WorkRam.cellOf a) = v
        rw [cell, WorkRam.get_set_same]
      · have apart : WorkRam.cellOf a ≠ WorkRam.cellOf w :=
          fun cell => same (congrArg Fin.val cell).symm
        rw [if_neg fun both => same both.2]
        exact WorkRam.get_set_other _ _ apart
    · rw [if_neg fun both => below both.1]
      cases wrote : (write w v).run b with
      | ok u c => rw [after_ok wrote, write_elsewhere wrote below]
      | error e c => rw [after_error wrote, write_fault wrote]

theorem ramByte_finalState (b : Bus) (accesses : List Access) (a : Address) :
    (finalState Access.act b accesses).ram.read a =
      Ppu.lastWritten (SameCell a) (b.ram.read a) (accesses.filterMap (·.written?)) := by
  induction accesses generalizing b with
  | nil => rfl
  | cons x rest ih =>
    rw [filterMap_cons_toList, Ppu.lastWritten_append, ← ramByte_after]
    exact ih _

/-! One access. -/

theorem ofAddress_registers (inside : InRegisters a) : Region.ofAddress a = .registers := by
  have above : ¬ a < 0x2000 := UInt16.not_lt.2 inside.1
  simp only [Region.ofAddress, above, inside.2, ↓reduceIte]

theorem registers_of_ofAddress (region : Region.ofAddress a = .registers) : InRegisters a := by
  unfold Region.ofAddress at region
  split at region
  · cases region
  next above =>
    split at region
    next below => exact ⟨UInt16.not_lt.1 above, below⟩
    · split at region <;> cases region

/-- The line that selects the picture unit. -/
theorem InRegisters.line (inside : InRegisters a) : a.toNat / 0x2000 = 1 := by
  have lower : 0x2000 ≤ a.toNat := UInt16.le_iff_toNat_le.1 inside.1
  have upper : a.toNat < 0x4000 := UInt16.lt_iff_toNat_lt.1 inside.2
  omega

theorem selects_of_inRegisters (inside : InRegisters a) :
    ∃ r, Ppu.Register.ofAddress? a = some r := by
  unfold Ppu.Register.ofAddress?
  rw [inside.line, if_neg (by decide)]
  split <;> exact ⟨_, rfl⟩

theorem selects_same (inside : InRegisters a) (inside' : InRegisters a')
    (same : a.toNat % 8 = a'.toNat % 8) :
    Ppu.Register.ofAddress? a = Ppu.Register.ofAddress? a' := by
  simp only [Ppu.Register.ofAddress?, inside.line, inside'.line, same]

/-- Registers chosen by two addresses are read alike, or refused alike. -/
theorem readRegister_mirror (chosen : Ppu.Register.ofAddress? a = some r)
    (chosen' : Ppu.Register.ofAddress? a' = some r) :
    Ppu.readRegister a = Ppu.readRegister a' ∨
      Ppu.readRegister a = throw (.writeOnly a) ∧ Ppu.readRegister a' = throw (.writeOnly a') := by
  cases r with
  | status | oamData | data => exact .inl (by simp only [Ppu.readRegister, chosen, chosen'])
  | control | mask | oamAddress | scroll | pointer =>
    exact .inr (by simp only [Ppu.readRegister, chosen, chosen', and_self])

theorem writeRegister_mirror (v : Byte) (chosen : Ppu.Register.ofAddress? a = some r)
    (chosen' : Ppu.Register.ofAddress? a' = some r) :
    Ppu.writeRegister a v = Ppu.writeRegister a' v ∨
      r = .status ∧ Ppu.writeRegister a v = throw (.readOnly a) ∧
        Ppu.writeRegister a' v = throw (.readOnly a') := by
  cases r with
  | status => exact .inr (by simp only [Ppu.writeRegister, chosen, chosen', and_self])
  | control | mask | oamAddress | oamData | scroll | pointer | data =>
    exact .inl (by simp only [Ppu.writeRegister, chosen, chosen'])

/-- The only bank of a cartridge appears twice in the window. -/
theorem prgByte_mirror {c : Cartridge} (o o' : Fin 0x8000) (single : c.header.prgBanks = 1)
    (same : o.val % 0x4000 = o'.val % 0x4000) : c.prgByte o = c.prgByte o' := by
  have size : c.prgRom.size = Header.prgBankSize := by
    rw [c.prg_size, Header.prgSize, single]
    rfl
  have place : c.prgOffset o = c.prgOffset o' := by
    simp only [Cartridge.prgOffset, size, ↓reduceIte, Header.prgBankSize, same]
  simp only [Cartridge.prgByte, place]

theorem read_mirror (b : Bus) (mirror : Mirror b.cartridge a a') :
    (read a).run b = (read a').run b ∨
      InRegisters a ∧ InRegisters a' ∧ (read a).run b = .error (.writeOnly a) b ∧
        (read a').run b = .error (.writeOnly a') b := by
  cases mirror with
  | same => exact .inl rfl
  | ram below below' same =>
    have cell : WorkRam.cellOf a = WorkRam.cellOf a' := Fin.ext same
    left
    rw [read_ram b below, read_ram b below', WorkRam.read, WorkRam.read, cell]
  | register inside inside' same =>
    obtain ⟨r, chosen⟩ := selects_of_inRegisters inside
    have chosen' := (selects_same inside inside' same).symm.trans chosen
    simp only [read, ofAddress_registers inside, ofAddress_registers inside']
    obtain alike | ⟨refused, refused'⟩ := readRegister_mirror chosen chosen'
    · rw [alike]
      exact .inl rfl
    · rw [refused, refused']
      exact .inr ⟨inside, inside', rfl, rfl⟩
  | rom inside inside' inserted single same =>
    obtain ⟨o, region, place⟩ := ofAddress_rom (UInt16.le_iff_toNat_le.1 inside)
    obtain ⟨o', region', place'⟩ := ofAddress_rom (UInt16.le_iff_toNat_le.1 inside')
    have byte := prgByte_mirror o o' single (by omega)
    left
    simp only [read, region, region', run_of, romByte?, inserted, byte]

theorem write_mirror (b : Bus) (v : Byte) (mirror : Mirror b.cartridge a a') :
    (write a v).run b = (write a' v).run b ∨
      (IsStatus a ∧ IsStatus a' ∨ InRom a ∧ InRom a') ∧
        (write a v).run b = .error (.readOnly a) b ∧
        (write a' v).run b = .error (.readOnly a') b := by
  cases mirror with
  | same => exact .inl rfl
  | ram below below' same =>
    have cell : WorkRam.cellOf a = WorkRam.cellOf a' := Fin.ext same
    left
    rw [write_ram b v below, write_ram b v below', WorkRam.write, WorkRam.write, cell]
  | register inside inside' same =>
    obtain ⟨r, chosen⟩ := selects_of_inRegisters inside
    have chosen' := (selects_same inside inside' same).symm.trans chosen
    simp only [write, ofAddress_registers inside, ofAddress_registers inside']
    obtain alike | ⟨rfl, refused, refused'⟩ := writeRegister_mirror v chosen chosen'
    · rw [alike]
      exact .inl rfl
    · rw [refused, refused']
      exact .inr ⟨.inl ⟨⟨inside, chosen⟩, inside', chosen'⟩, rfl, rfl⟩
  | rom inside inside' inserted _ _ =>
    exact .inr ⟨.inr ⟨inside, inside'⟩, write_window inserted v inside,
      write_window inserted v inside'⟩

theorem access_mirrored (b : Bus) {x y : Access} (mirrored : Mirrored b.cartridge x y) :
    SameAnswer ⟨x, x.act.answer b⟩ ⟨y, y.act.answer b⟩ ∧ x.act.after b = y.act.after b := by
  cases mirrored with
  | read mirror =>
    simp only [Access.act, answer, after]
    obtain same | ⟨inside, inside', refused, refused'⟩ := read_mirror b mirror
    · rw [same]
      exact ⟨.read, rfl⟩
    · rw [refused, refused']
      exact ⟨.writeOnly inside inside', rfl⟩
  | write mirror =>
    rename_i v
    simp only [Access.act, answer, after]
    obtain same | ⟨inside, refused, refused'⟩ := write_mirror b v mirror
    · rw [same]
      exact ⟨.write, rfl⟩
    · rw [refused, refused']
      exact ⟨.readOnly inside, rfl⟩

/-! Sequences of accesses. -/

theorem cartridge_after (b : Bus) (x : Access) : (x.act.after b).cartridge = b.cartridge := by
  cases x with
  | read a => exact (SameCartridge.kept.read a b).cartridge
  | write a v => exact (SameCartridge.kept.write a v b).cartridge

theorem accesses_mirrored (b : Bus) {accesses others : List Access}
    (mirrored : List.Forall₂ (Mirrored b.cartridge) accesses others) :
    List.Forall₂ SameAnswer (answers Access.act b accesses) (answers Access.act b others) ∧
      finalState Access.act b accesses = finalState Access.act b others := by
  generalize inserted : b.cartridge = cartridge at mirrored
  induction mirrored generalizing b with
  | nil => exact ⟨.nil, rfl⟩
  | @cons x y _ _ first _ ih =>
    obtain ⟨answer, after⟩ := access_mirrored b (inserted ▸ first)
    obtain ⟨rest, final⟩ := ih (x.act.after b) ((cartridge_after b x).trans inserted)
    refine ⟨.cons answer ?_, ?_⟩
    · rwa [← after]
    · exact final.trans (by rw [after]; rfl)

/-- After any accesses, work RAM answers a read with the last byte written to a mirror of its
address, or with what was there at first. And accesses at mirrors do the same as those at the
addresses themselves: the bus ends up the same, and the answers differ at most in the address of the
access, where a fault reports it. -/
theorem mirrors_invisible (b : Bus) (accesses : List Access) :
    (∀ a < 0x2000, (read a).run (finalState Access.act b accesses) =
      .ok (Ppu.lastWritten (SameCell a) (b.ram.read a) (accesses.filterMap (·.written?)))
        (finalState Access.act b accesses)) ∧
    ∀ others, List.Forall₂ (Mirrored b.cartridge) accesses others →
      List.Forall₂ SameAnswer (answers Access.act b accesses) (answers Access.act b others) ∧
      finalState Access.act b accesses = finalState Access.act b others := by
  refine ⟨fun a below => ?_, fun others mirrored => accesses_mirrored b mirrored⟩
  rw [read_ram _ below, ramByte_finalState]

/-- With the built-in program in: work RAM, a register that is written only, the status register, and
both halves of the window. -/
theorem mirrors_invisible_demonstration :
    ∃ c, Cartridge.ofImage Demonstration.image = .ok c ∧
      let b := Bus.empty.attach c
      let accesses : List Access := [.write 0x0001 0x05, .read 0x2008, .write 0x2002 0x00,
        .read 0x8001, .write 0xC000 0x00]
      let others : List Access := [.write 0x1001 0x05, .read 0x3FF8, .write 0x200A 0x00,
        .read 0xC001, .write 0x8000 0x00]
      List.Forall₂ (Mirrored b.cartridge) accesses others ∧
      List.Forall₂ SameAnswer (answers Access.act b accesses) (answers Access.act b others) ∧
      finalState Access.act b accesses = finalState Access.act b others ∧
      (read 0x1801).run (finalState Access.act b accesses) =
        .ok 0x05 (finalState Access.act b accesses) := by
  obtain ⟨c, accepted⟩ := Demonstration.ofImage_image
  refine ⟨c, accepted, ?_⟩
  intro b accesses others
  have single : c.header.prgBanks = 1 := by
    apply UInt8.toNat_inj.1
    rw [(Cartridge.carries_of_ofImage accepted).banks, Image.programBanks,
      Demonstration.getD_image (by decide)]
    decide
  have mirrored : List.Forall₂ (Mirrored b.cartridge) accesses others := by
    refine .cons (.write (.ram ?_ ?_ ?_)) (.cons (.read (.register ?_ ?_ ?_))
      (.cons (.write (.register ?_ ?_ ?_)) (.cons (.read (.rom ?_ ?_ rfl single ?_))
        (.cons (.write (.rom ?_ ?_ rfl single ?_)) .nil))))
    all_goals decide
  obtain ⟨holds, invisible⟩ := mirrors_invisible b accesses
  obtain ⟨answers, final⟩ := invisible others mirrored
  exact ⟨mirrored, answers, final, holds 0x1801 (by decide)⟩

end Nes.Bus
