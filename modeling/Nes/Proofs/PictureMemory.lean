import Nes.Proofs.Command

/-! The memories of the picture unit, told by what was written. A cell of nametable memory or
of the palette holds the last byte that the data register took to it, through whichever of
its addresses, and each memory is out of reach of the writes to the others. -/
namespace Nes

open Nes.Action

/-- Two nametable addresses are laid over each other. -/
def Mirroring.Aliases (m : Mirroring) (v w : Address) : Prop :=
  match m with
  | horizontal => v.toNat.testBit 11 = w.toNat.testBit 11 ∧ v.toNat % 0x400 = w.toNat % 0x400
  | vertical => v.toNat % 0x800 = w.toNat % 0x800
  | fourScreen => v.toNat % 0x1000 = w.toNat % 0x1000

instance (m : Mirroring) (v w : Address) : Decidable (m.Aliases v w) :=
  match m with
  | .horizontal => inferInstanceAs (Decidable (_ ∧ _))
  | .vertical => inferInstanceAs (Decidable (_ = _))
  | .fourScreen => inferInstanceAs (Decidable (_ = _))

/-- The indices agree exactly where the mirroring says so. -/
theorem Mirroring.vramIndex_eq_iff (m : Mirroring) (v w : Address) :
    m.vramIndex v = m.vramIndex w ↔ m.Aliases v w := by
  cases m <;> simp only [vramIndex, bank, Aliases, tableSize, Nat.testBit_eq_decide_div_mod_eq,
    decide_eq_decide] <;> omega

namespace Ppu

def InNametables (a : Address) : Prop := 0x2000 ≤ a ∧ a < 0x3000
def InPalette (a : Address) : Prop := 0x3F00 ≤ a ∧ a < 0x4000

instance (a : Address) : Decidable (InNametables a) := inferInstanceAs (Decidable (_ ∧ _))
instance (a : Address) : Decidable (InPalette a) := inferInstanceAs (Decidable (_ ∧ _))

/-- The palette entry of an address, with the backdrops of the sprite palettes identified
with those of the background. -/
def paletteEntry (a : Address) : Nat :=
  match a.toNat % 0x20 with
  | 0x10 => 0x00
  | 0x14 => 0x04
  | 0x18 => 0x08
  | 0x1C => 0x0C
  | entry => entry

theorem paletteIndex_val (a : Address) : (paletteIndex a).val = paletteEntry a := by
  have folded : ∀ e < 0x20, (if 16 ≤ e ∧ e % 4 = 0 then e - 16 else e) =
      match e with
      | 0x10 => 0x00
      | 0x14 => 0x04
      | 0x18 => 0x08
      | 0x1C => 0x0C
      | entry => entry := by decide
  exact folded _ (Nat.mod_lt _ (by decide))

theorem paletteIndex_eq_iff (v w : Address) :
    paletteIndex v = paletteIndex w ↔ paletteEntry v = paletteEntry w := by
  rw [Fin.ext_iff, paletteIndex_val, paletteIndex_val]

/-- The cell of nametable memory that an address falls on. -/
def nametableCell (m : Mirroring) (a : Address) : Fin m.vramSize :=
  ⟨m.vramIndex a, m.vramIndex_lt a⟩

theorem nametableCell_eq_iff (m : Mirroring) (v w : Address) :
    nametableCell m v = nametableCell m w ↔ m.Aliases v w := by
  rw [Fin.ext_iff]
  exact m.vramIndex_eq_iff v w

theorem location_of_pattern {p : Ppu} (pattern : p.address < 0x2000) :
    p.location = .pattern p.address.toNat := by
  simp only [location, Location.ofAddress, pattern, ↓reduceIte]

theorem location_of_inNametables {p : Ppu} (inside : InNametables p.address) :
    p.location = .nametable (nametableCell p.mirroring p.address) := by
  have above : ¬ p.address < 0x2000 := UInt16.not_lt.2 inside.1
  simp only [location, Location.ofAddress, above, inside.2, ↓reduceIte]
  rfl

theorem location_of_inPalette {p : Ppu} (inside : InPalette p.address) :
    p.location = .palette (paletteIndex p.address) := by
  have above (bound : Address) (small : bound ≤ 0x3F00) : ¬ p.address < bound :=
    UInt16.not_lt.2 (UInt16.le_trans small inside.1)
  have here : 0x3F00 ≤ p.address ∧ p.address < 0x4000 := inside
  simp only [location, Location.ofAddress, above 0x2000 (by decide), above 0x3000 (by decide), here,
    and_self, ↓reduceIte]

theorem location_of_beyond {p : Ppu} (beyond : ¬ p.address < 0x3000)
    (outside : ¬ InPalette p.address) : p.location = .unmapped := by
  have pattern : ¬ p.address < 0x2000 :=
    fun below => beyond (UInt16.lt_of_lt_of_le below (by decide))
  have outside : ¬ (0x3F00 ≤ p.address ∧ p.address < 0x4000) := outside
  simp only [location, Location.ofAddress, pattern, beyond, outside, ↓reduceIte]

/-- The two memories have no address in common. -/
theorem not_inPalette_of_lt {a : Address} (below : a < 0x3000) : ¬ InPalette a := by
  intro inside
  exact UInt16.not_lt.2 (UInt16.le_trans (by decide) inside.1) below

theorem not_inPalette {a : Address} (inside : InNametables a) : ¬ InPalette a :=
  not_inPalette_of_lt inside.2

/-- What a read of the data register fetches at a nametable address. -/
def nametableByte (p : Ppu) (v : Address) : Byte := p.vram[nametableCell p.mirroring v]

def paletteByte (p : Ppu) (v : Address) : Byte := p.palette[paletteIndex v]

/-- The address and the byte of a request, if it writes one through the data register. -/
def written? (p : Ppu) : Request → Option (Address × Byte)
  | .write a v =>
    match p.dataTarget? a, (writeRegister a v).run p with
    | some w, .ok _ _ => some (w, v)
    | _, _ => none
  | _ => none

/-- What a history writes through the data register, in order. -/
def writes (p : Ppu) : (history : List Request) → List (Address × Byte)
  | [] => []
  | r :: rest => (p.written? r).toList ++ (r.act.after p).writes rest

/-- The last byte written to an address of the class, or what was there before. -/
def lastWritten (same : Address → Prop) [DecidablePred same] (before : Byte)
    (writes : List (Address × Byte)) : Byte :=
  ((writes.findRev? (same ·.1)).map (·.2)).getD before

@[simp] theorem lastWritten_one (same : Address → Prop) [DecidablePred same] (before v : Byte)
    (w : Address) : lastWritten same before [(w, v)] = if same w then v else before := by
  simp only [lastWritten, List.findRev?]
  by_cases here : same w <;> simp [here]

/-- Later writes see earlier ones as what was there before. -/
theorem lastWritten_append (same : Address → Prop) [DecidablePred same] (before : Byte)
    (first rest : List (Address × Byte)) :
    lastWritten same before (first ++ rest) =
      lastWritten same (lastWritten same before first) rest := by
  simp only [lastWritten, List.findRev?_eq_find?_reverse, List.reverse_append, List.find?_append]
  cases rest.reverse.find? _ <;> rfl

/-! What one request does to the memories. -/

/-- A byte in nametable memory, where the pointer points. -/
def storeNametable (p : Ppu) (v : Byte) : Ppu :=
  { p with vram := p.vram.set (nametableCell p.mirroring p.address) v }.advance

/-- A byte in the palette, where the pointer points. -/
def storePalette (p : Ppu) (v : Byte) : Ppu :=
  { p with palette := p.palette.set (paletteIndex p.address) v }.advance

theorem writeData_ok {p q : Ppu} (h : (writeData v).run p = .ok u q) :
    (InNametables p.address ∧ q = p.storeNametable v) ∨
      (InPalette p.address ∧ q = p.storePalette v) := by
  by_cases table : InNametables p.address
  · rw [writeData, run_of, location_of_inNametables table] at h
    cases h
    exact .inl ⟨table, rfl⟩
  by_cases entry : InPalette p.address
  · rw [writeData, run_of, location_of_inPalette entry] at h
    cases h
    exact .inr ⟨entry, rfl⟩
  -- What is left cannot be written.
  by_cases pattern : p.address < 0x2000
  · rw [writeData, run_of, location_of_pattern pattern] at h
    cases h
  · have beyond : ¬ p.address < 0x3000 := fun below => table ⟨UInt16.not_lt.1 pattern, below⟩
    rw [writeData, run_of, location_of_beyond beyond entry] at h
    cases h

theorem written_cases {p : Ppu} (h : p.written? r = some (w, v)) :
    w = p.address ∧ ((InNametables w ∧ r.act.after p = p.storeNametable v) ∨
      (InPalette w ∧ r.act.after p = p.storePalette v)) := by
  unfold written? at h
  split at h
  next a b =>
    split at h
    next t u q target wrote =>
      cases h
      unfold dataTarget? at target
      split at target
      next data =>
        cases target
        have moved : (Request.write a v).act.after p = q := after_ok wrote
        simp only [writeRegister, data] at wrote
        rw [moved]
        exact ⟨rfl, writeData_ok wrote⟩
      · cases target
    · cases h
  · cases h

/-- A memory that the data register reaches changes by a write there only. -/
theorem unwritten {p : Ppu} (h : p.written? r = none) :
    (r.act.after p).vram.toArray = p.vram.toArray ∧ (r.act.after p).palette = p.palette := by
  cases r with
  | read a =>
    obtain ⟨t, moved⟩ := readRegister_steady a p
    change ((readRegister a).after p).vram.toArray = _ ∧ ((readRegister a).after p).palette = _
    rw [moved]
    exact ⟨rfl, rfl⟩
  | write a v =>
    change ((writeRegister a v).after p).vram.toArray = _ ∧
      ((writeRegister a v).after p).palette = _
    by_cases data : Register.ofAddress? a = some .data
    · simp only [written?, dataTarget?, data, ↓reduceIte] at h
      cases wrote : (writeRegister a v).run p with
      | ok u q => simp only [wrote, reduceCtorEq] at h
      | error e q =>
        rw [after_error wrote, writeRegister_fault wrote]
        exact ⟨rfl, rfl⟩
    · unfold writeRegister
      split
      case h_8 here => exact absurd here data
      all_goals exact ⟨rfl, rfl⟩
  | vblank on | advance => exact ⟨rfl, rfl⟩

theorem nametableByte_congr {p q : Ppu} (mirroring : q.mirroring = p.mirroring)
    (vram : q.vram.toArray = p.vram.toArray) (v : Address) :
    q.nametableByte v = p.nametableByte v := by
  have cell (p : Ppu) : p.vram.toArray[p.mirroring.vramIndex v]? = some (p.nametableByte v) := by
    simp [nametableByte, nametableCell, p.mirroring.vramIndex_lt v]
  apply Option.some.inj
  rw [← cell q, ← cell p, vram, mirroring]

theorem nametableByte_storeNametable (p : Ppu) (b : Byte) (v : Address) :
    (p.storeNametable b).nametableByte v =
      if p.mirroring.Aliases p.address v then b else p.nametableByte v := by
  change (p.vram.set (nametableCell p.mirroring p.address) b)[nametableCell p.mirroring v] = _
  simp only [Fin.getElem_fin, Vector.getElem_set, Fin.val_inj, nametableCell_eq_iff]
  rfl

theorem paletteByte_storePalette (p : Ppu) (b : Byte) (v : Address) :
    (p.storePalette b).paletteByte v =
      if paletteEntry p.address = paletteEntry v then b else p.paletteByte v := by
  change (p.palette.set (paletteIndex p.address) b)[paletteIndex v] = _
  simp only [Fin.getElem_fin, Vector.getElem_set, Fin.val_inj, paletteIndex_eq_iff]
  rfl

/-- One request writes to a nametable address at most one byte, and to its aliases. -/
theorem nametableByte_after (p : Ppu) (r : Request) (v : Address) :
    (r.act.after p).nametableByte v =
      lastWritten (fun w => InNametables w ∧ p.mirroring.Aliases w v) (p.nametableByte v)
        (p.written? r).toList := by
  cases h : p.written? r with
  | none => exact nametableByte_congr (SameLines.request r p).mirroring (unwritten h).1 v
  | some write =>
    obtain ⟨w, b⟩ := write
    rw [Option.toList_some, lastWritten_one]
    obtain ⟨rfl, ⟨inside, moved⟩ | ⟨inside, moved⟩⟩ := written_cases h
    · simp only [moved, nametableByte_storeNametable, inside, true_and]
    · have elsewhere : ¬ InNametables p.address := fun table => not_inPalette table inside
      simp only [moved, elsewhere, false_and, ↓reduceIte]
      rfl

theorem paletteByte_after (p : Ppu) (r : Request) (v : Address) :
    (r.act.after p).paletteByte v =
      lastWritten (fun w => InPalette w ∧ paletteEntry w = paletteEntry v) (p.paletteByte v)
        (p.written? r).toList := by
  cases h : p.written? r with
  | none => exact congrArg (·[paletteIndex v]) (unwritten h).2
  | some write =>
    obtain ⟨w, b⟩ := write
    rw [Option.toList_some, lastWritten_one]
    obtain ⟨rfl, ⟨inside, moved⟩ | ⟨inside, moved⟩⟩ := written_cases h
    · simp only [moved, not_inPalette inside, false_and, ↓reduceIte]
      rfl
    · simp only [moved, paletteByte_storePalette, inside, true_and]

/-! Histories. -/

theorem afterAll_lines (p : Ppu) (history : List Request) : SameLines p (p.afterAll history) := by
  induction history generalizing p with
  | nil => exact .refl p
  | cons r rest ih => exact (SameLines.request r p).trans (ih _)

/-- A byte that each request leaves as the last one written does so over a history. -/
theorem afterAll_lastWritten (byte : Ppu → Byte) (same : Address → Prop) [DecidablePred same]
    (p : Ppu) (each : ∀ q, SameLines p q → ∀ r : Request,
      byte (r.act.after q) = lastWritten same (byte q) (q.written? r).toList)
    (history : List Request) :
    byte (p.afterAll history) = lastWritten same (byte p) (p.writes history) := by
  induction history generalizing p with
  | nil => rfl
  | cons r rest ih =>
    rw [writes, lastWritten_append, ← each p (.refl p)]
    exact ih _ fun q lines => each q ((SameLines.request r p).trans lines)

theorem nametableByte_afterAll (p : Ppu) (history : List Request) (v : Address) :
    (p.afterAll history).nametableByte v =
      lastWritten (fun w => InNametables w ∧ p.mirroring.Aliases w v) (p.nametableByte v)
        (p.writes history) := by
  apply afterAll_lastWritten (·.nametableByte v)
  intro q lines r
  simp only [nametableByte_after, lines.mirroring]

theorem paletteByte_afterAll (p : Ppu) (history : List Request) (v : Address) :
    (p.afterAll history).paletteByte v =
      lastWritten (fun w => InPalette w ∧ paletteEntry w = paletteEntry v) (p.paletteByte v)
        (p.writes history) :=
  afterAll_lastWritten (·.paletteByte v) _ p (fun q _ r => paletteByte_after q r v) history

theorem readRegister_inNametables {p : Ppu} (data : Register.ofAddress? a = some .data)
    (inside : InNametables p.address) :
    ∃ q, (readRegister a).run p = .ok p.buffer q ∧ q.buffer = p.nametableByte p.address := by
  simp only [readRegister, data, readData, run_of, location_of_inNametables inside]
  exact ⟨_, rfl, rfl⟩

theorem readRegister_inPalette {p : Ppu} (data : Register.ofAddress? a = some .data)
    (inside : InPalette p.address) :
    ∃ q, (readRegister a).run p = .ok (p.paletteByte p.address) q := by
  simp only [readRegister, data, readData, run_of, location_of_inPalette inside]
  exact ⟨_, rfl⟩

/-- A unit that was switched on and given any history reads, at every nametable and palette
address, the last byte written to one of its aliases, or zero. A write to one of the two
memories leaves the other and object memory alone; what is no such write, as one to object
memory, leaves both alone; and pattern memory stays as it is. -/
theorem last_write_wins (chr : Array Byte) (m : Mirroring) (history : List Request) :
    let p := (powerOn chr m).afterAll history
    let log := (powerOn chr m).writes history
    (∀ a, Register.ofAddress? a = some .data → InNametables p.address →
      ∃ q, (readRegister a).run p = .ok p.buffer q ∧
        q.buffer = lastWritten (fun w => InNametables w ∧ m.Aliases w p.address) 0 log) ∧
    (∀ a, Register.ofAddress? a = some .data → InPalette p.address →
      ∃ q, (readRegister a).run p =
        .ok (lastWritten (fun w => InPalette w ∧ paletteEntry w = paletteEntry p.address) 0 log) q) ∧
    (∀ (r : Request) w v, p.written? r = some (w, v) →
      (r.act.after p).oam = p.oam ∧
      (InNametables w → (r.act.after p).palette = p.palette) ∧
      (InPalette w → (r.act.after p).vram.toArray = p.vram.toArray)) ∧
    (∀ r : Request, p.written? r = none →
      (r.act.after p).vram.toArray = p.vram.toArray ∧ (r.act.after p).palette = p.palette) ∧
    (∀ r : Request, (r.act.after p).chr = chr) := by
  intro p log
  have lines : SameLines (powerOn chr m) p := afterAll_lines _ history
  refine ⟨fun a data inside => ?_, fun a data inside => ?_, fun r w v written => ?_,
    fun r => unwritten, fun r => (lines.trans (SameLines.request r p)).chr⟩
  · obtain ⟨q, read, fetched⟩ := readRegister_inNametables data inside
    have blank : (powerOn chr m).nametableByte p.address = 0 := Vector.getElem_replicate _
    refine ⟨q, read, ?_⟩
    rw [fetched, nametableByte_afterAll, blank]
    rfl
  · obtain ⟨q, read⟩ := readRegister_inPalette data inside
    have blank : (powerOn chr m).paletteByte p.address = 0 := Vector.getElem_replicate _
    refine ⟨q, ?_⟩
    rw [read, paletteByte_afterAll, blank]
  · obtain ⟨rfl, ⟨inside, moved⟩ | ⟨inside, moved⟩⟩ := written_cases written
    · rw [moved]
      exact ⟨rfl, fun _ => rfl, fun palette => absurd palette (not_inPalette inside)⟩
    · rw [moved]
      exact ⟨rfl, fun table => absurd inside (not_inPalette table), fun _ => rfl⟩

/-- With the tables of a column shared, a byte written in the lower one is fetched from the
upper one, over what was written there before. -/
theorem last_write_wins_column :
    let p := (powerOn #[] .vertical).afterAll
      [.write 0x2006 0x20, .write 0x2006 0x05, .write 0x2007 0x11,
        .write 0x2006 0x28, .write 0x2006 0x05, .write 0x2007 0x22,
        .write 0x2006 0x20, .write 0x2006 0x05]
    p.address = 0x2005 ∧ ∃ q, (readRegister 0x2007).run p = .ok p.buffer q ∧ q.buffer = 0x22 := by
  intro p
  have here : p.address = 0x2005 := by decide
  refine ⟨here, ?_⟩
  obtain ⟨q, read, fetched⟩ := (last_write_wins #[] .vertical _).1 0x2007 (by decide)
    (by rw [here]; decide)
  refine ⟨q, read, fetched.trans ?_⟩
  decide

end Ppu
end Nes
