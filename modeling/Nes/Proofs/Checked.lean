import Nes.Proofs.Command

/-! Checked execution. Every index is held against the length of what it indexes, and sums,
differences and products that must stay within their width are watched; a check that fails
aborts, which is neither an answer nor a fault. A checked action that never aborts is the
plain one, lifted. -/
namespace Nes

open Nes.Action

/-- An action that may abort. -/
abbrev Checked (σ α : Type) := OptionT (EStateM Fault σ) α

namespace Checked

/-- An action in which there is nothing to check. -/
def plain [Monad m] (act : m α) : OptionT m α := OptionT.lift act

theorem plain_pure [Monad m] [LawfulMonad m] (v : α) : plain (pure v : m α) = pure v :=
  OptionT.lift_pure v

theorem plain_bind [Monad m] [LawfulMonad m] (act : m α) (next : α → m β) :
    plain (act >>= next) = plain act >>= fun v => plain (next v) :=
  OptionT.lift_bind act next

theorem plain_ite [Monad m] (c : Prop) [Decidable c] (act other : m α) :
    plain (if c then act else other) = if c then plain act else plain other :=
  apply_ite plain c act other

/-- The value of a check. -/
def check [Monad m] (v : Option α) : OptionT m α := OptionT.mk (pure v)

@[simp] theorem check_some [Monad m] (v : α) : check (some v) = (pure v : OptionT m α) := rfl

theorem plain_throw (e : Fault) : plain (throw e : Action σ α) = throwThe Fault e := by
  funext s
  rfl

@[simp] theorem run_plain (act : Action σ α) (s : σ) :
    (plain act).run.run s =
      match act.run s with
      | .ok v t => .ok (some v) t
      | .error e t => .error e t := by
  change (act >>= fun v => pure (some v)).run s = _
  rw [EStateM.run_bind]
  cases act.run s <;> rfl

/-- Checked and plain agree if they do so from every state. -/
theorem eq_plain {act : Checked σ α} {base : Action σ α}
    (same : ∀ s, act.run.run s =
      match base.run s with
      | .ok v t => .ok (some v) t
      | .error e t => .error e t) : act = plain base := by
  funext s
  exact (same s).trans (run_plain base s).symm

/-- So they do if the first thing that is checked passes, and they agree from there on. -/
theorem eq_plain_of_passes {β : σ → Type} {f : (s : σ) → Option (β s)} {g : (s : σ) → β s}
    {next : (s : σ) → β s → Checked σ α} {base : Action σ α} (passes : ∀ s, f s = some (g s))
    (same : ∀ s, (next s (g s)).run.run s =
      match base.run s with
      | .ok v t => .ok (some v) t
      | .error e t => .error e t) :
    (do let s ← get; let v ← check (f s); next s v) = plain base := by
  apply eq_plain
  intro s
  change (check (f s) >>= next s).run.run s = _
  rw [passes, check_some, pure_bind]
  exact same s

/-- A look at the state that is no more than a check. -/
theorem check_get {f : σ → Option α} {g : σ → α} (passes : ∀ s, f s = some (g s)) :
    (do check (f (← get)) : Checked σ α) = plain (Action.of fun s => .ok (g s) s) := by
  apply eq_plain
  intro s
  change (check (f s) : Checked σ α).run.run s = _
  rw [passes]
  rfl

theorem run_bind_plain (act : Action σ α) (next : α → Checked σ β) (s : σ) :
    (plain act >>= next).run.run s =
      match act.run s with
      | .ok v t => (next v).run.run t
      | .error e t => .error e t := by
  rw [OptionT.run_bind, Option.elimM, EStateM.run_bind, run_plain]
  cases act.run s <;> rfl

/-- A checked action on a part of the state. -/
def focus (split : σ → τ × (τ → σ)) (act : Checked τ α) : Checked σ α :=
  OptionT.mk (Action.focus split act.run)

theorem focus_plain (split : σ → τ × (τ → σ)) (act : Action τ α) :
    focus split (plain act) = plain (Action.focus split act) := by
  apply eq_plain
  intro s
  change (Action.focus split (plain act).run).run s = _
  rw [run_focus, run_plain, run_focus]
  cases act.run (split s).1 <;> rfl

/-- What becomes of the state, unless the action aborts. -/
def after? (act : Checked σ α) (s : σ) : Option σ :=
  match act.run.run s with
  | .ok (some _) t | .error _ t => some t
  | .ok none _ => none

theorem after?_plain (act : Action σ α) (s : σ) : after? (plain act) s = some (act.after s) := by
  rw [after?, run_plain]
  cases h : act.run s with
  | ok v t => rw [after_ok h]
  | error e t => rw [after_error h]

end Checked

/-! Arithmetic that is watched. -/

/-- The cell with an index, if there are that many. -/
def cell? (size i : Nat) : Option (Fin size) := if h : i < size then some ⟨i, h⟩ else none

/-- The cells with one of them replaced. -/
def put (cells : Vector α size) (cell : Fin size) (v : α) : Vector α size :=
  cells.set cell v cell.isLt

def sum? (a b : Address) : Option Address :=
  if a.toNat + b.toNat < 0x10000 then some (a + b) else none

def difference? (a b : Address) : Option Address := if b ≤ a then some (a - b) else none

def product? (a b : Address) : Option Address :=
  if a.toNat * b.toNat < 0x10000 then some (a * b) else none

theorem cell?_of_lt (h : i < size) : cell? size i = some ⟨i, h⟩ := dif_pos h

theorem sum?_of_lt {a b : Address} (lt : a.toNat + b.toNat < 0x10000) :
    sum? a b = some (UInt16.ofNat (a.toNat + b.toNat)) := by
  rw [sum?, if_pos lt]
  rfl

theorem difference?_of_le {a b : Address} (le : b.toNat ≤ a.toNat) :
    difference? a b = some (UInt16.ofNat (a.toNat - b.toNat)) := by
  have le : b ≤ a := UInt16.le_iff_toNat_le.2 le
  rw [difference?, if_pos le, ← UInt16.toNat_sub_of_le a b le, UInt16.ofNat_toNat]

/-- The index in nametable memory by subtraction of the banks that are not there. -/
def Mirroring.foldedIndex? (m : Mirroring) (a : Address) : Option Address :=
  let index := a &&& 0x0FFF
  match m, (index / 0x400).toNat with
  | .vertical, 2 | .vertical, 3 | .horizontal, 3 => difference? index 0x800
  | .horizontal, 1 | .horizontal, 2 => difference? index 0x400
  | _, _ => some index

/-- The tables are numbered 0 to 3, and where a bank is missing, the ones before it have been
passed. -/
theorem Mirroring.foldedIndex?_eq (m : Mirroring) (a : Address) :
    m.foldedIndex? a = some (UInt16.ofNat (m.vramIndex a)) := by
  have index : (a &&& 0x0FFF).toNat = a.toNat % 0x1000 := Nat.and_two_pow_sub_one_eq_mod a.toNat 12
  have table : ((a &&& 0x0FFF) / 0x400).toNat = a.toNat % 0x1000 / 0x400 := by
    rw [UInt16.toNat_div, index]
    rfl
  have whole : some (a &&& 0x0FFF) = some (UInt16.ofNat (a.toNat % 0x1000)) := by
    rw [← index, UInt16.ofNat_toNat]
  have oneBank (le : 0x400 ≤ a.toNat % 0x1000) :
      difference? (a &&& 0x0FFF) 0x400 = some (UInt16.ofNat (a.toNat % 0x1000 - 0x400)) := by
    rw [difference?_of_le (by rwa [index]), index]
    rfl
  have twoBanks (le : 0x800 ≤ a.toNat % 0x1000) :
      difference? (a &&& 0x0FFF) 0x800 = some (UInt16.ofNat (a.toNat % 0x1000 - 0x800)) := by
    rw [difference?_of_le (by rwa [index]), index]
    rfl
  have same {n k : Nat} (h : n = k) : some (UInt16.ofNat n) = some (UInt16.ofNat k) := by rw [h]
  have tables : a.toNat % 0x1000 / 0x400 = 0 ∨ a.toNat % 0x1000 / 0x400 = 1 ∨
      a.toNat % 0x1000 / 0x400 = 2 ∨ a.toNat % 0x1000 / 0x400 = 3 := by omega
  -- By table and mode: the index stays, or one bank is taken off it, or two.
  simp only [foldedIndex?, vramIndex, tableSize, table]
  rcases tables with h | h | h | h <;> cases m <;> simp only [h, bank]
  all_goals first | rw [whole] | rw [oneBank (by omega)] | rw [twoBanks (by omega)]
  all_goals exact same (by omega)

/-- Indices in nametable memory fit in an address. -/
theorem Mirroring.toNat_vramIndex (m : Mirroring) (a : Address) :
    (UInt16.ofNat (m.vramIndex a)).toNat = m.vramIndex a := by
  have bound := m.vramIndex_lt a
  have small : m.vramSize ≤ 0x1000 := by cases m <;> decide
  rw [UInt16.toNat_ofNat']
  omega

namespace Ppu

/-- The palette entry, folded by subtraction. -/
def paletteCell? (a : Address) : Option (Fin 32) := do
  let entry := (a - 0x3F00) &&& 0x1F
  let folded ← if 0x10 ≤ entry ∧ entry &&& 0x03 = 0 then difference? entry 0x10 else some entry
  cell? 32 folded.toNat

theorem paletteCell?_eq (a : Address) : paletteCell? a = some (paletteIndex a) := by
  have entry : (a - 0x3F00) &&& 0x1F = UInt16.ofNat (a.toNat % 32) := by
    apply UInt16.toNat_inj.1
    have masked : ((a - 0x3F00) &&& 0x1F).toNat = (a - 0x3F00).toNat % 32 :=
      Nat.and_two_pow_sub_one_eq_mod (a - 0x3F00).toNat 5
    have base : (0x3F00 : Address).toNat = 0x3F00 := rfl
    rw [masked, UInt16.toNat_sub, UInt16.toNat_ofNat', base]
    omega
  have folds : ∀ e : Fin 32, (do
      let folded ← if 0x10 ≤ UInt16.ofNat e ∧ UInt16.ofNat e &&& 0x03 = 0 then
        difference? (UInt16.ofNat e) 0x10 else some (UInt16.ofNat e)
      cell? 32 folded.toNat) = some ⟨if 16 ≤ e.val ∧ e.val % 4 = 0 then e.val - 16 else e.val,
        by split <;> omega⟩ := by
    decide
  rw [paletteCell?, entry]
  exact folds ⟨a.toNat % 32, Nat.mod_lt _ (by decide)⟩

/-- What the pointer points at. -/
def location? (p : Ppu) : Option (Location p.mirroring) :=
  if p.address < 0x2000 then some (.pattern p.address.toNat)
  else if p.address < 0x3000 then do
    let index ← p.mirroring.foldedIndex? p.address
    return .nametable (← cell? _ index.toNat)
  else if 0x3F00 ≤ p.address ∧ p.address < 0x4000 then return .palette (← paletteCell? p.address)
  else some .unmapped

theorem location?_eq (p : Ppu) : p.location? = some p.location := by
  have bound := p.mirroring.vramIndex_lt p.address
  have index := p.mirroring.toNat_vramIndex p.address
  simp only [location?, location, Location.ofAddress, Mirroring.foldedIndex?_eq, paletteCell?_eq]
  split
  · rfl
  split
  · simp only [Option.bind_eq_bind, Option.bind_some, index, cell?_of_lt bound]
    rfl
  split <;> rfl

/-- The address of the selected nametable, by a sum and a product. -/
def Control.nametable? (c : Control) : Option Address := do
  sum? 0x2000 (← product? 0x400 (c.bits &&& 0x03).toUInt16)

theorem Control.nametable?_eq (c : Control) : c.nametable? = some c.nametable := by
  have table : ∀ n : Fin 4, (do sum? 0x2000 (← product? 0x400 (UInt8.ofNat n).toUInt16)) =
      some (0x2000 + 0x400 * (UInt8.ofNat n).toUInt16) := by decide
  have masked : c.bits &&& 0x03 = UInt8.ofNat (c.bits.toNat % 4) := by
    apply UInt8.toNat_inj.1
    have low : (c.bits &&& 0x03).toNat = c.bits.toNat % 4 :=
      Nat.and_two_pow_sub_one_eq_mod c.bits.toNat 2
    rw [low, UInt8.toNat_ofNat']
    omega
  have lowest : c.bits % 4 = UInt8.ofNat (c.bits.toNat % 4) := by
    rw [← UInt8.ofNat_toNat (x := c.bits % 4), UInt8.toNat_mod]
    rfl
  rw [nametable?, masked, nametable, lowest]
  exact table ⟨c.bits.toNat % 4, Nat.mod_lt _ (by decide)⟩

namespace Checked

open Nes.Checked

def readData : Checked Ppu Byte := do
  let p ← get
  match ← check p.location? with
  | .pattern offset =>
    match p.chr[offset]? with
    | some fresh =>
      set { p with buffer := fresh }.advance
      return p.buffer
    | none => throwThe Fault (.unmapped p.address)
  | .nametable index =>
    set { p with buffer := p.vram.get index }.advance
    return p.buffer
  | .palette entry =>
    set p.advance
    return p.palette.get entry
  | .unmapped => throwThe Fault (.unmapped p.address)

def writeData (v : Byte) : Checked Ppu Unit := do
  let p ← get
  match ← check p.location? with
  | .pattern _ => throwThe Fault (.readOnly p.address)
  | .nametable index => set { p with vram := put p.vram index v }.advance
  | .palette entry => set { p with palette := put p.palette entry v }.advance
  | .unmapped => throwThe Fault (.unmapped p.address)

def readRegister (a : Address) : Checked Ppu Byte :=
  match Register.ofAddress? a with
  | some .oamData => do
    let p ← get
    return p.oam.get (← check (cell? 256 p.oamAddress.toNat))
  | some .data => readData
  | _ => plain (Ppu.readRegister a)

def writeRegister (a : Address) (v : Byte) : Checked Ppu Unit :=
  match Register.ofAddress? a with
  | some .oamData => do
    let p ← get
    let cell ← check (cell? 256 p.oamAddress.toNat)
    set { p with oam := put p.oam cell v, oamAddress := p.oamAddress + 1 }
  | some .data => writeData v
  | _ => plain (Ppu.writeRegister a v)

theorem readData_eq : readData = plain Ppu.readData := by
  refine eq_plain_of_passes location?_eq fun p => ?_
  rw [Ppu.readData, run_of]
  cases p.location with
  | pattern offset => dsimp only; cases p.chr[offset]? <;> rfl
  | nametable index | palette entry | unmapped => rfl

theorem writeData_eq (v : Byte) : writeData v = plain (Ppu.writeData v) := by
  refine eq_plain_of_passes location?_eq fun p => ?_
  rw [Ppu.writeData, run_of]
  cases p.location <;> rfl

theorem oamCell_eq (p : Ppu) : cell? 256 p.oamAddress.toNat = some p.oamCell :=
  cell?_of_lt p.oamAddress.toNat_lt

theorem readRegister_eq (a : Address) : readRegister a = plain (Ppu.readRegister a) := by
  unfold readRegister
  split
  next register =>
    refine eq_plain_of_passes oamCell_eq fun p => ?_
    rw [Ppu.readRegister, register]
    rfl
  next register => rw [readData_eq, Ppu.readRegister, register]
  · rfl

theorem writeRegister_eq (a : Address) (v : Byte) :
    writeRegister a v = plain (Ppu.writeRegister a v) := by
  unfold writeRegister
  split
  next register =>
    refine eq_plain_of_passes oamCell_eq fun p => ?_
    rw [Ppu.writeRegister, register]
    rfl
  next register => rw [writeData_eq, Ppu.writeRegister, register]
  · rfl

end Checked
end Ppu

namespace Bus

def ramCell? (a : Address) : Option WorkRam.Cell := cell? 0x800 (a &&& 0x07FF).toNat

theorem ramCell?_eq (a : Address) : ramCell? a = some (WorkRam.cellOf a) := by
  have masked : (a &&& 0x07FF).toNat = a.toNat % 0x800 :=
    Nat.and_two_pow_sub_one_eq_mod a.toNat 11
  rw [ramCell?, masked]
  exact cell?_of_lt _

/-- The cell of the reset vector at an address, if it is one of the two. -/
def vectorCell? (a : Address) : Option (Option (Fin 2)) :=
  if a = 0xFFFC then some <$> cell? 2 0 else if a = 0xFFFD then some <$> cell? 2 1 else some none

theorem vectorCell?_eq {offset : Fin 0x8000} (placed : a.toNat = 0x8000 + offset.val) :
    vectorCell? a = some (vectorIndex? offset) := by
  have first : offset = 0x7FFC ↔ a = 0xFFFC := by
    rw [Fin.ext_iff, ← UInt16.toNat_inj, placed]
    change offset.val = 0x7FFC ↔ 0x8000 + offset.val = 0xFFFC
    omega
  have second : offset = 0x7FFD ↔ a = 0xFFFD := by
    rw [Fin.ext_iff, ← UInt16.toNat_inj, placed]
    change offset.val = 0x7FFD ↔ 0x8000 + offset.val = 0xFFFD
    omega
  simp only [vectorCell?, vectorIndex?, first, second]
  split
  · rfl
  · split <;> rfl

namespace Checked

open Nes.Checked

/-- The byte behind the program window. Without a cartridge there may be none. -/
def romByte? (b : Bus) (a : Address) : Option (Option Byte) :=
  match b.cartridge with
  | some c => some <$> c.prgByte? a
  | none => (vectorCell? a).map (·.map b.resetVector.get)

def peek? (b : Bus) (a : Address) : Option (Option Byte) :=
  if a < 0x2000 then return some (b.ram.get (← ramCell? a))
  else if 0x8000 ≤ a.toNat then romByte? b a
  else some none

def onPpu (act : Checked Ppu α) : Checked Bus α :=
  act.focus fun ⟨ram, ppu, cartridge, vector⟩ => (ppu, fun ppu => ⟨ram, ppu, cartridge, vector⟩)

def read (a : Address) : Checked Bus Byte := do
  if a < 0x2000 then
    let cell ← check (ramCell? a)
    return (← get).ram.get cell
  else if a < 0x4000 then onPpu (Ppu.Checked.readRegister a)
  else if 0x8000 ≤ a.toNat then
    match ← check (romByte? (← get) a) with
    | some v => return v
    | none => throwThe Fault (.unmapped a)
  else throwThe Fault (.unmapped a)

def write (a : Address) (v : Byte) : Checked Bus Unit := do
  if a < 0x2000 then
    let cell ← check (ramCell? a)
    modify fun b => { b with ram := b.ram.set cell v }
  else if a < 0x4000 then onPpu (Ppu.Checked.writeRegister a v)
  else if 0x8000 ≤ a.toNat then
    match (← get).cartridge with
    | some _ => throwThe Fault (.readOnly a)
    | none =>
      match ← check (vectorCell? a) with
      | some place => modify fun b => { b with resetVector := put b.resetVector place v }
      | none => throwThe Fault (.unmapped a)
  else throwThe Fault (.unmapped a)

theorem onPpu_plain (act : Action Ppu α) : onPpu (plain act) = plain (Bus.onPpu act) :=
  focus_plain _ act

theorem romByte?_eq (b : Bus) {offset : Fin 0x8000} (placed : a.toNat = 0x8000 + offset.val) :
    romByte? b a = some (b.romByte? offset) := by
  rw [romByte?, vectorCell?_eq placed, Bus.romByte?]
  cases b.cartridge with
  | some c => simp only [c.prgByte?_eq_prgByte offset a placed]; rfl
  | none => rfl

theorem peek?_eq (b : Bus) (a : Address) : peek? b a = some (b.peek? a) := by
  unfold peek?
  split
  next below =>
    rw [Bus.peek?, ofAddress_ram below, ramCell?_eq]
    rfl
  split
  next inWindow =>
    obtain ⟨offset, region, placed⟩ := ofAddress_rom inWindow
    rw [romByte?_eq b placed, Bus.peek?, region]
  next beyond outside =>
    by_cases register : a < 0x4000 <;>
      simp only [Bus.peek?, Region.ofAddress, beyond, register, outside, ↓reduceIte, ↓reduceDIte]

theorem read_eq (a : Address) : read a = plain (Bus.read a) := by
  unfold read
  split
  next below =>
    rw [ramCell?_eq, check_some, pure_bind, Bus.read, ofAddress_ram below]
    rfl
  split
  next beyond register =>
    simp only [Ppu.Checked.readRegister_eq, onPpu_plain, Bus.read, Region.ofAddress, beyond,
      register, ↓reduceIte]
  split
  next inWindow =>
    obtain ⟨offset, region, placed⟩ := ofAddress_rom inWindow
    refine eq_plain_of_passes (fun b => romByte?_eq b placed) fun b => ?_
    simp only [Bus.read, region, run_of]
    cases b.romByte? offset <;> rfl
  next beyond above outside =>
    simp only [Bus.read, Region.ofAddress, beyond, above, outside, ↓reduceIte, ↓reduceDIte,
      plain_throw]

theorem write_eq (a : Address) (v : Byte) : write a v = plain (Bus.write a v) := by
  unfold write
  split
  next below =>
    rw [ramCell?_eq, check_some, pure_bind, Bus.write, ofAddress_ram below]
    rfl
  split
  next beyond register =>
    simp only [Ppu.Checked.writeRegister_eq, onPpu_plain, Bus.write, Region.ofAddress, beyond,
      register, ↓reduceIte]
  split
  next inWindow =>
    obtain ⟨offset, region, placed⟩ := ofAddress_rom inWindow
    apply eq_plain
    rintro ⟨ram, ppu, cartridge, resetVector⟩
    simp only [Bus.write, region, run_of]
    cases cartridge with
    | some c => rfl
    | none =>
      change (check (vectorCell? a) >>= _ : Checked Bus Unit).run.run _ = _
      rw [vectorCell?_eq placed, check_some, pure_bind]
      cases vectorIndex? offset <;> rfl
  next beyond above outside =>
    simp only [Bus.write, Region.ofAddress, beyond, above, outside, ↓reduceIte, ↓reduceDIte,
      plain_throw]

end Checked
end Bus
end Nes
