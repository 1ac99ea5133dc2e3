import Nes.Proofs.CheckedMachine
import Nes.Proofs.Image

/-! No command aborts. Checked and plain commands are the same, so that no index leaves what
it indexes and no watched arithmetic its width, whatever the history of a machine; the one
access that can abort is to a cartridge below its window. -/
namespace Nes

open Nes.Action Nes.Checked

namespace Cartridge

def Checked.ofImage (image : Array Byte) : OptionT (Except ImageError) Cartridge := do
  if image.size < 16 then throwThe ImageError (.tooSmall image.size)
  else
    let tag := (← check image[0]?, ← check image[1]?, ← check image[2]?, ← check image[3]?)
    if tag ≠ (0x4E, 0x45, 0x53, 0x1A) then throwThe ImageError .missingTag
    else
      let h := Header.ofFields (← check image[4]?) (← check image[5]?) (← check image[6]?)
        (← check image[7]?)
      if h.mapper ≠ 0 then throwThe ImageError (.unsupportedMapper h.mapper)
      else if h.version ≠ 0 then throwThe ImageError (.unsupportedVersion h.version)
      else plain (ofSections h image)

theorem Checked.ofImage_eq (image : Array Byte) :
    Checked.ofImage image = plain (Cartridge.ofImage image) := by
  unfold Checked.ofImage
  split
  next small =>
    rw [Cartridge.ofImage, dif_neg (by omega)]
    rfl
  next enough =>
    have enough : 16 ≤ image.size := by omega
    have field (i : Nat) (inHeader : i < 16) : image[i]? = some (image.getD i 0) := by
      have inImage : i < image.size := by omega
      rw [Array.getD_eq_getD_getElem?, Array.getElem?_eq_getElem inImage, Option.getD_some]
    simp only [field, Nat.reduceLT, check_some, pure_bind, ofImage_of_size enough, plain_ite]
    rfl

/-- Below its window, a cartridge of two banks has no byte, one of three has some. -/
theorem Carries.prgByte?_eq_none {c : Cartridge} (carries : c.Carries image) (a : Address) :
    c.prgByte? a = none ↔ (Image.programBanks image = 2 ∧ a < 0x8000) ∨
      (Image.programBanks image = 3 ∧ 0x4000 ≤ a ∧ a < 0x8000) := by
  have size := carries.prgSize
  have pos := c.prgBanks_pos
  rw [carries.banks] at pos
  have inSpace := a.toNat_lt
  -- Below the window the distance wraps around, and is 0x8000 or more.
  have distance : (a - 0x8000).toNat = (a.toNat + 0x8000) % 0x10000 := by
    have base : (0x8000 : Address).toNat = 0x8000 := rfl
    rw [UInt16.toNat_sub, base]
    omega
  have below : a < 0x8000 ↔ a.toNat < 0x8000 := UInt16.lt_iff_toNat_lt
  have above : 0x4000 ≤ a ↔ 0x4000 ≤ a.toNat := UInt16.le_iff_toNat_le
  rw [prgByte?, Array.getElem?_eq_none_iff, prgOffset, distance, size, below, above]
  split <;> simp only [Header.prgBankSize] at * <;> omega

end Cartridge

namespace Ppu

theorem Pointer.masked_hi (p : Pointer) : p.masked.hi < 0x40 :=
  UInt8.mod_lt _ (by decide)

theorem address_le_of_inside {p : Ppu} (inside : p.pointer.hi < 0x40) : p.address ≤ 0x3FFF := by
  have high : p.pointer.hi.toNat < 0x40 := UInt8.lt_iff_toNat_lt.1 inside
  have low := p.pointer.lo.toNat_lt
  rw [UInt16.le_iff_toNat_le, address, Pointer.address, toNat_word]
  change _ ≤ 0x3FFF
  omega

/-- A pointer that was inside the fourteen bit space stays inside. -/
def StaysInside (p q : Ppu) : Prop := p.pointer.hi < 0x40 → q.pointer.hi < 0x40

theorem advance_inside (p q : Ppu) : StaysInside p q.advance := fun _ => Pointer.masked_hi _

theorem readData_inside : Moves StaysInside readData := by
  apply Moves.of_ok (R := StaysInside) (fun _ inside => inside) readData_fault
  intro p v q h
  obtain ⟨buffer, rfl⟩ := readData_advances h
  exact advance_inside _ _

theorem writeData_inside (v : Byte) : Moves StaysInside (writeData v) := by
  apply Moves.of_ok (R := StaysInside) (fun _ inside => inside) writeData_fault
  intro p u q h
  obtain ⟨vram, palette, rfl⟩ := writeData_advances h
  exact advance_inside _ _

theorem Request.inside (r : Request) : Moves StaysInside r.act := by
  cases r with
  | read a =>
    simp only [Request.act, readRegister]
    split
    case h_3 => exact readData_inside
    all_goals exact fun _ inside => inside
  | write a v =>
    simp only [Request.act, writeRegister]
    split
    case h_7 => exact fun _ _ => Pointer.masked_hi _
    case h_8 => exact writeData_inside v
    all_goals exact fun _ inside => inside
  | vblank on => exact fun _ inside => inside
  | advance => exact fun p => advance_inside p p

end Ppu

/-- What `Ppu.StaysInside` says, of a bus. -/
def Bus.StaysInside (b c : Bus) : Prop := b.ppu.StaysInside c.ppu

theorem Bus.StaysInside.kept : Bus.Kept StaysInside where
  refl _ inside := inside
  trans first second inside := second (first inside)
  ram _ _ inside := inside
  resetVector _ _ inside := inside
  picture r b := by
    rw [onPpu_after]
    exact Ppu.Request.inside r b.ppu

theorem Bus.StaysInside.attach (b : Bus) (c : Cartridge) : b.StaysInside (b.attach c) :=
  fun _ => (by decide : (0 : Byte) < 0x40)

namespace Machine

namespace Checked

def request : (r : Ppu.Request) → Checked Machine r.Answer
  | .read a => onBus (Bus.Checked.onPpu (Ppu.Checked.readRegister a))
  | .write a v => writeRegister a v
  | .vblank on => plain (Command.request (.vblank on))
  | .advance => plain (Command.request .advance)

def insert (image : Array Byte) : Checked Machine (Except ImageError Unit) := do
  let m ← get
  match (Cartridge.Checked.ofImage image).run with
  | .ok c =>
    let c ← check c
    set ((m.note (.parsed c)).attach c)
    return .ok ()
  | .error e => return .error e

def trace : Checked Machine String := OptionT.mk (Action.of fun m =>
  match (Disassembly.Checked.line m.cpu m.bus).run with
  | .ok line => .ok line m
  | .error e => .error e m)

def command : (c : Command) → Checked Machine c.Answer
  | .insert image => insert image
  | .install cpu => plain (update fun _ => cpu)
  | .read a => read a
  | .write a v => write a v
  | .readWord a => readWord a
  | .writeWord a v => writeWord a v
  | .peek a => do check (Bus.Checked.peek? (← get).bus a)
  | .picture r => request r
  | .mirror a => do return (← check ((← get).bus.ppu.mirroring.foldedIndex? a)).toNat
  | .nametable => do check (← get).bus.ppu.control.nametable?
  | .load program => load program
  | .reset => reset
  | .step => step
  | .run fuel => run fuel
  | .trace => trace

theorem request_eq (r : Ppu.Request) : request r = plain (Command.request r) := by
  cases r with
  | read a =>
    rw [request, Ppu.Checked.readRegister_eq, Bus.Checked.onPpu_plain, onBus_plain, Command.request]
  | write a v => exact writeRegister_eq a v
  | vblank on | advance => rfl

theorem insert_eq (image : Array Byte) : insert image = plain (Command.insert image).act := by
  apply eq_plain
  intro m
  rw [insert, Cartridge.Checked.ofImage_eq, Command.act, run_of, Machine.insert]
  cases Cartridge.ofImage image <;> rfl

theorem trace_eq : trace = plain Command.trace.act := by
  apply eq_plain
  intro m
  change (match (Disassembly.Checked.line m.cpu m.bus).run with
    | .ok line => EStateM.Result.ok line m
    | .error e => EStateM.Result.error e m) = _
  rw [Disassembly.Checked.line_eq, Command.act, run_of]
  cases Disassembly.line m.cpu m.bus <;> rfl

theorem command_eq (c : Command) : command c = plain c.act := by
  cases c with
  | insert image => exact insert_eq image
  | install cpu => rfl
  | read a => exact read_eq a
  | write a v => exact write_eq a v
  | readWord a => exact readWord_eq a
  | writeWord a v => exact writeWord_eq a v
  | peek a => exact check_get fun m : Machine => Bus.Checked.peek?_eq m.bus a
  | picture r => exact request_eq r
  | mirror a =>
    refine eq_plain_of_passes (fun m : Machine => m.bus.ppu.mirroring.foldedIndex?_eq a) fun m => ?_
    rw [Mirroring.toNat_vramIndex]
    rfl
  | nametable => exact check_get fun m : Machine => m.bus.ppu.control.nametable?_eq
  | load program => exact load_eq program
  | reset => exact reset_eq
  | step => exact step_eq
  | run fuel => exact run_eq fuel
  | trace => exact trace_eq

/-- The machine after a history, unless one of its commands aborts. -/
def afterAll? (m : Machine) (history : List Command) : Option Machine :=
  history.foldlM (fun m c => after? (command c) m) m

theorem afterAll?_eq (m : Machine) (history : List Command) :
    afterAll? m history = some (m.afterAll history) := by
  induction history generalizing m with
  | nil => rfl
  | cons c rest ih =>
    rw [afterAll?, List.foldlM_cons, command_eq, after?_plain]
    exact ih _

end Checked

/-- Whatever is asked of a machine from the moment it is switched on, nothing aborts: every
checked command does what the plain one does. -/
theorem never_aborts (threshold : Option Level) (history : List Command) :
    let m := (powerOn threshold).afterAll history
    Checked.afterAll? (powerOn threshold) history = some m ∧
    (∀ c : Command, (Checked.command c).run.run m =
      match c.act.run m with
      | .ok v n => .ok (some v) n
      | .error e n => .error e n) ∧
    m.bus.ppu.vram.toArray.size = m.bus.ppu.mirroring.vramSize ∧
    m.bus.ppu.address ≤ 0x3FFF ∧
    ∀ image c, Cartridge.ofImage image = .ok c → ∀ a, c.prgByte? a = none ↔
      (Image.programBanks image = 2 ∧ a < 0x8000) ∨
        (Image.programBanks image = 3 ∧ 0x4000 ≤ a ∧ a < 0x8000) := by
  intro m
  refine ⟨Checked.afterAll?_eq _ history, fun c => ?_, Vector.size_toArray _, ?_, ?_⟩
  · rw [Checked.command_eq]
    refine (run_plain c.act m).trans ?_
    cases c.act.run m <;> rfl
  · have stays : Bus.StaysInside (powerOn threshold).bus m.bus :=
      moves_through_inserts Bus.StaysInside.kept Bus.StaysInside.attach _ history
    exact Ppu.address_le_of_inside (stays (by decide : (0 : Byte) < 0x40))
  · intro image c accepted a
    exact (Cartridge.carries_of_ofImage accepted).prgByte?_eq_none a

end Machine

/-- Two program banks that hold nothing, behind the header that declares them. -/
def Image.twoBanks : Array Byte :=
  #[0x4E, 0x45, 0x53, 0x1A, 2] ++ Array.replicate 11 0 ++ Array.replicate 0x8000 0

theorem Image.getD_twoBanks (inHeader : i < 16) :
    twoBanks.getD i 0 =
      (#[0x4E, 0x45, 0x53, 0x1A, 2] ++ Array.replicate 11 0 : Array Byte).getD i 0 :=
  getD_append (by simpa using inHeader)

theorem Image.ofImage_twoBanks : ∃ c, Cartridge.ofImage twoBanks = .ok c := by
  have declared : header twoBanks = .ofFields 2 0 0 0 := by
    simp only [header, getD_twoBanks, Nat.reduceLT]
    decide
  have size : twoBanks.size = 16 + 0x8000 := by simp [twoBanks]
  apply Cartridge.ofImage_of_whole
  · simp only [tag, getD_twoBanks, Nat.reduceLT]
    decide
  · rw [declared]; decide
  · rw [declared]; decide
  · rw [declared]; decide
  · rw [size, ← Cartridge.header_stop, declared]; decide

/-- With two banks in, the first step does not abort, and neither does a look at the window,
but below it there is no byte. -/
theorem Machine.never_aborts_two_banks :
    ∃ c, Cartridge.ofImage Image.twoBanks = .ok c ∧
      Machine.Checked.afterAll? (powerOn none) [.insert Image.twoBanks, .reset, .step] ≠ none ∧
      c.prgByte? 0x7FFF = none ∧ c.prgByte? 0x8000 ≠ none := by
  obtain ⟨c, accepted⟩ := Image.ofImage_twoBanks
  have banks : Image.programBanks Image.twoBanks = 2 := by
    rw [Image.programBanks, Image.getD_twoBanks (by decide)]
    decide
  obtain ⟨completes, -, -, -, read⟩ :=
    never_aborts none [.insert Image.twoBanks, .reset, .step]
  refine ⟨c, accepted, ?_, ?_, ?_⟩
  · rw [completes]
    exact Option.some_ne_none _
  · rw [read _ c accepted, banks]
    decide
  · rw [ne_eq, read _ c accepted, banks]
    decide

end Nes
