import Nes.Proofs.Guest

/-! Everything that can be asked of a console from outside, as data: requests to the picture
unit, and commands to the machine. A history is a list of them, carried out one after the
other whether or not they fault. A relation along which every part of the bus moves is one
along which every command moves it, however many instructions it executes. -/
namespace Nes

open Nes.Action

namespace Ppu

inductive Request where
  | read (a : Address)
  | write (a : Address) (v : Byte)
  | vblank (on : Bool)
  /-- A move of the pointer without an access. -/
  | advance

abbrev Request.Answer : Request → Type
  | read _ => Byte
  | write _ _ | vblank _ | advance => Unit

def Request.act : (r : Request) → Action Ppu r.Answer
  | read a => readRegister a
  | write a v => writeRegister a v
  | vblank on => modify (·.setVblank on)
  | advance => modify (·.advance)

/-- The unit after a history. -/
def afterAll (p : Ppu) (history : List Request) : Ppu := history.foldl (fun p r => r.act.after p) p

/-- The unit has the same cartridge lines: its pattern memory and its mirroring. -/
structure SameLines (p q : Ppu) : Prop where
  chr : q.chr = p.chr
  mirroring : q.mirroring = p.mirroring

namespace SameLines

theorem refl (p : Ppu) : SameLines p p := ⟨rfl, rfl⟩

theorem trans {p q r : Ppu} (first : SameLines p q) (second : SameLines q r) : SameLines p r :=
  ⟨second.chr.trans first.chr, second.mirroring.trans first.mirroring⟩

theorem of_steady {p q : Ppu} (steady : Steady p q) : SameLines p q := by
  obtain ⟨t, rfl⟩ := steady
  exact ⟨rfl, rfl⟩

theorem writeData (v : Byte) : Moves SameLines (writeData v) := by
  apply Moves.of_ok refl writeData_fault
  intro p u q h
  obtain ⟨vram, palette, rfl⟩ := writeData_advances h
  exact ⟨rfl, rfl⟩

theorem request (r : Request) : Moves SameLines r.act := by
  cases r with
  | read a => exact fun p => of_steady (readRegister_steady a p)
  | write a v =>
    simp only [Request.act, writeRegister]
    split
    case h_8 => exact writeData v
    all_goals exact fun p => ⟨rfl, rfl⟩
  | vblank on | advance => exact fun p => ⟨rfl, rfl⟩

end SameLines

end Ppu

namespace Machine

inductive Command where
  /-- Reads an image and inserts its cartridge; a bad image is refused. -/
  | insert (image : Array Byte)
  /-- Puts another CPU on the bus, whatever its registers hold. -/
  | install (cpu : Cpu)
  | read (a : Address)
  | write (a : Address) (v : Byte)
  | readWord (a : Address)
  | writeWord (a : Address) (v : Address)
  | peek (a : Address)
  /-- Past the bus's address map. -/
  | picture (r : Ppu.Request)
  /-- Asks where in nametable memory an address is. -/
  | mirror (a : Address)
  /-- Asks for the nametable that the control register selects. -/
  | nametable
  | load (program : Array Byte)
  | reset
  | step
  | run (fuel : Nat)
  | trace

namespace Command

abbrev Answer : Command → Type
  | insert _ => Except ImageError Unit
  | read _ => Byte
  | readWord _ | nametable => Address
  | peek _ => Option Byte
  | picture r => r.Answer
  | mirror _ => Nat
  | step => Outcome
  | run _ => Ending
  | trace => String
  | install _ | write _ _ | writeWord _ _ | load _ | reset => Unit

/-- A request to the picture unit; a byte written behind its data register is logged. -/
def request : (r : Ppu.Request) → Action Machine r.Answer
  | .read a => onBus (Bus.onPpu (Ppu.readRegister a))
  | .write a v => writeRegister a v
  | .vblank on => onBus (Bus.onPpu (modify (·.setVblank on)))
  | .advance => onBus (Bus.onPpu (modify (·.advance)))

def act : (c : Command) → Action Machine c.Answer
  | insert image => .of fun m =>
    match m.insert image with
    | .ok m' => .ok (.ok ()) m'
    | .error e => .ok (.error e) m
  | install cpu => update fun _ => cpu
  | read a => Machine.read a
  | write a v => Machine.write a v
  | readWord a => Machine.readWord a
  | writeWord a v => Machine.writeWord a v
  | peek a => .of fun m => .ok (m.bus.peek? a) m
  | picture r => request r
  | mirror a => .of fun m => .ok (m.bus.ppu.mirroring.vramIndex a) m
  | nametable => .of fun m => .ok m.bus.ppu.control.nametable m
  | load program => Machine.load program
  | reset => Machine.reset
  | step => Machine.step
  | run fuel => Machine.run fuel
  | trace => .of fun m =>
    match Disassembly.line m.cpu m.bus with
    | .ok line => .ok line m
    | .error e => .error e m

end Command

/-- The machine after a history. -/
def afterAll (m : Machine) (history : List Command) : Machine :=
  history.foldl (fun m c => c.act.after m) m

/-- The commands that reach the bus through its address map only. -/
def Command.isGuest : Command → Bool
  | read _ | write _ _ | readWord _ | writeWord _ _ | reset | step | run _ => true
  | _ => false

theorem guest_command {c : Command} (guest : c.isGuest = true) : Guest c.act := by
  cases c with
  | read a => exact .read a
  | write a v => exact .write a v
  | readWord a => exact guest_readWord a
  | writeWord a v => exact guest_writeWord a v
  | reset => exact guest_reset
  | step => exact guest_step
  | run fuel => exact guest_run fuel
  | _ => cases guest

end Machine

/-- Every part of the bus moves along the relation, whatever becomes of it. -/
structure Bus.Kept (R : Bus → Bus → Prop) : Prop where
  refl : ∀ b, R b b
  trans : ∀ {b c d}, R b c → R c d → R b d
  ram : ∀ b ram, R b { b with ram }
  resetVector : ∀ b resetVector, R b { b with resetVector }
  picture : ∀ r : Ppu.Request, Moves R (Bus.onPpu r.act)

namespace Bus.Kept

variable {R : Bus → Bus → Prop} (kept : Bus.Kept R)
include kept

theorem read (a : Address) : Moves R (Bus.read a) := by
  unfold Bus.read
  split
  · exact kept.refl
  · exact kept.picture (.read a)
  · intro b
    rw [after, run_of]
    cases b.romByte? _ <;> exact kept.refl b
  · exact kept.refl

theorem write (a : Address) (v : Byte) : Moves R (Bus.write a v) := by
  unfold Bus.write
  split
  · exact fun b => kept.ram b _
  · exact kept.picture (.write a v)
  · apply Moves.of_ok kept.refl
    · intro b e c h
      rw [run_of] at h
      split at h <;> cases h <;> rfl
    · intro b u c h
      rw [run_of] at h
      split at h <;> cases h
      exact kept.resetVector b _
  · exact kept.refl

end Bus.Kept

namespace Machine

/-- Loading is two writes and one change to work RAM. -/
theorem moves_load_of {Q : Machine → Machine → Prop} (refl : ∀ m, Q m m)
    (trans : ∀ {l m n}, Q l m → Q m n → Q l n) (writes : ∀ a v, Moves Q (write a v))
    (fills : ∀ m ram, Q m { m with bus := { m.bus with ram } }) (program : Array Byte) :
    Moves Q (load program) := by
  have vector : Moves Q (writeWord resetAddress (UInt16.ofNat programBase)) :=
    Moves.bind trans (writes _ _) fun _ => writes _ _
  have placed : Moves Q (place program) := by
    intro m
    simp only [after, place, run_of]
    obtain ⟨done, ram⟩ := m.bus.ram.load (UInt64.ofNat programBase) program
    cases done with
    | true | false => exact fills m ram
  unfold load
  split
  · exact fun m => refl m
  · exact Moves.bind trans vector fun _ => placed

/-- A machine moves along a relation if its bus does. -/
abbrev Along (R : Bus → Bus → Prop) (m n : Machine) : Prop := R m.bus n.bus

section

variable {R : Bus → Bus → Prop} (kept : Bus.Kept R)
include kept

omit kept in
theorem moves_onBus {act : Action Bus α} (moves : Moves R act) : Moves (Along R) (onBus act) := by
  intro m
  rw [Along, onBus_after]
  exact moves m.bus

omit kept in
theorem moves_reporting {act : Action Bus Unit} (moves : Moves R act)
    (target : Bus → Option Address) (v : Byte) : Moves (Along R) (reporting target v act) := by
  intro m
  obtain ⟨log, left⟩ := reporting_after target v act m
  rw [Along, left]
  exact moves m.bus

theorem Guest.moves {act : Action Machine α} (guest : Guest act) : Moves (Along R) act := by
  induction guest with
  | «return» v | fault e | view f | update f => exact fun m => kept.refl m.bus
  | note f only =>
    intro m
    obtain ⟨log, noted⟩ := only m
    change R m.bus (f m).bus
    rw [noted]
    exact kept.refl m.bus
  | read a => exact moves_onBus (kept.read a)
  | write a v => exact moves_reporting (kept.write a v) _ v
  | bind _ _ first rest => exact Moves.bind (fun one other => kept.trans one other) first rest

theorem moves_load (program : Array Byte) : Moves (Along R) (load program) :=
  moves_load_of (Q := Along R) (fun m => kept.refl m.bus) (fun one other => kept.trans one other)
    (fun a v => (Guest.write a v).moves kept) (fun m ram => kept.ram m.bus ram) program

/-- Whatever each part of the bus keeps, every command keeps, save the one that puts another
cartridge in. -/
theorem moves_command {c : Command} (inserts : ∀ image, c ≠ .insert image) :
    Moves (Along R) c.act := by
  by_cases guest : c.isGuest = true
  · exact (guest_command guest).moves kept
  · cases c with
    | insert image => exact absurd rfl (inserts image)
    | install cpu => exact (Guest.update fun _ => cpu).moves kept
    | picture r =>
      cases r with
      | read a => exact moves_onBus (kept.picture (.read a))
      | write a v => exact moves_reporting (kept.picture (.write a v)) (·.ppu.dataTarget? a) v
      | vblank on => exact moves_onBus (kept.picture (.vblank on))
      | advance => exact moves_onBus (kept.picture .advance)
    | peek a | mirror a | nametable => exact fun m => kept.refl m.bus
    | load program => exact moves_load kept program
    | trace =>
      intro m
      simp only [after, Command.act, run_of]
      cases Disassembly.line m.cpu m.bus <;> exact kept.refl m.bus
    | _ => exact absurd rfl guest

theorem moves_insert (attach : ∀ b c, R b (b.attach c)) (image : Array Byte) :
    Moves (Along R) (Command.insert image).act := by
  intro m
  simp only [after, Command.act, run_of]
  cases inserted : m.insert image with
  | error e => exact kept.refl m.bus
  | ok m' =>
    simp only [insert] at inserted
    cases parsed : Cartridge.ofImage image with
    | error e => rw [parsed] at inserted; cases inserted
    | ok c =>
      rw [parsed] at inserted
      cases inserted
      exact attach m.bus c

theorem moves_afterAll_of (m : Machine) {history : List Command}
    (each : ∀ c ∈ history, Moves (Along R) c.act) : R m.bus (m.afterAll history).bus := by
  induction history generalizing m with
  | nil => exact kept.refl m.bus
  | cons c rest ih =>
    rw [List.forall_mem_cons] at each
    exact kept.trans (each.1 m) (ih _ each.2)

/-- With no exception, if the relation outlasts the exchange of cartridges. -/
theorem moves_through_inserts (attach : ∀ b c, R b (b.attach c)) (m : Machine)
    (history : List Command) : R m.bus (m.afterAll history).bus := by
  apply moves_afterAll_of kept m
  intro c _
  cases c with
  | insert image => exact moves_insert kept attach image
  | _ => exact moves_command kept nofun

theorem moves_afterAll (m : Machine) {history : List Command}
    (inserts : ∀ image, .insert image ∉ history) : R m.bus (m.afterAll history).bus :=
  moves_afterAll_of kept m fun _ member =>
    moves_command kept fun image same => inserts image (same ▸ member)

end

end Machine
end Nes
