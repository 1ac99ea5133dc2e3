import Nes.Bus.Basic
import Nes.Cartridge.Image
import Nes.Cpu.Addressing
import Nes.Cpu.Basic
import Nes.Log

/-! The machine: a CPU on a bus, and the log of what they did. Actions on the
machine access memory through the bus and report what the log should know. -/
namespace Nes

structure Machine where
  cpu : Cpu := {}
  bus : Bus := .empty
  log : Log := {}

namespace Machine

/-- A machine that has just been switched on, without a cartridge. -/
def powerOn (threshold : Option Level) : Machine := { log := { threshold } }

def note (m : Machine) (e : Event) : Machine := { m with log := m.log.note e }

/-- Inserts a cartridge. -/
def attach (m : Machine) (c : Cartridge) : Machine :=
  { m.note (.attached c) with bus := m.bus.attach c }

/-- Reads an image and inserts the cartridge. -/
def insert (m : Machine) (image : Array Byte) : Except ImageError Machine := do
  let c ← Cartridge.ofImage image
  return (m.note (.parsed c)).attach c

/-- A value of the registers. -/
@[inline] def view (f : Cpu → α) : Action Machine α := .of fun m => .ok (f m.cpu) m

/-- A change to the registers. -/
@[inline] def update (f : Cpu → Cpu) : Action Machine Unit := .of fun ⟨cpu, bus, log⟩ =>
  .ok () ⟨f cpu, bus, log⟩

/-- An action of the bus. -/
@[inline] def onBus (act : Action Bus α) : Action Machine α :=
  act.focus fun ⟨cpu, bus, log⟩ => (bus, fun bus => ⟨cpu, bus, log⟩)

@[simp] theorem run_view (f : Cpu → α) (m : Machine) : (view f).run m = .ok (f m.cpu) m := rfl

@[simp] theorem run_update (f : Cpu → Cpu) (m : Machine) :
    (update f).run m = .ok () { m with cpu := f m.cpu } := rfl

@[simp] theorem run_onBus (act : Action Bus α) (m : Machine) :
    (onBus act).run m =
      match act.run m.bus with
      | .ok v bus => .ok v { m with bus }
      | .error e bus => .error e { m with bus } := by
  rw [onBus, Action.run_focus]
  cases act.run m.bus <;> rfl

def read (a : Address) : Action Machine Byte := onBus (Bus.read a)

/-- A write of a byte through the bus. If it succeeds, the log learns of the address in
the picture unit's address space that it went to, if any. -/
@[inline] def reporting (target : Bus → Option Address) (v : Byte) (act : Action Bus Unit) :
    Action Machine Unit := .of fun ⟨cpu, bus, log⟩ =>
  let reached := target bus
  match act.run bus, reached with
  | .ok _ bus, some t => .ok () ⟨cpu, bus, log.note (.dataWrite t v)⟩
  | .ok _ bus, none => .ok () ⟨cpu, bus, log⟩
  | .error e bus, _ => .error e ⟨cpu, bus, log⟩

def write (a : Address) (v : Byte) : Action Machine Unit :=
  reporting (·.dataTarget? a) v (Bus.write a v)

/-- Writes a register of the picture unit, past the bus's address map. -/
def writeRegister (a : Address) (v : Byte) : Action Machine Unit :=
  reporting (·.ppu.dataTarget? a) v (Bus.onPpu (Ppu.writeRegister a v))

/-- Writes where the picture unit's pointer points. -/
def writeData (v : Byte) : Action Machine Unit :=
  reporting (some ·.ppu.address) v (Bus.onPpu (Ppu.writeData v))

/-- The little-endian word at an address. Its low byte is read first, and stays read if
the high byte cannot be. -/
def readWord (a : Address) : Action Machine Address := readPair read a (a + 1)

/-- The low byte is written first, and stays written if the high byte cannot be. -/
def writeWord (a : Address) (v : Address) : Action Machine Unit := do
  write a (low v)
  write (a + 1) (high v)

/-- The byte at PC; PC moves past it. -/
def fetch : Action Machine Byte := do
  let v ← read (← view (·.pc))
  update (·.advance 1)
  return v

/-- Where the operand of the instruction with PC on its operand bytes is. -/
def operandAddress (mode : Mode) : Action Machine Address := do
  let pc ← view (·.pc)
  let x ← view (·.x)
  let y ← view (·.y)
  mode.resolve pc x y read

end Machine
end Nes
