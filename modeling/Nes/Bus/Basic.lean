import Nes.Bus.Region
import Nes.Cartridge.Basic
import Nes.Ppu.Register

/-! The bus joins work RAM, the picture unit and the cartridge in one address
space. Without a cartridge the two bytes of the reset vector are memory, so that
a program in RAM can be started; with one they are part of its read-only memory.

A failed access changes nothing. -/
namespace Nes

structure Bus where
  ram : WorkRam := {}
  ppu : Ppu
  cartridge : Option Cartridge := none
  resetVector : Vector Byte 2 := .replicate 2 0

/-- A picture unit that has just been switched on. -/
def Ppu.powerOn (chr : Array Byte) (mirroring : Mirroring) : Ppu where
  chr
  mirroring
  vram := .replicate _ 0

namespace Bus

/-- No cartridge, and every byte zero. -/
def empty : Bus where
  ppu := .powerOn #[] .horizontal

/-- Inserts a cartridge. The picture unit starts afresh with its pattern memory. -/
def attach (b : Bus) (c : Cartridge) : Bus :=
  { b with ppu := .powerOn c.chrRom c.mirroring, cartridge := some c }

/-- The byte in the program window, from the cartridge or else the reset vector. -/
def romByte? (b : Bus) (offset : Fin 0x8000) : Option Byte :=
  match b.cartridge with
  | some c => some (c.prgByte offset)
  | none => (vectorIndex? offset).map fun i => b.resetVector[i]

/-- An action of the picture unit. -/
@[inline] def onPpu (act : Action Ppu α) : Action Bus α :=
  act.focus fun ⟨ram, ppu, cartridge, vector⟩ => (ppu, fun ppu => ⟨ram, ppu, cartridge, vector⟩)

@[simp] theorem run_onPpu (act : Action Ppu α) (b : Bus) :
    (onPpu act).run b =
      match act.run b.ppu with
      | .ok v ppu => .ok v { b with ppu }
      | .error e ppu => .error e { b with ppu } := by
  rw [onPpu, Action.run_focus]
  cases act.run b.ppu <;> rfl

def read (a : Address) : Action Bus Byte :=
  match Region.ofAddress a with
  | .ram cell => return (← get).ram.get cell
  | .registers => onPpu (Ppu.readRegister a)
  | .rom offset => .of fun b =>
    match b.romByte? offset with
    | some v => .ok v b
    | none => .error (.unmapped a) b
  | .unmapped => throw (.unmapped a)

def write (a : Address) (v : Byte) : Action Bus Unit :=
  match Region.ofAddress a with
  | .ram cell => modify fun b => { b with ram := b.ram.set cell v }
  | .registers => onPpu (Ppu.writeRegister a v)
  | .rom offset => .of fun b =>
    match b.cartridge, vectorIndex? offset with
    | some _, _ => .error (.readOnly a) b
    | none, some i => .ok () { b with resetVector := b.resetVector.set i v }
    | none, none => .error (.unmapped a) b
  | .unmapped => throw (.unmapped a)

/-- Looks at a byte without disturbing anything. Registers of the picture unit
cannot be looked at, since reading them has effects. -/
def peek? (b : Bus) (a : Address) : Option Byte :=
  match Region.ofAddress a with
  | .ram cell => some (b.ram.get cell)
  | .rom offset => b.romByte? offset
  | .registers | .unmapped => none

/-- Where in the picture unit's own address space a write would go. -/
def dataTarget? (b : Bus) (a : Address) : Option Address :=
  match Region.ofAddress a with
  | .registers => b.ppu.dataTarget? a
  | _ => none

end Bus
end Nes
