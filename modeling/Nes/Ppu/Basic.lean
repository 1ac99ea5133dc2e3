import Nes.Cartridge.Mirroring
import Nes.Fault
import Nes.Ppu.Flags
import Nes.Ppu.Latch

/-! The picture unit as the CPU meets it: its registers and the memories behind
them. Nothing is drawn. Its own address space holds the cartridge's pattern
memory, which is read-only, the nametables and the palette; the rest is unmapped.

A read of pattern or nametable memory goes through a buffer and so arrives one
read late, while the palette answers at once. The pointer moves after a
successful access only. -/
namespace Nes

structure Ppu where
  chr : Array Byte := #[]
  mirroring : Mirroring := .horizontal
  vram : Vector Byte mirroring.vramSize := .replicate _ 0
  palette : Vector Byte 32 := .replicate 32 0
  oam : Vector Byte 256 := .replicate 256 0
  pointer : Ppu.Pointer := {}
  control : Ppu.Control := {}
  mask : Byte := 0
  flags : Ppu.Flags := {}
  oamAddress : Byte := 0
  scroll : Ppu.Scroll := {}
  buffer : Byte := 0

namespace Ppu

/-- The palette entry of an address. The first entry of each sprite palette is the
first entry of the background palette with the same number. -/
def paletteIndex (a : Address) : Fin 32 :=
  let entry := a.toNat % 32
  ⟨if 16 ≤ entry ∧ entry % 4 = 0 then entry - 16 else entry, by split <;> omega⟩

/-- What answers at an address of the picture unit. -/
inductive Location (m : Mirroring) where
  | pattern (offset : Nat)
  | nametable (index : Fin m.vramSize)
  | palette (entry : Fin 32)
  | unmapped

def Location.ofAddress (m : Mirroring) (a : Address) : Location m :=
  if a < 0x2000 then .pattern a.toNat
  else if a < 0x3000 then .nametable ⟨m.vramIndex a, m.vramIndex_lt a⟩
  else if 0x3F00 ≤ a ∧ a < 0x4000 then .palette (paletteIndex a)
  else .unmapped

def address (p : Ppu) : Address := p.pointer.address

/-- What the pointer points at. -/
def location (p : Ppu) : Location p.mirroring := .ofAddress p.mirroring p.address

def advance (p : Ppu) : Ppu := { p with pointer := p.pointer.advance p.control.increment }

/-- Reads at the pointer. -/
def readData : Action Ppu Byte := .of fun p =>
  match p.location with
  | .pattern offset =>
    match p.chr[offset]? with
    | some fresh => .ok p.buffer { p with buffer := fresh }.advance
    | none => .error (.unmapped p.address) p
  | .nametable index => .ok p.buffer { p with buffer := p.vram[index] }.advance
  | .palette entry => .ok p.palette[entry] p.advance
  | .unmapped => .error (.unmapped p.address) p

/-- Writes at the pointer. -/
def writeData (v : Byte) : Action Ppu Unit := .of fun p =>
  match p.location with
  | .pattern _ => .error (.readOnly p.address) p
  | .nametable index => .ok () { p with vram := p.vram.set index v }.advance
  | .palette entry => .ok () { p with palette := p.palette.set entry v }.advance
  | .unmapped => .error (.unmapped p.address) p

/-- The status byte. Reading it ends the vertical blank and resets both latches. -/
def readStatus (p : Ppu) : Byte × Ppu :=
  (p.flags.toByte,
    { p with
      flags := { p.flags with vblank := false }
      pointer := p.pointer.resetLatch
      scroll := p.scroll.resetLatch })

/-- The cell that the next access to object memory meets. -/
def oamCell (p : Ppu) : Fin 256 := ⟨p.oamAddress.toNat, p.oamAddress.toNat_lt⟩

def readOam (p : Ppu) : Byte := p.oam[p.oamCell]

def writeOam (p : Ppu) (v : Byte) : Ppu :=
  { p with oam := p.oam.set p.oamCell v, oamAddress := p.oamAddress + 1 }

def writeOamAddress (p : Ppu) (v : Byte) : Ppu := { p with oamAddress := v }
def writePointer (p : Ppu) (v : Byte) : Ppu := { p with pointer := p.pointer.write v }
def writeControl (p : Ppu) (v : Byte) : Ppu := { p with control := ⟨v⟩ }
def writeMask (p : Ppu) (v : Byte) : Ppu := { p with mask := v }
def writeScroll (p : Ppu) (v : Byte) : Ppu := { p with scroll := p.scroll.write v }
def setVblank (p : Ppu) (on : Bool) : Ppu := { p with flags := { p.flags with vblank := on } }

end Ppu
end Nes
