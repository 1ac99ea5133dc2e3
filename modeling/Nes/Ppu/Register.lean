import Nes.Ppu.Basic

/-! The eight registers of the picture unit in the CPU's address space. The three
lowest address lines choose the register; of the others only the fourteenth is
looked at, so the eight repeat through their window. -/
namespace Nes.Ppu

inductive Register where
  | control
  | mask
  | status
  | oamAddress
  | oamData
  | scroll
  | pointer
  | data
  deriving DecidableEq

def Register.ofAddress? (a : Address) : Option Register :=
  if a.toNat / 0x2000 % 2 = 0 then none
  else
    match a.toNat % 8 with
    | 0 => some .control
    | 1 => some .mask
    | 2 => some .status
    | 3 => some .oamAddress
    | 4 => some .oamData
    | 5 => some .scroll
    | 6 => some .pointer
    | _ => some .data

/-- Reads the register at a CPU address. -/
def readRegister (a : Address) : Action Ppu Byte :=
  match Register.ofAddress? a with
  | some .status => modifyGet readStatus
  | some .oamData => return (← get).readOam
  | some .data => readData
  | some _ => throw (.writeOnly a)
  | none => throw (.unmapped a)

/-- Writes the register at a CPU address. -/
def writeRegister (a : Address) (v : Byte) : Action Ppu Unit :=
  match Register.ofAddress? a with
  | some .control => modify (·.writeControl v)
  | some .mask => modify (·.writeMask v)
  | some .status => throw (.readOnly a)
  | some .oamAddress => modify (·.writeOamAddress v)
  | some .oamData => modify (·.writeOam v)
  | some .scroll => modify (·.writeScroll v)
  | some .pointer => modify (·.writePointer v)
  | some .data => writeData v
  | none => throw (.unmapped a)

/-- Where in the picture unit's own address space a write to a register would go. -/
def dataTarget? (p : Ppu) (a : Address) : Option Address :=
  if Register.ofAddress? a = some .data then some p.address else none

end Nes.Ppu
