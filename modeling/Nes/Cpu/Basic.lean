import Nes.Cpu.Status

/-! The registers of the CPU. Power-on and reset leave all of them zero, and with
them every flag. -/
namespace Nes

structure Cpu where
  a : Byte := 0
  x : Byte := 0
  y : Byte := 0
  sp : Byte := 0
  pc : Address := 0
  status : Status := {}
  halted : Bool := false
  deriving DecidableEq

namespace Cpu

/-- The cell of the stack page that the next push fills. -/
def stackTop (c : Cpu) : Address := 0x0100 + c.sp.toUInt16

def advance (c : Cpu) (distance : Address) : Cpu := { c with pc := c.pc + distance }

/-- Sets the zero and negative flags by a result byte. -/
def flagged (c : Cpu) (result : Byte) : Cpu := { c with status := c.status.ofResult result }

def withCarry (c : Cpu) (carry : Bool) : Cpu := { c with status := { c.status with carry } }

/-- Loads the accumulator and sets the flags by it. -/
def loadA (c : Cpu) (v : Byte) : Cpu := { c with a := v }.flagged v
def loadX (c : Cpu) (v : Byte) : Cpu := { c with x := v }.flagged v
def loadY (c : Cpu) (v : Byte) : Cpu := { c with y := v }.flagged v

end Cpu
end Nes
