import Nes.Cpu.Basic

/-! Arithmetic. Addition is binary whatever the decimal flag says; subtraction adds
the complement, with the carry as the absence of a borrow. The shifts take the
carry in and give the carry out. -/
namespace Nes.Cpu

/-- Adds a byte and the carry to the accumulator. The sum overflows if both terms
have one sign and the result the other. -/
def add (c : Cpu) (v : Byte) : Cpu :=
  let sum := c.a.toNat + v.toNat + c.status.carry.toNat
  let result := UInt8.ofNat sum
  { c with
    a := result
    status := { c.status with
      carry := 256 ≤ sum
      overflow := bit c.a 7 == bit v 7 && bit result 7 != bit c.a 7 } }.flagged result

def subtract (c : Cpu) (v : Byte) : Cpu := c.add (~~~v)

/-- The flags of `register - v`, and nothing else. -/
def compare (c : Cpu) (register v : Byte) : Cpu :=
  (c.withCarry (v ≤ register)).flagged (register - v)

/-- A test of the operand's two highest bits and of its overlap with the accumulator. -/
def testBits (c : Cpu) (v : Byte) : Cpu :=
  { c with status := { c.status with
      zero := c.a &&& v == 0, negative := bit v 7, overflow := bit v 6 } }

/-- A change to a byte that may take the carry in, and gives the carry out. -/
abbrev Change := Bool → Byte → Byte × Bool

def shiftLeft : Change := fun _ v => (v <<< 1, bit v 7)
def shiftRight : Change := fun _ v => (v >>> 1, bit v 0)
def rotateLeft : Change := fun carry v => (v <<< 1 ||| UInt8.ofNat carry.toNat, bit v 7)
def rotateRight : Change := fun carry v => (v >>> 1 ||| UInt8.ofNat (128 * carry.toNat), bit v 0)
def increment : Change := fun carry v => (v + 1, carry)
def decrement : Change := fun carry v => (v - 1, carry)

end Nes.Cpu
