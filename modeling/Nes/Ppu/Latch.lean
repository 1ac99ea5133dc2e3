import Nes.Byte

/-! The two registers of the picture unit that take two writes: the pointer into
its address space, high byte first, and the scroll position, horizontal first.
Each has a latch of its own that says which write comes next. -/
namespace Nes.Ppu

/-- A fourteen bit address, assembled from two bytes. -/
structure Pointer where
  hi : Byte := 0
  lo : Byte := 0
  expectsHigh : Bool := true
  deriving DecidableEq

namespace Pointer

def address (p : Pointer) : Address := word p.lo p.hi

/-- Drops the two highest bits, which have no address lines. -/
def masked (p : Pointer) : Pointer := { p with hi := p.hi % 0x40 }

def write (p : Pointer) (v : Byte) : Pointer :=
  let updated := if p.expectsHigh then { p with hi := v } else { p with lo := v }
  { updated.masked with expectsHigh := !p.expectsHigh }

/-- Moves forward, with a carry from the low byte to the high one. -/
def advance (p : Pointer) (step : Byte) : Pointer :=
  let lo := p.lo + step
  masked { p with lo, hi := if lo < p.lo then p.hi + 1 else p.hi }

def resetLatch (p : Pointer) : Pointer := { p with expectsHigh := true }

end Pointer

structure Scroll where
  x : Byte := 0
  y : Byte := 0
  expectsY : Bool := false
  deriving DecidableEq

namespace Scroll

def write (s : Scroll) (v : Byte) : Scroll :=
  if s.expectsY then { s with y := v, expectsY := false } else { s with x := v, expectsY := true }

def resetLatch (s : Scroll) : Scroll := { s with expectsY := false }

end Scroll
end Nes.Ppu
