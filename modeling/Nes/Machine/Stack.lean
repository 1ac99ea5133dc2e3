import Nes.Machine.Basic

/-! The stack lies in page one and grows downwards; the stack pointer is the low
byte of the next free cell and wraps within the page. A word is pushed with its
high byte first, so that it lies in memory as words do. -/
namespace Nes.Machine

def push (v : Byte) : Action Machine Unit := do
  write (← view (·.stackTop)) v
  update fun c => { c with sp := c.sp - 1 }

def pull : Action Machine Byte := do
  update fun c => { c with sp := c.sp + 1 }
  read (← view (·.stackTop))

def pushWord (v : Address) : Action Machine Unit := do
  push (high v)
  push (low v)

def pullWord : Action Machine Address := do
  let lo ← pull
  let hi ← pull
  return word lo hi

end Nes.Machine
