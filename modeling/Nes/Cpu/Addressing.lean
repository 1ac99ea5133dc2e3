import Nes.Fault

/-! Where an instruction finds its operand. `Mode.resolve` works over any reader of
bytes: the machine reads its bus, with all the effects that has, and a tracer
looks without touching. PC is on the first operand byte. -/
namespace Nes

/-- The word at two addresses, the low byte first. -/
@[inline] def readPair [Monad m] (read : Address → m Byte) (first second : Address) : m Address := do
  let lo ← read first
  let hi ← read second
  return word lo hi

/-- The address that the operand has. A pointer in the zero page wraps within it, and
the pointer of an indirect jump within its own page. -/
@[specialize] def Mode.resolve [Monad m] [MonadExceptOf Fault m] (mode : Mode) (pc : Address)
    (x y : Byte) (read : Address → m Byte) : m Address := do
  match mode with
  | .immediate => return pc
  | .zeroPage => return (← read pc).toUInt16
  | .zeroPageX => return ((← read pc) + x).toUInt16
  | .zeroPageY => return ((← read pc) + y).toUInt16
  | .absolute => readPair read pc (pc + 1)
  | .absoluteX => return (← readPair read pc (pc + 1)) + x.toUInt16
  | .absoluteY => return (← readPair read pc (pc + 1)) + y.toUInt16
  | .indirect =>
    let pointer ← readPair read pc (pc + 1)
    readPair read pointer (nextInPage pointer)
  | .indirectX =>
    let pointer := (← read pc) + x
    readPair read pointer.toUInt16 (pointer + 1).toUInt16
  | .indirectY =>
    let pointer ← read pc
    return (← readPair read pointer.toUInt16 (pointer + 1).toUInt16) + y.toUInt16
  | .relative => return pc + 1 + displacement (← read pc)
  | .accumulator | .implied => throw (.noOperand mode)

end Nes
