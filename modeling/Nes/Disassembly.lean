import Nes.Bus.Basic
import Nes.Cpu.Addressing
import Nes.Cpu.Basic
import Nes.Instruction.Standard

/-! The instruction at PC and the registers as a line of text, in fixed columns:

    C000  4C F5 C5  JMP $C5F5                       A:00 X:00 Y:00 P:24 SP:FD

Memory is only looked at, so that no effect of a read is felt. A line exists if
every byte that the instruction's text needs can be looked at. -/
namespace Nes

open Text

/-- An instruction found in memory, with the operand it would have now. -/
structure Disassembly where
  pc : Address
  instruction : Instruction
  /-- The bytes behind the opcode. -/
  operands : List Byte
  /-- The operand's address and what can be seen there, if the mode has it in memory. -/
  target : Address
  value : Byte

namespace Disassembly

/-- A look at memory, as a reader that fails where nothing can be seen. -/
def look (bus : Bus) (a : Address) : Except Fault Byte :=
  match bus.peek? a with
  | some v => .ok v
  | none => .error (.unmapped a)

/-- Takes apart the instruction that the CPU would execute next. -/
def ofState (cpu : Cpu) (bus : Bus) : Except Fault Disassembly := do
  let code ← look bus cpu.pc
  match InstructionSet.standard.lookup code with
  | none => throw (.unknownOpcode code cpu.pc)
  | some instruction =>
    let operands ← (List.range (instruction.length - 1)).mapM fun i =>
      look bus (cpu.pc + 1 + UInt16.ofNat i)
    if instruction.mode.isMemory then
      let target ← instruction.mode.resolve (cpu.pc + 1) cpu.x cpu.y (look bus)
      return ⟨cpu.pc, instruction, operands, target, (bus.peek? target).getD 0⟩
    else
      return ⟨cpu.pc, instruction, operands, 0, 0⟩

/-- The operand in the assembler's notation, followed by the address that it leads to
and the byte there. -/
def operandText (d : Disassembly) (cpu : Cpu) : String :=
  let found := " = " ++ hexByte d.value
  match d.operands, d.instruction.mode with
  | [], .accumulator => "A"
  | [], _ => ""
  | [v], .immediate => "#$" ++ hexByte v
  | [_], .zeroPage => "$" ++ hexByte (low d.target) ++ found
  | [v], .zeroPageX => "$" ++ hexByte v ++ ",X @ " ++ hexByte (low d.target) ++ found
  | [v], .zeroPageY => "$" ++ hexByte v ++ ",Y @ " ++ hexByte (low d.target) ++ found
  | [v], .indirectX =>
    "($" ++ hexByte v ++ ",X) @ " ++ hexByte (v + cpu.x) ++ " = " ++ hexAddress d.target ++ found
  | [v], .indirectY =>
    "($" ++ hexByte v ++ "),Y = " ++ hexAddress (d.target - cpu.y.toUInt16) ++ " @ " ++
      hexAddress d.target ++ found
  | [v], .relative => "$" ++ hexAddress (d.pc + 2 + displacement v)
  | [v], _ => "$" ++ hexByte v
  | [lo, hi], .indirect => "($" ++ hexAddress (word lo hi) ++ ") = " ++ hexAddress d.target
  | [lo, hi], .absolute =>
    if d.instruction.operation = .jmp ∨ d.instruction.operation = .jsr then
      "$" ++ hexAddress (word lo hi)
    else "$" ++ hexAddress d.target ++ found
  | [lo, hi], .absoluteX =>
    "$" ++ hexAddress (word lo hi) ++ ",X @ " ++ hexAddress d.target ++ found
  | [lo, hi], .absoluteY =>
    "$" ++ hexAddress (word lo hi) ++ ",Y @ " ++ hexAddress d.target ++ found
  | lo :: hi :: _, _ => "$" ++ hexAddress (word lo hi)

/-- The bytes of the instruction, with blanks between them. -/
def bytesText (d : Disassembly) : String :=
  d.operands.foldl (fun text v => text ++ " " ++ hexByte v) (hexByte d.instruction.code)

def registersText (cpu : Cpu) : String :=
  " A:" ++ hexByte cpu.a ++ " X:" ++ hexByte cpu.x ++ " Y:" ++ hexByte cpu.y ++
    " P:" ++ hexByte cpu.status.toByte ++ " SP:" ++ hexByte cpu.sp

/-- The columns before the registers. -/
def text (d : Disassembly) (cpu : Cpu) : String :=
  hexAddress d.pc ++ "  " ++ padRight 8 d.bytesText ++ " " ++
    padLeft 4 d.instruction.mnemonic ++ " " ++ d.operandText cpu

def render (d : Disassembly) (cpu : Cpu) : String :=
  padRight 47 (trimRight (d.text cpu)) ++ registersText cpu

/-- The line for the next instruction of a CPU on a bus. -/
def line (cpu : Cpu) (bus : Bus) : Except Fault String := do
  return (← ofState cpu bus).render cpu

end Disassembly
end Nes
