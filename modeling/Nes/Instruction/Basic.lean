import Nes.Cpu.Mode
import Nes.Cpu.Operation

/-! Instructions: a code, the operation it stands for and the mode in which that
finds its operand, with the name and the length to show for it. -/
namespace Nes

structure Instruction where
  code : Byte
  mnemonic : String
  length : Nat
  mode : Mode
  operation : Operation
  deriving DecidableEq

namespace Instruction

/-- An instruction of the documented set. -/
def documented (operation : Operation) (code : Byte) (mode : Mode) : Instruction :=
  ⟨code, operation.name, mode.length, mode, operation⟩

/-- An instruction of a code that no manual describes; its name carries a star. -/
def undocumented (operation : Operation) (code : Byte) (mode : Mode) : Instruction :=
  ⟨code, "*" ++ operation.name, mode.length, mode, operation⟩

end Instruction
end Nes
