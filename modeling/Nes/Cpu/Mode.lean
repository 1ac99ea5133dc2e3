/-! The thirteen ways in which an instruction names its operand. -/
namespace Nes

inductive Mode where
  | immediate
  | zeroPage
  | zeroPageX
  | zeroPageY
  | absolute
  | absoluteX
  | absoluteY
  | indirect
  | indirectX
  | indirectY
  | relative
  | accumulator
  | implied
  deriving DecidableEq, Inhabited

namespace Mode

def all : List Mode :=
  [immediate, zeroPage, zeroPageX, zeroPageY, absolute, absoluteX, absoluteY, indirect,
    indirectX, indirectY, relative, accumulator, implied]

/-- The spelling used in messages. -/
def label : Mode → String
  | immediate => "Immediate"
  | zeroPage => "ZeroPage"
  | zeroPageX => "ZeroPage_X"
  | zeroPageY => "ZeroPage_Y"
  | absolute => "Absolute"
  | absoluteX => "Absolute_X"
  | absoluteY => "Absolute_Y"
  | indirect => "Indirect"
  | indirectX => "Indirect_X"
  | indirectY => "Indirect_Y"
  | relative => "Relative"
  | accumulator => "Accumulator"
  | implied => "NoneAddressing"

def ofLabel? (text : String) : Option Mode := all.find? (·.label == text)

/-- How many bytes an instruction in this mode takes, its opcode included. -/
def length : Mode → Nat
  | accumulator | implied => 1
  | absolute | absoluteX | absoluteY | indirect => 3
  | _ => 2

/-- Whether the operand is a memory cell that has to be found through the operand
bytes: it is not in an immediate, which sits at PC, nor in a branch target. -/
def isMemory : Mode → Bool
  | immediate | relative | accumulator | implied => false
  | _ => true

theorem mem_all (m : Mode) : m ∈ all := by cases m <;> simp [all]

end Mode
end Nes
