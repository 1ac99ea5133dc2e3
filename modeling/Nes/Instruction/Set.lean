import Nes.Instruction.Basic
import Nes.Text.Hex

/-! Instruction sets: at most one instruction for each of the 256 codes. A set is
built from a list, which must not use a code twice. -/
namespace Nes

structure InstructionSet where
  slots : Vector (Option Instruction) 256

/-- A code that a list of instructions uses a second time. -/
structure DuplicateOpcode where
  code : Byte
  deriving DecidableEq

def DuplicateOpcode.message (e : DuplicateOpcode) : String :=
  "opcode $" ++ Text.hexByte e.code ++ " registered twice"

namespace InstructionSet

def empty : InstructionSet := ⟨.replicate 256 none⟩

def slotOf (code : Byte) : Fin 256 := ⟨code.toNat, code.toNat_lt⟩

def lookup (set : InstructionSet) (code : Byte) : Option Instruction := set.slots[slotOf code]

/-- Puts an instruction in the place of its code. -/
def put (set : InstructionSet) (i : Instruction) : InstructionSet :=
  ⟨set.slots.set (slotOf i.code) (some i)⟩

/-- Adds an instruction whose code is still free. -/
def add (set : InstructionSet) (i : Instruction) : Except DuplicateOpcode InstructionSet :=
  if (set.lookup i.code).isSome then .error ⟨i.code⟩ else .ok (set.put i)

def ofList (instructions : List Instruction) : Except DuplicateOpcode InstructionSet :=
  instructions.foldlM add empty

/-- How many codes have an instruction. -/
def size (set : InstructionSet) : Nat := set.slots.toList.countP (·.isSome)

def isEmpty (set : InstructionSet) : Bool := set.size == 0

theorem slotOf_inj {code other : Byte} : slotOf code = slotOf other ↔ code = other := by
  rw [Fin.ext_iff]; exact UInt8.toNat_inj

@[simp] theorem lookup_empty (code : Byte) : empty.lookup code = none := by
  simp [lookup, empty]

@[simp] theorem lookup_put_same (set : InstructionSet) (i : Instruction) :
    (set.put i).lookup i.code = some i := by
  simp [lookup, put]

@[simp] theorem lookup_put_other (set : InstructionSet) (i : Instruction) {code : Byte}
    (h : code ≠ i.code) : (set.put i).lookup code = set.lookup code := by
  have apart : (slotOf i.code).val ≠ (slotOf code).val :=
    fun same => h (slotOf_inj.1 (Fin.ext same)).symm
  simp [lookup, put, apart]

end InstructionSet
end Nes
