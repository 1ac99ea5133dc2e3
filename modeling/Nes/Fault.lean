import Nes.Text.Hex
import Nes.Cpu.Mode

/-! Faults: why an access or an instruction cannot be carried out. A fault ends
the operation that raised it; whatever the operation had already done stays done,
which is why actions here keep their state beside the fault. -/
namespace Nes

open Text

inductive Fault where
  /-- Nothing answers at this address. -/
  | unmapped (a : Address)
  /-- The address answers reads only. -/
  | readOnly (a : Address)
  /-- The register at this address answers writes only. -/
  | writeOnly (a : Address)
  /-- The instruction set has no instruction with this code. -/
  | unknownOpcode (code : Byte) (pc : Address)
  /-- The mode names no memory operand. -/
  | noOperand (mode : Mode)
  /-- A program is longer than the memory set aside for it. -/
  | programTooLarge (size capacity : Nat)
  deriving DecidableEq

namespace Fault

def message : Fault → String
  | unmapped a => "invalid memory access at $" ++ hexAddress a
  | readOnly a => "write to read-only memory at $" ++ hexAddress a
  | writeOnly a => "read from write-only register $" ++ hexAddress a
  | unknownOpcode code pc => "unknown opcode $" ++ hexByte code ++ " at $" ++ hexAddress pc
  | noOperand mode => "addressing mode " ++ mode.label ++ " has no operand address"
  | programTooLarge size capacity =>
    "program of " ++ toString size ++ " bytes does not fit in " ++ toString capacity ++
      " bytes of RAM"

end Fault

/-- A computation on a state `σ` that may fault. The state at the fault is kept. -/
abbrev Action (σ α : Type) := EStateM Fault σ α

namespace Action

/-- The action that a function on states describes. -/
@[inline] def of (f : σ → EStateM.Result Fault σ α) : Action σ α := f

@[simp] theorem run_of (f : σ → EStateM.Result Fault σ α) (s : σ) : (of f).run s = f s := rfl

@[simp] theorem run_throw (e : Fault) (s : σ) : (throw e : Action σ α).run s = .error e s := rfl

@[simp] theorem run_ite (c : Prop) [Decidable c] (act other : Action σ α) (s : σ) :
    (if c then act else other).run s = if c then act.run s else other.run s := by
  split <;> rfl

/-- An action on a part of the state. `split` takes the part out and says how the state
is put together again around what becomes of it. -/
@[inline] def focus (split : σ → τ × (τ → σ)) (act : Action τ α) : Action σ α := of fun s =>
  let (part, rebuild) := split s
  match act.run part with
  | .ok v t => .ok v (rebuild t)
  | .error e t => .error e (rebuild t)

@[simp] theorem run_focus (split : σ → τ × (τ → σ)) (act : Action τ α) (s : σ) :
    (focus split act).run s =
      match act.run (split s).1 with
      | .ok v t => .ok v ((split s).2 t)
      | .error e t => .error e ((split s).2 t) := rfl

end Action
end Nes
