import Nes.Cpu.Operation
import Nes.Machine.Stack

/-! Execution of one operation. On entry PC is on the first operand byte. Transfers of
control set PC; all other operations leave it there. What has been done before a
fault stays done, so an operation that changes its operand in place may leave the
new carry behind when the operand cannot be written. -/
namespace Nes.Machine

def readOperand (mode : Mode) : Action Machine Byte := do read (← operandAddress mode)

/-- Changes the accumulator or a byte of memory in place and gives the new value. -/
def modifyOperand (change : Cpu.Change) (mode : Mode) : Action Machine Byte := do
  let carry ← view (·.status.carry)
  match mode with
  | .accumulator =>
    let (result, carry) := change carry (← view (·.a))
    update fun c => { c.withCarry carry with a := result }
    return result
  | _ =>
    let target ← operandAddress mode
    let (result, carry) := change carry (← read target)
    update (·.withCarry carry)
    write target result
    return result

/-- Goes to an address. -/
def goto (target : Address) : Action Machine Unit := update fun c => { c with pc := target }

def perform (effect : Effect) (mode : Mode) : Action Machine Unit :=
  match effect with
  | .internal f => update f
  | .load use => do
    let v ← readOperand mode
    update (use v)
  | .store source => do
    let target ← operandAddress mode
    write target (← view source)
  | .modify change use => do
    let v ← modifyOperand change mode
    update (use v)
  | .branch taken => do
    if ← view (fun c => taken c.status) then goto (← operandAddress .relative)
  | .jump => do goto (← operandAddress mode)
  | .call => do
    let target ← operandAddress mode
    pushWord (← view (·.pc + 1))
    goto target
  | .return => do goto ((← pullWord) + 1)
  | .resume => do
    let flags ← pull
    update fun c => { c with status := (Status.ofByte flags).withBreak false }
    goto (← pullWord)
  | .push source => do push (← view source)
  | .pull use => do
    let v ← pull
    update (use v)

def execute (op : Operation) (mode : Mode) : Action Machine Unit := perform op.effect mode

end Nes.Machine
