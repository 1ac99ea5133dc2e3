import Nes.Disassembly
import Nes.Machine.Execute

/-! Running programs: one instruction, many, and the way to the first one. -/
namespace Nes.Machine

inductive Outcome where
  | running
  | halted
  deriving DecidableEq

/-- Reports the next instruction, if the log wants to know and memory can be seen. -/
def announce : Action Machine Unit := modify fun m =>
  if m.log.admits .trace then
    match Disassembly.line m.cpu m.bus with
    | .ok line => m.note (.instruction line)
    | .error _ => m
  else m

/-- Executes one instruction. Operand bytes are skipped unless PC has moved away from
them; the code zero stops the CPU. A halted CPU stays as it is. -/
def step : Action Machine Outcome := do
  if ← view (·.halted) then return .halted
  announce
  let start ← view (·.pc)
  let code ← fetch
  if code = 0 then
    execute .brk .implied
    modify (·.note (.halted start))
    return .halted
  match InstructionSet.standard.lookup code with
  | none => throw (.unknownOpcode code start)
  | some i =>
    let operand ← view (·.pc)
    execute i.operation i.mode
    if (← view (·.pc)) = operand then update (·.advance (UInt16.ofNat (i.length - 1)))
    return .running

/-- How a bounded run ends. -/
inductive Ending where
  | halted
  | exhausted
  deriving DecidableEq

/-- An action of the machine beside a value of the caller's own. -/
@[inline] def beside (act : Action Machine α) : Action (Machine × τ) α :=
  act.focus fun (m, t) => (m, fun m => (m, t))

@[simp] theorem run_beside (act : Action Machine α) (m : Machine) (t : τ) :
    (beside act).run (m, t) =
      match act.run m with
      | .ok v m => .ok v (m, t)
      | .error e m => .error e (m, t) := by
  rw [beside, Action.run_focus]
  cases act.run m <;> rfl

/-- Runs for at most `fuel` instructions, with `before` in front of each of them. A fault
of `before` ends the run. -/
@[specialize] def runWith (before : Action (Machine × τ) Unit) :
    (fuel : Nat) → Action (Machine × τ) Ending
  | 0 => return .exhausted
  | fuel + 1 => do
    before
    match ← beside step with
    | .halted => return .halted
    | .running => runWith before fuel

/-- Runs for at most `fuel` instructions. -/
def run : (fuel : Nat) → Action Machine Ending
  | 0 => return .exhausted
  | fuel + 1 => do
    match ← step with
    | .halted => return .halted
    | .running => run fuel

/-- Clears the registers and goes to the address in the reset vector. -/
def reset : Action Machine Unit := do
  update fun _ => {}
  goto (← readWord resetAddress)
  let start ← view (·.pc)
  modify (·.note (.reset start))

/-- Where a program without a cartridge is put. -/
def programBase : Nat := 0x0600

/-- The work RAM from there on. -/
abbrev programCapacity : Nat := 0x0200

/-- Copies a program to its place in work RAM, if there is room for it. -/
def place (program : Array Byte) : Action Machine Unit := .of fun m =>
  match m.bus.ram.load (UInt64.ofNat programBase) program with
  | (true, ram) => .ok () { m with bus := { m.bus with ram } }
  | (false, ram) =>
    .error (.programTooLarge program.size programCapacity) { m with bus := { m.bus with ram } }

/-- Puts a program in RAM and makes the reset vector point to it. Nothing is changed if
the program is too large or a cartridge keeps the vector from being written. -/
def load (program : Array Byte) : Action Machine Unit := do
  if programCapacity < program.size then
    throw (.programTooLarge program.size programCapacity)
  writeWord resetAddress (UInt16.ofNat programBase)
  place program

/-- Loads a program, resets and runs it for at most `fuel` instructions. -/
def loadAndRun (program : Array Byte) (fuel : Nat) : Action Machine Ending := do
  load program
  reset
  run fuel

end Nes.Machine
