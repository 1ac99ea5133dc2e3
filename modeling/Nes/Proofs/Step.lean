import Nes.Machine.Run
import Nes.Proofs.Execution

/-! One step of the machine, taken apart: `Stepped` lists how a step comes to its end and
`StepFault` how it faults. The log takes part in neither. -/
namespace Nes

open Nes.Action

/-- The registers of a CPU that has just stopped. -/
def Cpu.stopped (c : Cpu) : Cpu := { c with status := c.status.withBreak true, halted := true }

/-- Skips the operand bytes of an instruction, if PC still is on the first of them. -/
def Cpu.past (c : Cpu) (operand : Address) (i : Instruction) : Cpu :=
  if c.pc = operand then c.advance (UInt16.ofNat (i.length - 1)) else c

/-- A step moves on by PC alone. -/
theorem Cpu.keeps_past (part : Cpu → α) (blind : ∀ c pc, part { c with pc } = part c) (c : Cpu)
    (operand : Address) (i : Instruction) : part (c.past operand i) = part c := by
  unfold past
  split
  · exact blind _ _
  · rfl

@[simp] theorem Cpu.past_sp (c : Cpu) (operand : Address) (i : Instruction) :
    (c.past operand i).sp = c.sp :=
  keeps_past Cpu.sp (fun _ _ => rfl) c operand i

theorem Cpu.past_pc (c : Cpu) (operand : Address) (i : Instruction) :
    (c.past operand i).pc = if c.pc = operand then c.pc + UInt16.ofNat (i.length - 1) else c.pc := by
  unfold past
  split <;> rfl

theorem Cpu.past_short (c : Cpu) (operand : Address) (short : i.length = 1) :
    c.past operand i = c := by
  have nothing : c.advance (UInt16.ofNat (i.length - 1)) = c := by
    rw [short]
    exact congrArg (fun pc => { c with pc }) (UInt16.add_zero c.pc)
  unfold past
  split
  · exact nothing
  · rfl

namespace Machine

/-- A machine without a cartridge, about to run a program at the start of work RAM. -/
def holding (program : List Byte) : Machine :=
  let put (ram : WorkRam) (entry : Byte × Nat) := ram.write (UInt16.ofNat entry.2) entry.1
  { bus := { Bus.empty with ram := program.zipIdx.foldl put {} } }

/-- The machine after a number of steps, faults or not. -/
def afterSteps (m : Machine) : Nat → Machine
  | 0 => m
  | n + 1 => step.after (m.afterSteps n)

/-- The CPU runs and fetches a code, which leaves the bus as `b`. -/
structure Fetches (m : Machine) (code : Byte) (b : Bus) : Prop where
  running : m.cpu.halted = false
  read : (Bus.read m.cpu.pc).run m.bus = .ok code b

theorem Fetches.unique {m : Machine} (fetch : m.Fetches code b) (other : m.Fetches code' b') :
    code = code' ∧ b = b' :=
  EStateM.Result.ok.inj (fetch.read.symm.trans other.read)

theorem Fetches.decodes {m : Machine} (fetch : m.Fetches i.code b)
    (found : InstructionSet.standard.lookup i.code = some i) (other : m.Fetches j.code c)
    (found' : InstructionSet.standard.lookup j.code = some j) : i = j ∧ b = c := by
  obtain ⟨code, rfl⟩ := fetch.unique other
  exact ⟨InstructionSet.eq_of_code found found' code, rfl⟩

/-- The instruction that the next step executes. -/
def next? (m : Machine) : Option Instruction :=
  if m.cpu.halted then none
  else
    match (Bus.read m.cpu.pc).run m.bus with
    | .ok code _ => InstructionSet.standard.lookup code
    | .error _ _ => none

def nextOperation? (m : Machine) : Option Operation := m.next?.map (·.operation)

/-- How a step comes to its end. -/
inductive Stepped (m : Machine) : Outcome → Machine → Prop
  | still : m.cpu.halted = true → Stepped m .halted m
  | stop {log : Log} : m.Fetches 0 b → Stepped m .halted ⟨(m.cpu.advance 1).stopped, b, log⟩
  | instruction {log : Log} : m.Fetches i.code b → i.code ≠ 0 →
      InstructionSet.standard.lookup i.code = some i →
      Performed i.mode ⟨m.cpu.advance 1, b, log⟩ i.operation.effect m' →
      Stepped m .running { m' with cpu := m'.cpu.past (m.cpu.pc + 1) i }

/-- How a step faults, with the registers and the bus it leaves. -/
inductive StepFault (m : Machine) : Fault → Cpu → Bus → Prop
  | fetch : m.cpu.halted = false → (Bus.read m.cpu.pc).run m.bus = .error e b →
      StepFault m e m.cpu b
  | unknown : m.Fetches code b → InstructionSet.standard.lookup code = none →
      StepFault m (.unknownOpcode code m.cpu.pc) (m.cpu.advance 1) b
  | instruction : m.Fetches i.code b → InstructionSet.standard.lookup i.code = some i →
      Failed i.mode (m.cpu.advance 1) b i.operation.effect e c d → StepFault m e c d

theorem next_of_fetch {m : Machine} (fetch : m.Fetches code b) :
    m.next? = InstructionSet.standard.lookup code := by
  simp only [next?, fetch.running, Bool.false_eq_true, ↓reduceIte, fetch.read]

theorem nextOperation_of_fetch {m : Machine} (fetch : m.Fetches code b)
    (found : InstructionSet.standard.lookup code = some i) :
    m.nextOperation? = some i.operation := by
  rw [nextOperation?, next_of_fetch fetch, found, Option.map_some]

theorem nextOperation_of_halted {m : Machine} (halted : m.cpu.halted = true) :
    m.nextOperation? = none := by
  simp only [nextOperation?, next?, halted, ↓reduceIte, Option.map_none]

theorem fetch_of_nextOperation {m : Machine} (next : m.nextOperation? = some op) :
    ∃ i b, m.Fetches i.code b ∧ InstructionSet.standard.lookup i.code = some i ∧
      i.operation = op := by
  obtain ⟨i, found, same⟩ := Option.map_eq_some_iff.1 next
  unfold next? at found
  split at found
  · cases found
  next running =>
    split at found
    next code b read =>
      obtain rfl := InstructionSet.code_of_lookup found
      exact ⟨i, b, ⟨Bool.eq_false_iff.2 running, read⟩, found, same⟩
    · cases found

theorem run_announce (m : Machine) : ∃ log, announce.run m = .ok () { m with log } := by
  simp only [announce, EStateM.run_modify]
  split
  · split
    · exact ⟨_, rfl⟩
    · exact ⟨m.log, rfl⟩
  · exact ⟨m.log, rfl⟩

theorem run_fetch {m : Machine} (found : (Bus.read m.cpu.pc).run m.bus = .ok code b) :
    fetch.run m = .ok code ⟨m.cpu.advance 1, b, m.log⟩ := by
  simp only [fetch, EStateM.run_bind, run_view, read, run_onBus, found, run_update,
    EStateM.run_pure]

theorem fetch_ok {m m' : Machine} (h : fetch.run m = .ok code m') :
    ∃ b, (Bus.read m.cpu.pc).run m.bus = .ok code b ∧ m' = ⟨m.cpu.advance 1, b, m.log⟩ := by
  obtain ⟨_, _, ⟨⟩, h⟩ := run_bind_ok.1 h
  obtain ⟨_, _, got, ⟨⟩⟩ := run_bind_ok.1 h
  obtain ⟨b, found, rfl⟩ := onBus_ok.1 got
  exact ⟨b, found, rfl⟩

theorem fetch_error {m m' : Machine} (h : fetch.run m = .error e m') :
    ∃ b, (Bus.read m.cpu.pc).run m.bus = .error e b ∧ m' = { m with bus := b } := by
  obtain ⟨⟨⟩⟩ | ⟨_, _, ⟨⟩, h⟩ := run_bind_error.1 h
  obtain h | ⟨_, _, _, ⟨⟩⟩ := run_bind_error.1 h
  exact onBus_error.1 h

theorem step_ok {m m' : Machine} (h : step.run m = .ok o m') : Stepped m o m' := by
  obtain ⟨_, _, ⟨⟩, h⟩ := run_bind_ok.1 h
  split at h
  next halted => cases h; exact .still halted
  next running =>
    obtain ⟨log, announced⟩ := m.run_announce
    obtain ⟨_, _, first, h⟩ := run_bind_ok.1 h
    cases announced.symm.trans first
    obtain ⟨_, _, ⟨⟩, h⟩ := run_bind_ok.1 h
    obtain ⟨code, _, fetched, h⟩ := run_bind_ok.1 h
    obtain ⟨b, read, rfl⟩ := fetch_ok fetched
    have fetch : m.Fetches code b := ⟨Bool.eq_false_iff.2 running, read⟩
    split at h
    next zero =>
      subst zero
      cases h
      exact .stop fetch
    next known =>
      split at h
      · cases h
      next i found =>
        obtain rfl := InstructionSet.code_of_lookup found
        obtain ⟨_, _, ⟨⟩, h⟩ := run_bind_ok.1 h
        obtain ⟨_, m₁, executed, h⟩ := run_bind_ok.1 h
        obtain ⟨_, _, ⟨⟩, h⟩ := run_bind_ok.1 h
        have performed := perform_ok executed
        have ended : o = .running ∧ m' = { m₁ with cpu := m₁.cpu.past (m.cpu.pc + 1) i } := by
          unfold Cpu.past
          split at h <;> rename_i moved
          · cases h
            exact ⟨rfl, by rw [if_pos]; exact moved⟩
          · cases h
            exact ⟨rfl, by rw [if_neg]; exact moved⟩
        obtain ⟨rfl, rfl⟩ := ended
        exact .instruction fetch known found performed

theorem step_error {m m' : Machine} (h : step.run m = .error e m') :
    StepFault m e m'.cpu m'.bus := by
  obtain ⟨⟨⟩⟩ | ⟨_, _, ⟨⟩, h⟩ := run_bind_error.1 h
  split at h
  · cases h
  next running =>
    have running : m.cpu.halted = false := Bool.eq_false_iff.2 running
    obtain ⟨log, announced⟩ := m.run_announce
    obtain first | ⟨_, _, first, h⟩ := run_bind_error.1 h
    · cases announced.symm.trans first
    cases announced.symm.trans first
    obtain ⟨⟨⟩⟩ | ⟨_, _, ⟨⟩, h⟩ := run_bind_error.1 h
    obtain failed | ⟨code, _, fetched, h⟩ := run_bind_error.1 h
    · obtain ⟨b, unread, rfl⟩ := fetch_error failed
      exact .fetch running unread
    obtain ⟨b, read, rfl⟩ := fetch_ok fetched
    have fetch : m.Fetches code b := ⟨running, read⟩
    split at h
    · cases h
    · split at h
      next missing => cases h; exact .unknown fetch missing
      next i found =>
        obtain rfl := InstructionSet.code_of_lookup found
        obtain ⟨⟨⟩⟩ | ⟨_, _, ⟨⟩, h⟩ := run_bind_error.1 h
        obtain failed | ⟨_, _, _, h⟩ := run_bind_error.1 h
        · exact .instruction fetch found (perform_error failed)
        · obtain ⟨⟨⟩⟩ | ⟨_, _, ⟨⟩, h⟩ := run_bind_error.1 h
          split at h <;> cases h

section

variable {m m' : Machine} (fetch : m.Fetches i.code b)
  (found : InstructionSet.standard.lookup i.code = some i)
include fetch found

theorem Stepped.performed (stepped : Stepped m o m') (running : i.operation ≠ .brk) :
    o = .running ∧ ∃ m₁ log,
      Performed i.mode ⟨m.cpu.advance 1, b, log⟩ i.operation.effect m₁ ∧
        m' = { m₁ with cpu := m₁.cpu.past (m.cpu.pc + 1) i } := by
  cases stepped with
  | still halted => cases halted.symm.trans fetch.running
  | stop zero =>
    have same := InstructionSet.lookup_zero
    rw [(zero.unique fetch).1, found] at same
    exact absurd (Option.some.inj same) running
  | instruction fetch' _ found' performed =>
    obtain ⟨rfl, rfl⟩ := fetch.decodes found fetch' found'
    exact ⟨rfl, _, _, performed, rfl⟩

theorem StepFault.failed (fault : StepFault m e c d) :
    Failed i.mode (m.cpu.advance 1) b i.operation.effect e c d := by
  cases fault with
  | fetch _ unread => cases fetch.read.symm.trans unread
  | unknown fetch' missing =>
    obtain ⟨rfl, _⟩ := fetch.unique fetch'
    cases found.symm.trans missing
  | instruction fetch' found' failed =>
    obtain ⟨rfl, rfl⟩ := fetch.decodes found fetch' found'
    exact failed

/-- An operation that cannot fail comes to its end. -/
theorem step_unfailed (running : i.operation ≠ .brk)
    (unfailed : ∀ e c d, ¬ Failed i.mode (m.cpu.advance 1) b i.operation.effect e c d) :
    ∃ m₁ log, Performed i.mode ⟨m.cpu.advance 1, b, log⟩ i.operation.effect m₁ ∧
      step.run m = .ok .running { m₁ with cpu := m₁.cpu.past (m.cpu.pc + 1) i } := by
  cases ended : step.run m with
  | ok o m' =>
    obtain ⟨rfl, m₁, log, performed, rfl⟩ := (step_ok ended).performed fetch found running
    exact ⟨m₁, log, performed, rfl⟩
  | error e m' => exact absurd ((step_error ended).failed fetch found) (unfailed _ _ _)

end

end Machine
end Nes
