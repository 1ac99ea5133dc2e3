import Nes.Proofs.Step

/-! Tracing agrees with execution. What a disassembly sees is what the next step reads,
without effect; the operand is where the text says; and the one access that can still
fail is that to the operand itself. -/
namespace Nes

open Nes.Action Text

namespace Disassembly

/-- What has been looked at for a disassembly. -/
structure Seen (d : Disassembly) (c : Cpu) (b : Bus) : Prop where
  pc : d.pc = c.pc
  code : b.peek? c.pc = some d.instruction.code
  known : InstructionSet.standard.lookup d.instruction.code = some d.instruction
  operands : (List.range (d.instruction.length - 1)).mapM
    (fun i => look b (c.pc + 1 + UInt16.ofNat i)) = .ok d.operands
  target : d.instruction.mode.isMemory = true →
    d.instruction.mode.resolve (c.pc + 1) c.x c.y (look b) = .ok d.target

theorem look_ok {b : Bus} : look b a = .ok v ↔ b.peek? a = some v := by
  unfold look
  cases b.peek? a <;> simp

theorem bind_ok {act : Except ε α} {next : α → Except ε β} (h : act >>= next = .ok v) :
    ∃ u, act = .ok u ∧ next u = .ok v := by
  cases act with
  | error e => cases h
  | ok u => exact ⟨u, rfl, h⟩

/-- What a list of actions gives, action by action. -/
theorem map_of_mapM {xs : List α} {ys : List β} {act : α → Except ε β}
    (listed : xs.mapM act = .ok ys) : xs.map act = ys.map .ok := by
  induction xs generalizing ys with
  | nil => cases listed; rfl
  | cons x xs ih =>
    rw [List.mapM_cons] at listed
    obtain ⟨y, first, listed⟩ := bind_ok listed
    obtain ⟨rest, others, listed⟩ := bind_ok listed
    cases listed
    rw [List.map_cons, List.map_cons, first, ih others]

theorem seen_of_state (h : ofState c b = .ok d) : d.Seen c b := by
  obtain ⟨code, looked, h⟩ := bind_ok h
  split at h
  · cases h
  next i found =>
    obtain rfl := InstructionSet.code_of_lookup found
    obtain ⟨operands, listed, h⟩ := bind_ok h
    split at h
    next memory =>
      obtain ⟨target, resolved, h⟩ := bind_ok h
      cases h
      exact ⟨rfl, look_ok.1 looked, found, listed, fun _ => resolved⟩
    next elsewhere =>
      cases h
      exact ⟨rfl, look_ok.1 looked, found, listed, fun memory => absurd memory elsewhere⟩

namespace Seen

variable {d : Disassembly} {c : Cpu} {b : Bus} (seen : d.Seen c b)
include seen

theorem operand (two : d.instruction.mode.length = 2) :
    ∃ v, d.operands = [v] ∧ b.peek? (c.pc + 1) = some v := by
  have listed := seen.operands
  rw [InstructionSet.length_of_lookup seen.known, two] at listed
  obtain ⟨v, looked, listed⟩ := bind_ok listed
  change look b (c.pc + 1 + 0) = .ok v at looked
  rw [UInt16.add_zero] at looked
  have only : [v] = d.operands := Except.ok.inj listed
  exact ⟨v, only.symm, look_ok.1 looked⟩

theorem located (memory : d.instruction.mode.isMemory = true) :
    (Bus.locate d.instruction.mode (c.advance 1)).run b = .ok d.target b :=
  Bus.locate_foreseen look_ok.1 _ (c.advance 1) _ (seen.target memory)

/-- The target of a branch is the address in its text. -/
theorem located_branch (relative : d.instruction.mode = .relative) :
    ∃ t, (Bus.locate .relative (c.advance 1)).run b = .ok t b ∧
      d.operandText c = "$" ++ hexAddress t := by
  obtain ⟨v, only, peeked⟩ := seen.operand (by rw [relative]; rfl)
  refine ⟨c.pc + 1 + 1 + displacement v, ?_, ?_⟩
  · exact run_bind_ok.2 ⟨v, b, Bus.read_of_peek peeked, rfl⟩
  · have after : c.pc + 1 + 1 = c.pc + 2 := UInt16.add_assoc c.pc 1 1
    simp only [operandText, only, relative, seen.pc, after]

/-- After a disassembly only an access to an operand in memory can fail. -/
theorem fault (failed : Machine.Failed d.instruction.mode (c.advance 1) b
      d.instruction.operation.effect e c' b') :
    d.instruction.mode.isMemory = true ∧
      AccessFault (c.advance 1) b d.target d.instruction.operation.effect e c' b' := by
  have fits := InstructionSet.fits_of_lookup seen.known
  cases failed with
  | operand sought missing =>
    obtain ⟨rfl, relative | immediate | memory⟩ := Effect.sought_of_fits fits sought
    · obtain ⟨t, located, _⟩ := seen.located_branch relative
      rw [relative] at missing
      cases located.symm.trans missing
    · rw [immediate] at missing
      cases missing
    · cases (seen.located memory).symm.trans missing
  | access sought located fault =>
    obtain ⟨_, relative | immediate | memory⟩ := Effect.sought_of_fits fits sought
    · generalize d.instruction.operation.effect = effect at fits fault
      rw [relative] at fits
      cases fault <;> cases fits
    · obtain ⟨v, _, peeked⟩ := seen.operand (by rw [immediate]; rfl)
      have found := Bus.read_of_peek peeked
      rw [immediate] at located fits
      cases located
      generalize d.instruction.operation.effect = effect at fits fault
      cases fault with
      | load failed | modifyRead failed => cases found.symm.trans failed
      | store _ => cases fits
      | modifyWrite _ _ _ => cases fits
    · cases (seen.located memory).symm.trans located
      exact ⟨memory, fault⟩

end Seen
end Disassembly

theorem Mode.indirect_of_mem {mode : Mode} (memory : mode.isMemory = true)
    (listed : mode ∈ [.immediate, .relative, .accumulator, .implied, .indirect]) :
    mode = .indirect := by
  revert memory listed
  cases mode <;> decide

theorem AccessFault.uses_operand {op : Operation} (fault : AccessFault c b t op.effect e c' d) :
    op ∉ [.jmp, .jsr, .nop] := by
  intro listed
  simp only [List.mem_cons, List.not_mem_nil, or_false] at listed
  rcases listed with rfl | rfl | rfl <;> cases fault

namespace Machine

theorem faults_at_operand {m m' : Machine} {d : Disassembly} (running : m.cpu.halted = false)
    (seen : d.Seen m.cpu m.bus) (faulted : step.run m = .error e m') :
    d.instruction.mode.isMemory = true ∧
      AccessFault (m.cpu.advance 1) m.bus d.target d.instruction.operation.effect e
        m'.cpu m'.bus := by
  have fetches : m.Fetches d.instruction.code m.bus := ⟨running, Bus.read_of_peek seen.code⟩
  exact seen.fault ((step_error faulted).failed fetches seen.known)

/-- If the next instruction can be printed, the step that executes it reads the code and
finds the operand as printed, and fails in no other way than at the operand itself. -/
theorem step_printed {m : Machine} (running : m.cpu.halted = false)
    (printed : Disassembly.line m.cpu m.bus = .ok text) :
    ∃ d, Disassembly.ofState m.cpu m.bus = .ok d ∧ text = d.render m.cpu ∧
      InstructionSet.standard.lookup d.instruction.code = some d.instruction ∧
      fetch.run m = .ok d.instruction.code { m with cpu := m.cpu.advance 1 } ∧
      (d.instruction.mode.isMemory = true →
        d.instruction.mode.resolve (m.cpu.pc + 1) m.cpu.x m.cpu.y (Disassembly.look m.bus) =
          .ok d.target ∧
        (operandAddress d.instruction.mode).run { m with cpu := m.cpu.advance 1 } =
          .ok d.target { m with cpu := m.cpu.advance 1 }) ∧
      (d.instruction.mode = .relative → ∃ t,
        (operandAddress .relative).run { m with cpu := m.cpu.advance 1 } =
          .ok t { m with cpu := m.cpu.advance 1 } ∧
        d.operandText m.cpu = "$" ++ hexAddress t) ∧
      (∀ e m', step.run m = .error e m' → d.instruction.mode.isMemory = true ∧
        AccessFault (m.cpu.advance 1) m.bus d.target d.instruction.operation.effect e
          m'.cpu m'.bus) ∧
      (d.instruction.mode ∈ [.immediate, .relative, .accumulator, .implied, .indirect] ∨
          d.instruction.operation ∈ [.jmp, .jsr, .nop] →
        ∃ o m', step.run m = .ok o m') := by
  obtain ⟨d, taken, rendered⟩ := Disassembly.bind_ok printed
  have seen := Disassembly.seen_of_state taken
  have faults (e : Fault) (m' : Machine) (faulted : step.run m = .error e m') :=
    faults_at_operand running seen faulted
  refine ⟨d, taken, (Except.ok.inj rendered).symm, seen.known, ?_, ?_, ?_, faults, ?_⟩
  · exact run_fetch (Bus.read_of_peek seen.code)
  · intro memory
    refine ⟨seen.target memory, ?_⟩
    rw [run_operandAddress]
    exact onBus_ok.2 ⟨m.bus, seen.located memory, rfl⟩
  · intro relative
    obtain ⟨t, located, text⟩ := seen.located_branch relative
    refine ⟨t, ?_, text⟩
    rw [run_operandAddress]
    exact onBus_ok.2 ⟨m.bus, located, rfl⟩
  · intro harmless
    cases ended : step.run m with
    | ok o m' => exact ⟨o, m', rfl⟩
    | error e m' =>
      obtain ⟨memory, fault⟩ := faults e m' ended
      refine absurd (harmless.elim (fun listed => ?_) id) fault.uses_operand
      have indirect := Mode.indirect_of_mem memory listed
      rw [InstructionSet.jmp_of_indirect seen.known indirect]
      exact List.mem_cons_self

/-- `ORA ($02,X)`, with a pointer behind the instruction to where nothing answers. -/
def strayRead : Machine := holding [0x01, 0x02, 0x00, 0x40]

theorem step_printed_stray :
    ∃ d, Disassembly.ofState strayRead.cpu strayRead.bus = .ok d ∧
      Disassembly.line strayRead.cpu strayRead.bus = .ok (d.render strayRead.cpu) ∧
      d.target = 0x4000 ∧
      (operandAddress d.instruction.mode).run
          { strayRead with cpu := strayRead.cpu.advance 1 } =
        .ok d.target { strayRead with cpu := strayRead.cpu.advance 1 } ∧
      AccessFault (strayRead.cpu.advance 1) strayRead.bus d.target
        d.instruction.operation.effect (.unmapped 0x4000)
        (step.after strayRead).cpu (step.after strayRead).bus := by
  have target : (Disassembly.ofState strayRead.cpu strayRead.bus).map (·.target) =
      .ok 0x4000 := by
    decide +kernel
  have faulted : step.run strayRead = .error (.unmapped 0x4000) (step.after strayRead) :=
    run_of_answer_error (by decide +kernel)
  cases taken : Disassembly.ofState strayRead.cpu strayRead.bus with
  | error e => rw [taken] at target; cases target
  | ok d =>
    have printed : Disassembly.line strayRead.cpu strayRead.bus =
        .ok (d.render strayRead.cpu) := by
      rw [Disassembly.line, taken]
      rfl
    rw [taken] at target
    obtain ⟨_, taken', _, _, _, found, _, faults, _⟩ := step_printed rfl printed
    cases taken.symm.trans taken'
    obtain ⟨memory, fault⟩ := faults _ _ faulted
    exact ⟨d, rfl, printed, Except.ok.inj target, (found memory).2, fault⟩

end Machine
end Nes
