import Nes.Proofs.Command
import Nes.Proofs.FaultFrame
import Nes.Proofs.Subroutine

/-! The life of a CPU. Both break flags are set when it stops and at no other time: whatever
is pulled from the stack loses them, and nothing else touches them. A CPU that has stopped
stays as it is until it is reset. -/
namespace Nes

open Nes.Action

namespace Cpu

/-- The break flags tell whether the CPU has stopped. -/
structure Marked (c : Cpu) : Prop where
  low : c.status.breakLow = c.halted
  high : c.status.breakHigh = c.halted

structure Running (c : Cpu) : Prop where
  alive : c.halted = false
  low : c.status.breakLow = false
  high : c.status.breakHigh = false

theorem Running.marked {c : Cpu} (running : c.Running) : c.Marked :=
  ⟨running.low.trans running.alive.symm, running.high.trans running.alive.symm⟩

theorem Marked.running {c : Cpu} (marked : c.Marked) (alive : c.halted = false) : c.Running :=
  ⟨alive, marked.low.trans alive, marked.high.trans alive⟩

@[simp] theorem past_status (c : Cpu) (operand : Address) (i : Instruction) :
    (c.past operand i).status = c.status :=
  keeps_past Cpu.status (fun _ _ => rfl) c operand i

theorem Running.past {c : Cpu} (running : c.Running) (operand : Address) (i : Instruction) :
    (c.past operand i).Running := by
  unfold Cpu.past
  split
  · exact ⟨running.alive, running.low, running.high⟩
  · exact running

end Cpu

theorem Status.withBreak_of_clear {s : Status} (low : s.breakLow = false)
    (high : s.breakHigh = false) : (s.withBreak true).withBreak false = s := by
  obtain ⟨c, z, i, d, b, h, v, n⟩ := s
  cases low
  cases high
  rfl

/-- A CPU that runs is still running after what an operation does to its registers. -/
def Effect.KeepsRunning : Effect → Prop
  | .internal f => ∀ c : Cpu, c.Running → (f c).Running
  | .load use | .modify _ use | .pull use => ∀ (v : Byte) (c : Cpu), c.Running → (use v c).Running
  | _ => True

theorem Operation.keeps_running (op : Operation) (other : op ≠ .brk) : op.effect.KeepsRunning := by
  cases op with
  | brk => exact absurd rfl other
  | plp => exact fun v c running => ⟨running.alive, rfl, rfl⟩
  | tax | tay | txa | tya | tsx | txs | inx | iny | dex | dey | nop | clc | sec | cld | sed | cli
  | sei | clv => exact fun _ running => ⟨running.alive, running.low, running.high⟩
  | lda | ldx | ldy | adc | sbc | and | ora | eor | bit | cmp | cpx | cpy | inc | dec | asl | lsr
  | rol | ror | pla | lax | dcp | isb | slo | rla | sre | rra | anc | alr | arr | axs =>
    exact fun _ _ running => ⟨running.alive, running.low, running.high⟩
  | sta | stx | sty | sax | bcc | bcs | bne | beq | bpl | bmi | bvc | bvs | jmp | jsr | rts | rti
  | pha | php => trivial

namespace Machine

theorem Performed.running {m m' : Machine} (performed : Performed mode m effect m')
    (keeps : effect.KeepsRunning) (running : m.cpu.Running) : m'.cpu.Running := by
  have carried (carry : Bool) : (m.cpu.withCarry carry).Running :=
    ⟨running.alive, running.low, running.high⟩
  cases performed with
  | internal => exact keeps _ running
  | load _ _ => exact keeps _ _ running
  | store _ _ | notTaken _ => exact running
  | accumulator _ _ =>
    exact keeps _ _ ⟨running.alive, running.low, running.high⟩
  | memory _ _ _ _ _ => exact keeps _ _ (carried _)
  | taken _ _ | jump _ | call _ | «return» | push =>
    exact ⟨running.alive, running.low, running.high⟩
  | resume => exact ⟨running.alive, rfl, rfl⟩
  | pull => exact keeps _ _ ⟨running.alive, running.low, running.high⟩

theorem Failed.running (failed : Failed mode c b effect e c' d) (running : c.Running) :
    c'.Running := by
  cases failed with
  | operand _ _ => exact running
  | access _ _ fault =>
    cases fault with
    | load _ | store _ | modifyRead _ => exact running
    | modifyWrite _ _ _ => exact ⟨running.alive, running.low, running.high⟩

theorem StepFault.running {m : Machine} (fault : StepFault m e c d) (marked : m.cpu.Marked) :
    c.Running := by
  have advanced (alive : m.cpu.halted = false) : (m.cpu.advance 1).Running :=
    ⟨alive, (marked.running alive).low, (marked.running alive).high⟩
  cases fault with
  | fetch alive _ => exact marked.running alive
  | unknown fetch _ => exact advanced fetch.running
  | instruction fetch _ failed => exact failed.running (advanced fetch.running)

theorem Stepped.marked {m m' : Machine} (stepped : Stepped m o m') (marked : m.cpu.Marked) :
    m'.cpu.Marked := by
  cases stepped with
  | still _ => exact marked
  | stop _ => exact ⟨rfl, rfl⟩
  | instruction fetch known found performed =>
    have running := marked.running fetch.running
    have advanced : (m.cpu.advance 1).Running := ⟨running.alive, running.low, running.high⟩
    have keeps := Operation.keeps_running _ (InstructionSet.ne_brk_of_lookup found known)
    exact ((performed.running keeps advanced).past _ _).marked

/-- The registers stay marked. -/
abbrev KeepsMark (m n : Machine) : Prop := m.cpu.Marked → n.cpu.Marked

theorem step_marked : Moves KeepsMark step := by
  intro m marked
  cases ended : step.run m with
  | ok o m' =>
    rw [after_ok ended]
    exact (step_ok ended).marked marked
  | error e m' =>
    rw [after_error ended]
    exact ((step_error ended).running marked).marked

theorem run_marked (fuel : Nat) : Moves KeepsMark (run fuel) := by
  induction fuel with
  | zero => exact fun m marked => marked
  | succ fuel ih =>
    refine Moves.bind (fun first second marked => second (first marked)) step_marked fun o => ?_
    cases o with
    | halted => exact fun m marked => marked
    | running => exact ih

/-- Accesses leave the registers alone. -/
abbrev SameCpu (m n : Machine) : Prop := n.cpu = m.cpu

theorem onBus_cpu (act : Action Bus α) : Moves SameCpu (onBus act) := by
  intro m
  rw [SameCpu, onBus_after]

theorem write_cpu (a : Address) (v : Byte) : Moves SameCpu (write a v) := by
  intro m
  obtain ⟨log, left⟩ := reporting_after (·.dataTarget? a) v (Bus.write a v) m
  rw [SameCpu, write, left]

theorem sameCpu_bind {act : Action Machine α} {next : α → Action Machine β}
    (first : Moves SameCpu act) (rest : ∀ v, Moves SameCpu (next v)) :
    Moves SameCpu (act >>= next) :=
  Moves.bind (fun one other => other.trans one) first rest

theorem readWord_cpu (a : Address) : Moves SameCpu (readWord a) :=
  sameCpu_bind (onBus_cpu _) fun _ => sameCpu_bind (onBus_cpu _) fun _ _ => rfl

theorem load_cpu (program : Array Byte) : Moves SameCpu (load program) :=
  moves_load_of (Q := SameCpu) (fun _ => rfl) (fun one other => other.trans one) write_cpu
    (fun _ _ => rfl) program

/-- A reset makes the CPU run, even one that cannot read where to begin. -/
theorem reset_running (m : Machine) : (reset.after m).cpu.Running := by
  have cleared : Cpu.Running {} := ⟨rfl, rfl, rfl⟩
  cases ended : (readWord resetAddress).run { m with cpu := {} } with
  | ok start n =>
    have same : n.cpu = {} := (readWord_cpu resetAddress).ok ended
    have last :
        reset.after m = { n with cpu := { n.cpu with pc := start } }.note (.reset start) := by
      simp only [after, reset, EStateM.run_bind, run_update, ended, run_goto, run_view,
        EStateM.run_modify]
      rfl
    rw [last, note, same]
    exact ⟨rfl, rfl, rfl⟩
  | error e n =>
    have same : n.cpu = {} := (readWord_cpu resetAddress).error ended
    have last : reset.after m = n := by
      simp only [after, reset, EStateM.run_bind, run_update, ended]
    rw [last, same]
    exact cleared

end Machine

/-- What a new CPU can become, with whatever bus it is given at each call. -/
inductive Cpu.Reached : Cpu → Prop
  | new : Reached {}
  | load {m : Machine} (program : Array Byte) :
      Reached m.cpu → Reached ((Machine.load program).after m).cpu
  | reset {m : Machine} : Reached m.cpu → Reached (Machine.reset.after m).cpu
  | step {m : Machine} : Reached m.cpu → Reached (Machine.step.after m).cpu
  | run {m : Machine} (fuel : Nat) : Reached m.cpu → Reached ((Machine.run fuel).after m).cpu

theorem Cpu.Reached.marked {c : Cpu} (reached : c.Reached) : c.Marked := by
  induction reached with
  | new => exact ⟨rfl, rfl⟩
  | load program _ ih => rw [Machine.load_cpu program _]; exact ih
  | reset _ _ => exact (Machine.reset_running _).marked
  | step _ ih => exact Machine.step_marked _ ih
  | run fuel _ ih => exact Machine.run_marked fuel _ ih

namespace Machine

theorem step_of_halted {m : Machine} (halted : m.cpu.halted = true) :
    step.run m = .ok .halted m := by
  simp only [step, EStateM.run_bind, run_view, halted, ↓reduceIte, EStateM.run_pure]

theorem run_of_halted {m : Machine} (halted : m.cpu.halted = true) (fuel : Nat) :
    (run (fuel + 1)).run m = .ok .halted m := by
  simp only [run, EStateM.run_bind, step_of_halted halted, EStateM.run_pure]

theorem afterAll_of_halted {m : Machine} (halted : m.cpu.halted = true) {calls : List Command}
    (goes : ∀ call ∈ calls, call = .step ∨ ∃ fuel, call = .run fuel) : m.afterAll calls = m := by
  induction calls with
  | nil => rfl
  | cons call rest ih =>
    have still : call.act.after m = m := by
      rcases goes call List.mem_cons_self with rfl | ⟨fuel, rfl⟩
      · exact after_ok (step_of_halted halted)
      · cases fuel with
        | zero => rfl
        | succ fuel => exact after_ok (run_of_halted halted fuel)
    change (call.act.after m).afterAll rest = m
    rw [still]
    exact ih fun other member => goes other (List.mem_cons_of_mem _ member)

theorem step_stops_iff {m : Machine} (alive : m.cpu.halted = false) :
    (∃ m', step.run m = .ok .halted m') ↔ ∃ b, (Bus.read m.cpu.pc).run m.bus = .ok 0 b := by
  constructor
  · rintro ⟨m', stopped⟩
    cases step_ok stopped with
    | still halted => cases alive.symm.trans halted
    | stop fetch => exact ⟨_, fetch.read⟩
  · rintro ⟨b, read⟩
    have fetch : m.Fetches 0 b := ⟨alive, read⟩
    cases ended : step.run m with
    | ok o m' =>
      cases step_ok ended with
      | still halted => cases alive.symm.trans halted
      | stop _ => exact ⟨_, rfl⟩
      | instruction fetch' known _ _ => exact absurd (fetch'.unique fetch).1 known
    | error e m' =>
      obtain ⟨i, found, brk⟩ := Option.map_eq_some_iff.1 InstructionSet.lookup_zero
      have code := InstructionSet.code_of_lookup found
      have failed := (step_error ended).failed (code ▸ fetch) (code ▸ found)
      generalize m'.cpu = c, m'.bus = d at failed
      rw [brk] at failed
      cases failed with
      | operand sought _ => cases sought
      | access sought _ _ => cases sought

theorem halted_of_stop {m m' : Machine} (stopped : step.run m = .ok .halted m') :
    m'.cpu.halted = true := by
  cases step_ok stopped with
  | still halted => exact halted
  | stop _ => rfl

/-- An operation that seeks no operand comes to its end. -/
theorem step_unfailing {m : Machine} (next : m.nextOperation? = some op) (other : op ≠ .brk)
    (inner : ∀ mode, op.effect.sought? mode = none) :
    ∃ i b log m₁, Bus.Steady m.bus b ∧
      Performed i.mode ⟨m.cpu.advance 1, b, log⟩ op.effect m₁ ∧
      step.run m = .ok .running { m₁ with cpu := m₁.cpu.past (m.cpu.pc + 1) i } := by
  obtain ⟨i, b, fetch, found, rfl⟩ := fetch_of_nextOperation next
  have unfailed (e : Fault) (c : Cpu) (d : Bus) :
      ¬ Failed i.mode (m.cpu.advance 1) b i.operation.effect e c d :=
    fun failed => failed.seeks (inner i.mode)
  obtain ⟨m₁, log, performed, stepped⟩ := step_unfailed fetch found other unfailed
  exact ⟨i, b, log, m₁, (Bus.read_steady _).ok fetch.read, performed, stepped⟩

/-- The byte pushed last is the one that is pulled, whatever has been read in between. -/
theorem top_of_pushed {m n : Machine} (pointer : n.cpu.sp = (m.pushed v).cpu.sp)
    (steady : Bus.Steady (m.pushed v).bus n.bus) : n.top = v := by
  have back : n.pulled.cpu.stackTop = m.cpu.stackTop := by
    have restored : n.cpu.sp + 1 = m.cpu.sp := by
      rw [pointer]
      exact UInt8.sub_add_cancel m.cpu.sp 1
    exact congrArg (fun sp : Byte => 0x0100 + sp.toUInt16) restored
  rw [top, back, steady.ram]
  exact WorkRam.get_set_same _ _ _

/-- Flags that were pushed while the CPU ran are the flags that are pulled. -/
theorem step_php_plp {m : Machine} (running : m.cpu.Running)
    (push : m.nextOperation? = some .php) :
    ∃ m₁, step.run m = .ok .running m₁ ∧ (m₁.nextOperation? = some .plp →
      ∃ m₂, step.run m₁ = .ok .running m₂ ∧ m₂.cpu.status = m.cpu.status) := by
  obtain ⟨i, b, log, m₁, _, pushed, stepped⟩ := step_unfailing push (by decide) fun _ => rfl
  refine ⟨_, stepped, fun pull => ?_⟩
  obtain ⟨j, b', log', m₂, steady, pulled, stepped'⟩ :=
    step_unfailing pull (by decide) fun _ => rfl
  refine ⟨_, stepped', ?_⟩
  cases pushed
  cases pulled
  -- Between the push and the pull there is one fetch, and that leaves work RAM alone.
  simp only [Cpu.past_status]
  rw [top_of_pushed (m := ⟨m.cpu.advance 1, b, log⟩) (Cpu.past_sp ..) steady, Status.ofByte_toByte]
  exact Status.withBreak_of_clear running.low running.high

/-- The break flags of a CPU that has only ever been loaded, reset and run say whether it
has stopped. It stops at the code zero, then nothing moves it but a reset, and until it
stops a pull of the flags undoes the push before it. -/
theorem reached_lifecycle {m : Machine} (reached : m.cpu.Reached) :
    (m.cpu.status.breakLow = m.cpu.halted ∧ m.cpu.status.breakHigh = m.cpu.halted) ∧
    (m.cpu.halted = false →
      ((∃ m', step.run m = .ok .halted m') ↔ ∃ b, (Bus.read m.cpu.pc).run m.bus = .ok 0 b) ∧
      (∀ m', step.run m = .ok .halted m' → m'.cpu.halted = true)) ∧
    (m.cpu.halted = true →
      (∀ calls : List Command, (∀ call ∈ calls, call = .step ∨ ∃ fuel, call = .run fuel) →
        m.afterAll calls = m) ∧
      step.run m = .ok .halted m ∧ (∀ fuel, (run (fuel + 1)).run m = .ok .halted m) ∧
      (reset.after m).cpu.halted = false) ∧
    (m.cpu.halted = false → m.nextOperation? = some .php →
      ∃ m₁, step.run m = .ok .running m₁ ∧ (m₁.nextOperation? = some .plp →
        ∃ m₂, step.run m₁ = .ok .running m₂ ∧ m₂.cpu.status = m.cpu.status)) := by
  have marked := reached.marked
  refine ⟨⟨marked.low, marked.high⟩, ?_, ?_, ?_⟩
  · exact fun alive => ⟨step_stops_iff alive, fun m' stopped => halted_of_stop stopped⟩
  · intro halted
    exact ⟨fun calls goes => afterAll_of_halted halted goes, step_of_halted halted,
      run_of_halted halted, (reset_running m).alive⟩
  · exact fun alive push => step_php_plp (marked.running alive) push

/-- About to save its flags and to take them back, with the carry set. -/
def saving : Machine := step.after (reset.after (holding [0x38, 0x08, 0x28, 0x00]))

theorem reached_lifecycle_saving :
    saving.cpu.Reached ∧ saving.cpu.halted = false ∧ saving.cpu.status.breakLow = false ∧
    saving.cpu.status.carry = true ∧ saving.nextOperation? = some .php ∧
    (saving.afterSteps 1).nextOperation? = some .plp ∧
    (saving.afterSteps 2).cpu.status = saving.cpu.status ∧
    (saving.afterSteps 3).cpu.halted = true ∧
    (saving.afterSteps 3).afterAll [.step, .run 5] = saving.afterSteps 3 := by
  have reached : saving.cpu.Reached := .step (.reset .new)
  have stopped : (saving.afterSteps 3).cpu.Reached := .step (.step (.step reached))
  obtain ⟨alive, carry, push, pull, halted⟩ :
      saving.cpu.halted = false ∧ saving.cpu.status.carry = true ∧
      saving.nextOperation? = some .php ∧ (saving.afterSteps 1).nextOperation? = some .plp ∧
      (saving.afterSteps 3).cpu.halted = true := by
    decide +kernel
  obtain ⟨⟨low, _⟩, _, _, saves⟩ := reached_lifecycle reached
  obtain ⟨m₁, pushed, pulls⟩ := saves alive push
  have first : saving.afterSteps 1 = m₁ := after_ok pushed
  obtain ⟨m₂, pulled, same⟩ := pulls (first ▸ pull)
  have second : saving.afterSteps 2 = m₂ := by
    change step.after (saving.afterSteps 1) = m₂
    rw [first]
    exact after_ok pulled
  obtain ⟨_, _, rests, _⟩ := reached_lifecycle stopped
  refine ⟨reached, alive, low.trans alive, carry, push, pull, second ▸ same, halted, ?_⟩
  exact (rests halted).1 _ (by simp)

end Machine
end Nes
