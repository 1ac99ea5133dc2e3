import Nes.Proofs.Step

/-! The interrupt, decimal and break flags can be seen on the stack only, where a push of
the flags puts them. Machines that differ in nothing else run alike until one pushes. -/
namespace Nes

open Nes.Action

/-- The flags that no operation acts on. -/
structure Status.Hidden where
  interruptDisable : Bool
  decimal : Bool
  breakLow : Bool
  breakHigh : Bool

def Status.withHidden (s : Status) (h : Hidden) : Status :=
  { s with
    interruptDisable := h.interruptDisable
    decimal := h.decimal
    breakLow := h.breakLow
    breakHigh := h.breakHigh }

namespace Cpu

def hidden (c : Cpu) : Status.Hidden :=
  ⟨c.status.interruptDisable, c.status.decimal, c.status.breakLow, c.status.breakHigh⟩

def withHidden (c : Cpu) (h : Status.Hidden) : Cpu := { c with status := c.status.withHidden h }

/-- The registers differ at most in the hidden flags. -/
def Alike (c d : Cpu) : Prop := ∃ h, d = c.withHidden h

theorem Alike.of_eq {c d : Cpu} (same : d = c.withHidden d.hidden) : Alike c d := ⟨_, same⟩

end Cpu

/-- Nothing that an operation does depends on the hidden flags. -/
def Effect.Blind : Effect → Prop
  | .internal f => ∀ c h, Cpu.Alike (f c) (f (c.withHidden h))
  | .load use | .modify _ use | .pull use =>
    ∀ v c h, Cpu.Alike (use v c) (use v (c.withHidden h))
  | .store source | .push source => ∀ c h, source (c.withHidden h) = source c
  | .branch taken => ∀ s h, taken (s.withHidden h) = taken s
  | .jump | .call | .return | .resume => True

theorem Operation.blind (op : Operation) (other : op ≠ .php) : op.effect.Blind := by
  cases op with
  | php => exact absurd rfl other
  | tax | tay | txa | tya | tsx | txs | inx | iny | dex | dey | brk | nop | clc | sec | cld | sed
  | cli | sei | clv => exact fun c h => .of_eq rfl
  | lda | ldx | ldy | adc | sbc | and | ora | eor | bit | cmp | cpx | cpy | inc | dec | asl | lsr
  | rol | ror | pla | plp | lax | dcp | isb | slo | rla | sre | rra | anc | alr | arr | axs =>
    exact fun v c h => .of_eq rfl
  | sta | stx | sty | sax | pha | bcc | bcs | bne | beq | bpl | bmi | bvc | bvs =>
    exact fun _ _ => rfl
  | jmp | jsr | rts | rti => trivial

namespace Machine

/-- The machines differ at most in the hidden flags and in what has been logged. -/
structure Alike (m n : Machine) : Prop where
  cpu : Cpu.Alike m.cpu n.cpu
  bus : m.bus = n.bus

theorem respects_view {f : Cpu → α} (blind : ∀ c h, f (c.withHidden h) = f c) :
    Respects Alike (view f) := by
  intro m n alike
  obtain ⟨h, same⟩ := alike.cpu
  rw [run_view, run_view, same, blind]
  exact .ok alike

theorem respects_update {f : Cpu → Cpu} (blind : ∀ c h, Cpu.Alike (f c) (f (c.withHidden h))) :
    Respects Alike (update f) := by
  intro m n alike
  obtain ⟨h, same⟩ := alike.cpu
  rw [run_update, run_update, same]
  exact .ok ⟨blind m.cpu h, alike.bus⟩

theorem respects_onBus (act : Action Bus α) : Respects Alike (onBus act) := by
  intro m n alike
  rw [run_onBus, run_onBus, alike.bus]
  cases act.run n.bus with
  | ok v b => exact .ok ⟨alike.cpu, rfl⟩
  | error e b => exact .error ⟨alike.cpu, rfl⟩

theorem respects_write (a : Address) (v : Byte) : Respects Alike (write a v) := by
  intro m n alike
  simp only [write, reporting, run_of]
  rw [alike.bus]
  cases (Bus.write a v).run n.bus with
  | ok u b => cases n.bus.dataTarget? a <;> exact .ok ⟨alike.cpu, rfl⟩
  | error e b => exact .error ⟨alike.cpu, rfl⟩

theorem respects_operandAddress (mode : Mode) : Respects Alike (operandAddress mode) := by
  intro m n alike
  obtain ⟨h, same⟩ := alike.cpu
  have located : Bus.locate mode n.cpu = Bus.locate mode m.cpu := by rw [same]; rfl
  rw [run_operandAddress, run_operandAddress, located]
  exact respects_onBus _ m n alike

theorem respects_goto (target : Address) : Respects Alike (goto target) :=
  respects_update fun _ _ => .of_eq rfl

theorem respects_push (v : Byte) : Respects Alike (push v) := by
  refine (respects_view fun _ _ => rfl).bind fun top => ?_
  exact (respects_write top v).bind fun _ => respects_update fun _ _ => .of_eq rfl

theorem respects_pull : Respects Alike pull := by
  refine (respects_update fun _ _ => .of_eq rfl).bind fun _ => ?_
  exact (respects_view fun _ _ => rfl).bind fun top => respects_onBus (Bus.read top)

theorem respects_pushWord (v : Address) : Respects Alike (pushWord v) :=
  (respects_push _).bind fun _ => respects_push _

theorem respects_pullWord : Respects Alike pullWord :=
  respects_pull.bind fun _ => respects_pull.bind fun _ => respects_pure _

theorem respects_readOperand (mode : Mode) : Respects Alike (readOperand mode) :=
  (respects_operandAddress mode).bind fun t => respects_onBus (Bus.read t)

theorem respects_modifyOperand (change : Cpu.Change) (mode : Mode) :
    Respects Alike (modifyOperand change mode) := by
  refine (respects_view fun _ _ => rfl).bind fun carry => ?_
  split
  · refine (respects_view fun _ _ => rfl).bind fun a => ?_
    exact (respects_update fun _ _ => .of_eq rfl).bind fun _ => respects_pure _
  · refine (respects_operandAddress mode).bind fun t => ?_
    refine (respects_onBus (Bus.read t)).bind fun v => ?_
    refine (respects_update fun _ _ => .of_eq rfl).bind fun _ => ?_
    exact (respects_write t _).bind fun _ => respects_pure _

theorem respects_perform {effect : Effect} (blind : effect.Blind) (mode : Mode) :
    Respects Alike (perform effect mode) := by
  cases effect with
  | internal f => exact respects_update blind
  | load use => exact (respects_readOperand mode).bind fun v => respects_update (blind v)
  | store source =>
    refine (respects_operandAddress mode).bind fun t => ?_
    exact (respects_view blind).bind fun v => respects_write t v
  | modify change use =>
    exact (respects_modifyOperand change mode).bind fun v => respects_update (blind v)
  | branch taken =>
    refine (respects_view fun c h => blind c.status h).bind fun yes => ?_
    split
    · exact (respects_operandAddress .relative).bind respects_goto
    · exact respects_pure _
  | jump => exact (respects_operandAddress mode).bind respects_goto
  | call =>
    refine (respects_operandAddress mode).bind fun t => ?_
    refine (respects_view fun _ _ => rfl).bind fun last => ?_
    exact (respects_pushWord last).bind fun _ => respects_goto t
  | «return» => exact respects_pullWord.bind fun _ => respects_goto _
  | resume =>
    refine respects_pull.bind fun flags => ?_
    refine (respects_update fun _ _ => .of_eq rfl).bind fun _ => ?_
    exact respects_pullWord.bind respects_goto
  | push source => exact (respects_view blind).bind respects_push
  | pull use => exact respects_pull.bind fun v => respects_update (blind v)

theorem respects_announce : Respects Alike announce := by
  intro m n alike
  obtain ⟨log, announced⟩ := m.run_announce
  obtain ⟨log', announced'⟩ := n.run_announce
  rw [announced, announced']
  exact .ok ⟨alike.cpu, alike.bus⟩

theorem respects_fetch : Respects Alike fetch := by
  refine (respects_view fun _ _ => rfl).bind fun pc => ?_
  refine (respects_onBus (Bus.read pc)).bind fun code => ?_
  exact (respects_update fun _ _ => .of_eq rfl).bind fun _ => respects_pure code

theorem respects_note (e : Event) : Respects Alike (modify (·.note e)) :=
  fun _ _ alike => .ok ⟨alike.cpu, alike.bus⟩

theorem step_alike {m n : Machine} (alike : Alike m n) (unseen : m.nextOperation? ≠ some .php) :
    Matches Alike (step.run m) (step.run n) := by
  refine (respects_view (fun _ _ => rfl) m n alike).bind fun viewed alike => ?_
  cases viewed
  by_cases halted : m.cpu.halted = true
  · rw [if_pos halted]
    exact .ok alike
  rw [if_neg halted]
  refine (respects_announce m _ alike).bind fun announced alike => ?_
  obtain ⟨log, told⟩ := m.run_announce
  cases told.symm.trans announced
  refine (respects_view (fun _ _ => rfl) _ _ alike).bind fun viewed alike => ?_
  cases viewed
  refine (respects_fetch _ _ alike).bind fun fetched alike => ?_
  obtain ⟨b, read, rfl⟩ := fetch_ok fetched
  have fetch : m.Fetches _ b := ⟨Bool.eq_false_iff.2 halted, read⟩
  -- The code is known from here on, so that it is enough to look at what is left of the step.
  refine (?_ : Respects Alike _) _ _ alike
  split
  · refine (respects_perform (Operation.blind .brk (by decide)) .implied).bind fun _ => ?_
    exact (respects_note _).bind fun _ => respects_pure _
  · split
    · exact respects_throw _
    next i found =>
      have blind : i.operation.effect.Blind := by
        refine i.operation.blind fun php => unseen ?_
        rw [nextOperation_of_fetch fetch found, php]
      refine (respects_view fun _ _ => rfl).bind fun operand => ?_
      refine (respects_perform blind i.mode).bind fun _ => ?_
      refine (respects_view fun _ _ => rfl).bind fun pc => ?_
      split
      · exact (respects_update fun _ _ => .of_eq rfl).bind fun _ => respects_pure _
      · exact respects_pure _

theorem afterSteps_alike {m n : Machine} (alike : Alike m n)
    (unseen : ∀ k < steps, (m.afterSteps k).nextOperation? ≠ some .php) :
    Alike (m.afterSteps steps) (n.afterSteps steps) := by
  induction steps with
  | zero => exact alike
  | succ steps ih =>
    have before := ih fun k below => unseen k (Nat.lt_succ_of_lt below)
    exact (step_alike before (unseen steps (Nat.lt_succ_self steps))).after

/-- Machines that differ in the hidden flags only, answer the same at every step and do the
same to the bus, until one of them pushes its flags. -/
theorem hidden_flags_noninterference {m n : Machine} (alike : Cpu.Alike m.cpu n.cpu)
    (bus : m.bus = n.bus)
    (unseen : ∀ k < steps, (m.afterSteps k).nextOperation? ≠ some .php) :
    ∀ k < steps, step.answer (m.afterSteps k) = step.answer (n.afterSteps k) ∧
      (m.afterSteps (k + 1)).bus = (n.afterSteps (k + 1)).bus ∧
      Cpu.Alike (m.afterSteps (k + 1)).cpu (n.afterSteps (k + 1)).cpu := by
  intro k below
  have before : Alike (m.afterSteps k) (n.afterSteps k) :=
    afterSteps_alike ⟨alike, bus⟩ fun j earlier => unseen j (Nat.lt_trans earlier below)
  have stepped := step_alike before (unseen k below)
  exact ⟨stepped.answer, stepped.after.bus, stepped.after.cpu⟩

/-- `ADC #$19`, a shift, and a code that stands for nothing. -/
def addition : Machine := holding [0x69, 0x19, 0x0A, 0x02]

/-- The same in decimal mode, with the other hidden flags set too. -/
def decimalAddition : Machine :=
  { addition with cpu := addition.cpu.withHidden ⟨true, true, true, true⟩ }

theorem hidden_flags_noninterference_addition :
    (∀ k < 3, (addition.afterSteps k).nextOperation? ≠ some .php) ∧
    ∀ k < 3,
      step.answer (addition.afterSteps k) = step.answer (decimalAddition.afterSteps k) ∧
      (addition.afterSteps (k + 1)).bus = (decimalAddition.afterSteps (k + 1)).bus ∧
      Cpu.Alike (addition.afterSteps (k + 1)).cpu (decimalAddition.afterSteps (k + 1)).cpu := by
  have unseen : ∀ k < 3, (addition.afterSteps k).nextOperation? ≠ some .php := by
    decide +kernel
  have alike : Cpu.Alike addition.cpu decimalAddition.cpu := ⟨⟨true, true, true, true⟩, rfl⟩
  exact ⟨unseen, hidden_flags_noninterference alike rfl unseen⟩

end Machine
end Nes
