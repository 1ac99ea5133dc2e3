import Nes.Machine.Run
import Nes.Proofs.Operand

/-! Programs are guests on the bus: they reach it by reads and writes at addresses and by nothing else.
So are operands and instructions, a reset, and the whole of a run, since each of them is put together
from such actions. What holds of every action of the kind is proved once, by induction on how it is
put together. -/
namespace Nes.Machine

/-- An action made of reads and writes on the bus and of work on the registers. It may note things in
the log, but learns nothing from there. -/
inductive Guest : {α : Type} → Action Machine α → Prop
  | return (v : α) : Guest (pure v)
  | fault (e : Fault) : Guest (throw e : Action Machine α)
  | view (f : Cpu → α) : Guest (view f)
  | update (f : Cpu → Cpu) : Guest (update f)
  | note (f : Machine → Machine) : (∀ m, ∃ log, f m = { m with log }) → Guest (modify f)
  | read (a : Address) : Guest (read a)
  | write (a : Address) (v : Byte) : Guest (write a v)
  | bind {act : Action Machine α} {next : α → Action Machine β} :
      Guest act → (∀ v, Guest (next v)) → Guest (act >>= next)

theorem guest_goto (target : Address) : Guest (goto target) := .update _

theorem guest_readWord (a : Address) : Guest (readWord a) :=
  .bind (.read a) fun _ => .bind (.read _) fun _ => .return _

theorem guest_writeWord (a v : Address) : Guest (writeWord a v) :=
  .bind (.write a _) fun _ => .write _ _

theorem guest_push (v : Byte) : Guest (push v) :=
  .bind (.view _) fun top => .bind (.write top v) fun _ => .update _

theorem guest_pull : Guest pull :=
  .bind (.update _) fun _ => .bind (.view _) fun top => .read top

theorem guest_pushWord (v : Address) : Guest (pushWord v) :=
  .bind (guest_push _) fun _ => guest_push _

theorem guest_pullWord : Guest pullWord :=
  .bind guest_pull fun _ => .bind guest_pull fun _ => .return _

theorem guest_operandAddress (mode : Mode) : Guest (operandAddress mode) := by
  refine .bind (.view _) fun pc => .bind (.view _) fun x => .bind (.view _) fun y => ?_
  exact mode.resolve_related (g := Machine.read) (fun act _ => Guest act) pc x y .return .bind .fault
    .read

theorem guest_readOperand (mode : Mode) : Guest (readOperand mode) :=
  .bind (guest_operandAddress mode) fun t => .read t

theorem guest_modifyOperand (change : Cpu.Change) (mode : Mode) :
    Guest (modifyOperand change mode) := by
  refine .bind (.view _) fun carry => ?_
  split
  · exact .bind (.view _) fun a => .bind (.update _) fun _ => .return _
  · refine .bind (guest_operandAddress mode) fun t => .bind (.read t) fun v => ?_
    exact .bind (.update _) fun _ => .bind (.write t _) fun _ => .return _

theorem guest_perform (effect : Effect) (mode : Mode) : Guest (perform effect mode) := by
  cases effect with
  | internal f => exact .update f
  | load use => exact .bind (guest_readOperand mode) fun v => .update (use v)
  | store source =>
    exact .bind (guest_operandAddress mode) fun t => .bind (.view source) fun v => .write t v
  | modify change use => exact .bind (guest_modifyOperand change mode) fun v => .update (use v)
  | branch taken =>
    refine .bind (.view _) fun yes => ?_
    split
    · exact .bind (guest_operandAddress .relative) guest_goto
    · exact .return _
  | jump => exact .bind (guest_operandAddress mode) guest_goto
  | call =>
    refine .bind (guest_operandAddress mode) fun t => .bind (.view _) fun last => ?_
    exact .bind (guest_pushWord last) fun _ => guest_goto t
  | «return» => exact .bind guest_pullWord fun _ => guest_goto _
  | resume =>
    refine .bind guest_pull fun flags => .bind (.update _) fun _ => ?_
    exact .bind guest_pullWord guest_goto
  | push source => exact .bind (.view source) guest_push
  | pull use => exact .bind guest_pull fun v => .update (use v)

theorem guest_announce : Guest announce := by
  refine .note _ fun m => ?_
  split
  · split <;> exact ⟨_, rfl⟩
  · exact ⟨m.log, rfl⟩

theorem guest_fetch : Guest fetch :=
  .bind (.view _) fun pc => .bind (.read pc) fun _ => .bind (.update _) fun _ => .return _

theorem guest_note (e : Event) : Guest (modify (·.note e)) := .note _ fun _ => ⟨_, rfl⟩

theorem guest_step : Guest step := by
  refine .bind (.view _) fun halted => ?_
  split
  · exact .return _
  refine .bind guest_announce fun _ => .bind (.view _) fun start => .bind guest_fetch fun code => ?_
  split
  · refine .bind (guest_perform _ _) fun _ => ?_
    exact .bind (guest_note _) fun _ => .return _
  · split
    · exact .fault _
    · refine .bind (.view _) fun operand => .bind (guest_perform _ _) fun _ => ?_
      refine .bind (.view _) fun pc => ?_
      split
      · exact .bind (.update _) fun _ => .return _
      · exact .return _

theorem guest_run (fuel : Nat) : Guest (run fuel) := by
  induction fuel with
  | zero => exact .return _
  | succ fuel ih =>
    refine .bind guest_step fun outcome => ?_
    split
    · exact .return _
    · exact ih

theorem guest_reset : Guest reset := by
  refine .bind (.update _) fun _ => .bind (guest_readWord resetAddress) fun _ => ?_
  refine .bind (.update _) fun _ => .bind (.view _) fun _ => guest_note _

end Nes.Machine
