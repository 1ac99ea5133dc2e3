import Nes.Machine.Basic
import Nes.Proofs.Access

/-! Where an operand is. Resolution treats its reader as a black box, so a relation
between readers that sequences respect carries over to what is resolved with them.
For a machine the answer depends on the registers and the bus alone. -/
namespace Nes

open Nes.Action

theorem toNat_displacement (b : Byte) :
    (displacement b).toNat = if b.toNat < 128 then b.toNat else b.toNat + 0xFF00 := by
  have bound := b.toNat_lt
  have half : b < 0x80 ↔ b.toNat < 128 := UInt8.lt_iff_toNat_lt
  have wide : (b.toUInt16 + 0xFF00).toNat = (b.toNat + 0xFF00) % 2 ^ 16 := UInt16.toNat_add _ _
  simp only [displacement, half]
  split
  · exact UInt8.toNat_toUInt16 b
  · rw [wide]
    omega

theorem toInt_toInt8 (b : Byte) :
    b.toInt8.toInt = if b.toNat < 128 then (b.toNat : Int) else b.toNat - 256 := by
  have signed : b.toInt8.toInt =
      if 2 * b.toNat < 2 ^ 8 then (b.toNat : Int) else b.toNat - (2 ^ 8 : Nat) :=
    BitVec.toInt_eq_toNat_cond b.toBitVec
  rw [signed]
  split <;> split <;> omega

/-- A byte moves PC by the signed number that it stands for. -/
theorem displacement_eq_ofInt (b : Byte) : displacement b = UInt16.ofInt b.toInt8.toInt := by
  have bound := b.toNat_lt
  apply UInt16.toNat_inj.1
  rw [toNat_displacement, toInt_toInt8, UInt16.ofInt, UInt16.toNat_ofNat']
  split <;> omega

/-- Resolution with two readers is related as the readers are. -/
theorem Mode.resolve_related [Monad m] [MonadExceptOf Fault m] [Monad n] [MonadExceptOf Fault n]
    (R : ∀ {α}, m α → n α → Prop) (mode : Mode) (pc : Address) (x y : Byte)
    {f : Address → m Byte} {g : Address → n Byte}
    (pure : ∀ {α} (v : α), R (pure v) (pure v))
    (bind : ∀ {α β act act'} {next : α → m β} {next' : α → n β},
      R act act' → (∀ v, R (next v) (next' v)) → R (act >>= next) (act' >>= next'))
    (throw : ∀ e, R (throw e : m Address) (throw e)) (reads : ∀ a, R (f a) (g a)) :
    R (mode.resolve pc x y f) (mode.resolve pc x y g) := by
  have pair (first second : Address) :
      R (readPair f first second) (readPair g first second) :=
    bind (reads first) fun _ => bind (reads second) fun _ => pure _
  cases mode with
  | immediate => exact pure _
  | zeroPage | zeroPageX | zeroPageY | relative => exact bind (reads _) fun _ => pure _
  | absolute => exact pair _ _
  | absoluteX | absoluteY => exact bind (pair _ _) fun _ => pure _
  | indirect => exact bind (pair _ _) fun _ => pair _ _
  | indirectX => exact bind (reads _) fun _ => pair _ _
  | indirectY => exact bind (reads _) fun _ => bind (pair _ _) fun _ => pure _
  | accumulator | implied => exact throw _

namespace Bus

/-- Where the operand is, for a CPU with PC on the operand bytes. -/
def locate (mode : Mode) (c : Cpu) : Action Bus Address := mode.resolve c.pc c.x c.y read

theorem locate_steady (mode : Mode) (c : Cpu) : Moves Steady (locate mode c) :=
  mode.resolve_related (g := read) (fun act _ => Moves Steady act) c.pc c.x c.y
    (moves_pure Steady.refl) (Moves.bind Steady.trans) (moves_throw Steady.refl) read_steady

/-- What is seen is what the action finds, and the action has no effect then. -/
def Foreseen (b : Bus) (seen : Except Fault α) (act : Action Bus α) : Prop :=
  ∀ v, seen = .ok v → act.run b = .ok v b

theorem Foreseen.bind {b : Bus} {act : Action Bus α} {next' : α → Action Bus β}
    (first : Foreseen b seen act) (rest : ∀ v, Foreseen b (next v) (next' v)) :
    Foreseen b (seen >>= next) (act >>= next') := by
  intro v h
  cases seen with
  | error e => cases h
  | ok u => exact run_bind_ok.2 ⟨u, b, first u rfl, rest u v h⟩

/-- An operand that is found by looking at memory only, is found without effect. -/
theorem locate_foreseen {b : Bus} {look : Address → Except Fault Byte}
    (looks : ∀ {a v}, look a = .ok v → b.peek? a = some v) (mode : Mode) (c : Cpu) :
    Foreseen b (mode.resolve c.pc c.x c.y look) (locate mode c) := by
  refine mode.resolve_related (Foreseen b) c.pc c.x c.y ?_ Foreseen.bind ?_ ?_
  · rintro α v _ ⟨⟩; rfl
  · rintro e v ⟨⟩
  · exact fun a v found => read_of_peek (looks found)

end Bus

namespace Machine

theorem onBus_pure (v : α) : onBus (pure v) = pure v := by
  funext m
  exact run_onBus (pure v) m

theorem onBus_throw (e : Fault) : onBus (throw e : Action Bus α) = throw e := by
  funext m
  exact run_onBus (throw e) m

theorem onBus_bind (act : Action Bus α) (next : α → Action Bus β) :
    onBus (act >>= next) = onBus act >>= fun v => onBus (next v) := by
  funext m
  change (onBus (act >>= next)).run m = (onBus act >>= fun v => onBus (next v)).run m
  simp only [run_onBus, EStateM.run_bind]
  cases act.run m.bus <;> rfl

theorem run_operandAddress (mode : Mode) (m : Machine) :
    (operandAddress mode).run m = (onBus (Bus.locate mode m.cpu)).run m := by
  have through : onBus (Bus.locate mode m.cpu) = mode.resolve m.cpu.pc m.cpu.x m.cpu.y read := by
    refine mode.resolve_related (fun act act' => onBus act = act') m.cpu.pc m.cpu.x m.cpu.y
      onBus_pure ?_ onBus_throw fun _ => rfl
    rintro α β act _ next next' rfl rest
    rw [onBus_bind, funext rest]
  rw [through]
  rfl

theorem onBus_answer (act : Action Bus α) (m : Machine) : (onBus act).answer m = act.answer m.bus :=
  focus_answer _ act m

theorem onBus_after (act : Action Bus α) (m : Machine) :
    (onBus act).after m = { m with bus := act.after m.bus } :=
  focus_after _ act m

theorem reporting_answer (target : Bus → Option Address) (v : Byte) (act : Action Bus Unit)
    (m : Machine) : (reporting target v act).answer m = act.answer m.bus := by
  simp only [answer, reporting, run_of]
  cases act.run m.bus with
  | ok u b => cases target m.bus <;> rfl
  | error e b => rfl

/-- A write that is reported leaves what it leaves on the bus, and a longer log at most. -/
theorem reporting_after (target : Bus → Option Address) (v : Byte) (act : Action Bus Unit)
    (m : Machine) : ∃ log, (reporting target v act).after m = ⟨m.cpu, act.after m.bus, log⟩ := by
  simp only [after, reporting, run_of]
  cases act.run m.bus with
  | ok u b => cases target m.bus <;> exact ⟨_, rfl⟩
  | error e b => exact ⟨_, rfl⟩

theorem onBus_ok {act : Action Bus α} {m m' : Machine} :
    (onBus act).run m = .ok v m' ↔ ∃ b, act.run m.bus = .ok v b ∧ m' = { m with bus := b } := by
  rw [run_onBus]
  cases act.run m.bus with
  | ok u b => exact ⟨by rintro ⟨⟩; exact ⟨b, rfl, rfl⟩, by rintro ⟨_, ⟨⟩, rfl⟩; rfl⟩
  | error e b => exact ⟨nofun, by rintro ⟨_, ⟨⟩, _⟩⟩

theorem onBus_error {act : Action Bus α} {m m' : Machine} :
    (onBus act).run m = .error e m' ↔ ∃ b, act.run m.bus = .error e b ∧ m' = { m with bus := b } := by
  rw [run_onBus]
  cases act.run m.bus with
  | ok u b => exact ⟨nofun, by rintro ⟨_, ⟨⟩, _⟩⟩
  | error e b => exact ⟨by rintro ⟨⟩; exact ⟨b, rfl, rfl⟩, by rintro ⟨_, ⟨⟩, rfl⟩; rfl⟩

end Machine
end Nes
