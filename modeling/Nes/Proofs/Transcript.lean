import Nes.Proofs.BusMirrors

/-! What programs do to the bus. A program reaches it by reads and writes at addresses and by nothing
else, so that whatever a machine executes leaves a transcript: the accesses in their order. What they
answer is all that the machine has learned, and the log takes no part in it. -/
namespace Nes.Machine

open Nes.Action

/-- The accesses that an action makes: machines with the same registers, on whose buses these are
answered alike, are the same to it, and these are all that it does to a bus. -/
def Transcript (act : Action Machine α) (m : Machine) (accesses : List Bus.Access) : Prop :=
  ∀ n : Machine, n.cpu = m.cpu →
    answers Bus.Access.act n.bus accesses = answers Bus.Access.act m.bus accesses →
    act.answer n = act.answer m ∧ (act.after n).cpu = (act.after m).cpu ∧
      (act.after n).bus = finalState Bus.Access.act n.bus accesses

/-! Transcripts of the parts. -/

/-- An action that leaves the bus alone, and does not look at it either. -/
theorem Transcript.nothing {act : Action Machine α} {m : Machine}
    (blind : ∀ n : Machine, n.cpu = m.cpu → act.answer n = act.answer m ∧
      (act.after n).cpu = (act.after m).cpu ∧ (act.after n).bus = n.bus) : Transcript act m [] :=
  fun n same _ => blind n same

theorem Transcript.bus {act : Action Machine α} {m : Machine} (transcript : Transcript act m accesses) :
    (act.after m).bus = finalState Bus.Access.act m.bus accesses :=
  (transcript m rfl rfl).2.2

theorem Transcript.bind {act : Action Machine α} {next : α → Action Machine β} {m : Machine}
    (first : Transcript act m accesses) (done : act.answer m = .ok v)
    (rest : Transcript (next v) (act.after m) later) :
    Transcript (act >>= next) m (accesses ++ later) := by
  intro n same alike
  rw [answers_append, answers_append] at alike
  have lengths : (answers Bus.Access.act n.bus accesses).length =
      (answers Bus.Access.act m.bus accesses).length := by
    rw [length_answers, length_answers]
  obtain ⟨alike, alike'⟩ := List.append_inj alike lengths
  obtain ⟨answer, cpu, bus⟩ := first n same alike
  rw [← bus, ← first.bus] at alike'
  obtain ⟨answer', cpu', bus'⟩ := rest (act.after n) cpu alike'
  obtain ⟨answered, left⟩ := bind_of_answer_ok done
  obtain ⟨answered', left'⟩ := bind_of_answer_ok (answer.trans done)
  rw [answered, answered', left, left', finalState_append, ← bus]
  exact ⟨answer', cpu', bus'⟩

theorem Transcript.bind_failed {act : Action Machine α} {next : α → Action Machine β} {m : Machine}
    (first : Transcript act m accesses) (failed : act.answer m = .error e) :
    Transcript (act >>= next) m accesses := by
  intro n same alike
  obtain ⟨answer, cpu, bus⟩ := first n same alike
  obtain ⟨answered, left⟩ := bind_of_answer_error failed
  obtain ⟨answered', left'⟩ := bind_of_answer_error (answer.trans failed)
  rw [answered, answered', left, left']
  exact ⟨rfl, cpu, bus⟩

theorem Guest.transcript {act : Action Machine α} (guest : Guest act) (m : Machine) :
    ∃ accesses, Transcript act m accesses := by
  induction guest generalizing m with
  | «return» v | fault e => exact ⟨[], .nothing fun n same => ⟨rfl, same, rfl⟩⟩
  | view f => exact ⟨[], .nothing fun n same => ⟨congrArg (Except.ok <| f ·) same, same, rfl⟩⟩
  | update f => exact ⟨[], .nothing fun n same => ⟨rfl, congrArg f same, rfl⟩⟩
  | note f only =>
    refine ⟨[], .nothing fun n same => ?_⟩
    obtain ⟨log, noted⟩ := only n
    obtain ⟨log', noted'⟩ := only m
    change _ ∧ (f n).cpu = (f m).cpu ∧ (f n).bus = n.bus
    rw [noted, noted']
    exact ⟨rfl, same, rfl⟩
  | read a =>
    refine ⟨[.read a], fun n same alike => ?_⟩
    have answered := eq_of_heq (Sigma.mk.inj (List.cons.inj alike).1).2
    rw [Machine.read, onBus_answer, onBus_answer, onBus_after, onBus_after]
    exact ⟨answered, same, rfl⟩
  | write a v =>
    refine ⟨[.write a v], fun n same alike => ?_⟩
    have answered := eq_of_heq (Sigma.mk.inj (List.cons.inj alike).1).2
    obtain ⟨log, left⟩ := reporting_after (·.dataTarget? a) v (Bus.write a v) n
    obtain ⟨log', left'⟩ := reporting_after (·.dataTarget? a) v (Bus.write a v) m
    rw [Machine.write, reporting_answer, reporting_answer, left, left']
    exact ⟨answered, same, rfl⟩
  | @bind _ _ act next _ _ first rest =>
    obtain ⟨accesses, transcript⟩ := first m
    cases done : act.answer m with
    | ok v =>
      obtain ⟨later, transcript'⟩ := rest v (act.after m)
      exact ⟨_, transcript.bind done transcript'⟩
    | error e => exact ⟨_, transcript.bind_failed done⟩

/-- A guest knows a machine by its registers and its bus. -/
theorem Guest.blind {act : Action Machine α} (guest : Guest act) {m n : Machine}
    (cpu : n.cpu = m.cpu) (bus : n.bus = m.bus) :
    act.answer n = act.answer m ∧ (act.after n).cpu = (act.after m).cpu ∧
      (act.after n).bus = (act.after m).bus := by
  obtain ⟨accesses, transcript⟩ := guest.transcript m
  obtain ⟨answer, registers, left⟩ := transcript n cpu (by rw [bus])
  exact ⟨answer, registers, by rw [left, bus, transcript.bus]⟩

end Nes.Machine
