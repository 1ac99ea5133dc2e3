import Nes.Proofs.Lifecycle
import Nes.Proofs.Transcript

/-! Runs that are watched, interrupted and resumed. What is called in front of every instruction may
learn of the machine and may end the run. As long as it touches nothing, the machine is where it would
be without it, and goes on from there as if there had been no interruption. -/
namespace Nes.Machine

open Nes.Action

/-- The result in a state of what has ended well, with a value, or else with a fault. -/
def ended (v : α) : Except Fault Unit → σ → EStateM.Result Fault σ α
  | .ok (), s => .ok v s
  | .error e, s => .error e s

/-- Steps that leave the CPU running, with the machines that they were taken on. -/
inductive GoesOn : Machine → List Machine → Machine → Prop
  | nil : GoesOn m [] m
  | cons : step.run m = .ok .running m' → GoesOn m' seen n → GoesOn m (m :: seen) n

/-- The last step of a run: the CPU stops, or has stopped before, or the step fails. -/
def Stops (m : Machine) (r : Except Fault Unit) (n : Machine) : Prop := step.run m = ended .halted r n

/-- How a loop without a bound ends, if it does: as it ends with a bound that is large enough. -/
def Completes (loop : Nat → Action σ Ending) (s : σ) (r : Except Fault Unit) (t : σ) : Prop :=
  ∃ fuel, (loop fuel).run s = ended .halted r t

/-- No bound is large enough for the loop. -/
def Diverges (loop : Nat → Action σ Ending) (s : σ) : Prop :=
  ∀ fuel, ∃ t, (loop fuel).run s = .ok .exhausted t

/-- What is called touches nothing of the machine. -/
def Idle (before : Action (Machine × τ) Unit) : Prop := ∀ s, (before.after s).1 = s.1

/-- What the caller's own value has become after one call with each machine of a list, in turn. -/
def called (before : Action (Machine × τ) Unit) (t : τ) (calls : List Machine) : τ :=
  calls.foldl (fun t m => (before.after (m, t)).2) t

/-- Whatever the machines are, `n` calls succeed and the call after them fails. -/
structure FailsAfter (before : Action (Machine × τ) Unit) (t : τ) (n : Nat) (e : Fault) : Prop where
  succeeds : ∀ calls m, calls.length < n → before.answer (m, called before t calls) = .ok ()
  fails : ∀ calls m, calls.length = n → before.answer (m, called before t calls) = .error e

theorem ended_inj {v : α} {s s' : σ} (same : ended v r s = ended v r' s') : r = r' ∧ s = s' := by
  cases r <;> cases r' <;> cases same <;> exact ⟨rfl, rfl⟩

theorem run_eq_ended {act : Action σ α} :
    act.run s = ended v r t ↔ act.answer s = r.map (fun _ => v) ∧ act.after s = t := by
  unfold answer after
  cases act.run s <;> cases r <;> simp [ended, Except.map]

theorem ended_ne {s t : σ} : ended Ending.halted r s ≠ .ok .exhausted t := by
  cases r <;> nofun

/-! One round of a loop. -/

theorem runWith_succ (before : Action (Machine × τ) Unit) (fuel : Nat) (s : Machine × τ) :
    (runWith before (fuel + 1)).run s =
      match before.run s with
      | .error e s => .error e s
      | .ok _ (m, t) =>
        match step.run m with
        | .error e n => .error e (n, t)
        | .ok .halted n => .ok .halted (n, t)
        | .ok .running n => (runWith before fuel).run (n, t) := by
  rw [runWith, EStateM.run_bind]
  cases before.run s with
  | error e s => rfl
  | ok u s =>
    obtain ⟨m, t⟩ := s
    simp only [EStateM.run_bind, run_beside]
    cases step.run m with
    | error e n => rfl
    | ok outcome n => cases outcome <;> rfl

theorem run_succ (fuel : Nat) (m : Machine) :
    (run (fuel + 1)).run m =
      match step.run m with
      | .error e n => .error e n
      | .ok .halted n => .ok .halted n
      | .ok .running n => (run fuel).run n := by
  rw [run, EStateM.run_bind]
  cases step.run m with
  | error e n => rfl
  | ok outcome n => cases outcome <;> rfl

/-- A run is one in which nothing is called. -/
theorem runWith_pure (fuel : Nat) (m : Machine) (t : τ) :
    (runWith (pure ()) fuel).run (m, t) = (beside (run fuel)).run (m, t) := by
  rw [run_beside]
  induction fuel generalizing m with
  | zero => rfl
  | succ fuel ih =>
    rw [runWith_succ, run_succ, EStateM.run_pure]
    dsimp only
    cases step.run m with
    | error e n => rfl
    | ok outcome n =>
      cases outcome with
      | halted => rfl
      | running => exact ih n

variable {before : Action (Machine × τ) Unit}

/-- A loop that has ended does not notice a larger bound. -/
theorem runWith_more {s t : Machine × τ} (done : (runWith before fuel).run s = ended .halted r t)
    (more : Nat) : (runWith before (fuel + more)).run s = ended .halted r t := by
  induction fuel generalizing s with
  | zero => exact absurd done.symm ended_ne
  | succ fuel ih =>
    rw [Nat.succ_add]
    rw [runWith_succ] at done ⊢
    cases called : before.run s with
    | error e s => simpa only [called] using done
    | ok u s =>
      simp only [called] at done ⊢
      cases stepped : step.run s.1 with
      | error e n => simpa only [stepped] using done
      | ok outcome n =>
        simp only [stepped] at done ⊢
        cases outcome with
        | halted => exact done
        | running => exact ih done

theorem Completes.unique {s t t' : Machine × τ} (one : Completes (runWith before) s r t)
    (other : Completes (runWith before) s r' t') : r = r' ∧ t = t' := by
  obtain ⟨fuel, done⟩ := one
  obtain ⟨fuel', done'⟩ := other
  have long := runWith_more done fuel'
  have long' := runWith_more done' fuel
  rw [Nat.add_comm] at long'
  exact ended_inj (long.symm.trans long')

theorem Completes.iff {s t : Machine × τ} (one : Completes (runWith before) s r t)
    (r' : Except Fault Unit) (t' : Machine × τ) :
    Completes (runWith before) s r' t' ↔ r' = r ∧ t' = t :=
  ⟨fun other => other.unique one, by rintro ⟨rfl, rfl⟩; exact one⟩

theorem diverges_iff {s : Machine × τ} :
    Diverges (runWith before) s ↔ ∀ r t, ¬ Completes (runWith before) s r t := by
  constructor
  · rintro diverges r t ⟨fuel, done⟩
    obtain ⟨t', exhausted⟩ := diverges fuel
    exact ended_ne (done.symm.trans exhausted)
  · intro never fuel
    cases stopped : (runWith before fuel).run s with
    | error e t => exact absurd ⟨fuel, stopped⟩ (never (.error e) t)
    | ok ending t =>
      cases ending with
      | halted => exact absurd ⟨fuel, stopped⟩ (never (.ok ()) t)
      | exhausted => exact ⟨t, rfl⟩

theorem completes_run_iff : Completes run m r n ↔
    Completes (runWith (pure () : Action (Machine × Unit) Unit)) (m, ()) r (n, ()) := by
  refine exists_congr fun fuel => ?_
  rw [runWith_pure, run_beside]
  cases (run fuel).run m with
  | ok v k => cases r <;> simp [ended]
  | error e k => cases r <;> simp [ended]

theorem diverges_run_iff : Diverges run m ↔
    Diverges (runWith (pure () : Action (Machine × Unit) Unit)) (m, ()) := by
  refine forall_congr' fun fuel => ?_
  rw [runWith_pure, run_beside]
  cases (run fuel).run m <;> simp

/-! Calls that touch nothing. -/

theorem called_append (before : Action (Machine × τ) Unit) (t : τ) (calls later : List Machine) :
    called before t (calls ++ later) = called before (called before t calls) later :=
  List.foldl_append

theorem idle_pure : Idle (pure () : Action (Machine × τ) Unit) := fun _ => rfl

theorem run_before {t : τ} (idle : Idle before) (fine : before.answer (m, t) = .ok ()) :
    before.run (m, t) = .ok () (m, called before t [m]) := by
  rw [run_of_answer_ok fine]
  exact congrArg (EStateM.Result.ok ()) (Prod.ext (idle (m, t)) rfl)

theorem run_before_failed {t : τ} (idle : Idle before) (failed : before.answer (m, t) = .error e) :
    before.run (m, t) = .error e (m, called before t [m]) := by
  rw [run_of_answer_error failed]
  exact congrArg (EStateM.Result.error e) (Prod.ext (idle (m, t)) rfl)

/-- As long as the calls succeed, a watched run takes the same steps. -/
theorem runWith_goesOn (idle : Idle before) (goes : GoesOn m seen n) {t : τ}
    (fine : ∀ calls k, calls.length < seen.length → before.answer (k, called before t calls) = .ok ())
    (fuel : Nat) : (runWith before (seen.length + fuel)).run (m, t) =
      (runWith before fuel).run (n, called before t seen) := by
  induction goes generalizing t with
  | nil => rw [List.length_nil, Nat.zero_add]; rfl
  | @cons m m' seen n stepped _ ih =>
    have first : before.answer (m, t) = .ok () := fine [] m (Nat.zero_lt_succ _)
    rw [List.length_cons, Nat.add_right_comm, runWith_succ, run_before idle first]
    simp only [stepped]
    exact ih fun calls k short => fine (m :: calls) k (Nat.succ_lt_succ short)

theorem runWith_stops {t : τ} (idle : Idle before) (fine : before.answer (m, t) = .ok ())
    (stops : Stops m r n) (fuel : Nat) :
    (runWith before (fuel + 1)).run (m, t) = ended .halted r (n, called before t [m]) := by
  rw [runWith_succ, run_before idle fine]
  unfold Stops at stops
  cases r <;> simp only [stops, ended]

theorem runWith_refused {t : τ} (idle : Idle before) (failed : before.answer (m, t) = .error e)
    (fuel : Nat) : (runWith before (fuel + 1)).run (m, t) = .error e (m, called before t [m]) := by
  rw [runWith_succ, run_before_failed idle failed]

theorem completes_goesOn (idle : Idle before) (goes : GoesOn m seen n) {t : τ}
    (fine : ∀ calls k, calls.length < seen.length → before.answer (k, called before t calls) = .ok ())
    (r : Except Fault Unit) (s : Machine × τ) :
    Completes (runWith before) (m, t) r s ↔
      Completes (runWith before) (n, called before t seen) r s := by
  have passed := runWith_goesOn idle goes fine
  constructor
  · rintro ⟨fuel, done⟩
    have long := runWith_more done seen.length
    rw [Nat.add_comm, passed] at long
    exact ⟨fuel, long⟩
  · rintro ⟨fuel, done⟩
    exact ⟨seen.length + fuel, (passed fuel).trans done⟩

/-- A run that is taken up where an earlier one has come to, ends as that would have ended. -/
theorem completes_run_goesOn (goes : GoesOn m seen n) (r : Except Fault Unit) (k : Machine) :
    Completes run n r k ↔ Completes run m r k := by
  rw [completes_run_iff, completes_run_iff]
  exact (completes_goesOn idle_pure goes (fun _ _ _ => rfl) r (k, ())).symm

theorem diverges_run_goesOn (goes : GoesOn m seen n) : Diverges run n ↔ Diverges run m := by
  rw [diverges_run_iff, diverges_run_iff, diverges_iff, diverges_iff]
  refine forall_congr' fun r => forall_congr' fun s => not_congr ?_
  exact (completes_goesOn idle_pure goes (fun _ _ _ => rfl) r s).symm

theorem completes_run_stops (goes : GoesOn m seen last) (stops : Stops last r final)
    (r' : Except Fault Unit) (k : Machine) : Completes run m r' k ↔ r' = r ∧ k = final := by
  have done : Completes (runWith (pure ())) (m, ()) r (final, ()) :=
    (completes_goesOn idle_pure goes (fun _ _ _ => rfl) r (final, ())).2
      ⟨1, runWith_stops idle_pure rfl stops 0⟩
  rw [completes_run_iff, done.iff]
  simp only [Prod.mk.injEq, and_true]

/-! The log. -/

/-- How a run ends, apart from the log. -/
def Leaves (m : Machine) (r : Except Fault Unit) (cpu : Cpu) (bus : Bus) : Prop :=
  ∃ log, Completes run m r ⟨cpu, bus, log⟩

theorem Leaves.blind {m k : Machine} (cpu : k.cpu = m.cpu) (bus : k.bus = m.bus)
    (leaves : Leaves m r c b) : Leaves k r c b := by
  obtain ⟨log, fuel, done⟩ := leaves
  obtain ⟨answered, left⟩ := run_eq_ended.1 done
  obtain ⟨answer, registers, rest⟩ := (guest_run fuel).blind cpu bus
  refine ⟨((run fuel).after k).log, fuel, run_eq_ended.2 ⟨answer.trans answered, ?_⟩⟩
  rw [left] at registers rest
  generalize (run fuel).after k = final at registers rest ⊢
  obtain ⟨c', b', log'⟩ := final
  cases registers
  cases rest
  rfl

theorem Diverges.blind {m k : Machine} (cpu : k.cpu = m.cpu) (bus : k.bus = m.bus)
    (diverges : Diverges run m) : Diverges run k := by
  intro fuel
  obtain ⟨t, exhausted⟩ := diverges fuel
  obtain ⟨answer, _⟩ := (guest_run fuel).blind cpu bus
  refine ⟨_, run_of_answer_ok (answer.trans ?_)⟩
  rw [Action.answer, exhausted]

/-! Interruptions. -/

/-- A machine takes as many steps as one likes, or stops before. -/
theorem goesOn_or_stops (m : Machine) (n : Nat) :
    (∃ seen last r final, GoesOn m seen last ∧ seen.length < n ∧ Stops last r final) ∨
      ∃ seen last, GoesOn m seen last ∧ seen.length = n := by
  induction n generalizing m with
  | zero => exact .inr ⟨[], m, .nil, rfl⟩
  | succ n ih =>
    cases stepped : step.run m with
    | error e k => exact .inl ⟨[], m, .error e, k, .nil, Nat.zero_lt_succ n, stepped⟩
    | ok outcome k =>
      cases outcome with
      | halted => exact .inl ⟨[], m, .ok (), k, .nil, Nat.zero_lt_succ n, stepped⟩
      | running =>
        obtain ⟨seen, last, r, final, goes, short, stops⟩ | ⟨seen, last, goes, whole⟩ := ih k
        · exact .inl ⟨m :: seen, last, r, final, .cons stepped goes, Nat.succ_lt_succ short, stops⟩
        · exact .inr ⟨m :: seen, last, .cons stepped goes, congrArg (· + 1) whole⟩

theorem completes_of_stops (idle : Idle before) (fails : FailsAfter before t n e)
    (goes : GoesOn m seen last) (short : seen.length < n) (stops : Stops last r final) :
    Completes (runWith before) (m, t) r (final, called before t (seen ++ [last])) := by
  have fine := fun calls k (earlier : calls.length < seen.length) =>
    fails.succeeds calls k (Nat.lt_trans earlier short)
  rw [completes_goesOn idle goes fine, called_append]
  exact ⟨1, runWith_stops idle (fails.succeeds seen last short) stops 0⟩

theorem completes_of_interrupted (idle : Idle before) (fails : FailsAfter before t n e)
    (goes : GoesOn m seen last) (whole : seen.length = n) :
    Completes (runWith before) (m, t) (.error e) (last, called before t (seen ++ [last])) := by
  have fine := fun calls k (earlier : calls.length < seen.length) =>
    fails.succeeds calls k (whole ▸ earlier)
  rw [completes_goesOn idle goes fine, called_append]
  exact ⟨1, runWith_refused idle (fails.fails seen last whole) 0⟩

/-- A run with calls that touch nothing, `n` of which succeed before one fails. If the run itself ends
before that, it ends as it would without the calls. Otherwise it stands where `n` steps have taken it,
and a run from a machine with those registers on that bus ends as the whole run would have ended. Each
step had its one call, with the machine that it was taken on: the caller knows of these calls and of
no others. -/
theorem interrupted_resumed (idle : Idle before) (fails : FailsAfter before t n e) (m : Machine) :
    (∀ seen last r final, GoesOn m seen last → seen.length < n → Stops last r final →
      (∀ r' k, Completes run m r' k ↔ r' = r ∧ k = final) ∧
      ∀ r' s, Completes (runWith before) (m, t) r' s ↔
        r' = r ∧ s = (final, called before t (seen ++ [last]))) ∧
    (∀ seen last, GoesOn m seen last → seen.length = n →
      (∀ r s, Completes (runWith before) (m, t) r s ↔
        r = .error e ∧ s = (last, called before t (seen ++ [last]))) ∧
      ∀ k : Machine, k.cpu = last.cpu → k.bus = last.bus →
        (∀ r cpu bus, Leaves k r cpu bus ↔ Leaves m r cpu bus) ∧
        (Diverges run k ↔ Diverges run m)) ∧
    ((∃ seen last r final, GoesOn m seen last ∧ seen.length < n ∧ Stops last r final) ∨
      ∃ seen last, GoesOn m seen last ∧ seen.length = n) ∧
    (m.cpu.halted = true → ∀ r s, Completes (runWith before) (m, t) r s ↔
      r = (if n = 0 then .error e else .ok ()) ∧ s = (m, called before t [m])) := by
  refine ⟨fun seen last r final goes short stops => ⟨fun r' k => ?_, ?_⟩,
    fun seen last goes whole => ⟨?_, fun k cpu bus => ⟨fun r c b => ?_, ?_⟩⟩,
    goesOn_or_stops m n, fun halted => ?_⟩
  · exact completes_run_stops goes stops r' k
  · exact (completes_of_stops idle fails goes short stops).iff
  · exact (completes_of_interrupted idle fails goes whole).iff
  · constructor
    · intro leaves
      obtain ⟨log, done⟩ := leaves.blind cpu.symm bus.symm
      exact ⟨log, (completes_run_goesOn goes _ _).1 done⟩
    · rintro ⟨log, done⟩
      have leaves : Leaves last r c b := ⟨log, (completes_run_goesOn goes _ _).2 done⟩
      exact leaves.blind cpu bus
  · rw [← diverges_run_goesOn goes]
    exact ⟨Diverges.blind cpu.symm bus.symm, Diverges.blind cpu bus⟩
  · by_cases none : n = 0
    · rw [if_pos none]
      exact (completes_of_interrupted idle fails .nil none.symm).iff
    · rw [if_neg none]
      have stops : Stops m (.ok ()) m := step_of_halted halted
      exact (completes_of_stops idle fails .nil (Nat.pos_of_ne_zero none) stops).iff

/-- Keeps a record of the machines that it is called with, and fails after `n` calls. -/
def recording (n : Nat) (e : Fault) : Action (Machine × List Machine) Unit := .of fun (m, calls) =>
  if calls.length < n then .ok () (m, calls ++ [m]) else .error e (m, calls ++ [m])

theorem recording_after (n : Nat) (e : Fault) (m : Machine) (calls : List Machine) :
    (recording n e).after (m, calls) = (m, calls ++ [m]) := by
  simp only [after, recording, run_of]
  by_cases short : calls.length < n <;> simp only [short, ↓reduceIte]

theorem recording_idle (n : Nat) (e : Fault) : Idle (recording n e) := by
  rintro ⟨m, calls⟩
  rw [recording_after]

theorem called_recording (n : Nat) (e : Fault) (seen calls : List Machine) :
    called (recording n e) seen calls = seen ++ calls := by
  induction calls generalizing seen with
  | nil => exact (List.append_nil seen).symm
  | cons m calls ih =>
    have once : called (recording n e) seen [m] = seen ++ [m] :=
      congrArg Prod.snd (recording_after n e m seen)
    rw [List.append_cons, ← ih, ← once]
    rfl

theorem recording_fails (n : Nat) (e : Fault) : FailsAfter (recording n e) [] n e where
  succeeds calls m short := by
    rw [called_recording, List.nil_append, answer, recording, run_of]
    simp only [short, ↓reduceIte]
  fails calls m whole := by
    have long : ¬ calls.length < n := by omega
    rw [called_recording, List.nil_append, answer, recording, run_of]
    simp only [long, ↓reduceIte]

/-- Two bits set in the accumulator and a stop: cut off after the first and taken up again, or left to
stop, with a record of the calls in either case. -/
theorem interrupted_resumed_counting :
    let m := holding [0x09, 0x01, 0x09, 0x02, 0x00]
    let e := Fault.unmapped 0xDEAD
    (m.afterSteps 1).cpu.a = 1 ∧ (m.afterSteps 3).cpu.a = 3 ∧ (m.afterSteps 3).cpu.halted = true ∧
    (∀ r s, Completes (runWith (recording 1 e)) (m, []) r s ↔
      r = .error e ∧ s = (m.afterSteps 1, [m, m.afterSteps 1])) ∧
    (∀ r cpu bus, Leaves (m.afterSteps 1) r cpu bus ↔ Leaves m r cpu bus) ∧
    (∀ r k, Completes run m r k ↔ r = .ok () ∧ k = m.afterSteps 3) ∧
    ∀ r s, Completes (runWith (recording 5 e)) (m, []) r s ↔
      r = .ok () ∧ s = (m.afterSteps 3, [m, m.afterSteps 1, m.afterSteps 2]) := by
  intro m e
  obtain ⟨first, second, third⟩ : step.answer m = .ok .running ∧
      step.answer (m.afterSteps 1) = .ok .running ∧ step.answer (m.afterSteps 2) = .ok .halted := by
    decide +kernel
  have one : GoesOn m [m] (m.afterSteps 1) := .cons (run_of_answer_ok first) .nil
  have two : GoesOn m [m, m.afterSteps 1] (m.afterSteps 2) :=
    .cons (run_of_answer_ok first) (.cons (run_of_answer_ok second) .nil)
  have stops : Stops (m.afterSteps 2) (.ok ()) (m.afterSteps 3) := run_of_answer_ok third
  obtain ⟨_, cut, _⟩ := interrupted_resumed (recording_idle 1 e) (recording_fails 1 e) m
  obtain ⟨whole, _⟩ := interrupted_resumed (recording_idle 5 e) (recording_fails 5 e) m
  obtain ⟨interrupted, resumed⟩ := cut _ _ one rfl
  obtain ⟨runs, watched⟩ := whole _ _ _ _ two (by simp) stops
  rw [called_recording] at interrupted watched
  exact ⟨by decide +kernel, by decide +kernel, by decide +kernel, interrupted,
    (resumed _ rfl rfl).1, runs, watched⟩

end Nes.Machine
