import Nes.Fault

/-! Rules for actions: how a sequence can have come to its end, along which relation
every run moves the state, and when two runs cannot be told apart. The state at a
fault is kept, so each rule speaks of it as it does of the state at the end. -/
namespace Nes.Action

open EStateM (Result)

deriving instance DecidableEq for Except

/-- The state that an action leaves behind, with or without a fault. -/
def after (act : Action σ α) (s : σ) : σ :=
  match act.run s with
  | .ok _ t | .error _ t => t

/-- What an action answers, apart from the state. -/
def answer (act : Action σ α) (s : σ) : Except Fault α :=
  match act.run s with
  | .ok v _ => .ok v
  | .error e _ => .error e

variable {act : Action σ α} {next : α → Action σ β} {R : σ → σ → Prop}

theorem after_ok (h : act.run s = .ok v t) : act.after s = t := by
  simp only [after, h]

theorem after_error (h : act.run s = .error e t) : act.after s = t := by
  simp only [after, h]

theorem run_of_answer_ok (h : act.answer s = .ok v) : act.run s = .ok v (act.after s) := by
  unfold answer at h
  unfold after
  cases result : act.run s <;> rw [result] at h <;> cases h
  rfl

theorem run_of_answer_error (h : act.answer s = .error e) : act.run s = .error e (act.after s) := by
  unfold answer at h
  unfold after
  cases result : act.run s <;> rw [result] at h <;> cases h
  rfl

theorem run_bind_ok : (act >>= next).run s = .ok v t ↔
    ∃ u r, act.run s = .ok u r ∧ (next u).run r = .ok v t := by
  rw [EStateM.run_bind]
  cases act.run s with
  | ok u r => exact ⟨fun h => ⟨u, r, rfl, h⟩, by rintro ⟨_, _, ⟨⟩, h⟩; exact h⟩
  | error e r => exact ⟨nofun, by rintro ⟨_, _, ⟨⟩, _⟩⟩

theorem run_bind_error : (act >>= next).run s = .error e t ↔
    act.run s = .error e t ∨ ∃ u r, act.run s = .ok u r ∧ (next u).run r = .error e t := by
  rw [EStateM.run_bind]
  cases act.run s with
  | ok u r => exact ⟨fun h => .inr ⟨u, r, rfl, h⟩, by rintro (⟨⟨⟩⟩ | ⟨_, _, ⟨⟩, h⟩); exact h⟩
  | error e r => exact ⟨by rintro ⟨⟩; exact .inl rfl, by rintro (⟨⟨⟩⟩ | ⟨_, _, ⟨⟩, _⟩); rfl⟩

theorem bind_of_answer_ok (h : act.answer s = .ok v) :
    (act >>= next).answer s = (next v).answer (act.after s) ∧
      (act >>= next).after s = (next v).after (act.after s) := by
  cases first : act.run s with
  | ok u t =>
    simp only [answer, first] at h
    cases h
    simp only [answer, after, EStateM.run_bind, first, and_self]
  | error e t =>
    simp only [answer, first] at h
    cases h

theorem bind_of_answer_error (h : act.answer s = .error e) :
    (act >>= next).answer s = .error e ∧ (act >>= next).after s = act.after s := by
  cases first : act.run s with
  | ok u t =>
    simp only [answer, first] at h
    cases h
  | error e' t =>
    simp only [answer, first] at h
    cases h
    simp only [answer, after, EStateM.run_bind, first, and_self]

theorem focus_answer (split : σ → τ × (τ → σ)) (act : Action τ α) (s : σ) :
    (focus split act).answer s = act.answer (split s).1 := by
  simp only [answer, run_focus]
  cases act.run (split s).1 <;> rfl

theorem focus_after (split : σ → τ × (τ → σ)) (act : Action τ α) (s : σ) :
    (focus split act).after s = (split s).2 (act.after (split s).1) := by
  simp only [after, run_focus]
  cases act.run (split s).1 <;> rfl

/-- Every run of an action takes the state along a relation. -/
def Moves (R : σ → σ → Prop) (act : Action σ α) : Prop := ∀ s, R s (act.after s)

theorem Moves.ok (moves : Moves R act) (h : act.run s = .ok v t) : R s t := by
  simpa only [after_ok h] using moves s

theorem Moves.error (moves : Moves R act) (h : act.run s = .error e t) : R s t := by
  simpa only [after_error h] using moves s

/-- Enough for an action whose faults change nothing. -/
theorem Moves.of_ok (refl : ∀ s, R s s)
    (harmless : ∀ {s e t}, act.run s = .error e t → t = s)
    (moved : ∀ {s v t}, act.run s = .ok v t → R s t) : Moves R act := by
  intro s
  cases h : act.run s with
  | ok v t => simpa only [after_ok h] using moved h
  | error e t => simpa only [after_error h, harmless h] using refl s

theorem moves_pure (refl : ∀ s, R s s) (v : α) : Moves R (pure v) := refl

theorem moves_throw (refl : ∀ s, R s s) (e : Fault) : Moves R (throw e : Action σ α) := refl

theorem Moves.bind (trans : ∀ {r s t}, R r s → R s t → R r t)
    (first : Moves R act) (rest : ∀ v, Moves R (next v)) : Moves R (act >>= next) := by
  intro s
  cases h : act.run s with
  | ok v t =>
    have last : (act >>= next).after s = (next v).after t := by
      simp only [after, EStateM.run_bind, h]
    rw [last]
    exact trans (first.ok h) (rest v t)
  | error e t =>
    have last : (act >>= next).after s = t := by simp only [after, EStateM.run_bind, h]
    rw [last]
    exact first.error h

/-- Two results with the same answer, whose states are related. -/
inductive Matches (R : σ → σ → Prop) : Result Fault σ α → Result Fault σ α → Prop
  | ok : R s t → Matches R (.ok v s) (.ok v t)
  | error : R s t → Matches R (.error e s) (.error e t)

/-- Related states cannot be told apart by an action: it answers the same on both, and
leaves related states behind. -/
def Respects (R : σ → σ → Prop) (act : Action σ α) : Prop :=
  ∀ s t, R s t → Matches R (act.run s) (act.run t)

theorem Matches.answer (same : Matches R (act.run s) (act.run t)) :
    act.answer s = act.answer t := by
  unfold Action.answer
  generalize act.run s = p, act.run t = q at same
  cases same <;> rfl

theorem Matches.after (same : Matches R (act.run s) (act.run t)) :
    R (act.after s) (act.after t) := by
  unfold Action.after
  generalize act.run s = p, act.run t = q at same
  cases same <;> assumption

theorem respects_pure (v : α) : Respects R (pure v) := fun _ _ related => .ok related

theorem respects_throw (e : Fault) : Respects R (throw e : Action σ α) :=
  fun _ _ related => .error related

theorem Matches.bind (first : Matches R (act.run s) (act.run t))
    (rest : ∀ {v s' t'}, act.run s = .ok v s' → R s' t' →
      Matches R ((next v).run s') ((next v).run t')) :
    Matches R ((act >>= next).run s) ((act >>= next).run t) := by
  rw [EStateM.run_bind, EStateM.run_bind]
  generalize reached : act.run s = p, act.run t = q at first
  cases first with
  | ok related => exact rest reached related
  | error related => exact .error related

theorem Respects.bind (first : Respects R act) (rest : ∀ v, Respects R (next v)) :
    Respects R (act >>= next) :=
  fun s t related => (first s t related).bind fun _ => rest _ _ _

end Nes.Action
