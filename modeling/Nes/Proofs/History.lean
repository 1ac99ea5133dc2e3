import Nes.Proofs.Action

/-! Histories: actions carried out one after the other, whether or not they fault, with what each
of them answers. If some of the actions learn of the state only through a view that the others
leave alone, they go on as if the others had never been there. -/
namespace Nes.Action

variable {ι : Type} {Answer : ι → Type}

/-- A request with its answer. -/
abbrev Answered (Answer : ι → Type) : Type := (i : ι) × Except Fault (Answer i)

variable (act : (i : ι) → Action σ (Answer i))

/-- The state after a history. -/
def finalState (s : σ) (history : List ι) : σ := history.foldl (fun s i => (act i).after s) s

/-- What the requests of a history answer, in order. -/
def answers (s : σ) : (history : List ι) → List (Answered Answer)
  | [] => []
  | i :: rest => ⟨i, (act i).answer s⟩ :: answers ((act i).after s) rest

theorem length_answers (s : σ) (history : List ι) :
    (answers act s history).length = history.length := by
  induction history generalizing s with
  | nil => rfl
  | cons i rest ih => exact congrArg (· + 1) (ih _)

theorem finalState_append (s : σ) (history later : List ι) :
    finalState act s (history ++ later) = finalState act (finalState act s history) later :=
  List.foldl_append

theorem answers_append (s : σ) (history later : List ι) :
    answers act s (history ++ later) =
      answers act s history ++ answers act (finalState act s history) later := by
  induction history generalizing s with
  | nil => rfl
  | cons i rest ih => exact congrArg (_ :: ·) (ih _)

/-- What is kept of a list, by what is kept of its first element. -/
theorem filterMap_cons_toList (kept : β → Option γ) (first : β) (rest : List β) :
    (first :: rest).filterMap kept = (kept first).toList ++ rest.filterMap kept := by
  cases keep : kept first with
  | none => rw [List.filterMap_cons_none keep, Option.toList_none, List.nil_append]
  | some v => rw [List.filterMap_cons_some keep, Option.toList_some, List.singleton_append]

/-- The kept requests see the state through a view: what others do cannot be seen through it, and
where it is the same, a kept request lets the same be learned and leaves the same to be seen. -/
structure Unwinds (view : σ → ω) (kept : ι → Bool) (learned : Answered Answer → β) : Prop where
  others : ∀ {i} s, kept i = false → view ((act i).after s) = view s
  after : ∀ {i s t}, kept i = true → view s = view t →
    view ((act i).after s) = view ((act i).after t)
  answer : ∀ {i s t}, kept i = true → view s = view t →
    learned ⟨i, (act i).answer s⟩ = learned ⟨i, (act i).answer t⟩

namespace Unwinds

variable {act : (i : ι) → Action σ (Answer i)} {view : σ → ω} {kept : ι → Bool}
  {learned : Answered Answer → β}

theorem finalState_filter (unwinds : Unwinds act view kept learned) (same : view s = view t)
    (history : List ι) : view (finalState act s history) = view (finalState act t (history.filter kept)) := by
  induction history generalizing s t with
  | nil => exact same
  | cons i rest ih =>
    cases keep : kept i with
    | false =>
      rw [List.filter_cons_of_neg (by simp [keep])]
      exact ih ((unwinds.others s keep).trans same)
    | true =>
      rw [List.filter_cons_of_pos keep]
      exact ih (unwinds.after keep same)

theorem answers_filter (unwinds : Unwinds act view kept learned) (same : view s = view t)
    (history : List ι) :
    ((answers act s history).filter (kept ·.1)).map learned =
      (answers act t (history.filter kept)).map learned := by
  induction history generalizing s t with
  | nil => rfl
  | cons i rest ih =>
    cases keep : kept i with
    | false =>
      rw [answers, List.filter_cons_of_neg (by simp [keep]), List.filter_cons_of_neg (by simp [keep])]
      exact ih ((unwinds.others s keep).trans same)
    | true =>
      rw [answers, List.filter_cons_of_pos (by exact keep), List.filter_cons_of_pos keep, answers,
        List.map_cons, List.map_cons, unwinds.answer keep same, ih (unwinds.after keep same)]

end Unwinds

end Nes.Action
