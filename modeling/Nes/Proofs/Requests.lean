import Nes.Proofs.Operand

/-! What the search for an operand asks a reader for, and in what order. Any reader will do: it may
fail, and what it answers may depend on all that it was asked before. A search is laid out as a tree
of requests with a branch for every answer, so that how it goes is shown for all trees at once. -/
namespace Nes

open Nes.Action

/-- A computation that asks for bytes, by the requests that it makes and what it does with the
answers. -/
inductive Inquiry (α : Type) where
  | done (v : α)
  | fault (e : Fault)
  | ask (a : Address) (next : Byte → Inquiry α)

namespace Inquiry

def bind : Inquiry α → (α → Inquiry β) → Inquiry β
  | done v, f => f v
  | fault e, _ => fault e
  | ask a next, f => ask a fun v => (next v).bind f

def handle : Inquiry α → (Fault → Inquiry α) → Inquiry α
  | done v, _ => done v
  | fault e, f => f e
  | ask a next, f => ask a fun v => (next v).handle f

instance : Monad Inquiry where
  pure := done
  bind := bind

instance : MonadExceptOf Fault Inquiry where
  throw := fault
  tryCatch := handle

/-- The computation with a reader to ask. -/
def run (read : Address → Action σ Byte) : Inquiry α → Action σ α
  | done v => pure v
  | fault e => throw e
  | ask a next => do (next (← read a)).run read

/-- The requests that are made when the first of them are answered with given bytes. The last one
is not answered yet, unless the computation is at its end. -/
def requests : Inquiry α → (heard : List Byte) → List Address
  | ask a _, [] => [a]
  | ask a next, v :: heard => a :: (next v).requests heard
  | done _, _ | fault _, _ => []

/-- What comes of the computation, if it is at its end when given bytes have been heard. -/
def outcome? : Inquiry α → (heard : List Byte) → Option (Except Fault α)
  | done v, [] => some (.ok v)
  | fault e, [] => some (.error e)
  | ask _ next, v :: heard => (next v).outcome? heard
  | done _, _ :: _ | fault _, _ :: _ | ask _ _, [] => none

theorem run_bind (read : Address → Action σ Byte) (i : Inquiry α) (f : α → Inquiry β) :
    (i >>= f).run read = i.run read >>= fun v => (f v).run read := by
  induction i with
  | done v => rfl
  | fault e => rfl
  | ask a next ih =>
    change (read a >>= fun v => (next v >>= f).run read) = _
    simp only [ih]
    exact (bind_assoc (read a) _ _).symm

end Inquiry

/-- The search for an operand as a tree of requests. -/
def Mode.inquiry (mode : Mode) (pc : Address) (x y : Byte) : Inquiry Address :=
  mode.resolve pc x y (Inquiry.ask · .done)

theorem Mode.run_inquiry (mode : Mode) (pc : Address) (x y : Byte) (read : Address → Action σ Byte) :
    (mode.inquiry pc x y).run read = mode.resolve pc x y read := by
  refine mode.resolve_related (fun (i : Inquiry _) act => i.run read = act) pc x y (fun _ => rfl) ?_
    (fun _ => rfl) fun a => bind_pure (read a)
  rintro α β i _ next next' rfl rest
  rw [Inquiry.run_bind, funext rest]

/-- A reader that keeps a list of all that it is asked for, whether it can answer or not. -/
def recording (read : Address → Action σ Byte) (a : Address) : Action (σ × List Address) Byte :=
  .of fun (s, asked) =>
    match (read a).run s with
    | .ok v t => .ok v (t, asked ++ [a])
    | .error e t => .error e (t, asked ++ [a])

section

variable {read : Address → Action σ Byte}

theorem recording_ok (h : (read a).run s = .ok v t) (asked : List Address) :
    (recording read a).run (s, asked) = .ok v (t, asked ++ [a]) := by
  simp only [recording, run_of, h]

theorem recording_error (h : (read a).run s = .error e t) (asked : List Address) :
    (recording read a).run (s, asked) = .error e (t, asked ++ [a]) := by
  simp only [recording, run_of, h]

/-- Requests that a reader answers in turn, each with its answer. -/
inductive Heard (read : Address → Action σ Byte) : σ → List (Address × Byte) → σ → Prop
  | nil : Heard read s [] s
  | cons : (read a).run s = .ok v s' → Heard read s' rest t → Heard read s ((a, v) :: rest) t

namespace Inquiry

/-- A computation whose requests are answered comes to its end. -/
theorem run_of_heard {i : Inquiry α} (heard : Heard read s ((i.requests bytes).zip bytes) t)
    (ended : i.outcome? bytes = some r) : (i.run read).run s = (ofExcept r : Action σ α).run t := by
  induction i generalizing s bytes with
  | done v =>
    cases bytes with
    | nil => cases heard; cases ended; rfl
    | cons v bytes => cases ended
  | fault e =>
    cases bytes with
    | nil => cases heard; cases ended; rfl
    | cons v bytes => cases ended
  | ask a next ih =>
    cases bytes with
    | nil => cases ended
    | cons v bytes =>
      cases heard with
      | cons answered rest =>
        simp only [run, EStateM.run_bind, answered]
        exact ih v rest ended

/-- All requests are answered until the computation is at its end, or one of them fails and is the
last. -/
theorem run_recording (i : Inquiry α) (read : Address → Action σ Byte) (s : σ)
    (asked : List Address) :
    ∃ bytes t, Heard read s ((i.requests bytes).zip bytes) t ∧
      ((∃ r, i.outcome? bytes = some r ∧ (i.run (recording read)).run (s, asked) =
          (ofExcept r : Action _ α).run (t, asked ++ i.requests bytes)) ∨
        ∃ a e u, (i.requests bytes)[bytes.length]? = some a ∧ (read a).run t = .error e u ∧
          (i.run (recording read)).run (s, asked) = .error e (u, asked ++ i.requests bytes)) := by
  induction i generalizing s asked with
  | done v => exact ⟨[], s, .nil, .inl ⟨.ok v, rfl, by rw [requests, List.append_nil]; rfl⟩⟩
  | fault e => exact ⟨[], s, .nil, .inl ⟨.error e, rfl, by rw [requests, List.append_nil]; rfl⟩⟩
  | ask a next ih =>
    simp only [run, EStateM.run_bind]
    cases answered : (read a).run s with
    | error e u =>
      refine ⟨[], s, .nil, .inr ⟨a, e, u, rfl, answered, ?_⟩⟩
      rw [recording_error answered]
      rfl
    | ok v s' =>
      obtain ⟨bytes, t, heard, rest⟩ := ih v s' (asked ++ [a])
      rw [recording_ok answered]
      have all : asked ++ (ask a next).requests (v :: bytes) =
          asked ++ [a] ++ (next v).requests bytes := List.append_cons _ _ _
      refine ⟨v :: bytes, t, .cons answered heard, ?_⟩
      rw [all]
      exact rest

/-- What a computation asked for on the way to its value was answered. -/
theorem heard_of_recording {i : Inquiry α}
    (h : (i.run (recording read)).run (s, []) = .ok v (t, asked)) :
    ∃ bytes, asked = i.requests bytes ∧ i.outcome? bytes = some (.ok v) ∧
      Heard read s (asked.zip bytes) t := by
  obtain ⟨bytes, u, heard, ends⟩ := i.run_recording read s []
  obtain ⟨r, ended, result⟩ | ⟨a, e, u', _, _, result⟩ := ends
  · rw [h, List.nil_append] at result
    cases r with
    | ok w => cases result; exact ⟨bytes, rfl, ended, heard⟩
    | error e => cases result
  · cases h.symm.trans result

end Inquiry

end

/-! The search, mode by mode. -/

/-- What the search asks for, once the bytes are known that its first requests are answered with. -/
def Mode.requests (mode : Mode) (pc : Address) (x : Byte) (heard : List Byte) : List Address :=
  let first := heard.getD 0 0
  let pointer := word first (heard.getD 1 0)
  match mode with
  | immediate | accumulator | implied => []
  | zeroPage | zeroPageX | zeroPageY | relative => [pc]
  | absolute | absoluteX | absoluteY => [pc, pc + 1]
  | indirect => [pc, pc + 1, pointer, pointer / 256 * 256 + (pointer % 256 + 1) % 256]
  | indirectX => [pc, (first + x).toUInt16, (first + x + 1).toUInt16]
  | indirectY => [pc, first.toUInt16, (first + 1).toUInt16]

/-- What the search makes of the answers. -/
def Mode.target (mode : Mode) (pc : Address) (x y : Byte) (heard : List Byte) :
    Except Fault Address :=
  let byte := fun i => heard.getD i 0
  match mode with
  | immediate => .ok pc
  | zeroPage => .ok (byte 0).toUInt16
  | zeroPageX => .ok (byte 0 + x).toUInt16
  | zeroPageY => .ok (byte 0 + y).toUInt16
  | absolute => .ok (word (byte 0) (byte 1))
  | absoluteX => .ok (word (byte 0) (byte 1) + x.toUInt16)
  | absoluteY => .ok (word (byte 0) (byte 1) + y.toUInt16)
  | indirect => .ok (word (byte 2) (byte 3))
  | indirectX => .ok (word (byte 1) (byte 2))
  | indirectY => .ok (word (byte 1) (byte 2) + y.toUInt16)
  | relative => .ok (pc + 1 + UInt16.ofInt (byte 0).toInt8.toInt)
  | accumulator | implied => .error (.noOperand mode)

theorem zip_take (l : List α) (bytes : List β) :
    (l.take (bytes.length + 1)).zip bytes = l.zip bytes := by
  induction l generalizing bytes with
  | nil => rfl
  | cons a l ih =>
    cases bytes with
    | nil => rfl
    | cons v bytes => exact congrArg ((a, v) :: ·) (ih bytes)

theorem toUInt16_le_page (b : Byte) : b.toUInt16 ≤ 0xFF := by
  rw [UInt16.le_iff_toNat_le, UInt8.toNat_toUInt16]
  exact Nat.le_of_lt_succ b.toNat_lt

/-- How a search goes: all that it asks for is answered, or a request fails and is the last. -/
inductive Searched (mode : Mode) (pc : Address) (x y : Byte) (read : Address → Action σ Byte)
    (s : σ) : EStateM.Result Fault (σ × List Address) Address → Prop
  | answered : Heard read s ((mode.requests pc x bytes).zip bytes) t →
      bytes.length = (mode.requests pc x bytes).length →
      Searched mode pc x y read s
        ((ofExcept (mode.target pc x y bytes) : Action _ Address).run (t, mode.requests pc x bytes))
  | failed : Heard read s ((mode.requests pc x bytes).zip bytes) t →
      (mode.requests pc x bytes)[bytes.length]? = some a → (read a).run t = .error e u →
      Searched mode pc x y read s (.error e (u, (mode.requests pc x bytes).take (bytes.length + 1)))

theorem nextInPage_eq (a : Address) : nextInPage a = a / 256 * 256 + (a % 256 + 1) % 256 := by
  have bound := a.toNat_lt
  have page : (256 : Address).toNat = 256 := rfl
  have one : (1 : Address).toNat = 1 := rfl
  apply UInt16.toNat_inj.1
  rw [nextInPage, toNat_word, UInt8.toNat_add, toNat_low, toNat_high]
  simp only [UInt16.toNat_add, UInt16.toNat_mul, UInt16.toNat_div, UInt16.toNat_mod, page, one]
  change 256 * (a.toNat / 256) + (a.toNat % 256 + 1) % 256 = _
  omega

/-- The requests of the tree are those of the list, up to the one that is not answered yet. -/
theorem Mode.requests_inquiry (mode : Mode) (pc : Address) (x y : Byte) (heard : List Byte) :
    (mode.inquiry pc x y).requests heard = (mode.requests pc x heard).take (heard.length + 1) := by
  -- No mode makes more than four requests.
  obtain _ | ⟨b₀, _ | ⟨b₁, _ | ⟨b₂, _ | ⟨b₃, heard⟩⟩⟩⟩ := heard
  all_goals
    cases mode with
    | indirect => simp only [requests, ← nextInPage_eq]; rfl
    | _ => rfl

theorem Mode.outcome_inquiry (mode : Mode) {pc : Address} {x y : Byte} {heard : List Byte}
    (ended : (mode.inquiry pc x y).outcome? heard = some r) :
    heard.length = (mode.requests pc x heard).length ∧ r = mode.target pc x y heard := by
  obtain _ | ⟨b₀, _ | ⟨b₁, _ | ⟨b₂, _ | ⟨b₃, _ | ⟨b₄, heard⟩⟩⟩⟩⟩ := heard
  all_goals
    cases mode with
    | relative =>
      simp only [target, ← displacement_eq_ofInt]
      cases ended <;> exact ⟨rfl, rfl⟩
    | _ => cases ended <;> exact ⟨rfl, rfl⟩

/-- The result without the list. -/
def unlisted : EStateM.Result Fault (σ × List Address) α → EStateM.Result Fault σ α
  | .ok v (s, _) => .ok v s
  | .error e (s, _) => .error e s

/-- The one action does what the other does, and keeps a list as well. -/
def Lists (act : Action (σ × List Address) α) (act' : Action σ α) : Prop :=
  ∀ s asked, act'.run s = unlisted (act.run (s, asked))

theorem Lists.bind {act : Action (σ × List Address) α} {next : α → Action (σ × List Address) β}
    {next' : α → Action σ β} (first : Lists act act') (rest : ∀ v, Lists (next v) (next' v)) :
    Lists (act >>= next) (act' >>= next') := by
  intro s asked
  rw [EStateM.run_bind, EStateM.run_bind, first s asked]
  cases act.run (s, asked) with
  | ok v t => exact rest v t.1 t.2
  | error e t => rfl

theorem recording_lists (read : Address → Action σ Byte) (a : Address) :
    Lists (recording read a) (read a) := by
  intro s asked
  cases answered : (read a).run s with
  | ok v t => rw [recording_ok answered]; rfl
  | error e t => rw [recording_error answered]; rfl

/-- The search for an operand asks for the bytes that its mode calls for, in that order, and for
nothing more. It goes on while it is answered, and it is the same search whether or not a list is
kept. A pointer in the zero page is read there. -/
theorem Mode.resolve_requests (mode : Mode) (pc : Address) (x y : Byte)
    (read : Address → Action σ Byte) (s : σ) :
    Searched mode pc x y read s ((mode.resolve pc x y (recording read)).run (s, [])) ∧
    (mode.resolve pc x y read).run s =
      unlisted ((mode.resolve pc x y (recording read)).run (s, [])) ∧
    (mode = .indirectX ∨ mode = .indirectY → ∀ heard, ∀ a ∈ (mode.requests pc x heard).tail,
      a ≤ 0xFF) := by
  refine ⟨?_, ?_, ?_⟩
  · obtain ⟨bytes, t, heard, ends⟩ := (mode.inquiry pc x y).run_recording read s []
    simp only [run_inquiry, requests_inquiry, List.nil_append] at heard ends
    rw [zip_take] at heard
    obtain ⟨r, ended, result⟩ | ⟨a, e, u, last, refused, result⟩ := ends
    · obtain ⟨complete, rfl⟩ := mode.outcome_inquiry ended
      rw [List.take_of_length_le (by omega)] at result
      rw [result]
      exact .answered heard complete
    · rw [List.getElem?_take_of_lt (Nat.lt_succ_self _)] at last
      rw [result]
      exact .failed heard last refused
  · exact mode.resolve_related Lists pc x y (fun _ _ _ => rfl) Lists.bind (fun _ _ _ => rfl)
      (recording_lists read) s []
  · intro pointer heard a member
    obtain rfl | rfl := pointer
    all_goals
      simp only [requests, List.tail_cons, List.mem_cons, List.not_mem_nil, or_false] at member
      obtain rfl | rfl := member
      all_goals exact toUInt16_le_page _

/-- Where every address answers its own low byte: a pointer at the end of the zero page goes on at its
start. -/
theorem Mode.resolve_requests_wrapping :
    let read : Address → Action Unit Byte := fun a => pure (low a)
    (Mode.resolve .indirectY 0x80FF 0 1 (recording read)).run ((), []) =
      .ok 0x0100 ((), [0x80FF, 0x00FF, 0x0000]) ∧
    Searched .indirectY 0x80FF 0 1 read () (.ok 0x0100 ((), [0x80FF, 0x00FF, 0x0000])) ∧
    ∀ a ∈ [(0x00FF : Address), 0x0000], a ≤ 0xFF := by
  intro read
  have ended : (Mode.resolve .indirectY 0x80FF 0 1 (recording read)).run ((), []) =
      .ok 0x0100 ((), [0x80FF, 0x00FF, 0x0000]) := rfl
  obtain ⟨searched, -, within⟩ := Mode.resolve_requests .indirectY 0x80FF 0 1 read ()
  rw [ended] at searched
  exact ⟨ended, searched, within (.inr rfl) [0xFF, 0xFF, 0x00]⟩

end Nes
