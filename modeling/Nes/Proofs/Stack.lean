import Nes.Proofs.Execution
import Nes.Proofs.History

/-! The stack page as a stack. A byte lies in the cell that the stack pointer selected when it was
pushed, and the page takes 256 of them before a push meets one; until then pushes and pulls of
bytes and words do what they do to a list of bytes, wherever in the page the pointer started. -/
namespace Nes

open Nes.Action

/-- The cell of the stack page that a stack pointer selects. -/
def stackCell (sp : Byte) : WorkRam.Cell := WorkRam.cellOf (0x0100 + sp.toUInt16)

theorem stackCell_val (sp : Byte) : (stackCell sp).val = 256 + sp.toNat := by
  have := sp.toNat_lt
  have top : (0x0100 + sp.toUInt16).toNat = 256 + sp.toNat := Cpu.toNat_stackTop { sp }
  simp only [stackCell, WorkRam.cellOf, top]
  omega

theorem stackCell_inj {p q : Byte} : stackCell p = stackCell q ↔ p = q := by
  refine ⟨fun same => ?_, fun same => same ▸ rfl⟩
  have values := congrArg Fin.val same
  rw [stackCell_val, stackCell_val] at values
  exact UInt8.toNat_inj.1 (by omega)

theorem pointer_apart (s : Byte) (shallow : k < depth) (room : depth < 256) :
    s - UInt8.ofNat k ≠ s - UInt8.ofNat depth := by
  intro same
  have := s.toNat_lt
  have values := congrArg UInt8.toNat same
  simp only [UInt8.toNat_sub, UInt8.toNat_ofNat'] at values
  omega

theorem pointer_succ (s : Byte) (depth : Nat) :
    s - UInt8.ofNat (depth + 1) = s - UInt8.ofNat depth - 1 := by
  rw [UInt8.ofNat_add]
  grind

namespace Machine

/-- What is asked of the stack. -/
inductive StackCall where
  | push (v : Byte)
  | pushWord (v : Address)
  | pull
  | pullWord

namespace StackCall

abbrev Answer : StackCall → Type
  | pull => Byte
  | pullWord => Address
  | push _ | pushWord _ => Unit

def act : (c : StackCall) → Action Machine c.Answer
  | push v => Machine.push v
  | pushWord v => Machine.pushWord v
  | pull => Machine.pull
  | pullWord => Machine.pullWord

/-- What a call answers from a stack of bytes, its top first, and what it leaves there; nothing, if
it wants more than there is or if more than 256 would lie there. The high byte of a word goes
first. -/
def onBytes? : (c : StackCall) → List Byte → Option (c.Answer × List Byte)
  | push v, stack => if stack.length + 1 ≤ 256 then some ((), v :: stack) else none
  | pushWord v, stack =>
    if stack.length + 2 ≤ 256 then some ((), low v :: high v :: stack) else none
  | pull, v :: stack => some (v, stack)
  | pullWord, lo :: hi :: stack => some (word lo hi, stack)
  | pull, [] | pullWord, [] | pullWord, [_] => none

/-- What the calls of a sequence answer, and what they leave. -/
def allOnBytes? (stack : List Byte) :
    (calls : List StackCall) → Option (List (Answered Answer) × List Byte)
  | [] => some ([], stack)
  | c :: rest => do
    let (v, stack) ← c.onBytes? stack
    let (replies, stack) ← allOnBytes? stack rest
    return (⟨c, .ok v⟩ :: replies, stack)

theorem allOnBytes?_cons (h : allOnBytes? stack (c :: rest) = some (replies, final)) :
    ∃ v next later, c.onBytes? stack = some (v, next) ∧ allOnBytes? next rest = some (later, final) ∧
      replies = ⟨c, .ok v⟩ :: later := by
  simp only [allOnBytes?, Option.bind_eq_bind, Option.bind_eq_some_iff, Prod.exists, Option.pure_def,
    Option.some.injEq, Prod.mk.injEq] at h
  obtain ⟨v, next, called, later, _, called', rfl, rfl⟩ := h
  exact ⟨v, next, later, called, called', rfl⟩

/-- What goes well to its end has gone well so far. -/
theorem allOnBytes?_append (h : allOnBytes? stack (front ++ rest) ≠ none) :
    ∃ replies final, allOnBytes? stack front = some (replies, final) := by
  induction front generalizing stack with
  | nil => exact ⟨[], stack, rfl⟩
  | cons c front ih =>
    obtain ⟨⟨replies, final⟩, h⟩ := Option.ne_none_iff_exists'.1 h
    obtain ⟨v, next, later, called, called', rfl⟩ := allOnBytes?_cons h
    obtain ⟨earlier, reached, h⟩ := @ih next (Option.ne_none_iff_exists'.2 ⟨_, called'⟩)
    exact ⟨⟨c, .ok v⟩ :: earlier, reached, by simp [allOnBytes?, called, h]⟩

end StackCall

/-- The bytes of a stack lie where they were pushed, the pointer having started at `s`. -/
def Lies (s : Byte) (ram : WorkRam) : (stack : List Byte) → Prop
  | [] => True
  | v :: below => ram.get (stackCell (s - UInt8.ofNat below.length)) = v ∧ Lies s ram below

/-- A push onto a page that is not full meets none of the bytes that lie there. -/
theorem Lies.set (lies : Lies s ram stack) (deep : stack.length ≤ depth) (room : depth < 256)
    (v : Byte) : Lies s (ram.set (stackCell (s - UInt8.ofNat depth)) v) stack := by
  induction stack with
  | nil => trivial
  | cons top below ih =>
    rw [List.length_cons] at deep
    have apart : stackCell (s - UInt8.ofNat below.length) ≠ stackCell (s - UInt8.ofNat depth) :=
      fun same => pointer_apart s (by omega) room (stackCell_inj.1 same)
    exact ⟨(WorkRam.get_set_other ram v apart).trans lies.1, ih lies.2 (by omega)⟩

/-- A machine holds a stack that another did not, and nothing else outside the stack page and the
stack pointer tells the two apart. -/
structure Holds (m : Machine) (stack : List Byte) (n : Machine) : Prop where
  lies : Lies m.cpu.sp n.bus.ram stack
  pointer : n.cpu.sp = m.cpu.sp - UInt8.ofNat stack.length
  rest : { n with
    cpu := { n.cpu with sp := m.cpu.sp }, bus := { n.bus with ram := m.bus.ram } } = m
  outside : ∀ cell : WorkRam.Cell, ¬ (0x100 ≤ cell.val ∧ cell.val < 0x200) →
    n.bus.ram.get cell = m.bus.ram.get cell

namespace Holds

variable {m n : Machine} {stack : List Byte}

theorem nil (m : Machine) : Holds m [] m where
  lies := trivial
  pointer := by simp
  rest := rfl
  outside _ _ := rfl

theorem pushed (holds : Holds m stack n) (room : stack.length + 1 ≤ 256) (v : Byte) :
    Holds m (v :: stack) (n.pushed v) := by
  have written : (n.pushed v).bus.ram =
      n.bus.ram.set (stackCell (m.cpu.sp - UInt8.ofNat stack.length)) v := by
    rw [← holds.pointer]
    rfl
  refine ⟨⟨?_, ?_⟩, ?_, holds.rest, fun cell outside => ?_⟩
  · rw [written, WorkRam.get_set_same]
  · rw [written]
    exact holds.lies.set (Nat.le_refl _) room v
  · rw [List.length_cons, pointer_succ, ← holds.pointer]
    rfl
  · have apart : cell ≠ stackCell (m.cpu.sp - UInt8.ofNat stack.length) := by
      rintro rfl
      have := (m.cpu.sp - UInt8.ofNat stack.length).toNat_lt
      rw [stackCell_val] at outside
      omega
    rw [written, WorkRam.get_set_other _ _ apart, holds.outside cell outside]

/-- A pull goes back to the cell that the byte was pushed to, round the end of the page or not. -/
theorem pointer_pulled (holds : Holds m (v :: stack) n) :
    n.pulled.cpu.sp = m.cpu.sp - UInt8.ofNat stack.length := by
  have pointer := holds.pointer
  rw [List.length_cons, pointer_succ] at pointer
  change n.cpu.sp + 1 = _
  rw [pointer, UInt8.sub_add_cancel]

theorem top (holds : Holds m (v :: stack) n) : n.top = v := by
  have found := holds.lies.1
  rw [← holds.pointer_pulled] at found
  exact found

theorem pulled (holds : Holds m (v :: stack) n) : Holds m stack n.pulled where
  lies := holds.lies.2
  pointer := holds.pointer_pulled
  rest := holds.rest
  outside := holds.outside

/-- What a call does to the bytes it does to the machine that holds them. -/
theorem call {c : StackCall} {v : c.Answer} (holds : Holds m stack n)
    (h : c.onBytes? stack = some (v, next)) : ∃ n', c.act.run n = .ok v n' ∧ Holds m next n' := by
  cases c with
  | push w =>
    simp only [StackCall.onBytes?, Option.ite_none_right_eq_some, Option.some.injEq,
      Prod.mk.injEq] at h
    obtain ⟨room, -, rfl⟩ := h
    exact ⟨_, run_push w n, holds.pushed room w⟩
  | pushWord w =>
    simp only [StackCall.onBytes?, Option.ite_none_right_eq_some, Option.some.injEq,
      Prod.mk.injEq] at h
    obtain ⟨room, -, rfl⟩ := h
    exact ⟨_, run_pushWord w n, (holds.pushed (by omega) (high w)).pushed room (low w)⟩
  | pull =>
    match stack, h with
    | top :: below, h =>
      cases h
      exact ⟨_, holds.top ▸ run_pull n, holds.pulled⟩
  | pullWord =>
    match stack, h with
    | lo :: hi :: below, h =>
      cases h
      exact ⟨_, holds.top ▸ holds.pulled.top ▸ run_pullWord n, holds.pulled.pulled⟩

theorem calls {calls : List StackCall} (holds : Holds m stack n)
    (h : StackCall.allOnBytes? stack calls = some (replies, final)) :
    answers StackCall.act n calls = replies ∧ Holds m final (finalState StackCall.act n calls) := by
  induction calls generalizing n stack replies with
  | nil => cases h; exact ⟨rfl, holds⟩
  | cons c rest ih =>
    obtain ⟨v, next, later, called, laters, rfl⟩ := StackCall.allOnBytes?_cons h
    obtain ⟨n', ran, held⟩ := holds.call called
    have answered : c.act.answer n = .ok v := by simp only [answer, ran]
    have reached : c.act.after n = n' := by simp only [after, ran]
    obtain ⟨same, holds⟩ := ih held laters
    exact ⟨by rw [answers, answered, reached, same],
      by simpa only [finalState, List.foldl_cons, reached] using holds⟩

end Holds

/-- Calls that a list of at most 256 bytes can answer go well on any machine and answer the same.
After each of them the stack pointer stands as many bytes below where it started as the list has,
counted round the page, and outside the page nothing has changed. -/
theorem stack_refines_bytes (m : Machine)
    (within : StackCall.allOnBytes? [] (front ++ rest) ≠ none) :
    ∃ replies stack, StackCall.allOnBytes? [] front = some (replies, stack) ∧
      answers StackCall.act m front = replies ∧
      let n := finalState StackCall.act m front
      n.cpu.sp = m.cpu.sp - UInt8.ofNat stack.length ∧
      { n with
        cpu := { n.cpu with sp := m.cpu.sp }, bus := { n.bus with ram := m.bus.ram } } = m ∧
      ∀ cell : WorkRam.Cell, ¬ (0x100 ≤ cell.val ∧ cell.val < 0x200) →
        n.bus.ram.get cell = m.bus.ram.get cell := by
  obtain ⟨replies, stack, h⟩ := StackCall.allOnBytes?_append within
  obtain ⟨same, holds⟩ := (Holds.nil m).calls h
  exact ⟨replies, stack, h, same, holds.pointer, holds.rest, holds.outside⟩

/-- Round the end of the page and half of the way back. -/
theorem stack_refines_bytes_wrapped :
    let m : Machine := { cpu := { sp := 0x01 } }
    let front : List StackCall := [.push 0x11, .pushWord 0x2233, .pull, .push 0x44]
    let rest : List StackCall := [.pullWord, .pull]
    StackCall.allOnBytes? [] (front ++ rest) ≠ none ∧
      answers StackCall.act m front =
        [⟨.push 0x11, .ok ()⟩, ⟨.pushWord 0x2233, .ok ()⟩, ⟨.pull, .ok 0x33⟩, ⟨.push 0x44, .ok ()⟩] ∧
      (finalState StackCall.act m front).cpu.sp = 0xFE := by
  intro m front rest
  have within : StackCall.allOnBytes? [] (front ++ rest) ≠ none := nofun
  obtain ⟨_, _, ⟨⟩, same, pointer, _⟩ := stack_refines_bytes m within
  exact ⟨within, same, pointer⟩

end Machine
end Nes
