import Mathlib.Data.List.Induction
import Nes.Proofs.PicturePorts
import Nes.Proofs.Transcript

/-! The vertical blank, as the status register reports it. Once it has begun it waits there, until it
is reported or is over, and no other request to the unit and no access to the bus makes it be lost. It
is all that the register ever reports. -/
namespace Nes

open Nes.Action

namespace Ppu

/-- A read of the status register. -/
def Request.ReadsStatus : Request → Prop
  | read a => Register.ofAddress? a = some .status
  | write _ _ | vblank _ | advance => False

/-- A vertical blank has begun, and since then the status has not been read and the blank has not been
ended. -/
def Waiting (history : List Request) : Prop :=
  ∃ before since, history = before ++ .vblank true :: since ∧
    ∀ r ∈ since, ¬ r.ReadsStatus ∧ r ≠ .vblank false

/-- Whether a vertical blank waits after a request, by whether one has waited before it. -/
def Request.leaves : Request → Bool → Bool
  | read a, waiting => if Register.ofAddress? a = some .status then false else waiting
  | vblank on, _ => on
  | write _ _, waiting | advance, waiting => waiting

/-- The byte that the status register has answered, if it was read. -/
def reported? : Answered Request.Answer → Option Byte
  | ⟨.read a, .ok v⟩ => if Register.ofAddress? a = some .status then some v else none
  | _ => none

/-! What waits, request by request. -/

theorem Request.leaves_iff (r : Request) (waiting : Bool) :
    r.leaves waiting = true ↔
      r = .vblank true ∨ (¬ r.ReadsStatus ∧ r ≠ .vblank false) ∧ waiting = true := by
  cases r with
  | vblank on => cases on <;> simp [leaves, ReadsStatus]
  | read a | write a v | advance => simp [leaves, ReadsStatus]

theorem waiting_concat {history : List Request} {r : Request} :
    Waiting (history ++ [r]) ↔
      r = .vblank true ∨ (¬ r.ReadsStatus ∧ r ≠ .vblank false) ∧ Waiting history := by
  constructor
  · rintro ⟨before, since, split, quiet⟩
    obtain rfl | ⟨earlier, last, rfl⟩ := since.eq_nil_or_concat'
    · exact .inl (List.cons.inj (List.append_inj_right' split rfl)).1
    · rw [← List.cons_append, ← List.append_assoc] at split
      obtain ⟨rfl, same⟩ := List.append_inj' split rfl
      obtain rfl := (List.cons.inj same).1
      refine .inr ⟨quiet r (by simp), before, earlier, rfl, fun q member => ?_⟩
      exact quiet q (List.mem_append_left _ member)
  · rintro (rfl | ⟨quiet, before, since, rfl, still⟩)
    · exact ⟨history, [], rfl, nofun⟩
    · refine ⟨before, since ++ [r], by simp, fun q member => ?_⟩
      obtain member | last := List.mem_append.1 member
      · exact still q member
      · exact List.mem_singleton.1 last ▸ quiet

theorem waiting_iff (history : List Request) :
    history.foldl (fun waiting r => r.leaves waiting) false = true ↔ Waiting history := by
  -- On the last request: what came before it matters only by whether a blank waits then.
  induction history using List.reverseRecOn with
  | nil => exact ⟨nofun, fun ⟨_, _, split, _⟩ => absurd split (by simp)⟩
  | append_singleton history r ih =>
    rw [List.foldl_append, List.foldl_cons, List.foldl_nil, r.leaves_iff, ih, waiting_concat]

instance (history : List Request) : Decidable (Waiting history) :=
  decidable_of_iff _ (waiting_iff history)

/-! What is reported, request by request. -/

theorem not_concerns_vblank {r : Request} (unread : ¬ r.ReadsStatus) (unset : ∀ on, r ≠ .vblank on) :
    r.concerns .vblank = false := by
  refine decide_eq_false fun concerned => ?_
  cases r with
  | read a =>
    obtain ⟨register, chosen, member⟩ := mem_getD_map concerned
    cases register with
    | status => exact unread chosen
    | _ => exact absurd member (by decide)
  | write a v =>
    obtain ⟨register, chosen, member⟩ := mem_getD_map concerned
    cases register <;> exact absurd member (by decide)
  | vblank on => exact unset on rfl
  | advance => exact absurd concerned (by decide)

/-- What neither reads the status nor sets the blank, leaves the flags alone. -/
theorem flags_elsewhere (p : Ppu) {r : Request} (unread : ¬ r.ReadsStatus)
    (unset : ∀ on, r ≠ .vblank on) : (r.act.after p).flags = p.flags :=
  congrArg Prod.snd (view_after_elsewhere p (not_concerns_vblank unread unset))

theorem flags_after (p : Ppu) (r : Request) :
    (r.act.after p).flags = { p.flags with vblank := r.leaves p.flags.vblank } := by
  cases r with
  | read a =>
    by_cases status : Register.ofAddress? a = some .status
    · have spent : Request.leaves (.read a) p.flags.vblank = false := if_pos status
      rw [spent]
      exact congrArg (·.flags) (after_ok (readRegister_status status p))
    · have kept : Request.leaves (.read a) p.flags.vblank = p.flags.vblank := if_neg status
      rw [kept]
      exact flags_elsewhere p status nofun
  | write a v => exact flags_elsewhere p id nofun
  | vblank on | advance => rfl

theorem flags_afterAll (p : Ppu) (history : List Request) :
    (p.afterAll history).flags =
      { p.flags with
        vblank := history.foldl (fun waiting r => r.leaves waiting) p.flags.vblank } := by
  induction history generalizing p with
  | nil => rfl
  | cons r rest ih =>
    refine (ih (r.act.after p)).trans ?_
    rw [flags_after]
    rfl

/-- All that is flagged in a unit that has been switched on is a vertical blank that waits. -/
theorem flags_powerOn (chr : Array Byte) (m : Mirroring) (history : List Request) :
    ((powerOn chr m).afterAll history).flags = { vblank := decide (Waiting history) } := by
  have decided : history.foldl (fun waiting r => r.leaves waiting) false = decide (Waiting history) :=
    Bool.eq_iff_iff.2 ((waiting_iff history).trans decide_eq_true_iff.symm)
  rw [flags_afterAll, ← decided]
  rfl

theorem toByte_vblank (waiting : Bool) :
    Flags.toByte { vblank := waiting } = if waiting then 0x80 else 0x00 := by
  cases waiting <;> decide

theorem readRegister_reports {p : Ppu} (flags : p.flags = { vblank := waiting })
    (status : Register.ofAddress? a = some .status) :
    (readRegister a).answer p = .ok (if waiting then 0x80 else 0x00) := by
  simp only [answer, readRegister_status status, flags, toByte_vblank]

/-- A report uses up what waits, and nothing else than a new blank adds to it. -/
theorem reported_after {p : Ppu} (flags : p.flags = { vblank := waiting }) {r : Request}
    (unset : r ≠ .vblank true) :
    (reported? ⟨r, r.act.answer p⟩).toList.count 0x80 + (r.leaves waiting).toNat ≤ waiting.toNat := by
  cases r with
  | read a =>
    by_cases status : Register.ofAddress? a = some .status
    · have answered : (Request.read a).act.answer p = .ok (if waiting then 0x80 else 0x00) :=
        readRegister_reports flags status
      rw [answered, Request.leaves, if_pos status, reported?, if_pos status]
      cases waiting <;> exact Nat.le_refl _
    · have silent : reported? ⟨.read a, (Request.read a).act.answer p⟩ = none := by
        cases (Request.read a).act.answer p with
        | ok v => exact if_neg status
        | error e => rfl
      have kept : Request.leaves (.read a) waiting = waiting := if_neg status
      rw [silent, kept]
      exact Nat.le_of_eq (Nat.zero_add _)
  | vblank on =>
    cases on with
    | true => exact absurd rfl unset
    | false => exact Nat.zero_le _
  | write a v | advance => exact Nat.le_of_eq (Nat.zero_add _)

/-- Without a new blank, what waits is reported once at most. -/
theorem reported_once {p : Ppu} (flags : p.flags = { vblank := waiting }) {stretch : List Request}
    (unset : .vblank true ∉ stretch) :
    ((answers Request.act p stretch).filterMap reported?).count 0x80 ≤ waiting.toNat := by
  induction stretch generalizing p waiting with
  | nil => exact Nat.zero_le _
  | cons r rest ih =>
    obtain ⟨first, unset⟩ := not_or.1 (List.mem_cons.not.1 unset)
    have left : (r.act.after p).flags = { vblank := r.leaves waiting } := by rw [flags_after, flags]
    have one := reported_after flags (Ne.symm first)
    have others := ih left unset
    rw [answers, filterMap_cons_toList, List.count_append]
    exact Nat.le_trans (Nat.add_le_add_left others _) one

end Ppu

namespace Bus

namespace Access

def address : Access → Address
  | read a | write a _ => a

/-- What the picture unit is asked, if it is the one that answers at the address. -/
def request : Access → Ppu.Request
  | read a => .read a
  | write a v => .write a v

end Access

/-- What can be asked of a bus: accesses, and requests to its picture unit past the address map. -/
inductive Request where
  | access (x : Access)
  | picture (r : Ppu.Request)

namespace Request

abbrev Answer : Request → Type
  | access x => x.Answer
  | picture r => r.Answer

def act : (x : Request) → Action Bus x.Answer
  | access x => x.act
  | picture r => onPpu r.act

/-- The request that arrives at the picture unit, if one does. -/
def arriving? : Request → Option Ppu.Request
  | access x => if InRegisters x.address then some x.request else none
  | picture r => some r

end Request

/-- What arrives at the picture unit. -/
def arrived (history : List Request) : List Ppu.Request := history.filterMap (·.arriving?)

/-- The byte that the status register has answered, if it was read. -/
def reported? : Answered Request.Answer → Option Byte
  | ⟨.access (.read a), .ok v⟩ => if IsStatus a then some v else none
  | ⟨.access _, _⟩ => none
  | ⟨.picture r, answer⟩ => Ppu.reported? ⟨r, answer⟩

/-! One request to the bus. -/

theorem read_registers (inside : InRegisters a) : read a = onPpu (Ppu.readRegister a) := by
  simp only [read, ofAddress_registers inside]

theorem write_registers (inside : InRegisters a) (v : Byte) :
    write a v = onPpu (Ppu.writeRegister a v) := by
  simp only [write, ofAddress_registers inside]

theorem ppu_read_outside (b : Bus) (outside : ¬ InRegisters a) :
    ((read a).after b).ppu = b.ppu := by
  unfold read
  split
  case h_2 region => exact absurd (registers_of_ofAddress region) outside
  case h_3 offset _ =>
    rw [after, run_of]
    cases b.romByte? offset <;> rfl
  all_goals rfl

theorem ppu_write_outside (b : Bus) (v : Byte) (outside : ¬ InRegisters a) :
    ((write a v).after b).ppu = b.ppu := by
  unfold write
  split
  case h_2 region => exact absurd (registers_of_ofAddress region) outside
  case h_3 offset _ =>
    rw [after, run_of]
    cases b.cartridge <;> cases vectorIndex? offset <;> rfl
  all_goals rfl

/-- The picture unit answers an access to its registers. -/
theorem access_inside (b : Bus) {x : Access} (inside : InRegisters x.address) :
    (x.act.after b).ppu = x.request.act.after b.ppu ∧
      reported? ⟨.access x, x.act.answer b⟩ =
        Ppu.reported? ⟨x.request, x.request.act.answer b.ppu⟩ := by
  cases x with
  | read a =>
    have act : (Access.read a).act = onPpu (Ppu.Request.read a).act := read_registers inside
    have status : IsStatus a ↔ Ppu.Register.ofAddress? a = some .status := and_iff_right inside
    rw [act, onPpu_after, onPpu_answer]
    refine ⟨rfl, ?_⟩
    change reported? ⟨_, _⟩ = Ppu.reported? ⟨.read a, (Ppu.Request.read a).act.answer b.ppu⟩
    cases (Ppu.Request.read a).act.answer b.ppu with
    | ok v => exact if_congr status rfl rfl
    | error e => rfl
  | write a v =>
    have act : (Access.write a v).act = onPpu (Ppu.Request.write a v).act := write_registers inside v
    rw [act, onPpu_after]
    exact ⟨rfl, rfl⟩

/-- It does not learn of other accesses. -/
theorem access_outside (b : Bus) {x : Access} (outside : ¬ InRegisters x.address) :
    (x.act.after b).ppu = b.ppu ∧ reported? ⟨.access x, x.act.answer b⟩ = none := by
  cases x with
  | read a =>
    refine ⟨ppu_read_outside b outside, ?_⟩
    cases (Access.read a).act.answer b with
    | ok v => exact if_neg fun status => outside status.1
    | error e => rfl
  | write a v => exact ⟨ppu_write_outside b v outside, rfl⟩

/-- What arrives at the picture unit is all that becomes of it, and all that it reports. -/
theorem request_arrives (b : Bus) (x : Request) :
    (x.act.after b).ppu = b.ppu.afterAll x.arriving?.toList ∧
      (reported? ⟨x, x.act.answer b⟩).toList =
        (answers Ppu.Request.act b.ppu x.arriving?.toList).filterMap Ppu.reported? := by
  have reports (p : Ppu) (r : Ppu.Request) : (Ppu.reported? ⟨r, r.act.answer p⟩).toList =
      (answers Ppu.Request.act p [r]).filterMap Ppu.reported? := by
    rw [answers, filterMap_cons_toList]
    exact (List.append_nil _).symm
  cases x with
  | access x =>
    by_cases inside : InRegisters x.address
    · obtain ⟨left, reported⟩ := access_inside b inside
      have arriving : (Request.access x).arriving? = some x.request := if_pos inside
      rw [arriving]
      exact ⟨left, (congrArg Option.toList reported).trans (reports b.ppu x.request)⟩
    · obtain ⟨left, reported⟩ := access_outside b inside
      have arriving : (Request.access x).arriving? = none := if_neg inside
      rw [arriving]
      exact ⟨left, congrArg Option.toList reported⟩
  | picture r =>
    have left : (Request.picture r).act.after b = { b with ppu := r.act.after b.ppu } :=
      onPpu_after r.act b
    have answered : (Request.picture r).act.answer b = r.act.answer b.ppu := onPpu_answer r.act b
    rw [left, answered]
    exact ⟨rfl, reports b.ppu r⟩

/-! Histories of the bus. -/

theorem history_arrives (b : Bus) (history : List Request) :
    (finalState Request.act b history).ppu = b.ppu.afterAll (arrived history) ∧
      (answers Request.act b history).filterMap reported? =
        (answers Ppu.Request.act b.ppu (arrived history)).filterMap Ppu.reported? := by
  induction history generalizing b with
  | nil => exact ⟨rfl, rfl⟩
  | cons x rest ih =>
    obtain ⟨one, reported⟩ := request_arrives b x
    obtain ⟨others, reported'⟩ := ih (x.act.after b)
    rw [one] at others reported'
    rw [arrived, filterMap_cons_toList, answers, filterMap_cons_toList, answers_append,
      List.filterMap_append, reported, reported']
    exact ⟨others.trans List.foldl_append.symm, rfl⟩

theorem finalState_access (b : Bus) (accesses : List Access) :
    finalState Request.act b (accesses.map .access) = finalState Access.act b accesses :=
  List.foldl_map

theorem request_fault {b : Bus} {x : Request} (failed : x.act.answer b = .error e) :
    x.act.after b = b := by
  cases x with
  | access x =>
    cases x with
    | read a => exact read_fault (run_of_answer_error failed)
    | write a v => exact write_fault (run_of_answer_error failed)
  | picture r =>
    cases r with
    | read a => exact onPpu_fault Ppu.readRegister_fault (run_of_answer_error failed)
    | write a v => exact onPpu_fault Ppu.writeRegister_fault (run_of_answer_error failed)
    | vblank on | advance => cases failed

/-- The picture unit of a bus has been switched on, and then the bus was asked whatever it was. A read
of the status register, at any of its addresses or past the address map, reports a vertical blank if
one has begun since the last such read and the last end of a blank, and nothing otherwise. Until
another blank begins, at most one read reports one. Nothing else is ever flagged; an access that fails,
or that does not read the status, leaves what waits; and what a machine executes is but more accesses. -/
theorem vblank_reported_once {b : Bus} (fresh : b.ppu = .powerOn chr m) (past : List Request) :
    let now := finalState Request.act b past
    let report : Byte := if Ppu.Waiting (arrived past) then 0x80 else 0x00
    (∀ a, IsStatus a → (read a).answer now = .ok report) ∧
    (∀ a, Ppu.Register.ofAddress? a = some .status →
      (onPpu (Ppu.readRegister a)).answer now = .ok report) ∧
    (∀ stretch, .vblank true ∉ arrived stretch →
      ((answers Request.act now stretch).filterMap reported?).count 0x80 ≤ 1) ∧
    now.ppu.flags = { vblank := Ppu.Waiting (arrived past) } ∧
    (∀ (x : Request) e, x.act.answer now = .error e → x.act.after now = now) ∧
    (∀ x : Request, (∀ r, x.arriving? = some r → ¬ r.ReadsStatus ∧ ∀ on, r ≠ .vblank on) →
      (x.act.after now).ppu.flags = now.ppu.flags) ∧
    ∀ machine : Machine, machine.bus = now → ∀ c : Machine.Command, c.isGuest = true →
      ∃ accesses, Machine.Transcript c.act machine accesses ∧
        (c.act.after machine).bus = finalState Request.act b (past ++ accesses.map .access) := by
  intro now report
  have unit : now.ppu = (Ppu.powerOn chr m).afterAll (arrived past) :=
    fresh ▸ (history_arrives b past).1
  have flags : now.ppu.flags = { vblank := Ppu.Waiting (arrived past) } :=
    (congrArg Ppu.flags unit).trans (Ppu.flags_powerOn chr m (arrived past))
  have reports {a : Address} (status : Ppu.Register.ofAddress? a = some .status) :
      (onPpu (Ppu.readRegister a)).answer now = .ok report := by
    rw [onPpu_answer, Ppu.readRegister_reports flags status]
    exact congrArg Except.ok (if_congr decide_eq_true_iff rfl rfl)
  refine ⟨fun a status => ?_, fun a status => reports status, fun stretch unset => ?_, flags,
    fun x e failed => request_fault failed, fun x spares => ?_, ?_⟩
  · rw [read_registers status.1]
    exact reports status.2
  · rw [(history_arrives now stretch).2]
    exact Nat.le_trans (Ppu.reported_once flags unset) (Bool.toNat_le _)
  · rw [(request_arrives now x).1]
    cases arriving : x.arriving? with
    | none => rfl
    | some r =>
      obtain ⟨unread, unset⟩ := spares r arriving
      exact Ppu.flags_elsewhere now.ppu unread unset
  · intro machine here c guest
    obtain ⟨accesses, transcript⟩ := (Machine.guest_command guest).transcript machine
    refine ⟨accesses, transcript, ?_⟩
    rw [finalState_append, finalState_access, transcript.bus, here]

/-- A blank outlasts two refused accesses and a write of another register. It is reported at the last
of the status register's addresses, and then no more. -/
theorem vblank_reported_once_refused :
    let past : List Request := [.picture (.vblank true), .access (.read 0x2007),
      .access (.write 0x2002 0x00), .access (.write 0x2001 0x1E)]
    let now := finalState Request.act Bus.empty past
    let later := finalState Request.act Bus.empty (past ++ [.access (.read 0x3FFA)])
    (read 0x2007).answer now = .error (.unmapped 0x0000) ∧
    (write 0x2002 0x00).answer now = .error (.readOnly 0x2002) ∧
    (read 0x3FFA).answer now = .ok 0x80 ∧ (read 0x2002).answer later = .ok 0x00 := by
  intro past now later
  have fresh : Bus.empty.ppu = .powerOn #[] .horizontal := rfl
  have waits : Ppu.Waiting (arrived past) := by decide
  have spent : ¬ Ppu.Waiting (arrived (past ++ [.access (.read 0x3FFA)])) := by decide
  have first := (vblank_reported_once fresh past).1 0x3FFA (by decide)
  have second := (vblank_reported_once fresh (past ++ [.access (.read 0x3FFA)])).1 0x2002 (by decide)
  rw [if_pos waits] at first
  rw [if_neg spent] at second
  exact ⟨by decide, by decide, first, second⟩

end Bus
end Nes
