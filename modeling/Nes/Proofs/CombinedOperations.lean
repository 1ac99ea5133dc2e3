import Nes.Proofs.BusMirrors
import Nes.Proofs.Requests
import Nes.Proofs.Tracing

/-! The undocumented operations that do the work of two documented ones at once. Most change their
operand in place and then use it; it makes no difference that the second half would have found and
read it again, unless the write of the first half could be felt on the way. -/
namespace Nes

open Nes.Action

namespace Bus

/-- The search for an operand leads to a cell of work RAM. On the way it reads work RAM and program
memory only, and not that cell. -/
structure FindsApart (mode : Mode) (c : Cpu) (b : Bus) (t : Address) : Prop where
  found : ∃ b' asked, (mode.resolve c.pc c.x c.y (recording read)).run (b, []) = .ok t (b', asked) ∧
    ∀ a ∈ asked, (a < 0x2000 ∨ 0x8000 ≤ a) ∧ (a < 0x2000 → WorkRam.cellOf a ≠ WorkRam.cellOf t)
  inRam : t < 0x2000

/-- What is read from memory could as well be looked at. -/
theorem peek_of_read {b b' : Bus} (h : (read a).run b = .ok v b') (memory : a < 0x2000 ∨ 0x8000 ≤ a) :
    b.peek? a = some v ∧ b' = b := by
  unfold read at h
  cases region : Region.ofAddress a with
  | ram cell =>
    simp only [region] at h
    cases h
    exact ⟨by simp only [peek?, region], rfl⟩
  | registers =>
    obtain ⟨above, below⟩ := registers_of_ofAddress region
    obtain lower | upper := memory
    · exact absurd above (UInt16.not_le.2 lower)
    · exact absurd (UInt16.lt_of_lt_of_le below (by decide)) (UInt16.not_lt.2 upper)
  | rom offset =>
    simp only [region, run_of] at h
    cases byte : b.romByte? offset with
    | some u =>
      rw [byte] at h
      cases h
      exact ⟨by simp only [peek?, region, byte], rfl⟩
    | none =>
      rw [byte] at h
      cases h
  | unmapped =>
    simp only [region] at h
    cases h

/-- A write to a cell of work RAM is not seen at other addresses. -/
theorem peek_write {a t : Address} (b : Bus) (v : Byte)
    (apart : a < 0x2000 → WorkRam.cellOf a ≠ WorkRam.cellOf t) :
    peek? { b with ram := b.ram.write t v } a = b.peek? a := by
  unfold peek?
  cases region : Region.ofAddress a with
  | ram cell =>
    obtain ⟨below, rfl⟩ := ram_of_ofAddress region
    exact congrArg some (WorkRam.get_set_other _ _ (apart below))
  | registers | rom offset | unmapped => rfl

end Bus

/-- What was heard from memory is heard again from any bus on which it can be looked at. -/
theorem Heard.again {b b' c : Bus} (heard : Heard Bus.read b exchanges b')
    (memory : ∀ p ∈ exchanges, p.1 < 0x2000 ∨ 0x8000 ≤ p.1)
    (same : ∀ p ∈ exchanges, c.peek? p.1 = b.peek? p.1) : Heard Bus.read c exchanges c := by
  induction heard with
  | nil => exact .nil
  | cons answered rest ih =>
    rw [List.forall_mem_cons] at memory same
    obtain ⟨peeked, rfl⟩ := Bus.peek_of_read answered memory.1
    exact .cons (Bus.read_of_peek (same.1.trans peeked)) (ih memory.2 same.2)

namespace Bus

/-- The operand is found without effect, and so it is again after a write to its cell. -/
theorem FindsApart.located {b : Bus} {c : Cpu} (finds : FindsApart mode c b t) :
    (locate mode c).run b = .ok t b ∧
    ∀ v, let written : Bus := { b with ram := b.ram.write t v }
      (locate mode c).run written = .ok t written := by
  obtain ⟨b', asked, found, apart⟩ := finds.found
  rw [← Mode.run_inquiry] at found
  obtain ⟨bytes, rfl, ended, heard⟩ := Inquiry.heard_of_recording found
  have memory (p) (member : p ∈ List.zip ((mode.inquiry c.pc c.x c.y).requests bytes) bytes) :=
    apart p.1 (List.of_mem_zip member).1
  have still (d : Bus) (same : ∀ p ∈ List.zip ((mode.inquiry c.pc c.x c.y).requests bytes) bytes,
      d.peek? p.1 = b.peek? p.1) : (locate mode c).run d = .ok t d := by
    have again := heard.again (fun p member => (memory p member).1) same
    have located := Inquiry.run_of_heard again ended
    rwa [Mode.run_inquiry] at located
  exact ⟨still b fun _ _ => rfl, fun v => still _ fun p member => peek_write b v (memory p member).2⟩

end Bus

namespace Operation

/-- The two operations that a combined one does the work of. -/
def halves? : Operation → Option (Operation × Operation)
  | slo => some (asl, ora)
  | rla => some (rol, and)
  | sre => some (lsr, eor)
  | rra => some (ror, adc)
  | dcp => some (dec, cmp)
  | isb => some (inc, sbc)
  | _ => none

/-- The first half changes the operand in place, the second uses it. The flags that the first half
sets by its result do not outlast the second. -/
theorem effect_of_halves {op : Operation} (halves : op.halves? = some (first, second)) :
    ∃ change use, op.effect = .modify change use ∧
      first.effect = .modify change (fun v c => c.flagged v) ∧ second.effect = .load use ∧
      ∀ v c, use v (c.flagged v) = use v c := by
  cases op <;> cases halves <;> exact ⟨_, _, rfl, rfl, rfl, fun _ _ => rfl⟩

end Operation

namespace Machine

/-- One operation after the other, with PC where it is. -/
def executePair (first : Operation) (mode : Mode) (second : Operation) (mode' : Mode) :
    Action Machine Unit := do
  execute first mode
  execute second mode'

/-- The accumulator, the flags that it sets and the bus are the same. -/
structure SameResult (m n : Machine) : Prop where
  a : m.cpu.a = n.cpu.a
  negative : m.cpu.status.negative = n.cpu.status.negative
  zero : m.cpu.status.zero = n.cpu.status.zero
  bus : m.bus = n.bus

/-- Both ways of doing the work come to the same end. -/
theorem run_halves {m : Machine} (halves : op.halves? = some (first, second))
    (finds : Bus.FindsApart mode m.cpu m.bus t) :
    ∃ n, (execute op mode).run m = .ok () n ∧
      (executePair first mode second mode).run m = .ok () n := by
  obtain ⟨change, use, combined, changes, uses, blind⟩ := Operation.effect_of_halves halves
  obtain ⟨located, again⟩ := finds.located
  have region := Bus.ofAddress_ram finds.inRam
  let r := change m.cpu.status.carry (m.bus.ram.read t)
  let c := m.cpu.withCarry r.2
  let written : Bus := { m.bus with ram := m.bus.ram.write t r.1 }
  have half : (execute first mode).run m = .ok () { m with cpu := c.flagged r.1, bus := written } :=
    run_execute_cell changes located region rfl
  have found : (Bus.read t).run written = .ok r.1 written := by
    rw [Bus.read_ram written finds.inRam]
    exact congrArg (EStateM.Result.ok · written) (WorkRam.get_set_same _ _ _)
  have rest := run_execute_load (m := { m with cpu := c.flagged r.1, bus := written }) uses
    (again r.1) found
  rw [blind] at rest
  exact ⟨_, run_execute_cell combined located region rfl, run_bind_ok.2 ⟨(), _, half, rest⟩⟩

/-- Where the operand can be looked at, it can as well be loaded twice. -/
theorem run_load_twice {m : Machine}
    (resolved : mode.resolve m.cpu.pc m.cpu.x m.cpu.y (Disassembly.look m.bus) = .ok t)
    (seen : m.bus.peek? t = some v) :
    ∃ n, (execute .lax mode).run m = .ok () n ∧
      (executePair .lda mode .ldx mode).run m = .ok () n := by
  have located : (Bus.locate mode m.cpu).run m.bus = .ok t m.bus :=
    Bus.locate_foreseen Disassembly.look_ok.1 mode m.cpu t resolved
  have found := Bus.read_of_peek seen
  have lda : Operation.lda.effect = .load fun v c => c.loadA v := rfl
  have ldx : Operation.ldx.effect = .load fun v c => c.loadX v := rfl
  have half := run_execute_load lda located found
  have rest := run_execute_load (m := { m with cpu := m.cpu.loadA v }) ldx located found
  exact ⟨_, run_execute_load rfl located found, run_bind_ok.2 ⟨(), _, half, rest⟩⟩

/-- A mask from the operand, and then a change of the accumulator. -/
theorem run_mask_then (m : Machine) (changes : op.effect = .modify change use) :
    (∃ e b, (Bus.read m.cpu.pc).run m.bus = .error e b ∧
      (executePair .and .immediate op .accumulator).run m =
        .error e { m with bus := b }) ∨
    ∃ v b, (Bus.read m.cpu.pc).run m.bus = .ok v b ∧
      (executePair .and .immediate op .accumulator).run m =
        let masked := m.cpu.loadA (m.cpu.a &&& v)
        let r := change m.cpu.status.carry (m.cpu.a &&& v)
        .ok () { m with cpu := use r.1 { masked.withCarry r.2 with a := r.1 }, bus := b } := by
  have and : Operation.and.effect = .load fun v c => c.loadA (c.a &&& v) := rfl
  cases found : (Bus.read m.cpu.pc).run m.bus with
  | error e b =>
    exact .inl ⟨e, b, rfl, run_bind_error.2 (.inl (run_execute_load_fault and rfl found))⟩
  | ok v b =>
    exact .inr ⟨v, b, rfl, run_bind_ok.2
      ⟨(), _, run_execute_load and rfl found, run_execute_accumulator _ changes⟩⟩

theorem run_mask_shift (m : Machine) :
    (execute .alr .immediate).run m =
      (executePair .and .immediate .lsr .accumulator).run m := by
  have alr : Operation.alr.effect = .load fun v c =>
    (c.withCarry (Cpu.shiftRight c.status.carry (c.a &&& v)).2).loadA
      (Cpu.shiftRight c.status.carry (c.a &&& v)).1 := rfl
  have lsr : Operation.lsr.effect = .modify Cpu.shiftRight fun v c => c.flagged v := rfl
  obtain ⟨e, b, missing, both⟩ | ⟨v, b, found, both⟩ := run_mask_then m lsr
  · rw [both, run_execute_load_fault alr rfl missing]
  · rw [both, run_execute_load alr rfl found]
    rfl

theorem run_mask_rotate (m : Machine) :
    Matches SameResult ((execute .arr .immediate).run m)
      ((executePair .and .immediate .ror .accumulator).run m) := by
  have ror : Operation.ror.effect = .modify Cpu.rotateRight fun v c => c.flagged v := rfl
  obtain ⟨e, b, missing, both⟩ | ⟨v, b, found, both⟩ := run_mask_then m ror
  · rw [both, run_execute_load_fault rfl rfl missing]
    exact .error ⟨rfl, rfl, rfl, rfl⟩
  · rw [both, run_execute_load rfl rfl found]
    exact .ok ⟨rfl, rfl, rfl, rfl⟩

/-- A combined operation does what its halves do one after the other, if it finds its operand in
work RAM by way of memory that the operand is no part of. Loading two registers is loading the one
and then the other, if the bytes can be looked at. A mask and a shift are what they are in turn; of a
mask and a rotation that is true but for the carry and the overflow. -/
theorem combined_operations (m : Machine) :
    (∀ op first second, op.halves? = some (first, second) →
      ∀ mode t, Bus.FindsApart mode m.cpu m.bus t → ∃ n, (execute op mode).run m = .ok () n ∧
        (executePair first mode second mode).run m = .ok () n) ∧
    (∀ mode t v, mode.resolve m.cpu.pc m.cpu.x m.cpu.y (Disassembly.look m.bus) = .ok t →
      m.bus.peek? t = some v → ∃ n, (execute .lax mode).run m = .ok () n ∧
        (executePair .lda mode .ldx mode).run m = .ok () n) ∧
    (execute .alr .immediate).run m =
      (executePair .and .immediate .lsr .accumulator).run m ∧
    Matches SameResult ((execute .arr .immediate).run m)
      ((executePair .and .immediate .ror .accumulator).run m) :=
  ⟨fun _ _ _ halves _ _ finds => run_halves halves finds,
    fun _ _ _ resolved seen => run_load_twice resolved seen, run_mask_shift m, run_mask_rotate m⟩

/-- With PC on a pointer's address in the zero page, and a byte behind the pointer. -/
def pointing : Machine :=
  { holding [0x04, 0x00, 0x00, 0x00, 0x06, 0x00, 0x81] with
    cpu := { a := 0x01, status := { carry := true } } }

/-- `RRA` and `LAX` through the pointer. -/
theorem combined_operations_pointing :
    Bus.FindsApart .indirectX pointing.cpu pointing.bus 6 ∧
    (∃ n, (execute .rra .indirectX).run pointing = .ok () n ∧
      (executePair .ror .indirectX .adc .indirectX).run pointing = .ok () n ∧
      n.cpu.a = 0xC2 ∧ n.bus.ram.get 6 = 0xC0) ∧
    ∃ n, (execute .lax .indirectX).run pointing = .ok () n ∧
      (executePair .lda .indirectX .ldx .indirectX).run pointing = .ok () n ∧
      n.cpu.a = 0x81 ∧ n.cpu.x = 0x81 := by
  have finds : Bus.FindsApart .indirectX pointing.cpu pointing.bus 6 := by
    refine ⟨⟨pointing.bus, [0, 4, 5], rfl, ?_⟩, by decide⟩
    rw [List.forall_mem_cons, List.forall_mem_cons, List.forall_mem_singleton]
    decide
  obtain ⟨combined, loaded, _⟩ := combined_operations pointing
  obtain ⟨n, once, inTurn⟩ := combined .rra .ror .adc rfl .indirectX 6 finds
  obtain ⟨n', once', inTurn'⟩ := loaded .indirectX 6 0x81 rfl rfl
  refine ⟨finds, ⟨n, once, inTurn, ?_⟩, n', once', inTurn', ?_⟩
  · rw [← after_ok once]
    decide +kernel
  · rw [← after_ok once']
    decide +kernel

end Machine
end Nes
