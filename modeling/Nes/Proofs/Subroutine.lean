import Nes.Proofs.Stack
import Nes.Proofs.Step

/-! A return finds its way back. The two bytes that a call leaves on the stack are the
two deepest of everything pushed since; as long as the stack does not run round its page
onto them, pushes reach other cells, and nothing else may write to the page. -/
namespace Nes

open Nes.Action

/-- Whether an address reaches the stack page, directly or through a mirror. -/
def inStackPage (a : Address) : Bool := a < 0x2000 && (WorkRam.cellOf a).val / 256 == 1

theorem stackCell_ne_of_outside (below : a < 0x2000) (outside : inStackPage a = false) (sp : Byte) :
    stackCell sp ≠ WorkRam.cellOf a := by
  intro same
  have := sp.toNat_lt
  have page : (WorkRam.cellOf a).val / 256 = 1 := by rw [← same, stackCell_val]; omega
  simp [inStackPage, below, page] at outside

theorem Bus.write_stackCell {b c : Bus} (h : (write a v).run b = .ok u c)
    (outside : inStackPage a = false) (sp : Byte) :
    c.ram.get (stackCell sp) = b.ram.get (stackCell sp) := by
  by_cases below : a < 0x2000
  · rw [write_ram b v below] at h
    cases h
    exact WorkRam.get_set_other _ _ (stackCell_ne_of_outside below outside sp)
  · rw [write_elsewhere h below]

/-- How many bytes an operation pushes and, below, how many it pulls. -/
def Effect.pushes : Effect → Nat
  | .call => 2
  | .push _ => 1
  | _ => 0

def Effect.pulls : Effect → Nat
  | .resume => 3
  | .return => 2
  | .pull _ => 1
  | _ => 0

/-- Whether an operation writes its operand in memory. -/
def Effect.writes : Effect → Mode → Bool
  | .store _, _ => true
  | .modify _ _, mode => mode ≠ .accumulator
  | _, _ => false

/-- What an operation does with registers leaves the stack pointer alone. -/
def Effect.SparesPointer : Effect → Prop
  | .internal f => ∀ c, (f c).sp = c.sp
  | .load use | .modify _ use | .pull use => ∀ v c, (use v c).sp = c.sp
  | _ => True

theorem Operation.spares_pointer (op : Operation) (other : op ≠ .txs) :
    op.effect.SparesPointer := by
  cases op with
  | txs => exact absurd rfl other
  | tax | tay | txa | tya | tsx | inx | iny | dex | dey | brk | nop | clc | sec | cld | sed | cli
  | sei | clv => exact fun _ => rfl
  | lda | ldx | ldy | adc | sbc | and | ora | eor | bit | cmp | cpx | cpy | inc | dec | asl | lsr
  | rol | ror | pla | plp | lax | dcp | isb | slo | rla | sre | rra | anc | alr | arr | axs =>
    exact fun _ _ => rfl
  | sta | stx | sty | sax | bcc | bcs | bne | beq | bpl | bmi | bvc | bvs | jmp | jsr | rts | rti
  | pha | php => trivial

namespace Machine

/-- Where the next step writes the operand of a store or of a change in place. -/
def written? (m : Machine) : Option Address :=
  match m.next?, (Bus.read m.cpu.pc).run m.bus with
  | some i, .ok _ b =>
    if i.operation.effect.writes i.mode then
      match (Bus.locate i.mode (m.cpu.advance 1)).run b with
      | .ok t _ => some t
      | .error _ _ => none
    else none
  | _, _ => none

theorem written_of_fetch {m : Machine} (fetch : m.Fetches i.code b)
    (found : InstructionSet.standard.lookup i.code = some i)
    (writes : i.operation.effect.writes i.mode = true)
    (located : (Bus.locate i.mode (m.cpu.advance 1)).run b = .ok t b') : m.written? = some t := by
  simp only [written?, next_of_fetch fetch, found, fetch.read, writes, ↓reduceIte, located]

/-- What a step does to a stack of `depth` bytes, two of which are a return address that
it has to keep: the depth that it leaves. -/
inductive Disciplined (m : Machine) (depth : Nat) : Nat → Prop
  | idle : m.nextOperation? = none → Disciplined m depth depth
  | operation : m.nextOperation? = some op → op ≠ .txs →
      (∀ a, m.written? = some a → inStackPage a = false) → 2 + op.effect.pulls ≤ depth →
      depth - op.effect.pulls + op.effect.pushes ≤ 256 →
      Disciplined m depth (depth - op.effect.pulls + op.effect.pushes)

/-- A run that keeps a return address, with the depths of the stack at both ends. -/
inductive Body : Machine → Nat → Machine → Nat → Prop
  | nil : Body m d m d
  | step : Body m d m₁ d₁ → step.run m₁ = .ok o m₂ → Disciplined m₁ d₁ d₂ → Body m d m₂ d₂

/-- The return address lies where a call put it, `depth` bytes above the top of the stack.
The stack pointer before the call was `s`. -/
structure Returnable (ret : Address) (s : Byte) (depth : Nat) (m : Machine) : Prop where
  deep : 2 ≤ depth
  pointer : m.cpu.sp = s - UInt8.ofNat depth
  high : m.bus.ram.get (stackCell s) = high ret
  low : m.bus.ram.get (stackCell (s - 1)) = low ret

/-- The stack is the same in two machines: its pointer and its page. -/
structure SameStack (m m' : Machine) : Prop where
  pointer : m'.cpu.sp = m.cpu.sp
  page : ∀ sp, m'.bus.ram.get (stackCell sp) = m.bus.ram.get (stackCell sp)

theorem SameStack.of_steady {m m' : Machine} (pointer : m'.cpu.sp = m.cpu.sp)
    (steady : Bus.Steady m.bus m'.bus) : SameStack m m' :=
  ⟨pointer, fun _ => by rw [steady.ram]⟩

namespace Returnable

variable {m m' : Machine}

theorem same (kept : Returnable ret s depth m) (stack : SameStack m m') :
    Returnable ret s depth m' :=
  ⟨kept.deep, stack.pointer.trans kept.pointer, (stack.page _).trans kept.high,
    (stack.page _).trans kept.low⟩

theorem pushed (kept : Returnable ret s depth m) (room : depth < 256) (v : Byte) :
    Returnable ret s (depth + 1) (m.pushed v) := by
  have deep := kept.deep
  -- The stack is not yet a whole page deep, so the push fills neither of the two cells.
  have spared (p : Byte) (apart : p ≠ s - UInt8.ofNat depth) :
      (m.pushed v).bus.ram.get (stackCell p) = m.bus.ram.get (stackCell p) := by
    refine WorkRam.get_set_other _ _ fun same => apart ?_
    rw [← kept.pointer]
    exact stackCell_inj.1 same
  refine ⟨by omega, ?_, ?_, ?_⟩
  · rw [pointer_succ, ← kept.pointer]
    rfl
  · rw [spared s (by simpa using pointer_apart s (k := 0) (by omega) room), kept.high]
  · rw [spared (s - 1) (pointer_apart s (k := 1) (by omega) room), kept.low]

theorem of_pushed (m : Machine) (ret : Address) :
    Returnable ret m.cpu.sp 2 ((m.pushed (Nes.high ret)).pushed (Nes.low ret)) := by
  have apart : stackCell m.cpu.sp ≠ stackCell (m.cpu.sp - 1) := by
    intro same
    have := stackCell_inj.1 same
    grind
  refine ⟨Nat.le_refl 2, ?_, ?_, WorkRam.get_set_same ..⟩
  · change m.cpu.sp - 1 - 1 = m.cpu.sp - 2
    grind
  · exact (WorkRam.get_set_other _ _ apart).trans (WorkRam.get_set_same ..)

theorem pulled (kept : Returnable ret s depth m) (deep : 2 < depth) :
    Returnable ret s (depth - 1) m.pulled := by
  refine ⟨by omega, ?_, kept.high, kept.low⟩
  have pointer := pointer_succ s (depth - 1)
  rw [Nat.sub_add_cancel (by omega), ← kept.pointer] at pointer
  change m.cpu.sp + 1 = _
  rw [pointer, UInt8.sub_add_cancel]

theorem performed (kept : Returnable ret s depth m) (performed : Performed mode m effect m')
    (spares : effect.SparesPointer) (deep : 2 + effect.pulls ≤ depth)
    (room : depth - effect.pulls + effect.pushes ≤ 256)
    (outside : effect.writes mode = true → ∀ t b,
      (Bus.locate mode m.cpu).run m.bus = .ok t b → inStackPage t = false) :
    Returnable ret s (depth - effect.pulls + effect.pushes) m' := by
  cases performed with
  | internal => exact kept.same ⟨spares _, fun _ => rfl⟩
  | load located found =>
    have steady := ((Bus.locate_steady _ _).ok located).trans ((Bus.read_steady _).ok found)
    exact kept.same (.of_steady (spares _ _) steady)
  | store located written =>
    have steady := (Bus.locate_steady _ _).ok located
    refine kept.same ⟨rfl, fun sp => ?_⟩
    exact (Bus.write_stackCell written (outside rfl _ _ located) sp).trans (by rw [steady.ram])
  | accumulator _ _ => exact kept.same ⟨spares _ _, fun _ => rfl⟩
  | memory memory located found _ written =>
    have steady := ((Bus.locate_steady _ _).ok located).trans ((Bus.read_steady _).ok found)
    have outside := outside (decide_eq_true memory) _ _ located
    refine kept.same ⟨spares _ _, fun sp => ?_⟩
    exact (Bus.write_stackCell written outside sp).trans (by rw [steady.ram])
  | notTaken _ => exact kept
  | taken _ located | jump located =>
    exact kept.same (.of_steady rfl ((Bus.locate_steady _ _).ok located))
  | call located =>
    have steady := (Bus.locate_steady _ _).ok located
    rename_i t b
    have called : Returnable ret s depth { m with bus := b } := kept.same (.of_steady rfl steady)
    simp only [Effect.pushes, Effect.pulls] at room
    exact ((called.pushed (by omega) _).pushed (by omega) _).same ⟨rfl, fun _ => rfl⟩
  | «return» =>
    simp only [Effect.pulls] at deep
    exact ((kept.pulled (by omega)).pulled (by omega)).same ⟨rfl, fun _ => rfl⟩
  | resume =>
    simp only [Effect.pulls] at deep
    have flags : Returnable ret s (depth - 1) (m.pulled.withFlags m.top) :=
      (kept.pulled (by omega)).same ⟨rfl, fun _ => rfl⟩
    exact ((flags.pulled (by omega)).pulled (by omega)).same ⟨rfl, fun _ => rfl⟩
  | push =>
    simp only [Effect.pulls, Effect.pushes] at room
    exact kept.pushed (by omega) _
  | pull =>
    simp only [Effect.pulls] at deep
    exact (kept.pulled (by omega)).same ⟨spares _ _, fun _ => rfl⟩

theorem step (kept : Returnable ret s depth m) (stepped : Stepped m o m')
    (disciplined : Disciplined m depth depth') : Returnable ret s depth' m' := by
  cases stepped with
  | still halted =>
    cases disciplined with
    | idle _ => exact kept
    | operation next _ _ _ _ => cases (nextOperation_of_halted halted).symm.trans next
  | stop fetch =>
    have next : m.nextOperation? = some .brk := by
      rw [nextOperation?, next_of_fetch fetch, InstructionSet.lookup_zero]
    cases disciplined with
    | idle none => cases next.symm.trans none
    | operation next' _ _ _ _ =>
      cases next.symm.trans next'
      exact kept.same (.of_steady rfl ((Bus.read_steady _).ok fetch.read))
  | instruction fetch known found performed =>
    rename_i log
    have next := nextOperation_of_fetch fetch found
    cases disciplined with
    | idle none => cases next.symm.trans none
    | operation next' other outside deep room =>
      cases next.symm.trans next'
      have fetched : Returnable ret s depth ⟨m.cpu.advance 1, _, log⟩ :=
        kept.same (.of_steady rfl ((Bus.read_steady _).ok fetch.read))
      have done := fetched.performed performed (Operation.spares_pointer _ other) deep room
        fun writes t _ located => outside t (written_of_fetch fetch found writes located)
      exact done.same ⟨Cpu.past_sp .., fun _ => rfl⟩

theorem body (kept : Returnable ret s depth m) (body : Body m depth m' depth') :
    Returnable ret s depth' m' := by
  induction body with
  | nil => exact kept
  | step _ stepped disciplined ih => exact ih.step (step_ok stepped) disciplined

/-- At depth two the return address is the word that is pulled next. -/
theorem word_top (kept : Returnable ret s 2 m) : word m.top m.pulled.top = ret := by
  have pointer : m.cpu.sp + 1 = s - 1 := by
    rw [kept.pointer]
    grind
  have low : m.top = Nes.low ret := by
    rw [← kept.low, ← pointer]
    rfl
  have high : m.pulled.top = Nes.high ret := by
    rw [← kept.high, ← UInt8.sub_add_cancel s 1, ← pointer]
    rfl
  rw [low, high, word_low_high]

end Returnable

/-- A call leaves the address of its last byte on the stack. -/
theorem returnable_of_call {m m' : Machine} (call : m.nextOperation? = some .jsr)
    (stepped : Stepped m o m') : Returnable (m.cpu.pc + 2) m.cpu.sp 2 m' := by
  obtain ⟨i, b, fetch, found, jsr⟩ := fetch_of_nextOperation call
  obtain ⟨_, m₁, log, performed, rfl⟩ := stepped.performed fetch found (by rw [jsr]; decide)
  rw [jsr] at performed
  cases performed with
  | call located =>
    rename_i t b'
    have last : m.cpu.pc + 2 = m.cpu.pc + 1 + 1 := (UInt16.add_assoc m.cpu.pc 1 1).symm
    rw [last]
    exact (Returnable.of_pushed ⟨m.cpu.advance 1, b', log⟩ _).same ⟨Cpu.past_sp .., fun _ => rfl⟩

/-- A return never fails, and ends where the word on top of the stack says. -/
theorem step_return {m : Machine} (ret : m.nextOperation? = some .rts) :
    ∃ m', step.run m = .ok .running m' ∧ m'.cpu.pc = word m.top m.pulled.top + 1 ∧
      m'.cpu.sp = m.cpu.sp + 2 := by
  obtain ⟨i, b, fetch, found, rts⟩ := fetch_of_nextOperation ret
  have unfailed (e : Fault) (c : Cpu) (d : Bus) :
      ¬ Failed i.mode (m.cpu.advance 1) b i.operation.effect e c d :=
    fun failed => failed.seeks (by rw [rts]; rfl)
  obtain ⟨m₁, log, performed, stepped⟩ := step_unfailed fetch found (by rw [rts]; decide) unfailed
  have fits := InstructionSet.fits_of_lookup found
  rw [rts] at fits performed
  have implied : i.mode = .implied := of_decide_eq_true fits
  have short : i.length = 1 := by rw [InstructionSet.length_of_lookup found, implied]; rfl
  have ram : b.ram = m.bus.ram := ((Bus.read_steady _).ok fetch.read).ram
  refine ⟨_, stepped, ?_⟩
  cases performed with
  | «return» =>
    simp only [Cpu.past_short _ _ short]
    refine ⟨?_, ?_⟩
    · simp only [top, resumedAt, pulled, ram]
      rfl
    · exact UInt8.add_assoc m.cpu.sp 1 1

/-- The return that matches a call comes back behind it, with the stack as it was. -/
theorem return_after_call {m m₁ m₂ : Machine} (call : m.nextOperation? = some .jsr)
    (called : step.run m = .ok .running m₁) (body : Body m₁ 2 m₂ 2)
    (ret : m₂.nextOperation? = some .rts) :
    ∃ m₃, step.run m₂ = .ok .running m₃ ∧ m₃.cpu.pc = m.cpu.pc + 3 ∧ m₃.cpu.sp = m.cpu.sp := by
  have kept := (returnable_of_call call (step_ok called)).body body
  obtain ⟨m₃, returned, pc, sp⟩ := step_return ret
  refine ⟨m₃, returned, ?_, ?_⟩
  · rw [pc, kept.word_top]
    exact UInt16.add_assoc m.cpu.pc 2 1
  · rw [sp, kept.pointer]
    exact UInt8.sub_add_cancel m.cpu.sp 2

/-- A subroutine that calls another, which saves the flags; the stack wraps around. -/
def nestedCall : Machine :=
  holding [0x20, 0x04, 0x00, 0x00, 0x20, 0x08, 0x00, 0x60, 0x08, 0x28, 0x60]

theorem nestedCall_runs :
    (∀ k < 6, step.answer (nestedCall.afterSteps k) = .ok .running) ∧
    (∀ k < 6, (nestedCall.afterSteps k).written? = none) ∧
    (List.range 6).map (fun k => (nestedCall.afterSteps k).nextOperation?) =
      [some .jsr, some .jsr, some .php, some .plp, some .rts, some .rts] := by
  decide +kernel

theorem return_after_call_nested :
    nestedCall.nextOperation? = some .jsr ∧
    step.run nestedCall = .ok .running (nestedCall.afterSteps 1) ∧
    Body (nestedCall.afterSteps 1) 2 (nestedCall.afterSteps 5) 2 ∧
    (nestedCall.afterSteps 5).nextOperation? = some .rts ∧
    ∃ m, step.run (nestedCall.afterSteps 5) = .ok .running m ∧ m.cpu.pc = 3 ∧ m.cpu.sp = 0 := by
  obtain ⟨answers, silent, operations⟩ := nestedCall_runs
  simp only [List.range, List.range.loop, List.map_cons, List.map_nil, List.cons.injEq] at operations
  obtain ⟨call, call', push, pull, ret', ret, _⟩ := operations
  have runs (k : Nat) (below : k < 6) : step.run (nestedCall.afterSteps k) =
      .ok .running (nestedCall.afterSteps (k + 1)) := run_of_answer_ok (answers k below)
  have quiet (k : Nat) (below : k < 6) (a : Address)
      (written : (nestedCall.afterSteps k).written? = some a) : inStackPage a = false := by
    rw [silent k below] at written
    cases written
  have extend {k depth : Nat} {op : Operation}
      (body : Body (nestedCall.afterSteps 1) 2 (nestedCall.afterSteps k) depth) (below : k < 6)
      (next : (nestedCall.afterSteps k).nextOperation? = some op) (other : op ≠ .txs)
      (deep : 2 + op.effect.pulls ≤ depth)
      (room : depth - op.effect.pulls + op.effect.pushes ≤ 256) :
      Body (nestedCall.afterSteps 1) 2 (nestedCall.afterSteps (k + 1))
        (depth - op.effect.pulls + op.effect.pushes) :=
    .step body (runs k below) (.operation next other (quiet k below) deep room)
  have entered := extend .nil (by decide) call' (by decide) (by decide) (by decide)
  have saved := extend entered (by decide) push (by decide) (by decide) (by decide)
  have restored := extend saved (by decide) pull (by decide) (by decide) (by decide)
  have body := extend restored (by decide) ret' (by decide) (by decide) (by decide)
  exact ⟨call, runs 0 (by decide), body, ret, return_after_call call (runs 0 (by decide)) body ret⟩

end Machine
end Nes
