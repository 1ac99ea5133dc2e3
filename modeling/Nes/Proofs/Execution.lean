import Nes.Machine.Execute
import Nes.Proofs.Decoding
import Nes.Proofs.Operand

/-! What one operation can do. `Performed` lists the ways in which it comes to its end
and `AccessFault` the ways in which its own access to the operand fails; nothing else
can happen, since the stack lies in work RAM and never faults. -/
namespace Nes

open Nes.Action

theorem Cpu.toNat_stackTop (c : Cpu) : c.stackTop.toNat = 256 + c.sp.toNat := by
  have := c.sp.toNat_lt
  have page : (0x0100 : Address).toNat = 256 := rfl
  simp only [stackTop, UInt16.toNat_add, UInt8.toNat_toUInt16, page]
  omega

theorem Cpu.stackTop_lt (c : Cpu) : c.stackTop < 0x2000 := by
  have := c.sp.toNat_lt
  rw [UInt16.lt_iff_toNat_lt, toNat_stackTop]
  change 256 + c.sp.toNat < 0x2000
  omega

namespace Machine

/-- The machine after a push. -/
def pushed (m : Machine) (v : Byte) : Machine :=
  { m with
    cpu := { m.cpu with sp := m.cpu.sp - 1 }
    bus := { m.bus with ram := m.bus.ram.write m.cpu.stackTop v } }

/-- The machine after a pull. -/
def pulled (m : Machine) : Machine := { m with cpu := { m.cpu with sp := m.cpu.sp + 1 } }

/-- The byte that the next pull gives. -/
def top (m : Machine) : Byte := m.bus.ram.read m.pulled.cpu.stackTop

/-- The machine with the flags of a byte that was pushed. -/
def withFlags (m : Machine) (flags : Byte) : Machine :=
  { m with cpu := { m.cpu with status := (Status.ofByte flags).withBreak false } }

/-- The machine with its PC somewhere else. -/
def resumedAt (m : Machine) (pc : Address) : Machine := { m with cpu := { m.cpu with pc } }

theorem write_ok {m m' : Machine} (h : (write a v).run m = .ok () m') :
    ∃ b log, (Bus.write a v).run m.bus = .ok () b ∧ m' = ⟨m.cpu, b, log⟩ := by
  simp only [write, reporting, run_of] at h
  split at h
  next b t written _ => cases h; exact ⟨b, _, written, rfl⟩
  next b written _ => cases h; exact ⟨b, _, written, rfl⟩
  · cases h

theorem write_error {m m' : Machine} (h : (write a v).run m = .error e m') :
    (Bus.write a v).run m.bus = .error e m'.bus ∧ m'.cpu = m.cpu := by
  simp only [write, reporting, run_of] at h
  split at h
  · cases h
  · cases h
  next failed => cases h; exact ⟨failed, rfl⟩

@[simp] theorem run_push (v : Byte) (m : Machine) : (push v).run m = .ok () (m.pushed v) := by
  simp only [push, EStateM.run_bind, run_view, write, reporting, run_of,
    Bus.write_ram m.bus v m.cpu.stackTop_lt, Bus.dataTarget_ram m.bus m.cpu.stackTop_lt, run_update]
  rfl

@[simp] theorem run_pull (m : Machine) : pull.run m = .ok m.top m.pulled := by
  simp only [pull, EStateM.run_bind, run_update, run_view, read, run_onBus]
  rw [Bus.read_ram _ (Cpu.stackTop_lt _)]
  rfl

@[simp] theorem run_pushWord (v : Address) (m : Machine) :
    (pushWord v).run m = .ok () ((m.pushed (high v)).pushed (low v)) := by
  simp only [pushWord, EStateM.run_bind, run_push]

@[simp] theorem run_pullWord (m : Machine) :
    pullWord.run m = .ok (word m.top m.pulled.top) m.pulled.pulled := by
  simp only [pullWord, EStateM.run_bind, run_pull, EStateM.run_pure]

@[simp] theorem run_goto (target : Address) (m : Machine) :
    (goto target).run m = .ok () (m.resumedAt target) := rfl

/-- How an operation with a given effect comes to its end, PC being on the operand
bytes. The log is left open where the operation writes. -/
inductive Performed (mode : Mode) (m : Machine) : Effect → Machine → Prop
  | internal : Performed mode m (.internal f) { m with cpu := f m.cpu }
  | load : (Bus.locate mode m.cpu).run m.bus = .ok t b → (Bus.read t).run b = .ok v c →
      Performed mode m (.load use) { m with cpu := use v m.cpu, bus := c }
  | store {log : Log} : (Bus.locate mode m.cpu).run m.bus = .ok t b →
      (Bus.write t (source m.cpu)).run b = .ok () c →
      Performed mode m (.store source) ⟨m.cpu, c, log⟩
  | accumulator : mode = .accumulator → change m.cpu.status.carry m.cpu.a = (r, carry) →
      Performed mode m (.modify change use)
        { m with cpu := use r { m.cpu.withCarry carry with a := r } }
  | memory {log : Log} : mode ≠ .accumulator →
      (Bus.locate mode m.cpu).run m.bus = .ok t b → (Bus.read t).run b = .ok v c →
      change m.cpu.status.carry v = (r, carry) →
      (Bus.write t r).run c = .ok () d →
      Performed mode m (.modify change use) ⟨use r (m.cpu.withCarry carry), d, log⟩
  | notTaken : taken m.cpu.status = false → Performed mode m (.branch taken) m
  | taken : taken m.cpu.status = true → (Bus.locate .relative m.cpu).run m.bus = .ok t b →
      Performed mode m (.branch taken) ({ m with bus := b }.resumedAt t)
  | jump : (Bus.locate mode m.cpu).run m.bus = .ok t b →
      Performed mode m .jump ({ m with bus := b }.resumedAt t)
  | call : (Bus.locate mode m.cpu).run m.bus = .ok t b →
      Performed mode m .call
        ((({ m with bus := b }.pushed (high (m.cpu.pc + 1))).pushed (low (m.cpu.pc + 1))).resumedAt t)
  | return : Performed mode m .return (m.pulled.pulled.resumedAt (word m.top m.pulled.top + 1))
  | resume : Performed mode m .resume
      (((m.pulled.withFlags m.top).pulled.pulled).resumedAt (word m.pulled.top m.pulled.pulled.top))
  | push : Performed mode m (.push source) (m.pushed (source m.cpu))
  | pull : Performed mode m (.pull use) { m.pulled with cpu := use m.top m.pulled.cpu }

theorem operandAddress_ok {m m' : Machine} (h : (operandAddress mode).run m = .ok t m') :
    ∃ b, (Bus.locate mode m.cpu).run m.bus = .ok t b ∧ m' = { m with bus := b } :=
  onBus_ok.1 (run_operandAddress mode m ▸ h)

theorem readOperand_ok {m m' : Machine} (h : (readOperand mode).run m = .ok v m') :
    ∃ t b c, (Bus.locate mode m.cpu).run m.bus = .ok t b ∧ (Bus.read t).run b = .ok v c ∧
      m' = { m with bus := c } := by
  obtain ⟨t, _, resolved, h⟩ := run_bind_ok.1 h
  obtain ⟨b, located, rfl⟩ := operandAddress_ok resolved
  obtain ⟨c, found, rfl⟩ := onBus_ok.1 h
  exact ⟨t, b, c, located, found, rfl⟩

theorem modifyOperand_ok {m m' : Machine} (h : (modifyOperand change mode).run m = .ok r m') :
    (mode = .accumulator ∧ ∃ carry, change m.cpu.status.carry m.cpu.a = (r, carry) ∧
      m' = { m with cpu := { m.cpu.withCarry carry with a := r } }) ∨
    (mode ≠ .accumulator ∧ ∃ t b v c carry d log,
      (Bus.locate mode m.cpu).run m.bus = .ok t b ∧ (Bus.read t).run b = .ok v c ∧
      change m.cpu.status.carry v = (r, carry) ∧ (Bus.write t r).run c = .ok () d ∧
      m' = ⟨m.cpu.withCarry carry, d, log⟩) := by
  obtain ⟨_, _, ⟨⟩, h⟩ := run_bind_ok.1 h
  split at h
  · obtain ⟨_, _, ⟨⟩, h⟩ := run_bind_ok.1 h
    obtain ⟨_, _, ⟨⟩, ⟨⟩⟩ := run_bind_ok.1 h
    exact .inl ⟨rfl, _, rfl, rfl⟩
  · next memory =>
    obtain ⟨t, _, resolved, h⟩ := run_bind_ok.1 h
    obtain ⟨b, located, rfl⟩ := operandAddress_ok resolved
    obtain ⟨v, _, got, h⟩ := run_bind_ok.1 h
    obtain ⟨c, found, rfl⟩ := onBus_ok.1 got
    obtain ⟨_, _, ⟨⟩, h⟩ := run_bind_ok.1 h
    obtain ⟨_, _, put, ⟨⟩⟩ := run_bind_ok.1 h
    obtain ⟨d, log, written, rfl⟩ := write_ok put
    exact .inr ⟨memory, t, b, v, c, _, d, log, located, found, rfl, written, rfl⟩

theorem perform_ok {m m' : Machine} (h : (perform effect mode).run m = .ok () m') :
    Performed mode m effect m' := by
  cases effect with
  | internal f => cases h; exact .internal
  | load use =>
    obtain ⟨v, _, got, ⟨⟩⟩ := run_bind_ok.1 h
    obtain ⟨t, b, c, located, found, rfl⟩ := readOperand_ok got
    exact .load located found
  | store source =>
    obtain ⟨t, _, resolved, h⟩ := run_bind_ok.1 h
    obtain ⟨b, located, rfl⟩ := operandAddress_ok resolved
    obtain ⟨_, _, ⟨⟩, h⟩ := run_bind_ok.1 h
    obtain ⟨c, log, written, rfl⟩ := write_ok h
    exact .store located written
  | modify change use =>
    obtain ⟨r, _, modified, ⟨⟩⟩ := run_bind_ok.1 h
    rcases modifyOperand_ok modified with ⟨accumulator, carry, changed, rfl⟩ |
      ⟨memory, t, b, v, c, carry, d, log, located, found, changed, written, rfl⟩
    · exact .accumulator accumulator changed
    · exact .memory memory located found changed written
  | branch taken =>
    obtain ⟨_, _, ⟨⟩, h⟩ := run_bind_ok.1 h
    split at h
    next yes =>
      obtain ⟨t, _, resolved, ⟨⟩⟩ := run_bind_ok.1 h
      obtain ⟨b, located, rfl⟩ := operandAddress_ok resolved
      exact .taken yes located
    next no => cases h; exact .notTaken (Bool.eq_false_iff.2 no)
  | jump =>
    obtain ⟨t, _, resolved, ⟨⟩⟩ := run_bind_ok.1 h
    obtain ⟨b, located, rfl⟩ := operandAddress_ok resolved
    exact .jump located
  | call =>
    obtain ⟨t, _, resolved, h⟩ := run_bind_ok.1 h
    obtain ⟨b, located, rfl⟩ := operandAddress_ok resolved
    simp only [EStateM.run_bind, run_view, run_pushWord, run_goto] at h
    cases h
    exact .call located
  | «return» =>
    simp only [perform, EStateM.run_bind, run_pullWord, run_goto] at h
    cases h
    exact .return
  | resume =>
    simp only [perform, EStateM.run_bind, run_pull, run_update, run_pullWord, run_goto] at h
    cases h
    exact .resume
  | push source =>
    simp only [perform, EStateM.run_bind, run_view, run_push] at h
    cases h
    exact .push
  | pull use =>
    simp only [perform, EStateM.run_bind, run_pull, run_update] at h
    cases h
    exact .pull

theorem run_execute_load {m : Machine} (loads : op.effect = .load use)
    (located : (Bus.locate mode m.cpu).run m.bus = .ok t b) (found : (Bus.read t).run b = .ok v c) :
    (execute op mode).run m = .ok () { m with cpu := use v m.cpu, bus := c } := by
  simp only [execute, loads, perform, readOperand, EStateM.run_bind, run_operandAddress, run_onBus,
    located, read, found, run_update]

theorem run_execute_load_fault {m : Machine} (loads : op.effect = .load use)
    (located : (Bus.locate mode m.cpu).run m.bus = .ok t b)
    (missing : (Bus.read t).run b = .error e c) :
    (execute op mode).run m = .error e { m with bus := c } := by
  simp only [execute, loads, perform, readOperand, EStateM.run_bind, run_operandAddress, run_onBus,
    located, read, missing]

theorem run_execute_accumulator (m : Machine) (changes : op.effect = .modify change use) :
    (execute op .accumulator).run m =
      let r := change m.cpu.status.carry m.cpu.a
      .ok () { m with cpu := use r.1 { m.cpu.withCarry r.2 with a := r.1 } } := by
  simp only [execute, changes, perform, modifyOperand, EStateM.run_bind, run_view, run_update,
    EStateM.run_pure]

/-- A change in place of a cell of work RAM, wherever the search for it led. -/
theorem run_execute_cell {m : Machine} {b : Bus} (effect : op.effect = .modify change use)
    (located : (Bus.locate mode m.cpu).run m.bus = .ok t b)
    (region : Region.ofAddress t = .ram cell)
    (changed : change m.cpu.status.carry (b.ram.get cell) = r) :
    (execute op mode).run m = .ok () { m with
      cpu := use r.1 (m.cpu.withCarry r.2), bus := { b with ram := b.ram.set cell r.1 } } := by
  have addressed : mode ≠ .accumulator := by
    rintro rfl
    cases located
  have inMemory : modifyOperand change mode = do
      let carry ← view (·.status.carry)
      let target ← operandAddress mode
      let v ← read target
      update (·.withCarry (change carry v).2)
      write target (change carry v).1
      return (change carry v).1 := by
    unfold modifyOperand
    split
    · exact absurd rfl addressed
    · rfl
  obtain ⟨below, rfl⟩ := Bus.ram_of_ofAddress region
  simp only [execute, effect, perform, inMemory, EStateM.run_bind, run_update, run_view,
    run_operandAddress, run_onBus, located, read, Bus.read_ram _ below, write, reporting, run_of,
    Bus.write_ram _ _ below, Bus.dataTarget_ram _ below, EStateM.run_pure]
  rw [← changed]
  rfl

end Machine

/-- How the access to an operand at `t` fails, for a CPU `c` and the bus `b` that the search
for the operand left behind. The carry of a change in place is set before the write. -/
inductive AccessFault (c : Cpu) (b : Bus) (t : Address) : Effect → Fault → Cpu → Bus → Prop
  | load : (Bus.read t).run b = .error e d → AccessFault c b t (.load use) e c d
  | store : (Bus.write t (source c)).run b = .error e d → AccessFault c b t (.store source) e c d
  | modifyRead : (Bus.read t).run b = .error e d → AccessFault c b t (.modify change use) e c d
  | modifyWrite : (Bus.read t).run b = .ok v b' → change c.status.carry v = (r, carry) →
      (Bus.write t r).run b' = .error e d →
      AccessFault c b t (.modify change use) e (c.withCarry carry) d

namespace Machine

/-- How an operation with a given effect faults, with the registers and the bus it leaves. -/
inductive Failed (mode : Mode) (c : Cpu) (b : Bus) (effect : Effect) (e : Fault) :
    Cpu → Bus → Prop
  | operand : effect.sought? mode = some sought → (Bus.locate sought c).run b = .error e d →
      Failed mode c b effect e c d
  | access : effect.sought? mode = some mode → (Bus.locate mode c).run b = .ok t b' →
      AccessFault c b' t effect e c' d → Failed mode c b effect e c' d

/-- Only what seeks an operand can fail. -/
theorem Failed.seeks (failed : Failed mode c b effect e c' d) : effect.sought? mode ≠ none := by
  cases failed with
  | operand sought _ | access sought _ _ => exact Option.ne_none_iff_exists'.2 ⟨_, sought⟩

theorem Failed.of_operandAddress {m m' : Machine} (sought : effect.sought? mode = some mode')
    (h : (operandAddress mode').run m = .error e m') :
    Failed mode m.cpu m.bus effect e m'.cpu m'.bus := by
  obtain ⟨b, failed, rfl⟩ := onBus_error.1 (run_operandAddress mode' m ▸ h)
  exact .operand sought failed

theorem modifyOperand_error {m m' : Machine}
    (h : (modifyOperand change mode).run m = .error e m') :
    Failed mode m.cpu m.bus (.modify change use) e m'.cpu m'.bus := by
  obtain ⟨⟨⟩⟩ | ⟨_, _, ⟨⟩, h⟩ := run_bind_error.1 h
  split at h
  · obtain ⟨⟨⟩⟩ | ⟨_, _, ⟨⟩, h⟩ := run_bind_error.1 h
    obtain ⟨⟨⟩⟩ | ⟨_, _, ⟨⟩, ⟨⟩⟩ := run_bind_error.1 h
  · next memory =>
    have sought : (Effect.modify change use).sought? mode = some mode := if_neg memory
    obtain failed | ⟨t, _, resolved, h⟩ := run_bind_error.1 h
    · exact .of_operandAddress sought failed
    obtain ⟨b, located, rfl⟩ := operandAddress_ok resolved
    obtain failed | ⟨v, _, got, h⟩ := run_bind_error.1 h
    · obtain ⟨c, missing, rfl⟩ := onBus_error.1 failed
      exact .access sought located (.modifyRead missing)
    obtain ⟨c, found, rfl⟩ := onBus_ok.1 got
    obtain ⟨⟨⟩⟩ | ⟨_, _, ⟨⟩, h⟩ := run_bind_error.1 h
    obtain failed | ⟨_, _, _, ⟨⟩⟩ := run_bind_error.1 h
    obtain ⟨failed, kept⟩ := write_error failed
    rw [kept]
    exact .access sought located (.modifyWrite found rfl failed)

theorem perform_error {m m' : Machine} (h : (perform effect mode).run m = .error e m') :
    Failed mode m.cpu m.bus effect e m'.cpu m'.bus := by
  cases effect with
  | internal f => cases h
  | load use =>
    obtain h | ⟨_, _, _, ⟨⟩⟩ := run_bind_error.1 h
    obtain failed | ⟨t, _, resolved, h⟩ := run_bind_error.1 h
    · exact .of_operandAddress rfl failed
    obtain ⟨b, located, rfl⟩ := operandAddress_ok resolved
    obtain ⟨c, failed, rfl⟩ := onBus_error.1 h
    exact .access rfl located (.load failed)
  | store source =>
    obtain failed | ⟨t, _, resolved, h⟩ := run_bind_error.1 h
    · exact .of_operandAddress rfl failed
    obtain ⟨b, located, rfl⟩ := operandAddress_ok resolved
    obtain ⟨⟨⟩⟩ | ⟨_, _, ⟨⟩, h⟩ := run_bind_error.1 h
    obtain ⟨failed, kept⟩ := write_error h
    rw [kept]
    exact .access rfl located (.store failed)
  | modify change use =>
    obtain h | ⟨_, _, _, ⟨⟩⟩ := run_bind_error.1 h
    exact modifyOperand_error h
  | branch taken =>
    obtain ⟨⟨⟩⟩ | ⟨_, _, ⟨⟩, h⟩ := run_bind_error.1 h
    split at h
    · obtain failed | ⟨_, _, _, ⟨⟩⟩ := run_bind_error.1 h
      exact .of_operandAddress rfl failed
    · cases h
  | jump =>
    obtain failed | ⟨_, _, _, ⟨⟩⟩ := run_bind_error.1 h
    exact .of_operandAddress rfl failed
  | call =>
    obtain failed | ⟨t, _, _, h⟩ := run_bind_error.1 h
    · exact .of_operandAddress rfl failed
    simp only [EStateM.run_bind, run_view, run_pushWord, run_goto] at h
    cases h
  | «return» =>
    simp only [perform, EStateM.run_bind, run_pullWord, run_goto] at h
    cases h
  | resume =>
    simp only [perform, EStateM.run_bind, run_pull, run_update, run_pullWord, run_goto] at h
    cases h
  | push source =>
    simp only [perform, EStateM.run_bind, run_view, run_push] at h
    cases h
  | pull use =>
    simp only [perform, EStateM.run_bind, run_pull, run_update] at h
    cases h

end Machine
end Nes
