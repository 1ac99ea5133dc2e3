import Nes.Proofs.InstructionTable
import Nes.Proofs.RegisterFrame
import Nes.Proofs.Subroutine

/-! Where a step goes on. An instruction that leaves PC alone is followed by the one behind it, a
branch that is taken goes as far as its offset says, and a return goes where the stack says. A step
takes PC on its first operand byte for a sign that the instruction left it alone, and a jump or a
branch may have put it there. -/
namespace Nes

open Nes.Action

theorem displacement_eq_neg_one_iff (b : Byte) : displacement b = -1 ↔ b.toInt8.toInt = -1 := by
  have bound := b.toNat_lt
  have last : (-1 : Address).toNat = 0xFFFF := rfl
  rw [← UInt16.toNat_inj, toNat_displacement, toInt_toInt8, last]
  split <;> omega

/-- The flag that a conditional branch looks at, and how it has to stand for the branch to be
taken. -/
def Operation.condition? : Operation → Option (Status.Flag × Bool)
  | bcc => some (.carry, false)
  | bcs => some (.carry, true)
  | bne => some (.zero, false)
  | beq => some (.zero, true)
  | bpl => some (.negative, false)
  | bmi => some (.negative, true)
  | bvc => some (.overflow, false)
  | bvs => some (.overflow, true)
  | _ => none

theorem Operation.effect_of_condition (op : Operation)
    (branch : op.condition? = some (flag, wanted)) :
    ∃ taken, op.effect = .branch taken ∧ ∀ s : Status, taken s = (s.get flag == wanted) := by
  cases op <;> cases branch <;> refine ⟨_, rfl, fun s => ?_⟩ <;> simp [Status.get]

/-- What an operation does with registers leaves PC alone, and it does nothing else with it. -/
def Effect.SparesCounter : Effect → Prop
  | .internal f => ∀ c, (f c).pc = c.pc
  | .load use | .modify _ use | .pull use => ∀ v c, (use v c).pc = c.pc
  | .store _ | .push _ => True
  | .branch _ | .jump | .call | .return | .resume => False

theorem Operation.spares_counter (op : Operation) (straight : op.condition? = none)
    (other : op ∉ [.jmp, .jsr, .rts, .rti]) : op.effect.SparesCounter := by
  cases op with
  | bcc | bcs | bne | beq | bpl | bmi | bvc | bvs => cases straight
  | jmp | jsr | rts | rti => exact absurd (by decide) other
  | tax | tay | txa | tya | tsx | txs | inx | iny | dex | dey | brk | nop | clc | sec | cld | sed
  | cli | sei | clv => exact fun _ => rfl
  | lda | ldx | ldy | adc | sbc | and | ora | eor | bit | cmp | cpx | cpy | inc | dec | asl | lsr
  | rol | ror | pla | plp | lax | dcp | isb | slo | rla | sre | rra | anc | alr | arr | axs =>
    exact fun _ _ => rfl
  | sta | stx | sty | sax | pha | php => trivial

/-- How far the next instruction is, but for the mode that only jumps have. -/
theorem Mode.ofNat_length {mode : Mode} (direct : mode ≠ .indirect) :
    UInt16.ofNat mode.length =
      if mode ∈ [.implied, .accumulator] then 1
      else if mode ∈ [.absolute, .absoluteX, .absoluteY] then 3 else 2 := by
  cases mode with
  | indirect => exact absurd rfl direct
  | implied | accumulator | absolute | absoluteX | absoluteY => rfl
  | immediate | zeroPage | zeroPageX | zeroPageY | indirectX | indirectY | relative => rfl

/-- Behind its operand bytes an instruction is as far from its start as its mode says. -/
theorem Cpu.past_straight {c : Cpu} {p : Address} (kept : c.pc = p + 1)
    (length : i.length = i.mode.length) : (c.past (p + 1) i).pc = p + UInt16.ofNat i.mode.length := by
  have behind (mode : Mode) : 1 + UInt16.ofNat (mode.length - 1) = UInt16.ofNat mode.length := by
    cases mode <;> rfl
  rw [past_pc, if_pos kept, kept, length, UInt16.add_assoc, behind]

/-- A branch to its own offset byte falls through. -/
theorem Cpu.past_branched {c : Cpu} {p : Address} (target : c.pc = p + 2 + displacement offset)
    (length : i.length = 2) :
    (c.past (p + 1) i).pc =
      if offset.toInt8.toInt = -1 then p + 2 else p + 2 + UInt16.ofInt offset.toInt8.toInt := by
  have own : c.pc = p + 1 ↔ offset.toInt8.toInt = -1 := by
    rw [target, ← displacement_eq_neg_one_iff]
    constructor <;> intro h <;> grind
  rw [past_pc, length]
  simp only [own]
  split
  next back =>
    rw [own.2 back]
    exact UInt16.add_assoc p 1 1
  · rw [target, displacement_eq_ofInt]

namespace Machine

/-- The next instruction is a jump or a call, with its target at `t`. -/
inductive Transfers (m : Machine) (t : Address) : Prop
  | resolved : m.Fetches i.code b → InstructionSet.standard.lookup i.code = some i →
      i.operation = .jmp ∨ i.operation = .jsr →
      (Bus.locate i.mode (m.cpu.advance 1)).run b = .ok t b' → Transfers m t

variable {m m' : Machine}

/-- A jump and a call only fail to find their target. -/
theorem Failed.of_transfer {op : Operation} (transfer : op = .jmp ∨ op = .jsr)
    (located : (Bus.locate mode c).run b = .ok t b') : ¬ Failed mode c b op.effect e c' d := by
  rintro (⟨sought, failed⟩ | ⟨_, _, access⟩)
  · rcases transfer with rfl | rfl <;> cases sought <;> cases located.symm.trans failed
  · rcases transfer with rfl | rfl <;> cases access

theorem Performed.transfer {op : Operation} (transfer : op = .jmp ∨ op = .jsr)
    (located : (Bus.locate mode m.cpu).run m.bus = .ok t b)
    (performed : Performed mode m op.effect m') : m'.cpu.pc = t := by
  rcases transfer with rfl | rfl
  · cases performed with
    | jump located' =>
      cases located.symm.trans located'
      rfl
  · cases performed with
    | call located' =>
      cases located.symm.trans located'
      rfl

/-- A jump and a call go on at their target, unless that is the first byte of their own operand:
then both bytes of the operand are skipped, and they fall through. -/
theorem step_transfer (transfers : m.Transfers t) :
    ∃ m', step.run m = .ok .running m' ∧
      m'.cpu.pc = if t = m.cpu.pc + 1 then m.cpu.pc + 3 else t := by
  obtain ⟨fetch, found, transfer, located⟩ := transfers
  rename_i b i b'
  have running : i.operation ≠ .brk := by
    rcases transfer with same | same <;> rw [same] <;> decide
  obtain ⟨m₁, log, performed, stepped⟩ := step_unfailed fetch found running
    fun _ _ _ => Failed.of_transfer transfer located
  have target : m₁.cpu.pc = t := performed.transfer transfer located
  refine ⟨_, stepped, ?_⟩
  rw [Cpu.past_pc, target, InstructionSet.length_of_transfer found transfer]
  by_cases own : t = m.cpu.pc + 1
  · rw [if_pos own, if_pos own, own]
    exact UInt16.add_assoc m.cpu.pc 1 2
  · rw [if_neg own, if_neg own]

/-- The byte in a cell of the stack page, counted upwards from the stack pointer. -/
def stacked (m : Machine) (k : Byte) : Byte := m.bus.ram.get (stackCell (m.cpu.sp + k))

theorem Performed.spares_counter (performed : Performed mode m effect m')
    (spares : effect.SparesCounter) : m'.cpu.pc = m.cpu.pc := by
  cases performed with
  | internal => exact spares _
  | load _ _ | pull => exact spares _ _
  | accumulator _ _ | memory _ _ _ _ _ => exact spares _ _
  | store _ _ | push => rfl
  | notTaken _ | taken _ _ | jump _ | call _ | «return» | resume => exact spares.elim

/-- A branch that is taken goes to the end of its instruction plus its offset, which is read only
then. -/
theorem Performed.branched {taken : Status → Bool}
    (performed : Performed mode m (.branch taken) m') :
    (taken m.cpu.status = true → ∃ offset c, (Bus.read m.cpu.pc).run m.bus = .ok offset c ∧
      m'.cpu.pc = m.cpu.pc + 1 + displacement offset) ∧
    (taken m.cpu.status = false → m'.cpu.pc = m.cpu.pc) := by
  cases performed with
  | notTaken no => exact ⟨fun yes => (Bool.false_ne_true (no.symm.trans yes)).elim, fun _ => rfl⟩
  | taken yes located =>
    refine ⟨fun _ => ?_, fun no => (Bool.false_ne_true (no.symm.trans yes)).elim⟩
    obtain ⟨offset, c, read, ended⟩ := run_bind_ok.1 located
    cases ended
    exact ⟨offset, _, read, rfl⟩

theorem Performed.returned (performed : Performed mode m .return m') :
    m'.cpu.pc = word (m.stacked 1) (m.stacked 2) + 1 := by
  cases performed with
  | «return» =>
    have second : m.pulled.top = m.stacked 2 :=
      congrArg (fun sp => m.bus.ram.get (stackCell sp)) (UInt8.add_assoc m.cpu.sp 1 1)
    rw [← second]
    rfl

theorem Performed.resumed (performed : Performed mode m .resume m') :
    m'.cpu.pc = word (m.stacked 2) (m.stacked 3) := by
  cases performed with
  | resume =>
    have second : m.pulled.top = m.stacked 2 :=
      congrArg (fun sp => m.bus.ram.get (stackCell sp)) (UInt8.add_assoc m.cpu.sp 1 1)
    have third : m.pulled.pulled.top = m.stacked 3 :=
      congrArg (fun sp => m.bus.ram.get (stackCell sp))
        ((congrArg (· + 1) (UInt8.add_assoc m.cpu.sp 1 1)).trans (UInt8.add_assoc m.cpu.sp 2 1))
    rw [← second, ← third]
    rfl

/-- `JMP ($00FF)`, whose pointer wraps around within its page: the high byte is that at 0. -/
def wrappedJump : Machine := holding [0x6C, 0xFF, 0x00]

theorem step_transfer_wrapped :
    wrappedJump.Transfers 0x6C00 ∧
    ∃ m', step.run wrappedJump = .ok .running m' ∧ m'.cpu.pc = 0x6C00 := by
  have fetch : wrappedJump.Fetches 0x6C wrappedJump.bus := ⟨rfl, rfl⟩
  have listed : .documented .jmp 0x6C .indirect ∈ Instruction.documentedSet := by decide +kernel
  have found := InstructionSet.lookup_documented listed
  have located : (Bus.locate .indirect (wrappedJump.cpu.advance 1)).run wrappedJump.bus =
      .ok 0x6C00 wrappedJump.bus := rfl
  have transfers : wrappedJump.Transfers 0x6C00 :=
    .resolved (i := .documented .jmp 0x6C .indirect) fetch found (.inl rfl) located
  obtain ⟨m', stepped, pc⟩ := step_transfer transfers
  exact ⟨transfers, m', stepped, pc⟩

/-- `JMP $0001` at 0, to its own operand. -/
def selfJump : Machine := holding [0x4C, 0x01, 0x00]

/-- The jump to its own operand does not get there. -/
theorem step_selfJump :
    selfJump.Transfers 1 ∧ ¬ ∃ m', step.run selfJump = .ok .running m' ∧ m'.cpu.pc = 1 := by
  have fetch : selfJump.Fetches 0x4C selfJump.bus := ⟨rfl, rfl⟩
  have listed : .documented .jmp 0x4C .absolute ∈ Instruction.documentedSet := by decide +kernel
  have found := InstructionSet.lookup_documented listed
  have located : (Bus.locate .absolute (selfJump.cpu.advance 1)).run selfJump.bus =
      .ok 1 selfJump.bus := rfl
  refine ⟨.resolved (i := .documented .jmp 0x4C .absolute) fetch found (.inl rfl) located, ?_⟩
  rintro ⟨m', stepped, arrived⟩
  have passed : (step.after selfJump).cpu.pc = 3 := by decide +kernel
  rw [after_ok stepped, arrived] at passed
  exact absurd passed (by decide)

/-- Where a step goes on that is no jump and no call: one, two or three bytes on by the mode, at the
end of a branch or two bytes and the offset further if it is taken, or where the stack says. -/
theorem step_next (stepped : step.run m = .ok .running m') :
    ∃ i b, m.Fetches i.code b ∧ InstructionSet.standard.lookup i.code = some i ∧
      (i.operation.condition? = none → i.operation ∉ [.jmp, .jsr, .rts, .rti] →
        m'.cpu.pc = m.cpu.pc +
          if i.mode ∈ [.implied, .accumulator] then 1
          else if i.mode ∈ [.absolute, .absoluteX, .absoluteY] then 3 else 2) ∧
      (∀ flag wanted, i.operation.condition? = some (flag, wanted) →
        (m.cpu.status.get flag = wanted →
          ∃ offset c, (Bus.read (m.cpu.pc + 1)).run b = .ok offset c ∧
            m'.cpu.pc =
              if offset.toInt8.toInt = -1 then m.cpu.pc + 2
              else m.cpu.pc + 2 + UInt16.ofInt offset.toInt8.toInt) ∧
        (m.cpu.status.get flag ≠ wanted → m'.cpu.pc = m.cpu.pc + 2)) ∧
      (i.operation = .rts →
        m'.cpu.pc = UInt16.ofNat (256 * (m.stacked 2).toNat + (m.stacked 1).toNat) + 1) ∧
      (i.operation = .rti →
        m'.cpu.pc = UInt16.ofNat (256 * (m.stacked 3).toNat + (m.stacked 2).toNat)) := by
  cases step_ok stepped with
  | instruction fetch known found performed =>
    rename_i b i m₁ log
    have length := InstructionSet.length_of_lookup found
    have fits := InstructionSet.fits_of_lookup found
    have ram : b.ram = m.bus.ram := ((Bus.read_steady _).ok fetch.read).ram
    have stacked (k : Byte) : (Machine.mk (m.cpu.advance 1) b log).stacked k = m.stacked k := by
      rw [Machine.stacked, Machine.stacked, ram]
      rfl
    refine ⟨i, b, fetch, found, ?_, ?_, ?_, ?_⟩
    · intro straight other
      have direct : i.mode ≠ .indirect := fun indirect =>
        other (by rw [InstructionSet.jmp_of_indirect found indirect]; decide)
      have kept := performed.spares_counter (i.operation.spares_counter straight other)
      rw [← Mode.ofNat_length direct]
      exact Cpu.past_straight kept length
    · intro flag wanted branch
      obtain ⟨taken, effect, looks⟩ := i.operation.effect_of_condition branch
      rw [effect] at performed fits
      have relative : i.mode = .relative := of_decide_eq_true fits
      have two : i.mode.length = 2 := by rw [relative]; rfl
      obtain ⟨jumps, falls⟩ := performed.branched
      rw [looks] at jumps falls
      refine ⟨fun taken => ?_, fun other => ?_⟩
      · obtain ⟨offset, c, read, target⟩ := jumps (beq_iff_eq.2 taken)
        have target : m₁.cpu.pc = m.cpu.pc + 2 + displacement offset :=
          target.trans (congrArg (· + displacement offset) (UInt16.add_assoc m.cpu.pc 1 1))
        exact ⟨offset, c, read, Cpu.past_branched target (length.trans two)⟩
      · exact (Cpu.past_straight (falls (beq_false_of_ne other)) length).trans (by rw [two]; rfl)
    · intro rts
      rw [rts] at performed fits
      have implied : i.mode = .implied := of_decide_eq_true fits
      rw [Cpu.past_short _ _ (by rw [length, implied]; rfl), performed.returned, stacked, stacked]
      rfl
    · intro rti
      rw [rti] at performed fits
      have implied : i.mode = .implied := of_decide_eq_true fits
      rw [Cpu.past_short _ _ (by rw [length, implied]; rfl), performed.resumed, stacked, stacked]
      rfl

/-- `ASL $0001` at 0, which shifts the low byte of its own operand. -/
def ownShift : Machine := holding [0x0E, 0x01, 0x00]

/-- `ASL A` at 0. -/
def accumulatorShift : Machine := holding [0x0A]

/-- `BNE` at 0, four bytes back. -/
def backwardBranch : Machine := holding [0xD0, 0xFC]

/-- `RTS` at 0, to the byte behind it. -/
def nearReturn : Machine := holding [0x60]

theorem step_next_forms :
    (step.run ownShift = .ok .running (step.after ownShift) ∧
      (step.after ownShift).cpu.pc = 3) ∧
    (step.run accumulatorShift = .ok .running (step.after accumulatorShift) ∧
      (step.after accumulatorShift).cpu.pc = 1) ∧
    (step.run backwardBranch = .ok .running (step.after backwardBranch) ∧
      (step.after backwardBranch).cpu.pc = 0xFFFE) ∧
    (step.run nearReturn = .ok .running (step.after nearReturn) ∧
      (step.after nearReturn).cpu.pc = 1) := by
  refine ⟨?_, ?_, ?_, ?_⟩
  · have ended : step.run ownShift = .ok .running (step.after ownShift) :=
      run_of_answer_ok (by decide +kernel)
    obtain ⟨i, b, fetch, found, straight, _⟩ := step_next ended
    have listed : .documented .asl 0x0E .absolute ∈ Instruction.documentedSet := by decide +kernel
    obtain ⟨rfl, rfl⟩ := fetch.decodes found ⟨rfl, rfl⟩ (InstructionSet.lookup_documented listed)
    exact ⟨ended, straight rfl (by decide)⟩
  · have ended : step.run accumulatorShift = .ok .running (step.after accumulatorShift) :=
      run_of_answer_ok (by decide +kernel)
    obtain ⟨i, b, fetch, found, straight, _⟩ := step_next ended
    have listed : .documented .asl 0x0A .accumulator ∈ Instruction.documentedSet := by decide +kernel
    obtain ⟨rfl, rfl⟩ := fetch.decodes found ⟨rfl, rfl⟩ (InstructionSet.lookup_documented listed)
    exact ⟨ended, straight rfl (by decide)⟩
  · have ended : step.run backwardBranch = .ok .running (step.after backwardBranch) :=
      run_of_answer_ok (by decide +kernel)
    obtain ⟨i, b, fetch, found, _, branches, _⟩ := step_next ended
    have listed : .documented .bne 0xD0 .relative ∈ Instruction.documentedSet := by decide +kernel
    obtain ⟨rfl, rfl⟩ := fetch.decodes found ⟨rfl, rfl⟩ (InstructionSet.lookup_documented listed)
    obtain ⟨offset, c, read, target⟩ := (branches .zero false rfl).1 rfl
    have second : (Bus.read 1).run backwardBranch.bus = .ok 0xFC backwardBranch.bus := rfl
    cases second.symm.trans read
    exact ⟨ended, target⟩
  · have ended : step.run nearReturn = .ok .running (step.after nearReturn) :=
      run_of_answer_ok (by decide +kernel)
    obtain ⟨i, b, fetch, found, _, _, returns, _⟩ := step_next ended
    have listed : .documented .rts 0x60 .implied ∈ Instruction.documentedSet := by decide +kernel
    obtain ⟨rfl, rfl⟩ := fetch.decodes found ⟨rfl, rfl⟩ (InstructionSet.lookup_documented listed)
    exact ⟨ended, returns rfl⟩

end Machine
end Nes
