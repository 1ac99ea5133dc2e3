import Nes.Proofs.FaultFrame

/-! What an instruction does to registers and flags. Each has a list of those that it may change;
all others are as before. An instruction that has a result sets the zero and the negative flag by
it: by the register it ends in, by the byte it writes, or by the difference of what it compares. -/
namespace Nes

open Nes.Action

inductive Cpu.Register where
  | a
  | x
  | y
  | sp
  deriving DecidableEq

def Cpu.get (c : Cpu) : Register → Byte
  | .a => c.a
  | .x => c.x
  | .y => c.y
  | .sp => c.sp

inductive Status.Flag where
  | carry
  | zero
  | interruptDisable
  | decimal
  | breakLow
  | breakHigh
  | overflow
  | negative
  deriving DecidableEq

namespace Status

def get (s : Status) : Flag → Bool
  | .carry => s.carry
  | .zero => s.zero
  | .interruptDisable => s.interruptDisable
  | .decimal => s.decimal
  | .breakLow => s.breakLow
  | .breakHigh => s.breakHigh
  | .overflow => s.overflow
  | .negative => s.negative

def Flag.all : List Flag :=
  [carry, zero, interruptDisable, decimal, breakLow, breakHigh, overflow, negative]

end Status

namespace Operation

/-- The registers that an operation may change, PC apart. -/
def registers : Operation → Mode → List Cpu.Register
  | lda, _ | txa, _ | tya, _ | adc, _ | sbc, _ | and, _ | ora, _ | eor, _ | isb, _ | slo, _ | rla, _
  | sre, _ | rra, _ | anc, _ | alr, _ | arr, _ => [.a]
  | asl, mode | lsr, mode | rol, mode | ror, mode => if mode = .accumulator then [.a] else []
  | lax, _ => [.a, .x]
  | ldx, _ | tax, _ | tsx, _ | inx, _ | dex, _ | axs, _ => [.x]
  | ldy, _ | tay, _ | iny, _ | dey, _ => [.y]
  | pla, _ => [.a, .sp]
  | txs, _ | pha, _ | php, _ | plp, _ | jsr, _ | rts, _ | rti, _ => [.sp]
  | _, _ => []

/-- The flags that an operation may change. -/
def flags : Operation → List Status.Flag
  | lda | ldx | ldy | tax | tay | txa | tya | tsx | inx | iny | dex | dey | inc | dec | and | ora | eor
  | pla | lax => [.negative, .zero]
  | cmp | cpx | cpy | asl | lsr | rol | ror | dcp | slo | rla | sre | anc | alr | axs =>
    [.negative, .zero, .carry]
  | adc | sbc | isb | rra | arr => [.negative, .overflow, .zero, .carry]
  | bit => [.negative, .overflow, .zero]
  | clc | sec => [.carry]
  | cld | sed => [.decimal]
  | cli | sei => [.interruptDisable]
  | clv => [.overflow]
  | plp | rti => Status.Flag.all
  | brk => [.breakLow, .breakHigh]
  | _ => []

end Operation

/-- What an operation with this effect does to the registers, PC apart, leaves a part of them
alone. -/
def Effect.Keeps (part : Cpu → α) : Effect → Mode → Prop
  | .internal f, _ => ∀ c, part (f c) = part c
  | .load use, _ => ∀ v c, part (use v c) = part c
  | .modify change use, mode =>
    (mode = .accumulator → ∀ c r carry, change c.status.carry c.a = (r, carry) →
      part (use r { c.withCarry carry with a := r }) = part c) ∧
    ∀ v c r carry, change c.status.carry v = (r, carry) → part (use r (c.withCarry carry)) = part c
  | .push _, _ | .call, _ | .return, _ => ∀ c sp, part { c with sp } = part c
  | .pull use, _ => ∀ v c sp, part (use v { c with sp }) = part c
  | .resume, _ => ∀ c sp status, part { c with sp, status } = part c
  | .store _, _ | .branch _, _ | .jump, _ => True

theorem Cpu.get_of_pc (r : Register) (c : Cpu) (pc : Address) :
    ({ c with pc } : Cpu).get r = c.get r := by
  cases r <;> rfl

theorem Machine.Performed.keeps {part : Cpu → α} {m m' : Machine}
    (performed : Performed mode m effect m') (blind : ∀ c pc, part { c with pc } = part c)
    (keeps : effect.Keeps part mode) : part m'.cpu = part m.cpu := by
  cases performed with
  | internal => exact keeps _
  | load _ _ => exact keeps _ _
  | store _ _ | notTaken _ => rfl
  | accumulator accumulator changed => exact keeps.1 accumulator _ _ _ changed
  | memory _ _ _ changed _ => exact keeps.2 _ _ _ _ changed
  | taken _ _ | jump _ => exact blind _ _
  | call _ | «return» => exact (blind _ _).trans (keeps m.cpu _)
  | resume => exact (blind _ _).trans (keeps m.cpu _ _)
  | push => exact keeps m.cpu _
  | pull => exact keeps _ m.cpu _

namespace Operation

theorem keeps_register (op : Operation) {r : Cpu.Register} (other : r ∉ op.registers mode)
    (shift : mode = .accumulator → op ∈ shifts) : op.effect.Keeps (·.get r) mode := by
  -- The operations are taken by the form of their effect. A register is either left alone by the
  -- effect as it stands or in the list.
  cases op with
  | lda | adc | sbc | and | ora | eor | anc | alr | arr | ldx | axs | ldy | lax | bit | cmp | cpx
  | cpy =>
    refine fun v c => ?_
    cases r <;> first | rfl | exact absurd (by simp [registers]) other
  | txa | tya | tax | tsx | inx | dex | tay | iny | dey | txs | nop | brk | clc | sec | cld | sed
  | cli | sei | clv =>
    refine fun c => ?_
    cases r <;> first | rfl | exact absurd (by simp [registers]) other
  | isb | slo | rla | sre | rra | inc | dec | dcp =>
    refine ⟨fun accumulator => absurd (shift accumulator) (by decide), fun v c r' carry _ => ?_⟩
    cases r <;> first | rfl | exact absurd (by simp [registers]) other
  | asl | lsr | rol | ror =>
    refine ⟨fun accumulator c r' carry _ => ?_, fun v c r' carry _ => ?_⟩
    · cases r <;> first | rfl | exact absurd (by simp [registers, accumulator]) other
    · cases r <;> rfl
  | pha | php | jsr | rts =>
    refine fun c sp => ?_
    cases r <;> first | rfl | exact absurd (by simp [registers]) other
  | pla | plp =>
    refine fun v c sp => ?_
    cases r <;> first | rfl | exact absurd (by simp [registers]) other
  | rti =>
    refine fun c sp status => ?_
    cases r <;> first | rfl | exact absurd (by simp [registers]) other
  | sta | stx | sty | sax | jmp | bcc | bcs | bne | beq | bpl | bmi | bvc | bvs => trivial

theorem keeps_flag (op : Operation) {f : Status.Flag} (other : f ∉ op.flags)
    (shift : mode = .accumulator → op ∈ shifts) : op.effect.Keeps (·.status.get f) mode := by
  cases op with
  | lda | and | ora | eor | ldx | ldy | lax | cmp | cpx | cpy | anc | alr | axs | adc | sbc | arr | bit =>
    refine fun v c => ?_
    cases f <;> first | rfl | exact absurd (by decide) other
  | txa | tya | tax | tsx | inx | dex | tay | iny | dey | txs | nop | brk | clc | sec | cld | sed
  | cli | sei | clv =>
    refine fun c => ?_
    cases f <;> first | rfl | exact absurd (by decide) other
  | inc | dec =>
    -- The carry passes through the change as it is.
    refine ⟨fun accumulator => absurd (shift accumulator) (by decide), fun v c r carry changed => ?_⟩
    cases changed
    cases f <;> first | rfl | exact absurd (by decide) other
  | isb | slo | rla | sre | rra | dcp | asl | lsr | rol | ror =>
    refine ⟨fun _ c r carry _ => ?_, fun v c r carry _ => ?_⟩ <;>
      cases f <;> first | rfl | exact absurd (by decide) other
  | pha | php | jsr | rts => exact fun c sp => rfl
  | pla =>
    refine fun v c sp => ?_
    cases f <;> first | rfl | exact absurd (by decide) other
  | plp | rti => exact absurd (by cases f <;> decide) other
  | sta | stx | sty | sax | jmp | bcc | bcs | bne | beq | bpl | bmi | bvc | bvs => trivial

/-- What an operation sets the zero and the negative flag by. -/
inductive Result where
  /-- The register that it ends in. -/
  | register (r : Cpu.Register)
  /-- The byte that it writes to memory. -/
  | written
  /-- A register less the byte that it reads. -/
  | lessRead (r : Cpu.Register)
  /-- A register less the byte that it writes. -/
  | lessWritten (r : Cpu.Register)
  deriving DecidableEq

def result? : Operation → Mode → Option Result
  | lda, _ | txa, _ | tya, _ | pla, _ | adc, _ | sbc, _ | and, _ | ora, _ | eor, _ | lax, _ | isb, _
  | slo, _ | rla, _ | sre, _ | rra, _ | anc, _ | alr, _ | arr, _ => some (.register .a)
  | ldx, _ | tax, _ | tsx, _ | inx, _ | dex, _ | axs, _ => some (.register .x)
  | ldy, _ | tay, _ | iny, _ | dey, _ => some (.register .y)
  | asl, mode | lsr, mode | rol, mode | ror, mode =>
    some (if mode = .accumulator then .register .a else .written)
  | inc, _ | dec, _ => some .written
  | cmp, _ => some (.lessRead .a)
  | cpx, _ => some (.lessRead .x)
  | cpy, _ => some (.lessRead .y)
  | dcp, _ => some (.lessWritten .a)
  | _, _ => none

/-- The operations that set the zero and the negative flag, alone or with the carry, or with the
carry and the overflow, have a result. -/
theorem result_of_flags (op : Operation) (mode : Mode)
    (sets : op.flags ∈ [[.negative, .zero], [.negative, .zero, .carry],
      [.negative, .overflow, .zero, .carry]]) : ∃ kind, op.result? mode = some kind := by
  cases op <;> first | exact ⟨_, rfl⟩ | exact absurd sets (by decide)

end Operation

/-- The flags show whether a byte is zero and whether it is negative. -/
structure Cpu.Shows (c : Cpu) (v : Byte) : Prop where
  zero : c.status.zero = (v == 0)
  negative : c.status.negative = bit v 7

namespace Machine

/-- The result byte of an operation that was begun with the registers `c` and the bus `b`, PC being
on the operand bytes, and left `m'`. -/
inductive ResultByte (mode : Mode) (c : Cpu) (b : Bus) (m' : Machine) :
    Operation.Result → Byte → Prop
  | register : ResultByte mode c b m' (.register r) (m'.cpu.get r)
  | written : (Bus.locate mode c).run b = .ok t b₁ → (Bus.read t).run b₁ = .ok v b₂ →
      (Bus.write t w).run b₂ = .ok () m'.bus → ResultByte mode c b m' .written w
  | lessRead : (Bus.locate mode c).run b = .ok t b₁ → (Bus.read t).run b₁ = .ok v m'.bus →
      ResultByte mode c b m' (.lessRead r) (c.get r - v)
  | lessWritten : (Bus.locate mode c).run b = .ok t b₁ → (Bus.read t).run b₁ = .ok v b₂ →
      (Bus.write t w).run b₂ = .ok () m'.bus → ResultByte mode c b m' (.lessWritten r) (c.get r - w)

variable {m m' : Machine}

theorem Performed.result {op : Operation} (performed : Performed mode m op.effect m')
    (result : op.result? mode = some kind) (shift : mode = .accumulator → op ∈ Operation.shifts) :
    ∃ v, ResultByte mode m.cpu m.bus m' kind v ∧ m'.cpu.Shows v := by
  cases op with
  | lda | adc | sbc | and | ora | eor | lax | anc | alr | arr | ldx | axs | ldy | txa | tya | tax | tsx
  | inx | dex | tay | iny | dey | pla =>
    cases result
    cases performed
    exact ⟨_, .register, rfl, rfl⟩
  | isb | slo | rla | sre | rra =>
    cases result
    cases performed <;> exact ⟨_, .register, rfl, rfl⟩
  | asl | lsr | rol | ror =>
    cases performed with
    | accumulator accumulator _ =>
      obtain rfl : Operation.Result.register .a = kind := by
        simpa only [Operation.result?, accumulator, ↓reduceIte, Option.some.injEq] using result
      exact ⟨_, .register, rfl, rfl⟩
    | memory memory located found _ written =>
      obtain rfl : Operation.Result.written = kind := by
        simpa only [Operation.result?, memory, ↓reduceIte, Option.some.injEq] using result
      exact ⟨_, .written located found written, rfl, rfl⟩
  | inc | dec =>
    cases result
    cases performed with
    | accumulator accumulator _ => exact absurd (shift accumulator) (by decide)
    | memory _ located found _ written => exact ⟨_, .written located found written, rfl, rfl⟩
  | cmp | cpx | cpy =>
    cases result
    cases performed with
    | load located found => exact ⟨_, .lessRead located found, rfl, rfl⟩
  | dcp =>
    cases result
    cases performed with
    | accumulator accumulator _ => exact absurd (shift accumulator) (by decide)
    | memory _ located found _ written => exact ⟨_, .lessWritten located found written, rfl, rfl⟩
  | sta | stx | sty | sax | txs | bit | nop | brk | clc | sec | cld | sed | cli | sei | clv | jmp | jsr
  | rts | rti | pha | php | plp | bcc | bcs | bne | beq | bpl | bmi | bvc | bvs => cases result

theorem ResultByte.past {kind : Operation.Result} (result : ResultByte mode c b m' kind v)
    (operand : Address) (i : Instruction) :
    ResultByte mode c b { m' with cpu := m'.cpu.past operand i } kind v := by
  cases result with
  | register =>
    rename_i r
    rw [← Cpu.keeps_past (·.get r) (Cpu.get_of_pc r) m'.cpu operand i]
    exact .register
  | written located found written => exact .written located found written
  | lessRead located found => exact .lessRead located found
  | lessWritten located found written => exact .lessWritten located found written

/-- A step that goes on changes no register and no flag but those of its instruction, and if the
instruction has a result, the zero and the negative flag show it. -/
theorem step_registers (stepped : step.run m = .ok .running m') :
    ∃ i b, m.Fetches i.code b ∧ InstructionSet.standard.lookup i.code = some i ∧
      (∀ r, r ∉ i.operation.registers i.mode → m'.cpu.get r = m.cpu.get r) ∧
      (∀ f, f ∉ i.operation.flags → m'.cpu.status.get f = m.cpu.status.get f) ∧
      (i.operation.flags ∈ [[.negative, .zero], [.negative, .zero, .carry],
          [.negative, .overflow, .zero, .carry]] →
        ∃ kind v, i.operation.result? i.mode = some kind ∧
          ResultByte i.mode (m.cpu.advance 1) b m' kind v ∧ m'.cpu.Shows v) := by
  cases step_ok stepped with
  | instruction fetch known found performed =>
    rename_i b i m₁ log
    have shift := InstructionSet.shift_of_accumulator found
    have kept {α : Type} {part : Cpu → α} (blind : ∀ c pc, part { c with pc } = part c)
        (keeps : i.operation.effect.Keeps part i.mode) :
        part (m₁.cpu.past (m.cpu.pc + 1) i) = part m.cpu :=
      (Cpu.keeps_past _ blind _ _ _).trans ((performed.keeps blind keeps).trans (blind _ _))
    refine ⟨i, b, fetch, found, fun r other => ?_, fun f other => ?_, fun sets => ?_⟩
    · exact kept (Cpu.get_of_pc r) (i.operation.keeps_register other shift)
    · exact kept (fun _ _ => rfl) (i.operation.keeps_flag other shift)
    · obtain ⟨kind, result⟩ := i.operation.result_of_flags i.mode sets
      obtain ⟨v, byte, shows⟩ := performed.result result shift
      refine ⟨kind, v, result, byte.past _ _, ?_, ?_⟩
      · rw [Cpu.keeps_past (·.status.zero) (fun _ _ => rfl)]
        exact shows.zero
      · rw [Cpu.keeps_past (·.status.negative) (fun _ _ => rfl)]
        exact shows.negative

/-- `DCP $02`, where a 5 is: it becomes a 4, with which the accumulator is compared. -/
def comparingStep : Machine := holding [0xC7, 0x02, 0x05]

theorem step_registers_comparing :
    step.run comparingStep = .ok .running (step.after comparingStep) ∧
    (step.after comparingStep).cpu.a = comparingStep.cpu.a ∧
    (step.after comparingStep).cpu.status.overflow = comparingStep.cpu.status.overflow ∧
    ∃ v, ResultByte .zeroPage (comparingStep.cpu.advance 1) comparingStep.bus
        (step.after comparingStep) (.lessWritten .a) v ∧ (step.after comparingStep).cpu.Shows v := by
  have ended : step.run comparingStep = .ok .running (step.after comparingStep) :=
    run_of_answer_ok (by decide +kernel)
  obtain ⟨i, b, fetch, found, register, flag, shown⟩ := step_registers ended
  have fetch' : comparingStep.Fetches 0xC7 comparingStep.bus := ⟨rfl, rfl⟩
  obtain ⟨code, rfl⟩ := fetch.unique fetch'
  have decoded : InstructionSet.standard.lookup 0xC7 = some (.undocumented .dcp 0xC7 .zeroPage) := by
    decide +kernel
  rw [code, decoded] at found
  cases found
  obtain ⟨kind, v, result, byte, shows⟩ := shown (by decide)
  cases result
  exact ⟨ended, register .a (by decide), flag .overflow (by decide), v, byte, shows⟩

end Machine
end Nes
