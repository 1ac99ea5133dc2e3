import Nes.Proofs.Step

/-! What a faulting step leaves behind. Whatever was read on the way, all memory and all
settings are as before. Of the registers only PC has moved, past the opcode; a shift in
memory whose result cannot be written has set the carry besides. -/
namespace Nes

open Nes.Action

/-- The bit of its operand that an operation shifts out into the carry. -/
def Operation.shiftedOut? : Operation → Option Nat
  | asl | rol | slo | rla => some 7
  | lsr | ror | sre | rra => some 0
  | _ => none

theorem Operation.carry_of_modify {op : Operation} (h : op.effect = .modify change use)
    (carry : Bool) (v : Byte) :
    (change carry v).2 = match op.shiftedOut? with | some k => Nes.bit v k | none => carry := by
  cases op <;> cases h <;> rfl

theorem AccessFault.steady (fault : AccessFault c b t effect e c' d) : Bus.Steady b d := by
  cases fault with
  | load failed | modifyRead failed => exact (Bus.read_steady t).error failed
  | store failed =>
    rw [Bus.write_fault failed]
    exact .refl b
  | modifyWrite found _ failed =>
    rw [Bus.write_fault failed]
    exact (Bus.read_steady t).ok found

/-- Only a change in place that cannot be written back leaves a mark on the registers. -/
theorem AccessFault.registers (fault : AccessFault c b t effect e c' d) :
    c' = c ∨ ∃ change use v b' r carry, effect = .modify change use ∧
      (Bus.read t).run b = .ok v b' ∧ change c.status.carry v = (r, carry) ∧
      (Bus.write t r).run b' = .error e d ∧ c' = c.withCarry carry := by
  cases fault with
  | load _ | store _ | modifyRead _ => exact .inl rfl
  | modifyWrite found changed failed =>
    exact .inr ⟨_, _, _, _, _, _, rfl, found, changed, failed, rfl⟩

namespace Machine

theorem Failed.steady (failed : Failed mode c b effect e c' d) : Bus.Steady b d := by
  cases failed with
  | operand _ missing => exact (Bus.locate_steady _ c).error missing
  | access _ located fault => exact ((Bus.locate_steady mode c).ok located).trans fault.steady

theorem StepFault.steady {m : Machine} (fault : StepFault m e c d) : Bus.Steady m.bus d := by
  cases fault with
  | fetch _ failed => exact (Bus.read_steady _).error failed
  | unknown fetch _ => exact (Bus.read_steady _).ok fetch.read
  | instruction fetch _ failed => exact ((Bus.read_steady _).ok fetch.read).trans failed.steady

/-- The next instruction shifts a byte in memory, which can be read, but the result cannot
be written back. The bit that is shifted out is `out`. -/
inductive LostShift (m : Machine) (e : Fault) (out : Bool) : Prop
  | intro : m.Fetches i.code b₀ → InstructionSet.standard.lookup i.code = some i →
      i.mode.isMemory = true → i.operation.effect = .modify change use →
      i.operation.shiftedOut? = some k →
      (Bus.locate i.mode (m.cpu.advance 1)).run b₀ = .ok t b₁ →
      (Bus.read t).run b₁ = .ok v b₂ →
      (Bus.write t (change m.cpu.status.carry v).1).run b₂ = .error e b₃ → out = bit v k →
      LostShift m e out

theorem Failed.registers {m : Machine} (fetch : m.Fetches i.code b)
    (found : InstructionSet.standard.lookup i.code = some i)
    (failed : Failed i.mode (m.cpu.advance 1) b i.operation.effect e c d) :
    c = m.cpu.advance 1 ∨ ∃ out, LostShift m e out ∧ c = (m.cpu.advance 1).withCarry out := by
  cases failed with
  | operand _ _ => exact .inl rfl
  | access sought located fault =>
    rcases fault.registers with same |
      ⟨change, use, v, b', r, carry, modifies, read, changed, failed, rfl⟩
    · exact .inl same
    have out := i.operation.carry_of_modify modifies m.cpu.status.carry v
    obtain ⟨rfl, rfl⟩ : (change m.cpu.status.carry v).1 = r ∧
        (change m.cpu.status.carry v).2 = carry := Prod.mk.inj changed
    cases shifts : i.operation.shiftedOut? with
    | none =>
      rw [shifts] at out
      exact .inl (by rw [out]; rfl)
    | some k =>
      rw [shifts] at out
      have fits := InstructionSet.fits_of_lookup found
      rw [modifies] at fits sought
      have memory := (Effect.memory_of_modify fits sought).2
      exact .inr ⟨_, .intro fetch found memory modifies shifts located read failed out, rfl⟩

/-- A fault keeps the machine whole. If the opcode could not be fetched, nothing has
changed at all. -/
theorem step_fault_frame {m m' : Machine} (faulted : step.run m = .error e m') :
    Bus.Steady m.bus m'.bus ∧
    (∀ f b, (Bus.read m.cpu.pc).run m.bus = .error f b → m'.cpu = m.cpu ∧ m'.bus = m.bus) ∧
    (∀ code b, (Bus.read m.cpu.pc).run m.bus = .ok code b →
      m'.cpu = m.cpu.advance 1 ∨
        ∃ out, LostShift m e out ∧ m'.cpu = (m.cpu.advance 1).withCarry out) := by
  have fault := step_error faulted
  generalize m'.cpu = c, m'.bus = d at fault ⊢
  refine ⟨fault.steady, ?_, ?_⟩
  · intro f b unread
    cases fault with
    | fetch _ failed => exact ⟨rfl, Bus.read_fault failed⟩
    | unknown fetch _ | instruction fetch _ _ => cases unread.symm.trans fetch.read
  · intro code b read
    cases fault with
    | fetch _ failed => cases read.symm.trans failed
    | unknown _ _ => exact .inl rfl
    | instruction fetch found failed => exact failed.registers fetch found

/-- `ASL $2002` in the vertical blank: the status can be read, and not written. -/
def shiftOfStatus : Machine :=
  let m := holding [0x0E, 0x02, 0x20]
  { m with bus := { m.bus with ppu := m.bus.ppu.setVblank true } }

theorem step_fault_frame_shift :
    step.run shiftOfStatus = .error (.readOnly 0x2002) (step.after shiftOfStatus) ∧
    Bus.Steady shiftOfStatus.bus (step.after shiftOfStatus).bus ∧
    ∃ out, LostShift shiftOfStatus (.readOnly 0x2002) out ∧
      (step.after shiftOfStatus).cpu = (shiftOfStatus.cpu.advance 1).withCarry out := by
  have faulted : step.run shiftOfStatus = .error (.readOnly 0x2002) (step.after shiftOfStatus) :=
    run_of_answer_error (by decide +kernel)
  have fetched : (Bus.read shiftOfStatus.cpu.pc).run shiftOfStatus.bus = .ok 0x0E shiftOfStatus.bus :=
    rfl
  obtain ⟨steady, _, moved⟩ := step_fault_frame faulted
  refine ⟨faulted, steady, (moved _ _ fetched).resolve_left ?_⟩
  decide +kernel

end Machine
end Nes
