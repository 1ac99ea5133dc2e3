import Nes.Proofs.BusMirrors
import Nes.Proofs.FaultFrame
import Nes.Proofs.Subroutine

/-! What a step writes. A store or a change in place reaches what answers at the address of its
operand, a push and a call reach the stack cells they fill. No other instruction, and no step that
stops or faults, changes a byte of memory or a setting of the picture unit. -/
namespace Nes

open Nes.Action

namespace Bus

/-- The bus differs at most in what answers writes at an address, and in the transient state of
the picture unit. The reset vector answers them only while there is no cartridge. -/
structure ChangedAt (a : Address) (b c : Bus) : Prop where
  ram : ∀ cell, c.ram.get cell = b.ram.get cell ∨ a < 0x2000 ∧ cell = WorkRam.cellOf a
  picture : Ppu.Steady b.ppu c.ppu ∨ InRegisters a
  resetVector : c.resetVector = b.resetVector ∨
    b.cartridge = none ∧ (a = 0xFFFC ∨ a = 0xFFFD)

theorem ChangedAt.after_steady {b b' c : Bus} (steady : Steady b b')
    (changed : ChangedAt a b' c) : ChangedAt a b c := by
  obtain ⟨ram, picture, resetVector⟩ := changed
  refine ⟨fun cell => ?_, picture.imp_left steady.picture.trans, ?_⟩
  · rw [← steady.ram]
    exact ram cell
  · obtain ⟨t, rfl⟩ := steady
    exact resetVector

theorem vector_of_vectorIndex {offset : Fin 0x8000} (region : Region.ofAddress a = .rom offset)
    (chosen : vectorIndex? offset = some i) : a = 0xFFFC ∨ a = 0xFFFD := by
  by_contra neither
  rw [(vectorIndex_eq_none_iff region).2 (not_or.1 neither)] at chosen
  cases chosen

theorem write_changes {b c : Bus} (h : (write a v).run b = .ok u c) : ChangedAt a b c := by
  unfold write at h
  split at h
  next cell region =>
    obtain ⟨below, rfl⟩ := ram_of_ofAddress region
    cases h
    refine ⟨fun cell => ?_, .inl (.refl _), .inl rfl⟩
    by_cases same : cell = WorkRam.cellOf a
    · exact .inr ⟨below, same⟩
    · exact .inl (WorkRam.get_set_other _ _ same)
  next region =>
    rw [run_onPpu] at h
    split at h <;> cases h
    exact ⟨fun _ => .inl rfl, .inr (registers_of_ofAddress region), .inl rfl⟩
  next offset region =>
    rw [run_of] at h
    split at h
    · cases h
    next i empty chosen =>
      cases h
      have placed := vector_of_vectorIndex region chosen
      exact ⟨fun _ => .inl rfl, .inl (.refl _), .inr ⟨empty, placed⟩⟩
    · cases h
  · cases h

end Bus

namespace Operation

def isStore : Operation → Bool
  | sta | stx | sty | sax => true
  | _ => false

/-- Whether an operation changes its operand in place. -/
def isChange : Operation → Bool
  | asl | lsr | rol | ror | inc | dec | slo | rla | sre | rra | dcp | isb => true
  | _ => false

theorem writes_iff (op : Operation) (mode : Mode) : op.effect.writes mode = true ↔
    op.isStore = true ∨ op.isChange = true ∧ mode ≠ .accumulator := by
  cases op <;> simp [effect, Effect.writes, Effect.flags, isStore, isChange]

theorem eq_of_push (op : Operation) (h : op.effect = .push source) : op = .pha ∨ op = .php := by
  cases op <;> cases h <;> simp

theorem eq_of_call (op : Operation) (h : op.effect = .call) : op = .jsr := by
  cases op <;> cases h
  rfl

end Operation

namespace Machine

/-- The next instruction is a store or changes a byte of memory in place, and finds its operand
at `t`. -/
structure StoresAt (m : Machine) (t : Address) : Prop where
  next : ∃ i, m.next? = some i ∧
    (i.operation.isStore = true ∨ i.operation.isChange = true ∧ i.mode ≠ .accumulator)
  target : m.written? = some t

/-- The next step may write a cell of work RAM. -/
inductive MayWrite (m : Machine) (cell : WorkRam.Cell) : Prop
  | operand : m.StoresAt t → t < 0x2000 → cell = WorkRam.cellOf t → MayWrite m cell
  | push : m.nextOperation? = some .pha ∨ m.nextOperation? = some .php →
      cell = stackCell m.cpu.sp → MayWrite m cell
  | call : m.nextOperation? = some .jsr →
      cell = stackCell m.cpu.sp ∨ cell = stackCell (m.cpu.sp - 1) → MayWrite m cell

/-- What the next step cannot write is as before. -/
structure WriteFrame (m m' : Machine) : Prop where
  ram : ∀ cell, m'.bus.ram.get cell = m.bus.ram.get cell ∨ m.MayWrite cell
  picture : Ppu.Steady m.bus.ppu m'.bus.ppu ∨ ∃ t, m.StoresAt t ∧ Bus.InRegisters t
  resetVector : m'.bus.resetVector = m.bus.resetVector ∨
    ∃ t, m.StoresAt t ∧ m.bus.cartridge = none ∧ (t = 0xFFFC ∨ t = 0xFFFD)

variable {m m' : Machine}

theorem WriteFrame.of_steady (steady : Bus.Steady m.bus m'.bus) : WriteFrame m m' := by
  refine ⟨fun cell => .inl (by rw [steady.ram]), .inl steady.picture, .inl ?_⟩
  obtain ⟨t, same⟩ := steady
  rw [same]

theorem WriteFrame.of_changedAt (stores : m.StoresAt t) (changed : Bus.ChangedAt t m.bus m'.bus) :
    WriteFrame m m' where
  ram cell := (changed.ram cell).imp_right fun ⟨below, same⟩ => .operand stores below same
  picture := changed.picture.imp_right fun inside => ⟨t, stores, inside⟩
  resetVector := changed.resetVector.imp_right fun free => ⟨t, stores, free⟩

/-- Pushes change work RAM and nothing else on the bus. -/
theorem WriteFrame.of_ram {ram : WorkRam} (steady : Bus.Steady m.bus b)
    (filled : m'.bus = { b with ram })
    (cells : ∀ cell, ram.get cell = b.ram.get cell ∨ m.MayWrite cell) : WriteFrame m m' := by
  obtain ⟨t, rfl⟩ := steady
  refine ⟨fun cell => ?_, .inl ?_, .inl ?_⟩ <;> rw [filled]
  · exact cells cell
  · exact ⟨t, rfl⟩

theorem get_pushed (m : Machine) (v : Byte) {cell : WorkRam.Cell} (other : cell ≠ stackCell m.cpu.sp) :
    (m.pushed v).bus.ram.get cell = m.bus.ram.get cell :=
  WorkRam.get_set_other _ _ other

/-- What an operation does to the bus. -/
theorem Performed.changes (performed : Performed mode m effect m') :
    Bus.Steady m.bus m'.bus ∨
    (effect.writes mode = true ∧ ∃ t b, (Bus.locate mode m.cpu).run m.bus = .ok t b ∧
      Bus.ChangedAt t m.bus m'.bus) ∨
    (∃ source, effect = .push source ∧ m'.bus = (m.pushed (source m.cpu)).bus) ∨
    (effect = .call ∧ ∃ b, Bus.Steady m.bus b ∧
      m'.bus = (({ m with bus := b }.pushed (high (m.cpu.pc + 1))).pushed
        (low (m.cpu.pc + 1))).bus) := by
  cases performed with
  | internal | accumulator _ _ | notTaken _ | «return» | resume | pull => exact .inl (.refl _)
  | load located found =>
    exact .inl (((Bus.locate_steady _ _).ok located).trans ((Bus.read_steady _).ok found))
  | taken _ located | jump located => exact .inl ((Bus.locate_steady _ _).ok located)
  | store located written =>
    have steady := (Bus.locate_steady _ _).ok located
    exact .inr (.inl ⟨rfl, _, _, located, (Bus.write_changes written).after_steady steady⟩)
  | memory memory located found _ written =>
    have steady := ((Bus.locate_steady _ _).ok located).trans ((Bus.read_steady _).ok found)
    have changed := (Bus.write_changes written).after_steady steady
    exact .inr (.inl ⟨decide_eq_true memory, _, _, located, changed⟩)
  | push => exact .inr (.inr (.inl ⟨_, rfl, rfl⟩))
  | call located =>
    exact .inr (.inr (.inr ⟨rfl, _, (Bus.locate_steady _ _).ok located, rfl⟩))

theorem Stepped.writeFrame (stepped : Stepped m o m') : WriteFrame m m' := by
  cases stepped with
  | still _ => exact .of_steady (.refl _)
  | stop fetch => exact .of_steady ((Bus.read_steady _).ok fetch.read)
  | instruction fetch known found performed =>
    rename_i b i m₁ log
    have fetched := (Bus.read_steady _).ok fetch.read
    have next := (next_of_fetch fetch).trans found
    have operation := nextOperation_of_fetch fetch found
    rcases performed.changes with
      steady | ⟨writes, t, _, located, changed⟩ | ⟨source, pushes, filled⟩ | ⟨calls, c, steady, filled⟩
    · exact .of_steady (fetched.trans steady)
    · have stores : m.StoresAt t :=
        ⟨⟨i, next, (i.operation.writes_iff _).1 writes⟩, written_of_fetch fetch found writes located⟩
      exact .of_changedAt stores (changed.after_steady fetched)
    · refine .of_ram fetched filled fun cell => ?_
      have byPush : m.nextOperation? = some .pha ∨ m.nextOperation? = some .php := by
        rw [operation]
        exact (i.operation.eq_of_push pushes).imp (congrArg some) (congrArg some)
      by_cases top : cell = stackCell m.cpu.sp
      · exact .inr (.push byPush top)
      · exact .inl (get_pushed _ _ top)
    · refine .of_ram (fetched.trans steady) filled fun cell => ?_
      have byCall : m.nextOperation? = some .jsr := by rw [operation, i.operation.eq_of_call calls]
      by_cases first : cell = stackCell m.cpu.sp
      · exact .inr (.call byCall (.inl first))
      by_cases second : cell = stackCell (m.cpu.sp - 1)
      · exact .inr (.call byCall (.inr second))
      · let called : Machine := ⟨m.cpu.advance 1, c, log⟩
        exact .inl ((get_pushed (called.pushed _) _ second).trans (get_pushed called _ first))

/-- What a step can write: its operand, if it is a store or a change in place, and the stack cells
that a push or a call fills. A call leaves the address of its last byte there. Steps that fault or
stop write nothing. -/
theorem step_writes (m : Machine) :
    WriteFrame m (step.after m) ∧
    (∀ o n, m.nextOperation? = some .jsr → step.run m = .ok o n →
      n.bus.ram.get (stackCell m.cpu.sp) = high (m.cpu.pc + 2) ∧
      n.bus.ram.get (stackCell (m.cpu.sp - 1)) = low (m.cpu.pc + 2)) ∧
    (∀ e n, step.run m = .error e n → Bus.Steady m.bus n.bus) ∧
    (∀ n, step.run m = .ok .halted n → Bus.Steady m.bus n.bus) := by
  have faulted (e : Fault) (n : Machine) (h : step.run m = .error e n) : Bus.Steady m.bus n.bus :=
    (step_error h).steady
  refine ⟨?_, ?_, faulted, ?_⟩
  · cases ended : step.run m with
    | ok o n => exact after_ok ended ▸ (step_ok ended).writeFrame
    | error e n => exact after_error ended ▸ .of_steady (faulted e n ended)
  · intro o n call ended
    have kept := returnable_of_call call (step_ok ended)
    exact ⟨kept.high, kept.low⟩
  · intro n ended
    cases step_ok ended with
    | still _ => exact .refl _
    | stop fetch => exact (Bus.read_steady _).ok fetch.read

/-- `JSR $0003` with the stack pointer at 0. -/
def wrappedCall : Machine := holding [0x20, 0x03, 0x00]

theorem step_writes_wrapped :
    step.run wrappedCall = .ok .running (step.after wrappedCall) ∧
    (step.after wrappedCall).bus.ram.get (stackCell 0) = 0x00 ∧
    (step.after wrappedCall).bus.ram.get (stackCell 0xFF) = 0x02 := by
  have ended : step.run wrappedCall = .ok .running (step.after wrappedCall) :=
    run_of_answer_ok (by decide +kernel)
  obtain ⟨_, call, _⟩ := step_writes wrappedCall
  obtain ⟨high, low⟩ := call .running _ (by decide +kernel) ended
  exact ⟨ended, high, low⟩

end Machine
end Nes
