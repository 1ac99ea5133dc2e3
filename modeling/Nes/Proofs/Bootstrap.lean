import Nes.Proofs.AccessOutcome
import Nes.Proofs.BlockLoad

/-! The way to the first instruction. A program is put in work RAM as a whole or not at all, and a
reset finds where to begin on every bus. -/
namespace Nes

open Nes.Action

namespace Bus

theorem ofAddress_vector :
    Region.ofAddress 0xFFFC = .rom 0x7FFC ∧ Region.ofAddress 0xFFFD = .rom 0x7FFD := by decide

theorem vectorIndex_vector : vectorIndex? 0x7FFC = some 0 ∧ vectorIndex? 0x7FFD = some 1 := by decide

/-- The reset vector can be looked at with and without a cartridge. -/
theorem peek_vector (b : Bus) (inVector : InVector a) : ∃ v, b.peek? a = some v := by
  have window : 0x8000 ≤ a.toNat := by
    rcases inVector with rfl | rfl <;> decide
  obtain ⟨offset, region, -⟩ := ofAddress_rom window
  cases found : b.romByte? offset with
  | some v => exact ⟨v, by simp only [peek?, region, found]⟩
  | none =>
    have elsewhere := ((romByte_eq_none_iff b offset).1 found).2
    exact absurd inVector ((outside_vector_iff region).1 elsewhere)

/-- Without a cartridge the reset vector is memory. -/
theorem write_vector {b : Bus} (empty : b.cartridge = none) (lo hi : Byte) :
    ∃ c, (write 0xFFFC lo).run b = .ok () c ∧
      (write 0xFFFD hi).run c = .ok () { b with resetVector := #v[lo, hi] } := by
  obtain ⟨first, second⟩ := ofAddress_vector
  obtain ⟨lower, upper⟩ := vectorIndex_vector
  have both : (b.resetVector.set 0 lo).set 1 hi = #v[lo, hi] := by
    apply Vector.ext
    intro i inside
    rcases i with _ | _ | i
    · simp
    · simp
    · omega
  refine ⟨{ b with resetVector := b.resetVector.set 0 lo }, ?_, ?_⟩
  · simp only [write, first, run_of, empty, lower]
    rfl
  · simp only [write, second, run_of, empty, upper]
    exact congrArg (fun resetVector => EStateM.Result.ok () { b with cartridge := none, resetVector }) both

theorem dataTarget_rom (b : Bus) (region : Region.ofAddress a = .rom offset) :
    b.dataTarget? a = none := by
  simp only [dataTarget?, region]

end Bus

namespace Machine

/-- A write to the program window is none that the log is told of. -/
theorem run_write_rom (m : Machine) (v : Byte) (region : Region.ofAddress a = .rom offset) :
    (write a v).run m = (onBus (Bus.write a v)).run m := by
  simp only [write, reporting, run_of, Bus.dataTarget_rom m.bus region, run_onBus]
  cases (Bus.write a v).run m.bus <;> rfl

theorem run_writeVector {m : Machine} (empty : m.bus.cartridge = none) (start : Address) :
    (writeWord resetAddress start).run m =
      .ok () { m with bus := { m.bus with resetVector := #v[low start, high start] } } := by
  obtain ⟨first, second⟩ := Bus.ofAddress_vector
  obtain ⟨c, lower, upper⟩ := Bus.write_vector empty (low start) (high start)
  have after : (write (resetAddress + 1) (high start)).run { m with bus := c } =
      .ok () { m with bus := { m.bus with resetVector := #v[low start, high start] } } :=
    (run_write_rom _ _ second).trans (onBus_ok.2 ⟨_, upper, rfl⟩)
  exact run_bind_ok.2 ⟨(), _, (run_write_rom _ _ first).trans (onBus_ok.2 ⟨_, lower, rfl⟩), after⟩

theorem run_writeVector_refused {m : Machine} (inserted : m.bus.cartridge ≠ none)
    (start : Address) : (writeWord resetAddress start).run m = .error (.readOnly 0xFFFC) m := by
  obtain ⟨c, inserted⟩ := Option.ne_none_iff_exists'.1 inserted
  obtain ⟨first, _⟩ := Bus.ofAddress_vector
  have refused : (Bus.write resetAddress (low start)).run m.bus = .error (.readOnly 0xFFFC) m.bus :=
    Bus.write_window inserted _ (by decide)
  exact run_bind_error.2 (.inl ((run_write_rom _ _ first).trans (onBus_error.2 ⟨_, refused, rfl⟩)))

/-- A program that is no larger than its capacity finds room. -/
theorem run_place (m : Machine) {program : Array Byte} (fits : program.size ≤ programCapacity) :
    ∃ ram, m.bus.ram.load (UInt64.ofNat programBase) program = (true, ram) ∧
      (place program).run m = .ok () { m with bus := { m.bus with ram } } := by
  have room : (UInt64.ofNat programBase).toNat + program.size ≤ 0x800 :=
    Nat.add_le_add_left fits programBase
  have done := m.bus.ram.load_fitting room
  refine ⟨_, done, ?_⟩
  simp only [place, run_of, done]

/-- A program lies in work RAM, the reset vector points to its first byte, and the rest of the machine
is as it was. -/
structure Loaded (m : Machine) (program : Array Byte) (n : Machine) : Prop where
  cpu : n.cpu = m.cpu
  picture : n.bus.ppu = m.bus.ppu
  cartridge : n.bus.cartridge = m.bus.cartridge
  vector : n.bus.resetVector = #v[0x00, 0x06]
  present : ∀ i < program.size, ∃ cell : WorkRam.Cell,
    cell.val = 0x0600 + i ∧ program[i]? = some (n.bus.ram.get cell)
  elsewhere : ∀ cell : WorkRam.Cell, cell.val < 0x0600 ∨ 0x0600 + program.size ≤ cell.val →
    n.bus.ram.get cell = m.bus.ram.get cell

theorem run_load {m : Machine} {program : Array Byte} (fits : program.size ≤ programCapacity)
    (empty : m.bus.cartridge = none) :
    ∃ n, (load program).run m = .ok () n ∧ m.Loaded program n := by
  have room := Nat.not_lt.2 fits
  let pointed : Machine := { m with bus := { m.bus with resetVector := #v[0x00, 0x06] } }
  have vector : (writeWord resetAddress (UInt16.ofNat programBase)).run m = .ok () pointed :=
    run_writeVector empty _
  obtain ⟨ram, done, placed⟩ := run_place pointed fits
  obtain ⟨_, overlaid⟩ := WorkRam.load_overlaid done
  refine ⟨{ pointed with bus := { pointed.bus with ram } }, ?_, rfl, rfl, rfl, rfl, ?_, ?_⟩
  · simp only [load, if_neg room]
    exact run_bind_ok.2 ⟨(), _, vector, placed⟩
  · intro i inside
    have found : program[i]? = some program[i] := Array.getElem?_eq_getElem inside
    obtain ⟨cell, placed, got⟩ := overlaid.inside i _ (Array.getElem?_toList.trans found)
    exact ⟨cell, placed, got ▸ found⟩
  · exact overlaid.outside

/-- A reset ends where the reset vector points, whatever was in the registers. -/
theorem run_reset_anywhere (m : Machine) :
    ∃ lo hi log, m.bus.peek? 0xFFFC = some lo ∧ m.bus.peek? 0xFFFD = some hi ∧
      reset.run m = .ok () ⟨{ pc := word lo hi }, m.bus, log⟩ := by
  obtain ⟨lo, first⟩ := m.bus.peek_vector (.inl rfl)
  obtain ⟨hi, second⟩ := m.bus.peek_vector (.inr rfl)
  exact ⟨lo, hi, _, first, second, run_reset (Bus.read_of_peek first) (Bus.read_of_peek second)⟩

theorem Loaded.peek {m n : Machine} (loaded : m.Loaded program n) (empty : m.bus.cartridge = none) :
    n.bus.peek? 0xFFFC = some 0x00 ∧ n.bus.peek? 0xFFFD = some 0x06 := by
  obtain ⟨first, second⟩ := Bus.ofAddress_vector
  obtain ⟨lower, upper⟩ := Bus.vectorIndex_vector
  have bare := loaded.cartridge.trans empty
  simp only [Bus.peek?, first, second, Bus.romByte?, bare, loaded.vector, lower, upper]
  exact ⟨rfl, rfl⟩

/-- A program is loaded unless it is too large or a cartridge keeps the reset vector; a refusal changes
nothing. The reset of a loaded machine leads to the program's first byte, from cleared registers and
flags. No reset fails, nor does the copying of a program that has passed the test of its size. -/
theorem bootstrap_exact (program : Array Byte) :
    (∀ m : Machine,
      (512 < program.size → (load program).run m = .error (.programTooLarge program.size 512) m) ∧
      (program.size ≤ 512 → m.bus.cartridge ≠ none →
        (load program).run m = .error (.readOnly 0xFFFC) m) ∧
      (program.size ≤ 512 → m.bus.cartridge = none →
        ∃ n, (load program).run m = .ok () n ∧ m.Loaded program n ∧
          ∀ cpu, ∃ log, reset.run { n with cpu } = .ok () ⟨{
            a := 0, x := 0, y := 0, sp := 0, pc := 0x0600, status := .ofByte 0, halted := false },
            n.bus, log⟩)) ∧
    (∀ m : Machine, ∃ start log, reset.run m = .ok () ⟨{ pc := start }, m.bus, log⟩) ∧
    InstructionSet.ofList (Instruction.documentedSet ++ Instruction.undocumentedSet) =
      .ok .standard ∧
    (program.size ≤ 512 → ∀ (m : Machine) e n, (place program).run m ≠ .error e n) := by
  refine ⟨fun m => ⟨?_, ?_, ?_⟩, fun m => ?_, InstructionSet.ofList_standard, ?_⟩
  · intro large
    simp only [load, programCapacity, if_pos large]
    rfl
  · intro fits inserted
    simp only [load, programCapacity, if_neg (Nat.not_lt.2 fits)]
    exact run_bind_error.2 (.inl (run_writeVector_refused inserted _))
  · intro fits empty
    obtain ⟨n, ran, loaded⟩ := run_load fits empty
    refine ⟨n, ran, loaded, fun cpu => ?_⟩
    obtain ⟨low, high⟩ := loaded.peek empty
    have restarted := run_reset (m := { n with cpu }) (Bus.read_of_peek low) (Bus.read_of_peek high)
    exact ⟨_, restarted⟩
  · obtain ⟨lo, hi, log, _, _, restarted⟩ := run_reset_anywhere m
    exact ⟨_, log, restarted⟩
  · intro fits m e n failed
    obtain ⟨ram, _, placed⟩ := run_place m fits
    cases placed.symm.trans failed

/-- The largest program is loaded, and one byte more is too many. -/
theorem bootstrap_exact_largest :
    (load (.replicate 513 0xEA)).run {} = .error (.programTooLarge 513 512) {} ∧
    ∃ n, (load (.replicate 512 0xEA)).run {} = .ok () n ∧
      Loaded {} (.replicate 512 0xEA) n ∧
      ∃ log, reset.run n = .ok () ⟨{ pc := 0x0600 }, n.bus, log⟩ := by
  obtain ⟨outcomes, _⟩ := bootstrap_exact (.replicate 513 0xEA)
  have refused := (outcomes {}).1
  obtain ⟨outcomes', _⟩ := bootstrap_exact (.replicate 512 0xEA)
  have accepted := (outcomes' {}).2.2
  rw [Array.size_replicate] at refused accepted
  obtain ⟨n, ran, loaded, restarts⟩ := accepted (by decide) rfl
  exact ⟨refused (by decide), n, ran, loaded, restarts n.cpu⟩

end Machine
end Nes
