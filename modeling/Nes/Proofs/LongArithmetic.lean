import Nes.Proofs.LongNumber
import Nes.Proofs.Step

/-! Arithmetic on numbers of several bytes, column by column from the lowest, each column taking the
flags that the one before it left. Between two columns the machine may do whatever it likes, as long
as it leaves the flags alone. The carry makes one long addition of the additions of bytes, and one
long subtraction of theirs, since a subtraction adds the complement. The overflow is that of the
highest bytes and tells of the whole. -/
namespace Nes

open Nes.Action Nes.Long

theorem signed_byte (v : Byte) :
    signed [v] = if v.toNat < 128 then (v.toNat : Int) else v.toNat - 256 := by
  simp only [signed, unsigned_cons, unsigned_nil, List.length_cons, List.length_nil]
  split <;> split <;> omega

namespace Cpu

/-- The ninth bit of the sum is the carry. -/
theorem add_unsigned (c : Cpu) (v : Byte) :
    (c.add v).a.toNat + 256 * (c.add v).status.carry.toNat =
      c.a.toNat + v.toNat + c.status.carry.toNat := by
  have bound : c.a.toNat + v.toNat + c.status.carry.toNat < 512 := by
    have := c.a.toNat_lt
    have := v.toNat_lt
    have := c.status.carry.toNat_lt
    omega
  change (c.a.toNat + v.toNat + c.status.carry.toNat) % 2 ^ 8 +
    256 * (decide (256 ≤ c.a.toNat + v.toNat + c.status.carry.toNat)).toNat = _
  generalize c.a.toNat + v.toNat + c.status.carry.toNat = sum at *
  by_cases large : 256 ≤ sum
  · simp only [large, decide_true, Bool.toNat_true]
    omega
  · simp only [large, decide_false, Bool.toNat_false]
    omega

/-- The overflow flag tells that the signed sum is no signed byte. -/
theorem add_overflow (c : Cpu) (v : Byte) :
    (c.add v).status.overflow = true ↔
      ¬ (-128 ≤ signed [c.a] + signed [v] + c.status.carry.toNat ∧
        signed [c.a] + signed [v] + c.status.carry.toNat < 128) := by
  have sum := c.add_unsigned v
  have := (c.add v).a.toNat_lt
  have := c.a.toNat_lt
  have := v.toNat_lt
  have := c.status.carry.toNat_lt
  have := (c.add v).status.carry.toNat_lt
  have overflow : (c.add v).status.overflow =
      (bit c.a 7 == bit v 7 && bit (c.add v).a 7 != bit c.a 7) := rfl
  rw [overflow, bit_seven, bit_seven, bit_seven, signed_byte, signed_byte]
  simp only [Bool.and_eq_true, beq_iff_eq, bne_iff_ne, ne_eq, decide_eq_decide]
  split <;> split <;> omega

end Cpu

/-- Numbers are added byte by byte, with the flags handed on: `s` before the first column, `final`
after the last. -/
inductive Adds : Status → List Byte → List Byte → List Byte → Status → Prop
  | nil : Adds s [] [] [] s
  | cons {c : Cpu} : c.status = s → Adds (c.add y).status xs ys rs final →
      Adds s (c.a :: xs) (y :: ys) ((c.add y).a :: rs) final

namespace Adds

theorem length (adds : Adds s xs ys rs final) :
    ys.length = xs.length ∧ rs.length = xs.length := by
  induction adds with
  | nil => exact ⟨rfl, rfl⟩
  | cons _ _ ih => exact ⟨congrArg (· + 1) ih.1, congrArg (· + 1) ih.2⟩

theorem unsigned (adds : Adds s xs ys rs final) :
    unsigned rs + 256 ^ xs.length * final.carry.toNat =
      unsigned xs + unsigned ys + s.carry.toNat := by
  induction adds with
  | nil => simp
  | cons flags above ih =>
    rename_i y xs _ _ final c
    have column := c.add_unsigned y
    rw [← flags, unsigned_cons, unsigned_cons, unsigned_cons, List.length_cons, pow_succ', mul_assoc]
    generalize 256 ^ xs.length * final.carry.toNat = weight at *
    omega

/-- The bytes of the sum, and the carry out of them. -/
theorem result (adds : Adds s xs ys rs final) :
    Long.unsigned rs =
      (Long.unsigned xs + Long.unsigned ys + s.carry.toNat) % 256 ^ xs.length ∧
    (final.carry = true ↔
      256 ^ xs.length ≤ Long.unsigned xs + Long.unsigned ys + s.carry.toNat) :=
  carried (adds.length.2 ▸ unsigned_lt rs) adds.unsigned

/-- Whether the signed sum leaves the range of its bytes shows in the highest column. -/
theorem overflow (adds : Adds s xs ys rs final) (some : xs ≠ []) :
    final.overflow = true ↔
      ¬ (-2 ^ (8 * xs.length - 1) ≤ signed xs + signed ys + s.carry.toNat ∧
        signed xs + signed ys + s.carry.toNat < 2 ^ (8 * xs.length - 1)) := by
  induction adds with
  | nil => exact absurd rfl some
  | cons flags above ih =>
    rename_i y xs ys rs final c
    subst flags
    by_cases single : xs = []
    · subst single
      cases above
      exact c.add_overflow y
    -- Beside the carry, the lowest column adds less than a unit of the columns above it.
    · have more : ys ≠ [] := by
        rw [← List.length_pos_iff, above.length.1]
        exact List.length_pos_iff.2 single
      have column := c.add_unsigned y
      have lower := (c.add y).a.toNat_lt
      rw [ih single, signed_cons c.a single, signed_cons y more]
      have half : (2 : Int) ^ (8 * (c.a :: xs).length - 1) = 256 * 2 ^ (8 * xs.length - 1) := by
        rw [List.length_cons, top_succ (List.length_pos_iff.2 single), pow_add]
        rfl
      rw [half]
      generalize (2 : Int) ^ (8 * xs.length - 1) = h
      omega

theorem negative (adds : Adds s xs ys rs final) (some : xs ≠ []) :
    final.negative = (Long.unsigned rs).testBit (8 * xs.length - 1) := by
  rw [← adds.length.2]
  induction adds with
  | nil => exact absurd rfl some
  | cons flags above ih =>
    rename_i y xs ys rs final c
    by_cases single : xs = []
    · subst single
      cases above
      exact congrArg (Nat.testBit · 7) (Nat.add_zero _).symm
    · have more : rs ≠ [] := by
        rw [← List.length_pos_iff, above.length.2]
        exact List.length_pos_iff.2 single
      rw [ih single]
      exact (testBit_cons _ more).symm

/-- The sign of the exact sum is that of its bytes, unless they overflow. -/
theorem sign (adds : Adds s xs ys rs final) (some : xs ≠ []) :
    (final.negative ^^ final.overflow) = true ↔
      signed xs + signed ys + s.carry.toNat < 0 := by
  have pos := List.length_pos_iff.2 some
  obtain ⟨right, result⟩ := adds.length
  have sum := adds.unsigned
  have overflow := adds.overflow some
  have negative := adds.negative some
  have left := unsigned_lt xs
  have other := unsigned_lt ys
  have below := unsigned_lt rs
  rw [right] at other
  rw [result] at below
  rw [testBit_top pos below] at negative
  have apart : (final.negative ^^ final.overflow) = true ↔
      ¬ (final.negative = true ↔ final.overflow = true) := by
    rw [← Bool.eq_iff_iff, Bool.xor_iff_ne]
  have carried := s.carry.toNat_lt
  rw [apart, overflow, negative, decide_eq_true_eq]
  simp only [signed, right]
  have half : (2 : Int) ^ (8 * xs.length - 1) = (2 ^ (8 * xs.length - 1) : Nat) := by push_cast; rfl
  rw [half]
  rw [pow_eq_double pos] at *
  generalize 2 ^ (8 * xs.length - 1) = h at *
  cases carry : final.carry with
  | false =>
    rw [carry, Bool.toNat_false, Nat.mul_zero] at sum
    split <;> split <;> omega
  | true =>
    rw [carry, Bool.toNat_true, Nat.mul_one] at sum
    split <;> split <;> omega

/-- To add the complement is to subtract, with the carry as the absence of a borrow. -/
theorem difference (adds : Adds s xs (ys.map (~~~·)) rs final) :
    (Long.unsigned rs : Int) =
      (Long.unsigned xs - Long.unsigned ys - (1 - s.carry.toNat)) % 256 ^ xs.length ∧
    (final.carry = true ↔ Long.unsigned ys + (1 - s.carry.toNat) ≤ Long.unsigned xs) := by
  have same := adds.length.1
  have whole := unsigned_not ys
  have single := s.carry.toNat_lt
  obtain ⟨result, carry⟩ := adds.result
  rw [List.length_map] at same
  rw [same] at whole
  constructor
  · have borrowed : (Long.unsigned xs - Long.unsigned ys - (1 - s.carry.toNat) : Int) =
        (Long.unsigned xs + Long.unsigned (ys.map (~~~·)) + s.carry.toNat : Nat) -
          (256 ^ xs.length : Nat) := by
      omega
    have width : (256 : Int) ^ xs.length = (256 ^ xs.length : Nat) := by push_cast; rfl
    rw [result, borrowed, width, Int.natCast_mod]
    exact (Int.sub_emod_right _ _).symm
  · rw [carry]
    omega

theorem signed_difference (some : ys ≠ []) (carry : Bool) :
    signed xs + signed (ys.map (~~~·)) + carry.toNat =
      signed xs - signed ys - (1 - carry.toNat) := by
  rw [signed_not some]
  omega

end Adds

namespace Machine

/-- A column of a long calculation: the byte that is put in the accumulator, and the other, which
the machine finds as the operand of its instruction. The accumulator and the flags that the machine
has here are not used. -/
structure Column where
  upper : Byte
  lower : Byte
  machine : Machine
  mode : Mode
  found : (readOperand mode).answer machine = .ok lower

namespace Column

/-- The machine about to work on the column. -/
def ready (col : Column) (s : Status) : Machine :=
  { col.machine with cpu := { col.machine.cpu with a := col.upper, status := s } }

/-- What an operation leaves in the accumulator, and the flags. -/
def calculate (col : Column) (op : Operation) (s : Status) : Except Fault (Byte × Status) :=
  match (execute op col.mode).run (col.ready s) with
  | .ok _ m => .ok (m.cpu.a, m.cpu.status)
  | .error e _ => .error e

/-- Neither the accumulator nor the flags have a part in finding the operand. -/
theorem calculate_load (col : Column) (s : Status) (use : Byte → Cpu → Cpu)
    (loads : op.effect = .load use) :
    col.calculate op s =
      .ok ((use col.lower (col.ready s).cpu).a, (use col.lower (col.ready s).cpu).status) := by
  obtain ⟨t, b, c, located, found, _⟩ := readOperand_ok (run_of_answer_ok col.found)
  have located : (Bus.locate col.mode (col.ready s).cpu).run (col.ready s).bus = .ok t b := located
  rw [calculate, run_execute_load loads located found]

end Column

/-- Works on the columns one after the other. -/
def calculateAll (op : Operation) (s : Status) : List Column → Except Fault (List Byte × Status)
  | [] => return ([], s)
  | col :: rest => do
    let (result, s) ← col.calculate op s
    let (results, final) ← calculateAll op s rest
    return (result :: results, final)

theorem calculateAll_adds (op : Operation) (addend : Byte → Byte)
    (adds : op.effect = .load fun v c => c.add (addend v)) (s : Status) (columns : List Column) :
    ∃ results final, calculateAll op s columns = .ok (results, final) ∧
      Adds s (columns.map (·.upper)) (columns.map fun col => addend col.lower) results final := by
  induction columns generalizing s with
  | nil => exact ⟨[], s, rfl, .nil⟩
  | cons col rest ih =>
    obtain ⟨results, final, calculated, below⟩ := ih ((col.ready s).cpu.add (addend col.lower)).status
    refine ⟨_ :: results, final, ?_, .cons (c := (col.ready s).cpu) rfl below⟩
    simp only [calculateAll, col.calculate_load s _ adds, bind, Except.bind, calculated]
    rfl

theorem calculateAll_subtracts (s : Status) (columns : List Column) :
    ∃ results final, calculateAll .sbc s columns = .ok (results, final) ∧
      Adds s (columns.map (·.upper)) ((columns.map (·.lower)).map (~~~·)) results final := by
  rw [List.map_map]
  exact calculateAll_adds .sbc (~~~·) rfl s columns

/-- A comparison sets flags only, and leaves the overflow as it is, with or without a fault. -/
theorem compare_keeps (m : Machine) (mode : Mode) :
    ((execute .cmp mode).after m).cpu.a = m.cpu.a ∧
      ((execute .cmp mode).after m).cpu.status.overflow = m.cpu.status.overflow := by
  cases ended : (execute .cmp mode).run m with
  | ok _ n =>
    rw [after_ok ended]
    cases perform_ok ended with
    | load _ _ => exact ⟨rfl, rfl⟩
  | error e n =>
    rw [after_error ended]
    have failed := perform_error ended
    generalize n.cpu = c, n.bus = b at failed ⊢
    cases failed with
    | operand _ _ => exact ⟨rfl, rfl⟩
    | access _ _ fault =>
      cases fault
      exact ⟨rfl, rfl⟩

/-- Addition with carry, column by column, adds the numbers, whatever the flags but the carry
say at the start. -/
theorem long_addition (s : Status) {columns : List Column} (some : columns ≠ []) :
    ∃ results final, calculateAll .adc s columns = .ok (results, final) ∧
      results.length = columns.length ∧
      let n := columns.length
      let a := columns.map (·.upper)
      let b := columns.map (·.lower)
      let c := s.carry.toNat
      unsigned results = (unsigned a + unsigned b + c) % 256 ^ n ∧
      (final.carry = true ↔ 256 ^ n ≤ unsigned a + unsigned b + c) ∧
      (final.overflow = true ↔
        signed a + signed b + c < -2 ^ (8 * n - 1) ∨
        2 ^ (8 * n - 1) - 1 < signed a + signed b + c) ∧
      final.negative = (unsigned results).testBit (8 * n - 1) := by
  obtain ⟨results, final, calculated, adds⟩ := calculateAll_adds .adc id rfl s columns
  have some' : columns.map (·.upper) ≠ [] := fun none => some (List.map_eq_nil_iff.1 none)
  have length := adds.length.2
  have overflow := adds.overflow some'
  have negative := adds.negative some'
  obtain ⟨result, carry⟩ := adds.result
  rw [List.length_map] at length overflow negative result carry
  refine ⟨results, final, calculated, length, result, carry, ?_, negative⟩
  rw [overflow]
  simp only [id_eq]
  omega

/-- `0x7FFF` and 1, the latter as an immediate byte below and as a zero page byte above. -/
def carryingColumns : List Column :=
  [{ upper := 0xFF, lower := 0x01, machine := holding [0x01], mode := .immediate,
     found := by decide +kernel },
   { upper := 0x7F, lower := 0x00, machine := holding [0x01, 0x00], mode := .zeroPage,
     found := by decide +kernel }]

theorem long_addition_carrying :
    ∃ results final, calculateAll .adc {} carryingColumns = .ok (results, final) ∧
      unsigned results = 0x8000 ∧ final.overflow = true ∧ final.carry = false := by
  obtain ⟨results, final, calculated, _, result, carry, overflow, _⟩ :=
    long_addition {} (List.cons_ne_nil _ _ : carryingColumns ≠ [])
  refine ⟨results, final, calculated, result, overflow.2 (.inr (by decide)), ?_⟩
  exact Bool.eq_false_iff.2 fun set => absurd (carry.1 set) (by decide)

/-- Subtraction with carry, column by column, subtracts the numbers and what the carry lacks of a
one. A comparison in the lowest column in place of its subtraction orders the numbers, and keeps the
byte in the accumulator and the overflow. -/
theorem long_subtraction (s : Status) (col : Column) (rest : List Column) :
    let columns := col :: rest
    let n := columns.length
    let a := columns.map (·.upper)
    let b := columns.map (·.lower)
    let c := s.carry.toNat
    let difference : Int := signed a - signed b - (1 - c)
    (∃ results final, calculateAll .sbc s columns = .ok (results, final) ∧ results.length = n ∧
      (unsigned results : Int) = (unsigned a - unsigned b - (1 - c)) % 256 ^ n ∧
      (final.carry = true ↔ unsigned b + (1 - c) ≤ unsigned a) ∧
      (final.overflow = true ↔
        difference < -2 ^ (8 * n - 1) ∨ 2 ^ (8 * n - 1) - 1 < difference) ∧
      ((final.negative ^^ final.overflow) = true ↔ difference < 0)) ∧
    (∃ t, col.calculate .cmp s = .ok (col.upper, t) ∧ t.overflow = s.overflow ∧
      ∃ results final, calculateAll .sbc t rest = .ok (results, final) ∧
        (final.carry = true ↔ unsigned b ≤ unsigned a)) ∧
    ∀ m mode, ((execute .cmp mode).after m).cpu.a = m.cpu.a ∧
      ((execute .cmp mode).after m).cpu.status.overflow = m.cpu.status.overflow := by
  refine ⟨?_, ?_, compare_keeps⟩
  · obtain ⟨results, final, calculated, adds⟩ := calculateAll_subtracts s (col :: rest)
    have some : (col :: rest).map (·.upper) ≠ [] := List.cons_ne_nil _ _
    have some' : (col :: rest).map (·.lower) ≠ [] := List.cons_ne_nil _ _
    have length := adds.length.2
    have overflow := adds.overflow some
    have sign := adds.sign some
    obtain ⟨result, carry⟩ := adds.difference
    rw [Adds.signed_difference some'] at overflow sign
    rw [List.length_map] at length overflow result
    refine ⟨results, final, calculated, length, result, carry, ?_, sign⟩
    rw [overflow]
    omega
  · let t := ((col.ready s).cpu.compare col.upper col.lower).status
    obtain ⟨results, final, calculated, adds⟩ := calculateAll_subtracts t rest
    refine ⟨t, col.calculate_load s (fun v c => c.compare c.a v) rfl, rfl, results, final,
      calculated, ?_⟩
    -- The carry that a comparison leaves tells that its column borrows nothing from those above.
    exact adds.difference.2.trans (unsigned_cons_le _ _ _ _).symm

end Machine
end Nes
