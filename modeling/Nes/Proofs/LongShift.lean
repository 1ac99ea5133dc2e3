import Nes.Proofs.LongNumber
import Nes.Proofs.Step

/-! Shifts of numbers of several bytes. One byte is shifted, the others are rotated in turn, each
taking in the carry that the one before it gave out. A byte is handled in the accumulator or in its
cell of work RAM. Which of the two makes no difference, as long as no cell of the number is read to
find another. -/
namespace Nes

open Nes.Action Nes.Long

namespace Cpu

theorem rotateLeft_unsigned (carry : Bool) (v : Byte) :
    (rotateLeft carry v).1.toNat + 256 * (rotateLeft carry v).2.toNat =
      2 * v.toNat + carry.toNat := by
  have bound := v.toNat_lt
  have entering : (UInt8.ofNat carry.toNat).toNat = carry.toNat := by cases carry <;> rfl
  have shifted : (v <<< 1).toNat = (v.toNat % 128) <<< 1 := by
    rw [UInt8.toNat_shiftLeft, Nat.shiftLeft_eq, Nat.shiftLeft_eq]
    change v.toNat * 2 % 256 = v.toNat % 128 * 2
    omega
  have joined : (rotateLeft carry v).1.toNat = (v.toNat % 128) <<< 1 + carry.toNat := by
    rw [Nat.shiftLeft_add_eq_or_of_lt (by simpa using carry.toNat_lt)]
    change (v <<< 1 ||| UInt8.ofNat carry.toNat).toNat = _
    rw [UInt8.toNat_or, shifted, entering]
  have leaving : (rotateLeft carry v).2 = decide (128 ≤ v.toNat) := bit_seven v
  rw [joined, leaving, Nat.shiftLeft_eq]
  by_cases high : 128 ≤ v.toNat
  · simp only [high, decide_true, Bool.toNat_true]
    omega
  · simp only [high, decide_false, Bool.toNat_false]
    omega

theorem rotateRight_unsigned (carry : Bool) (v : Byte) :
    2 * (rotateRight carry v).1.toNat + (rotateRight carry v).2.toNat =
      v.toNat + 256 * carry.toNat := by
  have bound := v.toNat_lt
  have entering : (UInt8.ofNat (128 * carry.toNat)).toNat = carry.toNat <<< 7 := by
    cases carry <;> rfl
  have shifted : (v >>> 1).toNat = v.toNat / 2 := UInt8.toNat_shiftRight v 1
  have joined : (rotateRight carry v).1.toNat = carry.toNat <<< 7 + v.toNat / 2 := by
    rw [Nat.shiftLeft_add_eq_or_of_lt (by omega), Nat.or_comm]
    change (v >>> 1 ||| UInt8.ofNat (128 * carry.toNat)).toNat = _
    rw [UInt8.toNat_or, shifted, entering]
  have leaving : (rotateRight carry v).2 = decide (v.toNat % 2 = 1) := Nat.testBit_zero _
  rw [joined, leaving, Nat.shiftLeft_eq]
  by_cases odd : v.toNat % 2 = 1
  · simp only [odd, decide_true, Bool.toNat_true]
    omega
  · simp only [odd, decide_false, Bool.toNat_false]
    omega

theorem shiftLeft_eq (carry : Bool) (v : Byte) : shiftLeft carry v = rotateLeft false v :=
  congrArg (·, bit v 7) (UInt8.or_zero).symm

theorem shiftRight_eq (carry : Bool) (v : Byte) : shiftRight carry v = rotateRight false v :=
  congrArg (·, bit v 0) (UInt8.or_zero).symm

/-- Changes bytes one after the other, the first in one way, the others in another. The flags are
those of the byte that was changed last. -/
def thread (first rest : Change) (s : Status) : List Byte → List Byte × Status
  | [] => ([], s)
  | v :: vs =>
    let (r, carry) := first s.carry v
    let (rs, final) := thread rest rest ({ s with carry }.ofResult r) vs
    (r :: rs, final)

theorem thread_length (first rest : Change) (s : Status) (vs : List Byte) :
    (thread first rest s vs).1.length = vs.length := by
  induction vs generalizing first s with
  | nil => rfl
  | cons v vs ih => exact congrArg (· + 1) (ih _ _)

/-- From the lowest byte up, rotation to the left doubles the number. -/
theorem thread_rotateLeft (s : Status) (vs : List Byte) :
    unsigned (thread rotateLeft rotateLeft s vs).1 +
        256 ^ vs.length * (thread rotateLeft rotateLeft s vs).2.carry.toNat =
      2 * unsigned vs + s.carry.toNat := by
  induction vs generalizing s with
  | nil => simp [thread]
  | cons v vs ih =>
    have column := rotateLeft_unsigned s.carry v
    have above := ih ({ s with carry := (rotateLeft s.carry v).2 }.ofResult (rotateLeft s.carry v).1)
    simp only [thread, unsigned_cons, List.length_cons, pow_succ', mul_assoc]
    simp only [Status.ofResult] at above ⊢
    omega

/-- From the highest byte down, rotation to the right halves the number. -/
theorem thread_rotateRight (s : Status) (vs : List Byte) :
    2 * unsigned (thread rotateRight rotateRight s vs).1.reverse +
        (thread rotateRight rotateRight s vs).2.carry.toNat =
      unsigned vs.reverse + 256 ^ vs.length * s.carry.toNat := by
  induction vs generalizing s with
  | nil => simp [thread]
  | cons v vs ih =>
    have column := rotateRight_unsigned s.carry v
    have below := ih
      ({ s with carry := (rotateRight s.carry v).2 }.ofResult (rotateRight s.carry v).1)
    have weighted := congrArg (256 ^ vs.length * ·) column
    simp only [mul_add, mul_left_comm _ 2] at weighted
    simp only [thread, unsigned_reverse_cons, thread_length, List.length_cons, pow_succ, mul_assoc]
    simp only [Status.ofResult] at below ⊢
    omega

/-- The bytes of the double, and the carry out of them. -/
theorem thread_doubles (s : Status) (vs : List Byte) :
    unsigned (thread rotateLeft rotateLeft s vs).1 =
      (2 * unsigned vs + s.carry.toNat) % 256 ^ vs.length ∧
    ((thread rotateLeft rotateLeft s vs).2.carry = true ↔
      256 ^ vs.length ≤ 2 * unsigned vs + s.carry.toNat) := by
  have below := unsigned_lt (thread rotateLeft rotateLeft s vs).1
  rw [thread_length] at below
  exact carried below (thread_rotateLeft s vs)

/-- What does not take the carry in could as well take in none. -/
theorem thread_cleared {first rest : Change} (same : ∀ carry v, first carry v = rest false v)
    (s : Status) {vs : List Byte} (some : vs ≠ []) :
    thread first rest s vs = thread rest rest { s with carry := false } vs := by
  cases vs with
  | nil => exact absurd rfl some
  | cons v vs => simp only [thread, same, Status.ofResult]

theorem thread_shiftLeft (s : Status) {vs : List Byte} (some : vs ≠ []) :
    unsigned (thread shiftLeft rotateLeft s vs).1 = 2 * unsigned vs % 256 ^ vs.length ∧
    (thread shiftLeft rotateLeft s vs).2.carry =
      (unsigned vs).testBit (8 * vs.length - 1) := by
  obtain ⟨result, carry⟩ := thread_doubles { s with carry := false } vs
  rw [thread_cleared shiftLeft_eq s some, testBit_top (List.length_pos_iff.2 some) (unsigned_lt vs), Bool.eq_iff_iff,
    decide_eq_true_eq]
  exact ⟨result, carry⟩

theorem thread_shiftRight (s : Status) {vs : List Byte} (some : vs ≠ []) :
    unsigned (thread shiftRight rotateRight s vs.reverse).1.reverse = unsigned vs / 2 ∧
    (thread shiftRight rotateRight s vs.reverse).2.carry = (unsigned vs).testBit 0 := by
  have rotated := thread_cleared shiftRight_eq s (List.reverse_ne_nil_iff.2 some)
  have half := thread_rotateRight { s with carry := false } vs.reverse
  rw [← rotated, List.reverse_reverse, Bool.toNat_false, Nat.mul_zero, Nat.add_zero] at half
  rw [Nat.testBit_zero, ← half]
  cases (thread shiftRight rotateRight s vs.reverse).2.carry with
  | false =>
    rw [Bool.toNat_false, decide_eq_false (by omega)]
    exact ⟨by omega, rfl⟩
  | true =>
    rw [Bool.toNat_true, decide_eq_true (by omega)]
    exact ⟨by omega, rfl⟩

/-- Rotation down undoes rotation up. -/
theorem thread_back (s : Status) (vs : List Byte) :
    let up := thread rotateLeft rotateLeft s vs
    let down := thread rotateRight rotateRight up.2 up.1.reverse
    down.1.reverse = vs ∧ down.2.carry = s.carry := by
  intro up down
  have length : up.1.length = vs.length := thread_length _ _ s vs
  have double := thread_rotateLeft s vs
  have half := thread_rotateRight up.2 up.1.reverse
  rw [List.reverse_reverse, List.length_reverse, length] at half
  have same : 2 * unsigned down.1.reverse + down.2.carry.toNat =
      2 * unsigned vs + s.carry.toNat := half.trans double
  have := down.2.carry.toNat_lt
  have := s.carry.toNat_lt
  have carry : down.2.carry.toNat = s.carry.toNat := by omega
  refine ⟨unsigned_inj ?_ (by omega), ?_⟩
  · rw [List.length_reverse, thread_length, List.length_reverse, length]
  · rw [Bool.eq_iff_iff, ← Bool.toNat_eq_one, ← Bool.toNat_eq_one, carry]

end Cpu

namespace Bus

/-- The bus differs at most in some cells of work RAM. -/
def AgreeOff (cells : List WorkRam.Cell) (b c : Bus) : Prop :=
  ∃ ram, c = { b with ram } ∧ ∀ cell ∉ cells, ram.get cell = b.ram.get cell

theorem AgreeOff.refl (cells : List WorkRam.Cell) (b : Bus) : AgreeOff cells b b :=
  ⟨b.ram, rfl, fun _ _ => rfl⟩

/-- A read that must not meet any of some cells. -/
def readApart (cells : List WorkRam.Cell) (a : Address) : Action Bus Byte :=
  match Region.ofAddress a with
  | .ram cell => if cell ∈ cells then throw (.unmapped a) else read a
  | _ => read a

/-- What one action finds the other finds as well, whatever some cells hold. -/
def Mirrors (cells : List WorkRam.Cell) (act act' : Action Bus α) : Prop :=
  ∀ {b c v b'}, AgreeOff cells b c → act.run b = .ok v b' →
    ∃ c', act'.run c = .ok v c' ∧ AgreeOff cells b' c'

theorem Mirrors.bind {act act' : Action Bus α} {next next' : α → Action Bus β}
    (first : Mirrors cells act act') (rest : ∀ v, Mirrors cells (next v) (next' v)) :
    Mirrors cells (act >>= next) (act' >>= next') := by
  intro b c v b' agree h
  obtain ⟨u, r, ended, h⟩ := run_bind_ok.1 h
  obtain ⟨r', ended', agree⟩ := first agree ended
  obtain ⟨c', ended'', agree⟩ := rest u agree h
  exact ⟨c', run_bind_ok.2 ⟨u, r', ended', ended''⟩, agree⟩

theorem readApart_mirrors (cells : List WorkRam.Cell) (a : Address) :
    Mirrors cells (readApart cells a) (read a) := by
  rintro b c v b' ⟨ram, rfl, agree⟩ h
  unfold readApart at h
  cases region : Region.ofAddress a with
  | ram cell =>
    simp only [region] at h
    split at h
    · cases h
    next other =>
      simp only [read, region] at h ⊢
      cases h
      exact ⟨_, congrArg (EStateM.Result.ok · _) (agree cell other), ram, rfl, agree⟩
  -- Behind work RAM, the answer comes from what the two buses share.
  | registers =>
    simp only [region, read, run_onPpu] at h ⊢
    cases answered : (Ppu.readRegister a).run b.ppu with
    | ok u ppu =>
      rw [answered] at h
      cases h
      exact ⟨_, rfl, ram, rfl, agree⟩
    | error e ppu =>
      rw [answered] at h
      cases h
  | rom offset =>
    simp only [region, read, run_of] at h ⊢
    have same : romByte? { b with ram } offset = b.romByte? offset := rfl
    rw [same]
    cases answered : b.romByte? offset with
    | some u =>
      rw [answered] at h
      cases h
      exact ⟨_, rfl, ram, rfl, agree⟩
    | none =>
      rw [answered] at h
      cases h
  | unmapped =>
    simp only [region, read] at h
    cases h

/-- An operand that is found apart from some cells is found there whatever they hold. -/
theorem locate_mirrors (cells : List WorkRam.Cell) (mode : Mode) (c : Cpu) :
    Mirrors cells (mode.resolve c.pc c.x c.y (readApart cells)) (locate mode c) := by
  refine mode.resolve_related (Mirrors cells) c.pc c.x c.y ?_ Mirrors.bind ?_
    (readApart_mirrors cells)
  · rintro α v b c _ _ agree ⟨⟩
    exact ⟨c, rfl, agree⟩
  · rintro e b c _ _ _ ⟨⟩

end Bus

/-- A shift or a rotation, which changes its operand and shows what it has become. -/
def Operation.ShiftsBy (op : Operation) (change : Cpu.Change) : Prop :=
  op.effect = .modify change fun v c => c.flagged v

theorem Operation.shiftsBy_of_shifts {op : Operation} (h : op ∈ shifts) :
    ∃ change, op.ShiftsBy change := by
  simp only [shifts, List.mem_cons, List.not_mem_nil, or_false] at h
  rcases h with rfl | rfl | rfl | rfl <;> exact ⟨_, rfl⟩

namespace Machine

/-- A cell, and the registers and the mode by which an instruction comes to it. -/
structure Place where
  mode : Mode
  pc : Address
  x : Byte
  y : Byte
  cell : WorkRam.Cell

/-- A byte of a long number. -/
inductive Digit
  | accumulator (v : Byte)
  | memory (place : Place)

namespace Digit

def byte (ram : WorkRam) : Digit → Byte
  | accumulator v => v
  | memory place => ram.get place.cell

def place? : Digit → Option Place
  | accumulator _ => none
  | memory place => some place

/-- Handles a byte where it is. The registers that are needed for it are loaded first. -/
def apply (op : Operation) : Digit → Action Machine Digit
  | accumulator v => do
    update fun c => { c with a := v }
    execute op .accumulator
    return accumulator (← view (·.a))
  | memory place => do
    update fun c => { c with pc := place.pc, x := place.x, y := place.y }
    execute op place.mode
    return memory place

end Digit

def bytes (ram : WorkRam) (digits : List Digit) : List Byte := digits.map (·.byte ram)

def places (digits : List Digit) : List Place := digits.filterMap Digit.place?

def cells (digits : List Digit) : List WorkRam.Cell := (places digits).map (·.cell)

theorem places_cons (d : Digit) (digits : List Digit) :
    places (d :: digits) = places [d] ++ places digits :=
  List.filterMap_append (l := [d])

theorem cells_cons (d : Digit) (digits : List Digit) :
    cells (d :: digits) = cells [d] ++ cells digits := by
  rw [cells, places_cons, List.map_append]
  rfl

theorem places_reverse (digits : List Digit) : places digits.reverse = (places digits).reverse :=
  List.filterMap_reverse

theorem bytes_reverse (ram : WorkRam) (digits : List Digit) :
    bytes ram digits.reverse = (bytes ram digits).reverse := List.map_reverse

theorem cells_reverse (digits : List Digit) : cells digits.reverse = (cells digits).reverse := by
  rw [cells, places_reverse, List.map_reverse]
  rfl

/-- The places are those of the forms that the digits have. -/
theorem places_of_forms {digits others : List Digit}
    (same : digits.map Digit.place? = others.map Digit.place?) : places digits = places others := by
  have kept := congrArg (List.filterMap id) same
  rwa [List.filterMap_map, List.filterMap_map] at kept

theorem places_accumulators (vs : List Byte) : places (vs.map .accumulator) = [] := by
  refine List.filterMap_eq_nil_iff.2 fun d member => ?_
  obtain ⟨v, _, rfl⟩ := List.mem_map.1 member
  rfl

theorem bytes_accumulators (ram : WorkRam) (vs : List Byte) :
    bytes ram (vs.map .accumulator) = vs := by
  rw [bytes, List.map_map]
  exact List.map_id vs

/-- The bytes depend on the cells of the number alone. -/
theorem bytes_congr {ram other : WorkRam} {digits : List Digit}
    (same : ∀ cell ∈ cells digits, ram.get cell = other.get cell) :
    bytes ram digits = bytes other digits := by
  refine List.map_congr_left fun d member => ?_
  cases d with
  | accumulator v => rfl
  | memory p => exact same _ (List.mem_map_of_mem (List.mem_filterMap.2 ⟨_, member, rfl⟩))

/-- Handles the bytes of a number in turn, the first by one operation and the others by another. -/
def pass (first rest : Operation) : List Digit → Action Machine (List Digit)
  | [] => return []
  | d :: digits => do
    let d ← d.apply first
    return d :: (← pass rest rest digits)

/-- The instructions find the places in turn, and read none of some cells on the way. The reads
have the effects that they have. -/
inductive Found (own : List WorkRam.Cell) : Bus → List Place → Bus → Prop
  | nil : Found own b [] b
  | cons : (p.mode.resolve p.pc p.x p.y (Bus.readApart own)).run b = .ok t b' →
      Region.ofAddress t = .ram p.cell → Found own b' ps c → Found own b (p :: ps) c

theorem Found.append (found : Found own b (ps ++ qs) d) :
    ∃ c, Found own b ps c ∧ Found own c qs d := by
  induction ps generalizing b with
  | nil => exact ⟨b, .nil, found⟩
  | cons p ps ih =>
    cases found with
    | cons resolved region below =>
      obtain ⟨c, left, right⟩ := ih below
      exact ⟨c, .cons resolved region left, right⟩

/-- What becomes of the digits and of the machine when bytes are handled. The bus `b` is that of a
machine which has only looked for the operands. -/
structure Handled (own : List WorkRam.Cell) (b : Bus) (m : Machine) (digits : List Digit)
    (result : List Byte × Status) (out : List Digit) (m' : Machine) : Prop where
  agree : Bus.AgreeOff own b m'.bus
  forms : out.map Digit.place? = digits.map Digit.place?
  results : bytes m'.bus.ram out = result.1
  status : m'.cpu.status = result.2
  frame : ∀ cell ∉ cells digits, m'.bus.ram.get cell = m.bus.ram.get cell

/-- One byte is handled alike in both forms. -/
theorem Digit.apply_handled {m : Machine} (shift : op.ShiftsBy change) (rest : Cpu.Change)
    (d : Digit) (found : Found own b (Machine.places [d]) b') (agree : Bus.AgreeOff own b m.bus)
    (inside : ∀ cell ∈ cells [d], cell ∈ own) :
    ∃ d' m', (d.apply op).run m = .ok d' m' ∧
      Handled own b' m [d] (Cpu.thread change rest m.cpu.status [d.byte m.bus.ram]) [d'] m' := by
  cases d with
  | accumulator v =>
    cases found
    have effect : op.effect = .modify change fun v c => c.flagged v := shift
    let r := change m.cpu.status.carry v
    let c := Cpu.flagged { m.cpu.withCarry r.2 with a := r.1 } r.1
    refine ⟨accumulator r.1, { m with cpu := c }, ?_, agree, rfl, rfl, rfl, fun _ _ => rfl⟩
    simp only [apply, EStateM.run_bind, run_update, run_execute_accumulator _ effect, run_view,
      EStateM.run_pure]
    rfl
  | memory p =>
    cases found with
    | cons resolved region none =>
      cases none
      let n : Machine := { m with cpu := { m.cpu with pc := p.pc, x := p.x, y := p.y } }
      obtain ⟨_, located, ram, rfl, same⟩ := Bus.locate_mirrors own p.mode n.cpu agree resolved
      have kept : ram = m.bus.ram := ((Bus.locate_steady p.mode n.cpu).ok located).ram
      subst kept
      let r := change m.cpu.status.carry (m.bus.ram.get p.cell)
      have ended := run_execute_cell (m := n) (r := r) shift located region rfl
      refine ⟨memory p, _, run_bind_ok.2 ⟨(), n, rfl, run_bind_ok.2 ⟨(), _, ended, rfl⟩⟩, ?_⟩
      have other {among : List WorkRam.Cell} (holds : p.cell ∈ among) (cell) (out : cell ∉ among) :
          (m.bus.ram.set p.cell r.1).get cell = m.bus.ram.get cell :=
        WorkRam.get_set_other _ _ fun same => out (same ▸ holds)
      have self : p.cell ∈ cells [memory p] := List.mem_singleton.2 rfl
      refine ⟨⟨_, rfl, fun cell out => ?_⟩, rfl, ?_, rfl, other self⟩
      · exact (other (inside _ self) cell out).trans (same cell out)
      · exact congrArg ([·]) (WorkRam.get_set_same _ _ _)

/-- A byte keeps what was made of it while other cells are handled. -/
theorem Handled.cons {m₀ m₁ m₂ : Machine} (head : Handled own b m₀ [d] ([r], s) [d'] m₁)
    (tail : Handled own c m₁ digits (rs, final) out m₂)
    (apart : ∀ cell ∈ cells [d], cell ∉ cells digits) :
    Handled own c m₀ (d :: digits) (r :: rs, final) (d' :: out) m₂ := by
  refine ⟨tail.agree, ?_, ?_, tail.status, fun cell out => ?_⟩
  · exact congrArg₂ (· ++ ·) head.forms tail.forms
  · have kept : bytes m₂.bus.ram [d'] = bytes m₁.bus.ram [d'] := by
      refine bytes_congr fun cell member => tail.frame cell (apart cell ?_)
      rwa [cells, places_of_forms head.forms] at member
    exact congrArg₂ (· ++ ·) (kept.trans head.results) tail.results
  · rw [cells_cons, List.mem_append, not_or] at out
    rw [tail.frame cell out.2, head.frame cell out.1]

/-- All bytes are handled alike in both forms. -/
theorem pass_handled {m : Machine} (first rest : Operation) (shift : first.ShiftsBy change)
    (shifts : rest.ShiftsBy others) (digits : List Digit) (found : Found own b (places digits) c)
    (agree : Bus.AgreeOff own b m.bus) (apart : (cells digits).Nodup)
    (inside : ∀ cell ∈ cells digits, cell ∈ own) :
    ∃ out m', (pass first rest digits).run m = .ok out m' ∧
      Handled own c m digits (Cpu.thread change others m.cpu.status (bytes m.bus.ram digits)) out
        m' := by
  -- The bus of the search goes along with the machine's; from the second byte on `rest` is `first`.
  induction digits generalizing m b first change with
  | nil =>
    cases found
    exact ⟨[], m, rfl, agree, rfl, rfl, rfl, fun _ _ => rfl⟩
  | cons d digits ih =>
    rw [places_cons] at found
    rw [cells_cons] at apart inside
    obtain ⟨b', here, below⟩ := found.append
    obtain ⟨_, apart, disjoint⟩ := List.nodup_append.1 apart
    obtain ⟨d', n, ended, head⟩ := d.apply_handled shift others here agree fun cell member =>
      inside cell (List.mem_append_left _ member)
    obtain ⟨out, m', passed, tail⟩ := ih (m := n) rest shifts below head.agree apart fun cell member =>
      inside cell (List.mem_append_right _ member)
    have untouched : bytes n.bus.ram digits = bytes m.bus.ram digits :=
      bytes_congr fun cell member => head.frame cell fun used => disjoint _ used _ member rfl
    rw [untouched, head.status] at tail
    refine ⟨d' :: out, m', ?_, head.cons tail fun cell used member => disjoint _ used _ member rfl⟩
    exact run_bind_ok.2 ⟨d', n, ended, run_bind_ok.2 ⟨out, m', passed, rfl⟩⟩

/-- A pass comes to its end, and every byte is in the form and in the place it had. -/
structure Passes (first rest : Operation) (m : Machine) (digits out : List Digit) (m' : Machine) :
    Prop where
  ended : (pass first rest digits).run m = .ok out m'
  forms : out.map Digit.place? = digits.map Digit.place?

/-- A pass from the highest byte down. -/
theorem pass_downward {m : Machine} (first rest : Operation) (shift : first.ShiftsBy change)
    (shifts : rest.ShiftsBy others) (digits : List Digit)
    (found : Found own b (places digits).reverse c) (agree : Bus.AgreeOff own b m.bus)
    (apart : (cells digits).Nodup) (inside : ∀ cell ∈ cells digits, cell ∈ own) :
    ∃ out m', Passes first rest m digits.reverse out.reverse m' ∧
      let result := Cpu.thread change others m.cpu.status (bytes m.bus.ram digits).reverse
      bytes m'.bus.ram out = result.1.reverse ∧ m'.cpu.status = result.2 := by
  rw [← places_reverse] at found
  have apart' : (cells digits.reverse).Nodup := by
    rw [cells_reverse]
    exact (List.reverse_perm _).nodup_iff.2 apart
  have inside' : ∀ cell ∈ cells digits.reverse, cell ∈ own := by
    simpa only [cells_reverse, List.mem_reverse] using inside
  obtain ⟨out, m', ended, _, forms, results, status, _⟩ :=
    pass_handled first rest shift shifts digits.reverse found agree apart' inside'
  rw [bytes_reverse] at results status
  rw [← List.reverse_reverse out] at ended forms results
  rw [bytes_reverse] at results
  exact ⟨out.reverse, m', ⟨ended, forms⟩, List.reverse_eq_iff.1 results, status⟩

theorem pass_accumulators (first rest : Operation) (shift : first.ShiftsBy change)
    (shifts : rest.ShiftsBy others) (m : Machine) (vs : List Byte) :
    ∃ out m', Passes first rest m (vs.map .accumulator) out m' ∧
      bytes m'.bus.ram out = (Cpu.thread change others m.cpu.status vs).1 ∧
      m'.cpu.status = (Cpu.thread change others m.cpu.status vs).2 := by
  have nowhere : cells (vs.map .accumulator) = [] := congrArg (List.map _) (places_accumulators vs)
  have found : Found [] m.bus (places (vs.map .accumulator)) m.bus := by
    rw [places_accumulators]
    exact .nil
  have apart : (cells (vs.map .accumulator)).Nodup := by
    rw [nowhere]
    exact List.nodup_nil
  have inside : ∀ cell ∈ cells (vs.map .accumulator), cell ∈ [] := by
    rw [nowhere]
    exact fun _ member => member
  obtain ⟨out, m', ended, _, forms, results, status, _⟩ :=
    pass_handled first rest shift shifts _ found (.refl [] m.bus) apart inside
  rw [bytes_accumulators] at results status
  exact ⟨out, m', ⟨ended, forms⟩, results, status⟩

/-- Upward from the lowest byte a shift and rotations double a number, downward from the highest they
halve it. Rotations up with any carry are undone by rotations down. Whatever is shifted or rotated,
it comes out as it does in the accumulator, and so do the flags. -/
theorem long_shifts {m : Machine} {digits : List Digit} (some : digits ≠ [])
    (apart : (cells digits).Nodup) :
    let own := cells digits
    let n := digits.length
    let a := unsigned (bytes m.bus.ram digits)
    let c := m.cpu.status.carry
    (∀ b, Found own m.bus (places digits) b → ∃ out m', Passes .asl .rol m digits out m' ∧
      unsigned (bytes m'.bus.ram out) = 2 * a % 256 ^ n ∧
      m'.cpu.status.carry = a.testBit (8 * n - 1)) ∧
    (∀ b, Found own m.bus (places digits).reverse b → ∃ out m',
      Passes .lsr .ror m digits.reverse out.reverse m' ∧
      unsigned (bytes m'.bus.ram out) = a / 2 ∧ m'.cpu.status.carry = a.testBit 0) ∧
    (∀ b, Found own m.bus (places digits ++ (places digits).reverse) b → ∃ out m' back m'',
      Passes .rol .rol m digits out m' ∧
      unsigned (bytes m'.bus.ram out) = (2 * a + c.toNat) % 256 ^ n ∧
      Passes .ror .ror m' out.reverse back.reverse m'' ∧
      bytes m''.bus.ram back = bytes m.bus.ram digits ∧ m''.cpu.status.carry = c) ∧
    ∀ first ∈ Operation.shifts, ∀ rest ∈ Operation.shifts, ∀ b,
      Found own m.bus (places digits) b → ∃ out m' out' m'', Passes first rest m digits out m' ∧
        Passes first rest m ((bytes m.bus.ram digits).map .accumulator) out' m'' ∧
        bytes m'.bus.ram out = bytes m''.bus.ram out' ∧ m'.cpu.status = m''.cpu.status := by
  intro own n a c
  have length : (bytes m.bus.ram digits).length = n := List.length_map _
  have some' : bytes m.bus.ram digits ≠ [] := fun none => some (List.map_eq_nil_iff.1 none)
  have start := Bus.AgreeOff.refl own m.bus
  refine ⟨fun b found => ?_, fun b found => ?_, fun b found => ?_,
    fun first shift rest shifts b found => ?_⟩
  · obtain ⟨out, m', ended, handled⟩ :=
      pass_handled .asl .rol rfl rfl digits found start apart fun _ member => member
    refine ⟨out, m', ⟨ended, handled.forms⟩, ?_⟩
    rw [handled.results, handled.status, ← length]
    exact Cpu.thread_shiftLeft _ some'
  · obtain ⟨out, m', passes, results, status⟩ :=
      pass_downward .lsr .ror rfl rfl digits found start apart fun _ member => member
    refine ⟨out, m', passes, ?_⟩
    rw [results, status]
    exact Cpu.thread_shiftRight _ some'
  · obtain ⟨d, up, down⟩ := found.append
    obtain ⟨out, m', ended, handled⟩ :=
      pass_handled .rol .rol rfl rfl digits up start apart fun _ member => member
    have kept := places_of_forms handled.forms
    have own_eq : cells out = own := congrArg (List.map _) kept
    rw [← kept] at down
    obtain ⟨back, m'', passes, results, status⟩ :=
      pass_downward .ror .ror rfl rfl out down handled.agree (own_eq ▸ apart)
        fun _ member => own_eq ▸ member
    refine ⟨out, m', back, m'', ⟨ended, handled.forms⟩, ?_, passes, ?_⟩
    · rw [handled.results, ← length]
      exact (Cpu.thread_doubles _ _).1
    · rw [results, status, handled.results, handled.status]
      exact Cpu.thread_back _ _
  · obtain ⟨change, shift⟩ := Operation.shiftsBy_of_shifts shift
    obtain ⟨others, shifts⟩ := Operation.shiftsBy_of_shifts shifts
    obtain ⟨out, m', ended, handled⟩ :=
      pass_handled first rest shift shifts digits found start apart fun _ member => member
    obtain ⟨out', m'', passes, results, status⟩ :=
      pass_accumulators first rest shift shifts m (bytes m.bus.ram digits)
    exact ⟨out, m', out', m'', ⟨ended, handled.forms⟩, passes, handled.results.trans results.symm,
      handled.status.trans status.symm⟩

/-- `0xC08081`, with its lowest byte in the accumulator, the next in a cell of the zero page and the
highest three cells behind an absolute address. -/
def scattered : List Digit :=
  [.accumulator 0x81, .memory ⟨.zeroPage, 0, 0, 0, 5⟩, .memory ⟨.absoluteX, 1, 3, 0, 6⟩]

def scatteredMachine : Machine := holding [0x05, 0x03, 0x00, 0x00, 0x00, 0x80, 0xC0]

theorem long_shifts_scattered :
    (∃ out m', Passes .asl .rol scatteredMachine scattered out m' ∧
      unsigned (bytes m'.bus.ram out) = 0x810102 ∧ m'.cpu.status.carry = true) ∧
    ∃ out m' back m'', Passes .rol .rol scatteredMachine scattered out m' ∧
      unsigned (bytes m'.bus.ram out) = 0x810102 ∧ Passes .ror .ror m' out.reverse back.reverse m'' ∧
      bytes m''.bus.ram back = [0x81, 0x80, 0xC0] ∧ m''.cpu.status.carry = false := by
  let b := scatteredMachine.bus
  have some : scattered ≠ [] := List.cons_ne_nil _ _
  have low : (Mode.zeroPage.resolve 0 0 0 (Bus.readApart [5, 6])).run b = .ok 5 b := rfl
  have high : (Mode.absoluteX.resolve 1 3 0 (Bus.readApart [5, 6])).run b = .ok 6 b := rfl
  have up : Found [5, 6] b (places scattered) b := .cons low rfl (.cons high rfl .nil)
  have around : Found [5, 6] b (places scattered ++ (places scattered).reverse) b :=
    .cons low rfl (.cons high rfl (.cons high rfl (.cons low rfl .nil)))
  obtain ⟨doubles, _, turns, _⟩ := long_shifts (m := scatteredMachine) some (by decide)
  have value : bytes b.ram scattered = [0x81, 0x80, 0xC0] := by decide +kernel
  rw [value] at doubles turns
  obtain ⟨out, m', passes, result, carry⟩ := doubles b up
  obtain ⟨out', n, back, n', first, result', second, restored, carry'⟩ := turns b around
  exact ⟨⟨out, m', passes, result, carry.trans (by decide)⟩, out', n, back, n', first, result',
    second, restored, carry'⟩

end Machine
end Nes
