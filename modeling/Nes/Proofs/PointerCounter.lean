import Nes.Proofs.History
import Nes.Proofs.Command

/-! The registers of the picture unit that take two writes, told without bytes and carries. The
pointer is a number of fourteen bits that counts on through its end, and the scroll position is what
the odd and the even writes since the last read of the status have left. -/
namespace Nes.Ppu

open Nes.Action

/-- A number of fourteen bits, and whether its high part is written next. -/
structure Counter where
  value : Fin 0x4000 := 0
  expectsHigh : Bool := true

namespace Counter

def write (c : Counter) (v : Byte) : Counter where
  value :=
    if c.expectsHigh then
      ⟨v.toNat % 64 * 256 + c.value.val % 256, by omega⟩
    else
      ⟨c.value.val / 256 * 256 + v.toNat, by have := c.value.isLt; have := v.toNat_lt; omega⟩
  expectsHigh := !c.expectsHigh

def advance (c : Counter) (step : Nat) : Counter :=
  { c with value := ⟨(c.value.val + step) % 0x4000, Nat.mod_lt _ (by decide)⟩ }

def resetLatch (c : Counter) : Counter := { c with expectsHigh := true }

end Counter

namespace Pointer

/-- The pointer is where the counter is, and expects the same half. -/
structure Shows (p : Pointer) (c : Counter) : Prop where
  address : p.address.toNat = c.value
  expectsHigh : p.expectsHigh = c.expectsHigh

/-- What can be done to a pointer. -/
inductive Move where
  | write (v : Byte)
  | advance (step : Byte)
  | resetLatch

def move (p : Pointer) : Move → Pointer
  | .write v => p.write v
  | .advance step => p.advance step
  | .resetLatch => p.resetLatch

def Move.count (c : Counter) : Move → Counter
  | write v => c.write v
  | advance step => c.advance step.toNat
  | resetLatch => c.resetLatch

variable {p : Pointer} {c : Counter}

theorem toNat_address (p : Pointer) : p.address.toNat = 256 * p.hi.toNat + p.lo.toNat :=
  toNat_word p.lo p.hi

theorem toNat_masked (p : Pointer) :
    p.masked.address.toNat = 256 * (p.hi.toNat % 64) + p.lo.toNat := by
  rw [toNat_address]
  exact congrArg (256 * · + p.lo.toNat) (UInt8.toNat_mod p.hi 0x40)

theorem Shows.write (shows : p.Shows c) (v : Byte) : (p.write v).Shows (c.write v) := by
  obtain ⟨address, expects⟩ := shows
  rw [toNat_address] at address
  have low := p.lo.toNat_lt
  have inside := c.value.isLt
  refine ⟨?_, congrArg (!·) expects⟩
  -- The counter keeps the half that is not written, and the mask takes nothing from the high one.
  cases half : c.expectsHigh with
  | true =>
    have written : (p.write v).address.toNat = 256 * (v.toNat % 64) + p.lo.toNat := by
      rw [← toNat_masked { p with hi := v }, Pointer.write, expects, half]
      rfl
    simp only [written, Counter.write, half, ↓reduceIte]
    omega
  | false =>
    have written : (p.write v).address.toNat = 256 * (p.hi.toNat % 64) + v.toNat := by
      rw [← toNat_masked { p with lo := v }, Pointer.write, expects, half]
      rfl
    simp only [written, Counter.write, half, Bool.false_eq_true, ↓reduceIte]
    omega

theorem Shows.advance (shows : p.Shows c) (step : Byte) :
    (p.advance step).Shows (c.advance step.toNat) := by
  obtain ⟨address, expects⟩ := shows
  rw [toNat_address] at address
  have low := p.lo.toNat_lt
  have small := step.toNat_lt
  have inside := c.value.isLt
  refine ⟨?_, expects⟩
  -- The low byte has become less just when it has gone past its end.
  have carries : p.lo + step < p.lo ↔ 256 ≤ p.lo.toNat + step.toNat := by
    rw [UInt8.lt_iff_toNat_lt, UInt8.toNat_add]
    omega
  rw [Pointer.advance, toNat_masked]
  simp only [UInt8.toNat_add, carries, Counter.advance]
  split
  · rw [UInt8.toNat_add, UInt8.toNat_one]
    omega
  · omega

theorem Shows.resetLatch (shows : p.Shows c) : p.resetLatch.Shows c.resetLatch :=
  ⟨shows.address, rfl⟩

theorem Shows.move (shows : p.Shows c) (step : Move) : (p.move step).Shows (step.count c) := by
  cases step with
  | write v => exact shows.write v
  | advance step => exact shows.advance step
  | resetLatch => exact shows.resetLatch

theorem Shows.moves (shows : p.Shows c) (moves : List Move) :
    (moves.foldl Pointer.move p).Shows (moves.foldl Move.count c) := by
  induction moves generalizing p c with
  | nil => exact shows
  | cons step rest ih => exact ih (shows.move step)

end Pointer

/-! What the requests to the unit say of the two registers. -/

/-- What concerns the two registers. -/
inductive Event where
  | control (v : Byte)
  | pointer (v : Byte)
  | scroll (v : Byte)
  | status
  /-- A move of the pointer, by an access or without one. -/
  | advance

/-- What an answered request says: an access to the data register moves the pointer only if it
succeeds. -/
def event? : Answered Request.Answer → Option Event
  | ⟨.read a, answer⟩ =>
    match Register.ofAddress? a, answer with
    | some .status, _ => some .status
    | some .data, .ok _ => some .advance
    | _, _ => none
  | ⟨.write a v, answer⟩ =>
    match Register.ofAddress? a, answer with
    | some .control, _ => some (.control v)
    | some .pointer, _ => some (.pointer v)
    | some .scroll, _ => some (.scroll v)
    | some .data, .ok _ => some .advance
    | _, _ => none
  | ⟨.vblank _, _⟩ => none
  | ⟨.advance, _⟩ => some .advance

/-- The two registers, as they are told by what has been asked: the last control byte, and the
number of writes to the scroll register since the last read of the status. -/
structure Account where
  counter : Counter := {}
  control : Byte := 0
  scrolls : Nat := 0
  x : Byte := 0
  y : Byte := 0

namespace Account

def record (k : Account) : Event → Account
  | .control v => { k with control := v }
  | .pointer v => { k with counter := k.counter.write v }
  | .scroll v =>
    let scrolls := k.scrolls + 1
    if scrolls % 2 = 1 then { k with scrolls, x := v } else { k with scrolls, y := v }
  | .status => { k with counter := k.counter.resetLatch, scrolls := 0 }
  | .advance => { k with counter := k.counter.advance (if k.control.toNat.testBit 2 then 32 else 1) }

def follow (k : Account) (answered : Answered Request.Answer) : Account :=
  match event? answered with
  | some e => k.record e
  | none => k

/-- The unit is as the account says. -/
structure Holds (k : Account) (p : Ppu) : Prop where
  pointer : p.pointer.Shows k.counter
  control : p.control.bits = k.control
  expectsY : p.scroll.expectsY = decide (k.scrolls % 2 = 1)
  x : p.scroll.x = k.x
  y : p.scroll.y = k.y

end Account

namespace Account.Holds

variable {k : Account} {p q : Ppu}

theorem elsewhere (holds : k.Holds p)
    (same : (q.pointer, q.control, q.scroll) = (p.pointer, p.control, p.scroll)) : k.Holds q := by
  obtain ⟨pointer, same⟩ := Prod.mk.inj same
  obtain ⟨control, scroll⟩ := Prod.mk.inj same
  exact ⟨pointer ▸ holds.pointer, control ▸ holds.control, scroll ▸ holds.expectsY,
    scroll ▸ holds.x, scroll ▸ holds.y⟩

theorem advance (holds : k.Holds p) : (k.record .advance).Holds p.advance := by
  have step : p.control.increment.toNat = if k.control.toNat.testBit 2 then 32 else 1 := by
    rw [← holds.control]
    exact apply_ite UInt8.toNat _ _ _
  have moved := holds.pointer.advance p.control.increment
  rw [step] at moved
  exact ⟨moved, holds.control, holds.expectsY, holds.x, holds.y⟩

theorem scroll (holds : k.Holds p) (v : Byte) : (k.record (.scroll v)).Holds (p.writeScroll v) := by
  obtain ⟨pointer, control, expectsY, x, y⟩ := holds
  unfold Account.record writeScroll Scroll.write
  rw [expectsY]
  by_cases odd : k.scrolls % 2 = 1
  · have even : ¬ (k.scrolls + 1) % 2 = 1 := by omega
    simp only [odd, even, decide_true, ↓reduceIte]
    exact ⟨pointer, control, (decide_eq_false even).symm, x, rfl⟩
  · have next : (k.scrolls + 1) % 2 = 1 := by omega
    simp only [odd, next, decide_false, Bool.false_eq_true, ↓reduceIte]
    exact ⟨pointer, control, (decide_eq_true next).symm, rfl, y⟩

theorem status (holds : k.Holds p) : (k.record .status).Holds p.readStatus.2 :=
  ⟨holds.pointer.resetLatch, holds.control, rfl, holds.x, holds.y⟩

theorem read (holds : k.Holds p) (a : Address) :
    (k.follow ⟨.read a, (readRegister a).answer p⟩).Holds ((readRegister a).after p) := by
  simp only [follow, event?, readRegister]
  cases Register.ofAddress? a with
  | none => exact holds
  | some register =>
    cases register with
    | status => exact holds.status
    | data =>
      cases ended : readData.run p with
      | ok v q =>
        simp only [answer, after, ended]
        obtain ⟨buffer, rfl⟩ := readData_advances ended
        exact (holds.elsewhere (q := { p with buffer }) rfl).advance
      | error e q =>
        simp only [answer, after, ended]
        rw [readData_fault ended]
        exact holds
    | control | mask | oamAddress | oamData | scroll | pointer => exact holds

theorem write (holds : k.Holds p) (a : Address) (v : Byte) :
    (k.follow ⟨.write a v, (writeRegister a v).answer p⟩).Holds ((writeRegister a v).after p) := by
  simp only [follow, event?, writeRegister]
  cases Register.ofAddress? a with
  | none => exact holds
  | some register =>
    cases register with
    | control => exact ⟨holds.pointer, rfl, holds.expectsY, holds.x, holds.y⟩
    | pointer => exact ⟨holds.pointer.write v, holds.control, holds.expectsY, holds.x, holds.y⟩
    | scroll => exact holds.scroll v
    | data =>
      cases ended : (writeData v).run p with
      | ok u q =>
        simp only [answer, after, ended]
        obtain ⟨vram, palette, rfl⟩ := writeData_advances ended
        exact (holds.elsewhere (q := { p with vram, palette }) rfl).advance
      | error e q =>
        simp only [answer, after, ended]
        rw [writeData_fault ended]
        exact holds
    | mask | status | oamAddress | oamData => exact holds.elsewhere rfl

theorem request (holds : k.Holds p) (r : Request) :
    (k.follow ⟨r, r.act.answer p⟩).Holds (r.act.after p) := by
  cases r with
  | read a => exact holds.read a
  | write a v => exact holds.write a v
  | vblank on => exact holds.elsewhere rfl
  | advance => exact holds.advance

theorem afterAll (holds : k.Holds p) (history : List Request) :
    ((answers Request.act p history).foldl follow k).Holds (p.afterAll history) := by
  induction history generalizing k p with
  | nil => exact holds
  | cons r rest ih => exact ih (holds.request r)

end Account.Holds

theorem Pointer.shows_initial : ({} : Pointer).Shows {} := ⟨rfl, rfl⟩

/-- After any history of a unit that was switched on, the pointer and the scroll position are those
of the account that follows the answers. So are those of a pointer on its own after any moves. -/
theorem two_writes_counted :
    (∀ chr m history,
      let p := (powerOn chr m).afterAll history
      let k := (answers Request.act (powerOn chr m) history).foldl Account.follow {}
      p.address.toNat = k.counter.value ∧ p.pointer.expectsHigh = k.counter.expectsHigh ∧
        p.scroll.x = k.x ∧ p.scroll.y = k.y) ∧
    ∀ moves : List Pointer.Move,
      let p : Pointer := moves.foldl Pointer.move {}
      let c : Counter := moves.foldl Pointer.Move.count {}
      p.address.toNat = c.value ∧ p.expectsHigh = c.expectsHigh := by
  refine ⟨fun chr m history => ?_, fun moves => ?_⟩
  · have initially : ({} : Account).Holds (powerOn chr m) :=
      ⟨Pointer.shows_initial, rfl, rfl, rfl, rfl⟩
    obtain ⟨pointer, -, -, x, y⟩ := initially.afterAll history
    exact ⟨pointer.address, pointer.expectsHigh, x, y⟩
  · obtain ⟨address, expectsHigh⟩ := Pointer.shows_initial.moves moves
    exact ⟨address, expectsHigh⟩

/-- The pointer counts on by 32 past a page, is written in halves with an access in between, and starts
over with its high half after a read of the status, as the scroll position does with the horizontal
one. On its own it carries in the middle of a write. -/
theorem two_writes_counted_interrupted :
    let history : List Request := [.write 0x2000 0x04, .write 0x2005 0x07, .write 0x2006 0x21,
      .write 0x2006 0xF0, .read 0x2007, .write 0x2006 0x2F, .read 0x2007, .read 0x2002,
      .write 0x2005 0x09, .write 0x2005 0x05, .write 0x2006 0x3E]
    let p := (powerOn #[] .vertical).afterAll history
    let moves : List Pointer.Move := [.write 0x21, .write 0xFF, .write 0x2F, .advance 1, .write 0x05]
    let q : Pointer := moves.foldl Pointer.move {}
    (p.address = 0x3E30 ∧ p.pointer.expectsHigh = false ∧ p.scroll.x = 0x09 ∧ p.scroll.y = 0x05) ∧
    q.address = 0x3005 ∧ q.expectsHigh = true := by
  intro history p moves q
  obtain ⟨units, pointers⟩ := two_writes_counted
  obtain ⟨address, expectsHigh, x, y⟩ := units #[] .vertical history
  obtain ⟨address', expectsHigh'⟩ := pointers moves
  refine ⟨⟨UInt16.toNat_inj.1 (address.trans ?_), expectsHigh.trans ?_, x.trans ?_, y.trans ?_⟩,
    UInt16.toNat_inj.1 (address'.trans ?_), expectsHigh'.trans ?_⟩
  all_goals decide +kernel

end Nes.Ppu
