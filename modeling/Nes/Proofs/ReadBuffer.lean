import Nes.Proofs.PictureMemory

/-! The read buffer of the picture unit. A read of pattern or nametable memory answers what the
one before it fetched, however much has happened since, and fetches what memory has where the
pointer points. The palette goes past the buffer, and nothing else touches it. -/
namespace Nes.Ppu

open Nes.Action

/-- What memory has at an address that is read through the buffer. -/
def content? (p : Ppu) (a : Address) : Option Byte :=
  if a < 0x2000 then p.chr[a.toNat]?
  else if a < 0x3000 then some (p.nametableByte a)
  else none

/-- A read through the buffer: what it answered, and what memory had where the pointer pointed. -/
structure BufferedRead where
  answer : Byte
  found : Option Byte
  deriving DecidableEq

/-- The buffered read that a request is, if it is one and succeeds. -/
def bufferedRead? (p : Ppu) : Request → Option BufferedRead
  | .read a =>
    if Register.ofAddress? a = some .data ∧ p.address < 0x3000 then
      match (readRegister a).run p with
      | .ok answer _ => some ⟨answer, p.content? p.address⟩
      | .error _ _ => none
    else none
  | _ => none

/-- The buffered reads of a history, in order. -/
def bufferedReads (p : Ppu) : (history : List Request) → List BufferedRead
  | [] => []
  | r :: rest => (p.bufferedRead? r).toList ++ (r.act.after p).bufferedReads rest

/-! What one request does to the buffer. -/

theorem readRegister_data (data : Register.ofAddress? a = some .data) :
    readRegister a = readData := by
  simp only [readRegister, data]

/-- A read below the palette answers the buffer and fills it with what memory has. -/
theorem readData_buffered {p q : Ppu} (h : readData.run p = .ok v q) (below : p.address < 0x3000) :
    v = p.buffer ∧ p.content? p.address = some q.buffer := by
  by_cases pattern : p.address < 0x2000
  · rw [readData, run_of, location_of_pattern pattern] at h
    cases found : p.chr[p.address.toNat]? with
    | none => simp only [found, reduceCtorEq] at h
    | some fresh =>
      simp only [found] at h
      cases h
      exact ⟨rfl, by simp only [content?, pattern, ↓reduceIte, found]; rfl⟩
  · have inside : InNametables p.address := ⟨UInt16.not_lt.1 pattern, below⟩
    rw [readData, run_of, location_of_inNametables inside] at h
    cases h
    exact ⟨rfl, by simp only [content?, pattern, below, ↓reduceIte]; rfl⟩

/-- A read that is not below the palette is one of the palette, or fails. -/
theorem readData_beyond (p : Ppu) (beyond : ¬ p.address < 0x3000) :
    (readData.after p).buffer = p.buffer := by
  by_cases inside : InPalette p.address
  · have moved : readData.run p = .ok (p.paletteByte p.address) p.advance := by
      rw [readData, run_of, location_of_inPalette inside]
      rfl
    rw [after_ok moved]
    rfl
  · have failed : readData.run p = .error (.unmapped p.address) p := by
      rw [readData, run_of, location_of_beyond beyond inside]
    rw [after_error failed]

theorem writeRegister_buffer (a : Address) (v : Byte) (p : Ppu) :
    ((writeRegister a v).after p).buffer = p.buffer := by
  cases wrote : (writeRegister a v).run p with
  | error e q => rw [after_error wrote, writeRegister_fault wrote]
  | ok u q =>
    rw [after_ok wrote]
    unfold writeRegister at wrote
    split at wrote
    case h_8 =>
      obtain ⟨_, rfl⟩ | ⟨_, rfl⟩ := writeData_ok wrote
      · rfl
      · rfl
    all_goals cases wrote <;> rfl

theorem buffered {p : Ppu} {read : BufferedRead} (h : p.bufferedRead? r = some read) :
    read.answer = p.buffer ∧ read.found = some (r.act.after p).buffer := by
  unfold bufferedRead? at h
  split at h
  next a =>
    split at h
    next here =>
      obtain ⟨data, below⟩ := here
      split at h
      next answer q answered =>
        have after : (Request.read a).act.after p = q := after_ok answered
        rw [readRegister_data data] at answered
        cases h
        rw [after]
        exact readData_buffered answered below
      · cases h
    · cases h
  · cases h

theorem unbuffered {p : Ppu} (h : p.bufferedRead? r = none) :
    (r.act.after p).buffer = p.buffer := by
  cases r with
  | write a v => exact writeRegister_buffer a v p
  | vblank on | advance => rfl
  | read a =>
    change ((readRegister a).after p).buffer = p.buffer
    by_cases data : Register.ofAddress? a = some .data
    · by_cases below : p.address < 0x3000
      · cases answered : (readRegister a).run p with
        | ok v q => simp only [bufferedRead?, data, below, and_self, ↓reduceIte, answered,
            reduceCtorEq] at h
        | error e q => rw [after_error answered, readRegister_fault answered]
      · rw [readRegister_data data]
        exact readData_beyond p below
    · unfold readRegister
      split
      case h_3 here => exact absurd here data
      all_goals rfl

/-! Histories. -/

/-- The answers, and the byte that is still in the buffer, are what was in it at first and what
was found. -/
theorem answers_delayed (p : Ppu) (history : List Request) :
    (p.bufferedReads history).map (some ·.answer) ++ [some (p.afterAll history).buffer] =
      some p.buffer :: (p.bufferedReads history).map (·.found) := by
  induction history generalizing p with
  | nil => rfl
  | cons r rest ih =>
    have later := ih (r.act.after p)
    cases h : p.bufferedRead? r with
    | none =>
      rw [unbuffered h] at later
      simp only [bufferedReads, h, Option.toList_none, List.nil_append]
      exact later
    | some read =>
      obtain ⟨answer, found⟩ := buffered h
      simp only [bufferedReads, h, Option.toList_some, List.cons_append, List.nil_append,
        List.map_cons, answer, found]
      exact congrArg (some p.buffer :: ·) later

/-- A unit that was switched on and given any history answers the first buffered read with zero
and every other with what the one before it found when it was made. In the meantime the palette
is read past the buffer, and neither a read that fails nor any write changes what is in it. -/
theorem reads_delayed_by_one (chr : Array Byte) (m : Mirroring) (history : List Request) :
    let p := (powerOn chr m).afterAll history
    let reads := (powerOn chr m).bufferedReads history
    (∀ first, reads[0]? = some first → first.answer = 0) ∧
    (∀ k previous next, reads[k]? = some previous → reads[k + 1]? = some next →
      previous.found = some next.answer) ∧
    (∀ a, Register.ofAddress? a = some .data → InPalette p.address →
      ∃ q, (readRegister a).run p = .ok (p.paletteByte p.address) q ∧ q.buffer = p.buffer) ∧
    (∀ a e q, (readRegister a).run p = .error e q → q.buffer = p.buffer) ∧
    (∀ a v, ((writeRegister a v).after p).buffer = p.buffer) := by
  intro p reads
  have delayed {k : Nat} {read : BufferedRead} (here : reads[k]? = some read) :
      (some 0 :: reads.map (·.found))[k]? = some (some read.answer) := by
    obtain ⟨inside, rfl⟩ := List.getElem?_eq_some_iff.1 here
    have answers := answers_delayed (powerOn chr m) history
    change _ = some 0 :: reads.map (·.found) at answers
    rw [← answers, List.getElem?_append_left (by simpa using inside), List.getElem?_map, here]
    rfl
  refine ⟨fun first here => ?_, fun k previous next here there => ?_, fun a data inside => ?_,
    fun a e q failed => ?_, fun a v => writeRegister_buffer a v p⟩
  · simpa using (delayed here).symm
  · simpa [here] using delayed there
  · obtain ⟨q, read⟩ := readRegister_inPalette data inside
    refine ⟨q, read, ?_⟩
    have above : ¬ p.address < 0x3000 := fun below => not_inPalette_of_lt below inside
    have kept := readData_beyond p above
    rw [readRegister_data data] at read
    rwa [after_ok read] at kept
  · rw [readRegister_fault failed]

/-- A byte of a nametable is fetched, then overwritten; after a look at the palette and a failed
read, a read of pattern memory answers the byte that was fetched. -/
theorem reads_delayed_by_one_overwritten :
    let history : List Request :=
      [.write 0x2006 0x23, .write 0x2006 0x05, .write 0x2007 0x66,
        .write 0x2006 0x23, .write 0x2006 0x05, .read 0x2007,
        .write 0x2006 0x23, .write 0x2006 0x05, .write 0x2007 0x77,
        .write 0x2006 0x3F, .write 0x2006 0x00, .read 0x2007,
        .write 0x2006 0x30, .write 0x2006 0x00, .read 0x2007,
        .write 0x2006 0x00, .write 0x2006 0x00, .read 0x2007]
    ∃ previous next, (powerOn #[0x11] .horizontal).bufferedReads history = [previous, next] ∧
      previous.answer = 0 ∧ previous.found = some 0x66 ∧ next.answer = 0x66 := by
  intro history
  have reads : (powerOn #[0x11] .horizontal).bufferedReads history =
      [⟨0, some 0x66⟩, ⟨0x66, some 0x11⟩] := by decide +kernel
  obtain ⟨first, later, _⟩ := reads_delayed_by_one #[0x11] .horizontal history
  refine ⟨_, _, reads, first _ (by rw [reads]; rfl), rfl, ?_⟩
  have fetched := later 0 _ _ (by rw [reads]; rfl) (by rw [reads]; rfl)
  exact (Option.some.inj fetched).symm

end Nes.Ppu
