import Nes.Proofs.PicturePorts

/-! Object memory, filled through its data register. Each byte goes to the cell after the one before
it and the cells form a ring, so that a long stream runs over its own beginning; what else is asked
of the unit, reads of the same register included, neither moves the address nor changes a cell. -/
namespace Nes.Ppu

open Nes.Action

/-- The byte that a request writes to object memory, if it does. -/
def Request.streamed? : Request → Option Byte
  | write a v => if Register.ofAddress? a = some .oamData then some v else none
  | _ => none

/-- A request that sets the address in object memory. -/
def Request.Seeks : Request → Prop
  | write a _ => Register.ofAddress? a = some .oamAddress
  | _ => False

instance (r : Request) : Decidable r.Seeks :=
  match r with
  | .write _ _ => inferInstanceAs (Decidable (_ = _))
  | .read _ | .vblank _ | .advance => inferInstanceAs (Decidable False)

/-- What a history writes to object memory, in order. -/
def streamed (history : List Request) : List Byte := history.filterMap (·.streamed?)

/-- What is in a cell that held `old` once bytes have been streamed in from the cell `start` on:
the last of them that fell on it, or else what was there. -/
inductive Streamed (start : Byte) (bytes : List Byte) (old : Byte) (cell : Fin 256) : Byte → Prop
  | last : bytes[i]? = some v → (start.toNat + i) % 256 = cell.val →
      (∀ k, i < k → k < bytes.length → (start.toNat + k) % 256 ≠ cell.val) →
      Streamed start bytes old cell v
  | untouched : (∀ i < bytes.length, (start.toNat + i) % 256 ≠ cell.val) →
      Streamed start bytes old cell old

/-- Bytes have been streamed into the object memory of a unit, from the cell `start` on. -/
structure Streaming (p : Ppu) (start : Byte) (bytes : List Byte) (q : Ppu) : Prop where
  address : q.oamAddress.toNat = (start.toNat + bytes.length) % 256
  cells : ∀ cell : Fin 256, Streamed start bytes p.oam[cell] cell q.oam[cell]

/-! One more byte. -/

namespace Streamed

variable {start old v : Byte} {bytes : List Byte} {cell : Fin 256}

theorem onto (b : Byte) (here : (start.toNat + bytes.length) % 256 = cell.val) :
    Streamed start (bytes ++ [b]) old cell b := by
  refine .last (i := bytes.length) (by simp) here fun k later inside => ?_
  rw [List.length_append, List.length_singleton] at inside
  omega

theorem past (b : Byte) (elsewhere : (start.toNat + bytes.length) % 256 ≠ cell.val)
    (before : Streamed start bytes old cell v) : Streamed start (bytes ++ [b]) old cell v := by
  cases before with
  | last found here final =>
    have inside := (List.getElem?_eq_some_iff.1 found).1
    refine .last (by rwa [List.getElem?_append_left inside]) here fun k later bound => ?_
    rw [List.length_append, List.length_singleton] at bound
    obtain earlier | rfl := Nat.lt_succ_iff_lt_or_eq.1 bound
    · exact final k later earlier
    · exact elsewhere
  | untouched none =>
    refine .untouched fun i bound => ?_
    rw [List.length_append, List.length_singleton] at bound
    obtain earlier | rfl := Nat.lt_succ_iff_lt_or_eq.1 bound
    · exact none i earlier
    · exact elsewhere

/-- Only one byte can be in the cell. -/
theorem unique (one : Streamed start bytes old cell v) (other : Streamed start bytes old cell w) :
    v = w := by
  cases one with
  | @last i _ found here final =>
    have inside := (List.getElem?_eq_some_iff.1 found).1
    cases other with
    | @last j _ found' here' final' =>
      have inside' := (List.getElem?_eq_some_iff.1 found').1
      obtain earlier | rfl | later := Nat.lt_trichotomy i j
      · exact absurd here' (final j earlier inside')
      · exact Option.some.inj (found.symm.trans found')
      · exact absurd here (final' i later inside)
    | untouched none => exact absurd here (none i inside)
  | untouched none =>
    cases other with
    | last found' here' => exact absurd here' (none _ (List.getElem?_eq_some_iff.1 found').1)
    | untouched => rfl

end Streamed

namespace Streaming

variable {p q : Ppu} {start : Byte} {bytes : List Byte}

theorem begin (p : Ppu) (start : Byte) : Streaming p start [] (p.writeOamAddress start) where
  address := (Nat.mod_eq_of_lt start.toNat_lt).symm
  cells _ := .untouched fun _ inside => absurd inside (Nat.not_lt_zero _)

theorem write (streaming : Streaming p start bytes q) (b : Byte) :
    Streaming p start (bytes ++ [b]) (q.writeOam b) where
  address := by
    have moved : (q.oamAddress + 1).toNat = (q.oamAddress.toNat + 1) % 256 := UInt8.toNat_add _ _
    rw [writeOam, moved, streaming.address, List.length_append, List.length_singleton]
    omega
  cells cell := by
    change Streamed _ _ _ _ (q.oam.set q.oamCell b)[cell]
    by_cases here : q.oamAddress.toNat = cell.val
    · have same : (q.oam.set q.oamCell b)[cell] = b := by simp [oamCell, here]
      rw [same]
      exact .onto b (streaming.address.symm.trans here)
    · have other : (q.oam.set q.oamCell b)[cell] = q.oam[cell] := by simp [oamCell, here]
      rw [other]
      exact (streaming.cells cell).past b (streaming.address ▸ here)

theorem congr {r : Ppu} (streaming : Streaming p start bytes q)
    (same : r.state .objects = q.state .objects) : Streaming p start bytes r := by
  obtain ⟨oam, address⟩ := Prod.mk.inj same
  exact ⟨address ▸ streaming.address, oam ▸ streaming.cells⟩

end Streaming

/-! One request. -/

theorem Request.write_of_streamed {r : Request} (written : r.streamed? = some b) :
    ∃ a, r = .write a b ∧ Register.ofAddress? a = some .oamData := by
  unfold streamed? at written
  split at written
  · split at written
    next data =>
      cases written
      exact ⟨_, rfl, data⟩
    · cases written
  · cases written

theorem readRegister_oamData {a : Address} (data : Register.ofAddress? a = some .oamData) (p : Ppu) :
    (readRegister a).run p = .ok p.readOam p := by
  simp only [readRegister, data]
  rfl

/-- A request that neither writes to object memory nor sets the address there, leaves both. -/
theorem objects_after {r : Request} (p : Ppu) (steady : ¬ r.Seeks) (unwritten : r.streamed? = none) :
    (r.act.after p).state .objects = p.state .objects := by
  cases r with
  | read a =>
    by_cases data : Register.ofAddress? a = some .oamData
    · exact congrArg (·.state .objects) (after_ok (readRegister_oamData data p))
    · have elsewhere : .objects ∉ (Request.read a).ports := by
        intro concerned
        obtain ⟨register, chosen, member⟩ := mem_getD_map concerned
        cases register with
        | oamData => exact data chosen
        | _ => exact absurd member (by decide)
      exact congrArg Prod.snd (view_after_read a p elsewhere)
  | write a v =>
    have elsewhere : .objects ∉ (Request.write a v).ports := by
      intro concerned
      obtain ⟨register, chosen, member⟩ := mem_getD_map concerned
      cases register with
      | oamAddress => exact steady chosen
      | oamData => simp [Request.streamed?, chosen] at unwritten
      | _ => exact absurd member (by decide)
    exact congrArg Prod.snd (view_after_write a v p elsewhere)
  | vblank on | advance => rfl

namespace Streaming

variable {p q : Ppu} {start : Byte} {bytes : List Byte}

theorem request (streaming : Streaming p start bytes q) {r : Request} (steady : ¬ r.Seeks) :
    Streaming p start (bytes ++ r.streamed?.toList) (r.act.after q) := by
  cases written : r.streamed? with
  | none =>
    rw [Option.toList_none, List.append_nil]
    exact streaming.congr (objects_after q steady written)
  | some b =>
    obtain ⟨a, rfl, data⟩ := Request.write_of_streamed written
    have act : Request.act (.write a b) = modify (·.writeOam b) := by
      simp only [Request.act, writeRegister, data]
    rw [act]
    exact streaming.write b

theorem requests (streaming : Streaming p start bytes q) {history : List Request}
    (steady : ∀ r ∈ history, ¬ r.Seeks) :
    Streaming p start (bytes ++ streamed history) (q.afterAll history) := by
  induction history generalizing q bytes with
  | nil => exact (List.append_nil bytes).symm ▸ streaming
  | cons r rest ih =>
    rw [List.forall_mem_cons] at steady
    rw [streamed, filterMap_cons_toList, ← List.append_assoc]
    exact ih (streaming.request steady.1) steady.2

end Streaming

/-- After the address is set, whatever else is asked of the unit in between. -/
theorem streaming_afterAll (p : Ppu) (seek : Register.ofAddress? a = some .oamAddress) (start : Byte)
    {history : List Request} (steady : ∀ r ∈ history, ¬ r.Seeks) :
    Streaming p start (streamed history) (p.afterAll (.write a start :: history)) := by
  have act : Request.act (.write a start) = modify (·.writeOamAddress start) := by
    simp only [Request.act, writeRegister, seek]
  change Streaming p start _ (((Request.write a start).act.after p).afterAll history)
  rw [act]
  exact (Streaming.begin p start).requests steady

theorem Streaming.holds_iff {p q : Ppu} (streaming : Streaming p start bytes q) (cell : Fin 256)
    (v : Byte) : q.oam[cell] = v ↔ Streamed start bytes p.oam[cell] cell v :=
  ⟨fun held => held ▸ streaming.cells cell, (streaming.cells cell).unique⟩

/-- Once the address in object memory has been set, it goes round with the bytes written there: each
of the cells holds the last byte that fell on it, or what it held before. Every read in between
answers what is in the cell at the address, and leaves the unit as it was. -/
theorem objects_streamed (p : Ppu) (seek : Register.ofAddress? a = some .oamAddress) (start : Byte)
    (history : List Request) (steady : ∀ r ∈ history, ¬ r.Seeks) :
    let q := p.afterAll (.write a start :: history)
    q.oamAddress.toNat = (start.toNat + (streamed history).length) % 256 ∧
    (∀ (cell : Fin 256) v,
      q.oam[cell] = v ↔ Streamed start (streamed history) p.oam[cell] cell v) ∧
    ∀ before b later, history = before ++ .read b :: later →
      Register.ofAddress? b = some .oamData →
      let r := p.afterAll (.write a start :: before)
      ∃ cell : Fin 256, cell.val = (start.toNat + (streamed before).length) % 256 ∧
        (readRegister b).run r = .ok r.oam[cell] r ∧
        ∀ v, r.oam[cell] = v ↔ Streamed start (streamed before) p.oam[cell] cell v := by
  intro q
  have streaming := streaming_afterAll p seek start steady
  refine ⟨streaming.address, streaming.holds_iff, ?_⟩
  rintro before b later rfl data r
  have earlier : Streaming p start (streamed before) r :=
    streaming_afterAll p seek start fun r member => steady r (List.mem_append_left _ member)
  exact ⟨r.oamCell, earlier.address, readRegister_oamData data r, earlier.holds_iff r.oamCell⟩

/-- A round of the same byte, a read that finds the first of them, and another byte over it. -/
theorem objects_streamed_round :
    let round : List Request := List.replicate 256 (.write 0x2004 0x11)
    let history := round ++ [.read 0x2004, .write 0x2000 0x04, .write 0x2004 0x66]
    let p := powerOn #[] .horizontal
    let q := p.afterAll (.write 0x2003 0x80 :: history)
    (∀ r ∈ history, ¬ r.Seeks) ∧ q.oamAddress = 0x81 ∧ q.oam[(0x80 : Fin 256)] = 0x66 ∧
    q.oam[(0x7F : Fin 256)] = 0x11 ∧
    (readRegister 0x2004).answer (p.afterAll (.write 0x2003 0x80 :: round)) = .ok 0x11 := by
  intro round history p q
  have steady : ∀ r ∈ history, ¬ r.Seeks := by decide +kernel
  have bytes : streamed history = List.replicate 256 0x11 ++ [0x66] := by decide +kernel
  have first : streamed round = List.replicate 256 0x11 := by decide +kernel
  have seek : Register.ofAddress? 0x2003 = some .oamAddress := by decide
  obtain ⟨address, cells, reads⟩ := objects_streamed p seek 0x80 history steady
  obtain ⟨cell, here, found, holds⟩ := reads round 0x2004 _ rfl (by decide)
  rw [bytes] at address cells
  rw [first] at here holds
  have whole : (List.replicate 256 (0x11 : Byte)).length = 256 := List.length_replicate
  rw [List.length_append, whole] at address
  rw [whole] at here
  refine ⟨steady, UInt8.toNat_inj.1 address, (cells _ _).2 ?_, (cells _ _).2 ?_, ?_⟩
  · exact .onto 0x66 (by rw [whole]; decide)
  · refine .past 0x66 (by rw [whole]; decide) ?_
    refine .last (i := 255) (List.getElem?_replicate_of_lt (by decide)) (by decide) ?_
    rw [whole]
    omega
  · have held : Streamed 0x80 (List.replicate 256 0x11) p.oam[cell] cell 0x11 := by
      refine .last (i := 0) (List.getElem?_replicate_of_lt (by decide)) here.symm ?_
      rw [whole, here]
      omega
    simp only [answer, found, (holds 0x11).2 held]

end Nes.Ppu
