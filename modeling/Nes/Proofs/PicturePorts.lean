import Nes.Proofs.Command
import Nes.Proofs.History

/-! The registers of the picture unit belong to five ports, each with a state of its own. What is
asked of one port is answered as if nothing had been asked of the others in between; only the
status register is shared, whose read resets the latches of two ports and reports on a third. -/
namespace Nes.Ppu

open Nes.Action

inductive Port where
  | scroll
  | objects
  | mask
  | data
  | vblank
  deriving DecidableEq

/-- The state behind the data register. -/
structure DataState where
  control : Control
  pointer : Pointer
  vram : Array Byte
  palette : Vector Byte 32
  buffer : Byte

abbrev Port.State : Port → Type
  | scroll => Scroll
  | objects => Vector Byte 256 × Byte
  | mask => Byte
  | data => DataState
  | vblank => Flags

/-- The state of a port. -/
def state (p : Ppu) : (port : Port) → port.State
  | .scroll => p.scroll
  | .objects => (p.oam, p.oamAddress)
  | .mask => p.mask
  | .data => ⟨p.control, p.pointer, p.vram.toArray, p.palette, p.buffer⟩
  | .vblank => p.flags

/-- The ports that a read of a register concerns: none, if the register answers writes only. -/
def Register.readPorts : Register → List Port
  | status => [.scroll, .data, .vblank]
  | oamData => [.objects]
  | data => [.data]
  | control | mask | oamAddress | scroll | pointer => []

/-- The port that a write of a register concerns, if it answers writes. -/
def Register.writePorts : Register → List Port
  | control | pointer | data => [.data]
  | mask => [.mask]
  | oamAddress | oamData => [.objects]
  | scroll => [.scroll]
  | status => []

/-- The ports that a request concerns: none, if it is refused for its address. -/
def Request.ports : Request → List Port
  | read a => ((Register.ofAddress? a).map Register.readPorts).getD []
  | write a _ => ((Register.ofAddress? a).map Register.writePorts).getD []
  | vblank _ => [.vblank]
  | advance => [.data]

theorem mem_getD_map {ports : Register → List Port} {chosen : Option Register}
    (concerned : port ∈ (chosen.map ports).getD []) : ∃ r, chosen = some r ∧ port ∈ ports r := by
  cases chosen with
  | none => exact absurd concerned List.not_mem_nil
  | some r => exact ⟨r, rfl, concerned⟩

def Request.concerns (r : Request) (port : Port) : Bool := port ∈ r.ports

/-- What a port learns of an answer: all of it, but for the vertical blank in the status byte,
which only its own port knows of. -/
def Port.learns (port : Port) : Answered Request.Answer → Answered Request.Answer
  | ⟨.read a, .ok v⟩ =>
    if Register.ofAddress? a = some .status ∧ port ≠ .vblank then ⟨.read a, .ok (v % 0x80)⟩
    else ⟨.read a, .ok v⟩
  | answered => answered

/-- What no request changes. -/
structure Wiring where
  chr : Array Byte
  mirroring : Mirroring
  spriteOverflow : Bool
  spriteZeroHit : Bool

def wiring (p : Ppu) : Wiring := ⟨p.chr, p.mirroring, p.flags.spriteOverflow, p.flags.spriteZeroHit⟩

/-- All that a port knows of the unit. -/
def view (port : Port) (p : Ppu) : Wiring × port.State := (p.wiring, p.state port)

abbrev SameView (port : Port) (p q : Ppu) : Prop := p.view port = q.view port

/-! Requests that do not concern a port. -/

/-- The units differ at most in what lies behind the data port. -/
def DataOnly (p q : Ppu) : Prop :=
  ∃ control pointer vram palette buffer, q = { p with control, pointer, vram, palette, buffer }

theorem DataOnly.view {p q : Ppu} (only : DataOnly p q) (other : port ≠ .data) :
    q.view port = p.view port := by
  obtain ⟨control, pointer, vram, palette, buffer, rfl⟩ := only
  cases port with
  | data => exact absurd rfl other
  | scroll | objects | mask | vblank => rfl

theorem DataOnly.refl (p : Ppu) : DataOnly p p :=
  ⟨p.control, p.pointer, p.vram, p.palette, p.buffer, rfl⟩

theorem DataOnly.advance (p : Ppu) : DataOnly p p.advance :=
  ⟨p.control, _, p.vram, p.palette, p.buffer, rfl⟩

theorem readData_only : Moves DataOnly readData := by
  apply Moves.of_ok DataOnly.refl readData_fault
  intro p v q h
  obtain ⟨buffer, rfl⟩ := readData_advances h
  exact ⟨p.control, _, p.vram, p.palette, buffer, rfl⟩

theorem writeData_only (v : Byte) : Moves DataOnly (writeData v) := by
  apply Moves.of_ok DataOnly.refl writeData_fault
  intro p u q h
  obtain ⟨vram, palette, rfl⟩ := writeData_advances h
  exact ⟨p.control, _, vram, palette, p.buffer, rfl⟩

theorem view_after_read (a : Address) (p : Ppu) (elsewhere : port ∉ (Request.read a).ports) :
    ((readRegister a).after p).view port = p.view port := by
  unfold readRegister
  split
  case h_1 status =>
    rw [Request.ports, status] at elsewhere
    cases port with
    | scroll | data | vblank => exact absurd (by decide) elsewhere
    | objects | mask => rfl
  case h_3 data =>
    rw [Request.ports, data] at elsewhere
    exact (readData_only p).view fun same => elsewhere (List.mem_singleton.2 same)
  all_goals rfl

theorem view_after_write (a : Address) (v : Byte) (p : Ppu)
    (elsewhere : port ∉ (Request.write a v).ports) :
    ((writeRegister a v).after p).view port = p.view port := by
  unfold writeRegister
  split
  all_goals
    rename_i register
    rw [Request.ports, register] at elsewhere
  case h_3 | h_9 => rfl
  all_goals have other := fun same => elsewhere (List.mem_singleton.2 same)
  case h_1 => exact DataOnly.view ⟨⟨v⟩, p.pointer, p.vram, p.palette, p.buffer, rfl⟩ other
  case h_7 => exact DataOnly.view ⟨p.control, _, p.vram, p.palette, p.buffer, rfl⟩ other
  case h_8 => exact (writeData_only v p).view other
  case h_2 =>
    cases port with
    | mask => exact absurd rfl other
    | scroll | objects | data | vblank => rfl
  case h_4 | h_5 =>
    cases port with
    | objects => exact absurd rfl other
    | scroll | mask | data | vblank => rfl
  case h_6 =>
    cases port with
    | scroll => exact absurd rfl other
    | objects | mask | data | vblank => rfl

theorem view_after_elsewhere {r : Request} (p : Ppu) (elsewhere : r.concerns port = false) :
    (r.act.after p).view port = p.view port := by
  have elsewhere : port ∉ r.ports := of_decide_eq_false elsewhere
  cases r with
  | read a => exact view_after_read a p elsewhere
  | write a v => exact view_after_write a v p elsewhere
  | vblank on =>
    cases port with
    | vblank => exact absurd (List.mem_singleton.2 rfl) elsewhere
    | scroll | objects | mask | data => rfl
  | advance => exact (DataOnly.advance p).view fun same => elsewhere (List.mem_singleton.2 same)

/-! Requests that concern a port. -/

/-- What the data port does not know of. -/
structure Rest where
  oam : Vector Byte 256
  mask : Byte
  vblank : Bool
  oamAddress : Byte
  scroll : Scroll

def withRest (p : Ppu) (rest : Rest) : Ppu :=
  { p with
    oam := rest.oam
    mask := rest.mask
    flags := { p.flags with vblank := rest.vblank }
    oamAddress := rest.oamAddress
    scroll := rest.scroll }

/-- Units that look the same to the data port differ at most in the rest. -/
theorem eq_withRest {p q : Ppu} (same : SameView .data p q) : ∃ rest, q = p.withRest rest := by
  obtain ⟨chr, mirroring, vram, palette, oam, pointer, control, mask, flags, oamAddress, scroll,
    buffer⟩ := p
  obtain ⟨chr', mirroring', vram', palette', oam', pointer', control', mask', flags', oamAddress',
    scroll', buffer'⟩ := q
  obtain ⟨overflow, hit, vblank⟩ := flags
  obtain ⟨overflow', hit', vblank'⟩ := flags'
  simp only [SameView, view, wiring, state, Prod.mk.injEq, Wiring.mk.injEq, DataState.mk.injEq]
    at same
  obtain ⟨⟨rfl, rfl, rfl, rfl⟩, rfl, rfl, vram, rfl, rfl⟩ := same
  obtain rfl := Vector.toArray_inj.1 vram
  exact ⟨⟨oam', mask', vblank', oamAddress', scroll'⟩, rfl⟩

theorem location_withRest (p : Ppu) (rest : Rest) : (p.withRest rest).location = p.location := rfl

theorem chr_withRest (p : Ppu) (rest : Rest) : (p.withRest rest).chr = p.chr := rfl

theorem respects_readData : Respects (SameView .data) readData := by
  intro p q same
  obtain ⟨rest, rfl⟩ := eq_withRest same
  simp only [readData, run_of, location_withRest, chr_withRest]
  cases p.location with
  | pattern offset =>
    dsimp only
    cases p.chr[offset]? with
    | some fresh => exact .ok rfl
    | none => exact .error rfl
  | nametable index | palette entry => exact .ok rfl
  | unmapped => exact .error rfl

theorem respects_writeData (v : Byte) : Respects (SameView .data) (writeData v) := by
  intro p q same
  obtain ⟨rest, rfl⟩ := eq_withRest same
  simp only [writeData, run_of, location_withRest]
  cases p.location with
  | pattern offset | unmapped => exact .error rfl
  | nametable index | palette entry => exact .ok rfl

theorem respects_modify {f : Ppu → Ppu} (g : Wiring × Port.State port → Wiring × Port.State port)
    (follows : ∀ p, (f p).view port = g (p.view port)) : Respects (SameView port) (modify f) := by
  intro p q same
  refine .ok ?_
  rw [SameView, follows, follows, same]

theorem respects_readRegister {a : Address} (concerned : port ∈ (Request.read a).ports)
    (own : Register.ofAddress? a = some .status → port = .vblank) :
    Respects (SameView port) (readRegister a) := by
  unfold readRegister
  split
  case h_1 status =>
    obtain rfl := own status
    intro p q same
    have flags : p.flags = q.flags := congrArg (·.2) same
    change Matches _ (.ok p.flags.toByte p.readStatus.2) (.ok q.flags.toByte q.readStatus.2)
    rw [flags]
    exact .ok (congrArg (fun v : Wiring × Flags => (v.1, { v.2 with vblank := false })) same)
  case h_2 objects =>
    rw [Request.ports, objects] at concerned
    obtain rfl := List.mem_singleton.1 concerned
    intro p q same
    have oam : p.oam = q.oam := congrArg (·.2.1) same
    have address : p.oamAddress = q.oamAddress := congrArg (·.2.2) same
    have found : p.readOam = q.readOam := by simp only [readOam, oamCell, oam, address]
    change Matches _ (.ok p.readOam p) (.ok q.readOam q)
    rw [found]
    exact .ok same
  case h_3 data =>
    rw [Request.ports, data] at concerned
    obtain rfl := List.mem_singleton.1 concerned
    exact respects_readData
  all_goals exact respects_throw _

theorem respects_writeRegister {a : Address} (v : Byte) (concerned : port ∈ (Request.write a v).ports) :
    Respects (SameView port) (writeRegister a v) := by
  unfold writeRegister
  split
  all_goals
    rename_i register
    rw [Request.ports, register] at concerned
  case h_3 | h_9 => exact respects_throw _
  all_goals obtain rfl := List.mem_singleton.1 concerned
  case h_1 =>
    exact respects_modify (fun (w, d) => (w, { d with control := ⟨v⟩ })) fun _ => rfl
  case h_2 => exact respects_modify (fun (w, _) => (w, v)) fun _ => rfl
  case h_4 => exact respects_modify (fun (w, oam, _) => (w, oam, v)) fun _ => rfl
  case h_5 =>
    exact respects_modify (fun (w, oam, a) => (w, oam.set a.toNat v a.toNat_lt, a + 1)) fun _ => rfl
  case h_6 => exact respects_modify (fun (w, s) => (w, s.write v)) fun _ => rfl
  case h_7 =>
    exact respects_modify (fun (w, d) => (w, { d with pointer := d.pointer.write v })) fun _ => rfl
  case h_8 => exact respects_writeData v

/-- Every request that concerns a port knows the unit through its view only, save the read of
another port's status. -/
theorem respects_request {r : Request} (concerned : r.concerns port = true)
    (own : ∀ a, r = .read a → Register.ofAddress? a = some .status → port = .vblank) :
    Respects (SameView port) r.act := by
  have concerned : port ∈ r.ports := of_decide_eq_true concerned
  cases r with
  | read a => exact respects_readRegister concerned (own a rfl)
  | write a v => exact respects_writeRegister v concerned
  | vblank on =>
    obtain rfl := List.mem_singleton.1 concerned
    exact respects_modify (fun (w, f) => (w, { f with vblank := on })) fun _ => rfl
  | advance =>
    obtain rfl := List.mem_singleton.1 concerned
    exact respects_modify
      (fun (w, d) => (w, { d with pointer := d.pointer.advance d.control.increment })) fun _ => rfl

/-- But for the vertical blank, the status byte is wired. -/
theorem toByte_mod (f : Flags) : f.toByte % 0x80 =
    UInt8.ofNat (0x20 * f.spriteOverflow.toNat + 0x40 * f.spriteZeroHit.toNat) := by
  obtain ⟨overflow, hit, vblank⟩ := f
  revert overflow hit vblank
  decide

theorem readRegister_status {a : Address} (status : Register.ofAddress? a = some .status) (p : Ppu) :
    (readRegister a).run p = .ok p.flags.toByte p.readStatus.2 := by
  simp only [readRegister, status]
  rfl

/-- To a port that it is not the status of, a read of the status resets a latch. -/
theorem status_unwinds {p q : Ppu} (status : Register.ofAddress? a = some .status)
    (other : port ≠ .vblank) (same : SameView port p q) :
    SameView port ((readRegister a).after p) ((readRegister a).after q) ∧
      port.learns ⟨.read a, (readRegister a).answer p⟩ =
        port.learns ⟨.read a, (readRegister a).answer q⟩ := by
  have run := readRegister_status status
  have wiring : p.wiring = q.wiring := congrArg Prod.fst same
  obtain ⟨_, _, overflow, hit⟩ := Wiring.mk.inj wiring
  constructor
  · rw [after_ok (run p), after_ok (run q)]
    cases port with
    | scroll => exact congrArg (fun v : Wiring × Scroll => (v.1, v.2.resetLatch)) same
    | data =>
      exact congrArg (fun v : Wiring × DataState =>
        (v.1, { v.2 with pointer := v.2.pointer.resetLatch })) same
    | objects | mask => exact same
    | vblank => exact absurd rfl other
  · simp only [answer, run, Port.learns, status, other, ne_eq, not_false_eq_true, and_self,
      ↓reduceIte, toByte_mod, overflow, hit]

theorem port_unwinds (port : Port) :
    Unwinds Request.act (view port) (·.concerns port) port.learns := by
  -- The read of another port's status is the one request whose answer is not wholly learned.
  have cases (r : Request) : (∀ a, r = .read a → Register.ofAddress? a = some .status →
      port = .vblank) ∨ ∃ a, r = .read a ∧ Register.ofAddress? a = some .status ∧ port ≠ .vblank := by
    grind
  refine ⟨fun p elsewhere => view_after_elsewhere p elsewhere, fun {r p q} concerned same => ?_,
    fun {r p q} concerned same => ?_⟩
  · obtain own | ⟨a, rfl, status, other⟩ := cases r
    · exact (respects_request concerned own p q same).after
    · exact (status_unwinds status other same).1
  · obtain own | ⟨a, rfl, status, other⟩ := cases r
    · rw [(respects_request concerned own p q same).answer]
    · exact (status_unwinds status other same).2

/-- What a port is asked, it answers as if it alone had been asked anything, and that is what its
state shows in the end. -/
theorem ports_independent (p : Ppu) (history : List Request) (port : Port) :
    ((answers Request.act p history).filter (·.1.concerns port)).map port.learns =
      (answers Request.act p (history.filter (·.concerns port))).map port.learns ∧
    (p.afterAll history).state port = (p.afterAll (history.filter (·.concerns port))).state port :=
  ⟨(port_unwinds port).answers_filter rfl history,
    congrArg Prod.snd ((port_unwinds port).finalState_filter rfl history)⟩

/-- The status byte itself is not independent of the vertical blank: a read of it, which resets the
latch of the scroll port, does not answer as if that port alone had been asked. -/
theorem status_answer_depends_on_vblank :
    ¬ ∀ (p : Ppu) (history : List Request) (port : Port),
      (answers Request.act p history).filter (·.1.concerns port) =
        answers Request.act p (history.filter (·.concerns port)) ∧
      (p.afterAll history).state port =
        (p.afterAll (history.filter (·.concerns port))).state port := by
  intro independent
  have same := (independent (powerOn #[] .horizontal) [.vblank true, .read 0x2002] .scroll).1
  have answered : (answers Request.act (powerOn #[] .horizontal) [.vblank true, .read 0x2002]).filter
      (·.1.concerns .scroll) = [⟨.read 0x2002, .ok 0x80⟩] := rfl
  have alone : answers Request.act (powerOn #[] .horizontal)
      ([Request.vblank true, .read 0x2002].filter (·.concerns .scroll)) =
        [⟨.read 0x2002, .ok 0x00⟩] := rfl
  rw [answered, alone] at same
  cases same

end Nes.Ppu
