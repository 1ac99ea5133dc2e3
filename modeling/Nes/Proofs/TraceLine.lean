import Nes.Proofs.HexText
import Nes.Proofs.Tracing

/-! The columns of a traced line. They are the same for every instruction, so a line says where it
stands, which bytes it is made of and what is in each of the registers. -/
namespace Nes

open Text

/-- Bytes that are one instruction, as they are seen in memory from an address on. -/
structure InstructionAt (b : Bus) (pc : Address) (bytes : List Byte) : Prop where
  whole : ∃ i, bytes.head?.bind InstructionSet.standard.lookup = some i ∧ bytes.length = i.length
  few : 1 ≤ bytes.length ∧ bytes.length ≤ 3
  seen : ∀ k < bytes.length, b.peek? (pc + UInt16.ofNat k) = bytes[k]?

/-- Where a line has what it says of the CPU and of the bytes at PC. -/
structure Aligned (line : String) (c : Cpu) (bytes : List Byte) : Prop where
  length : line.length = 73
  printable : Printable line
  pc : Digits (columns 0 4 line) 4 c.pc.toNat
  bytes : columns 6 8 line = padRight 8 (spaced bytes)
  registers : columns 47 26 line =
    " A:" ++ hexByte c.a ++ " X:" ++ hexByte c.x ++ " Y:" ++ hexByte c.y ++
      " P:" ++ hexByte c.status.toByte ++ " SP:" ++ hexByte c.sp

/-- The first byte shows how many there are. -/
theorem InstructionAt.eq_of_spaced (one : InstructionAt b pc bytes)
    (other : InstructionAt b' pc' others)
    (same : padRight 8 (spaced bytes) = padRight 8 (spaced others)) : bytes = others := by
  obtain ⟨i, found, long⟩ := one.whole
  obtain ⟨j, found', long'⟩ := other.whole
  rcases bytes with _ | ⟨v, bytes⟩
  · cases found
  rcases others with _ | ⟨w, others⟩
  · cases found'
  have first : v = w := by
    obtain ⟨rest, text⟩ := exists_spaced_cons v bytes
    obtain ⟨rest', text'⟩ := exists_spaced_cons w others
    rw [text, text', padRight, padRight, String.append_assoc, String.append_assoc,
      append_inj (.inl (by simp))] at same
    exact hexByte_inj.1 same.1
  -- The same opcode is the same instruction, so there are equally many bytes on both sides.
  subst first
  obtain rfl := Option.some.inj (found.symm.trans found')
  exact spaced_append_inj (long.trans long'.symm) same

namespace Disassembly

/-- The instruction, byte by byte. -/
def bytes (d : Disassembly) : List Byte := d.instruction.code :: d.operands

theorem bytesText_eq (d : Disassembly) : d.bytesText = spaced d.bytes := by
  have joined (text : String) (operands : List Byte) :
      operands.foldl (fun text v => text ++ " " ++ hexByte v) text =
        " ".intercalate (text :: operands.map hexByte) := by
    induction operands generalizing text with
    | nil => rfl
    | cons v operands ih => exact ih _
  exact joined _ _

theorem registersText_length (c : Cpu) : (registersText c).length = 26 := by
  unfold registersText
  simp only [String.length_append, length_hexByte]
  decide

theorem registersText_printable (c : Cpu) : Printable (registersText c) := by
  unfold registersText
  simp only [printable_append, printable_hexByte, and_true]
  decide

theorem registersText_inj :
    registersText c = registersText c' ↔
      c.a = c'.a ∧ c.x = c'.x ∧ c.y = c'.y ∧ c.status = c'.status ∧ c.sp = c'.sp := by
  have status : c.status.toByte = c'.status.toByte ↔ c.status = c'.status := by
    constructor
    · intro same
      rw [← Status.ofByte_toByte c.status, same, Status.ofByte_toByte]
    · exact congrArg _
  unfold registersText
  simp only [append_hexByte_inj, String.append_left_inj, String.append_right_inj,
    hexByte_inj, status, and_assoc]

/-- The longest operand is one behind a pointer that is not indexed itself. -/
theorem operandText_fits (d : Disassembly) (c : Cpu) :
    (d.operandText c).length ≤ 26 ∧ Printable (d.operandText c) := by
  unfold operandText
  repeat' split
  all_goals simp only [String.length_append, length_hexByte, length_hexAddress, printable_append,
    printable_hexByte, printable_hexAddress, and_true]
  all_goals decide

/-- A name fits into the four columns that it is padded to. -/
theorem standard_named : ∀ i ∈ Instruction.documentedSet ++ Instruction.undocumentedSet,
    i.mnemonic.length ≤ 4 ∧ Printable i.mnemonic := by
  decide +kernel

namespace Seen

variable {d : Disassembly} {c : Cpu} {b : Bus} (seen : d.Seen c b)
include seen

/-- No instruction has more than two operand bytes. -/
theorem length_bytes : d.bytes.length = d.instruction.length ∧
    1 ≤ d.bytes.length ∧ d.bytes.length ≤ 3 := by
  have listed := congrArg List.length (map_of_mapM seen.operands)
  have length := InstructionSet.length_of_lookup seen.known
  have bounds : 1 ≤ d.instruction.mode.length ∧ d.instruction.mode.length ≤ 3 := by
    cases d.instruction.mode <;> decide
  simp only [List.length_map, List.length_range] at listed
  simp only [bytes, List.length_cons, ← listed]
  omega

theorem instructionAt : InstructionAt b c.pc d.bytes := by
  constructor
  · exact ⟨d.instruction, seen.known, seen.length_bytes.1⟩
  · exact seen.length_bytes.2
  · intro k inside
    rcases k with _ | k
    · rw [show UInt16.ofNat 0 = 0 from rfl, UInt16.add_zero]
      exact seen.code
    · have below : k < d.instruction.length - 1 := by
        have := seen.length_bytes.1
        omega
      have listed := congrArg (·[k]?) (map_of_mapM seen.operands)
      simp only [List.getElem?_map, List.getElem?_range below, Option.map_some] at listed
      obtain ⟨v, shown, looked⟩ := Option.map_eq_some_iff.1 listed.symm
      have place : c.pc + UInt16.ofNat (k + 1) = c.pc + 1 + UInt16.ofNat k := by
        rw [UInt16.ofNat_add, UInt16.add_comm (UInt16.ofNat k), ← UInt16.add_assoc]
        rfl
      rw [place, look_ok.1 looked.symm]
      exact shown.symm

theorem length_dump : (padRight 8 (spaced d.bytes)).length = 8 := by
  have few := seen.length_bytes.2
  rw [bytes, List.length_cons] at few
  rw [length_padRight, bytes, length_spaced]
  omega

/-- What stands before the registers leaves at least one of their 47 columns empty. -/
theorem text_fits : (d.text c).length ≤ 46 ∧ Printable (d.text c) := by
  obtain ⟨short, printable⟩ := d.operandText_fits c
  obtain ⟨shortName, printableName⟩ :=
    standard_named d.instruction (InstructionSet.mem_of_lookup seen.known).1
  have one : " ".length = 1 := rfl
  have two : "  ".length = 2 := rfl
  rw [text, bytesText_eq]
  constructor
  · simp only [String.length_append, length_hexAddress, seen.length_dump, length_padLeft, one, two]
    omega
  · simp only [printable_append, printable_hexAddress, printable_padRight, printable_spaced,
      printable_padLeft, printable, printableName, and_true, true_and]
    decide

theorem aligned : Aligned (d.render c) c d.bytes := by
  obtain ⟨short, printable⟩ := seen.text_fits
  have rendered : d.render c = padRight 47 (d.text c) ++ registersText c := by
    rw [render, printable.padRight_trimRight (by omega)]
  have wide : (padRight 47 (d.text c)).length = 47 := by
    rw [length_padRight]
    omega
  -- Behind the bytes, only that something stands there matters: the registers are found from the end.
  let rest := " " ++ padLeft 4 d.instruction.mnemonic ++ " " ++ d.operandText c ++
    String.ofList (List.replicate (47 - (d.text c).length) ' ') ++ registersText c
  have whole : d.render c = hexAddress c.pc ++ "  " ++ padRight 8 (spaced d.bytes) ++ rest := by
    rw [rendered, padRight, ← seen.pc, ← bytesText_eq]
    simp only [rest, text, String.append_assoc]
  constructor
  · rw [rendered, String.length_append, wide, registersText_length]
  · rw [rendered, printable_append, printable_padRight]
    exact ⟨printable, registersText_printable c⟩
  · have first : columns 0 4 (d.render c) = hexAddress c.pc := by
      refine columns_eq (s := "") (u := "  " ++ padRight 8 (spaced d.bytes) ++ rest) ?_ rfl
        (length_hexAddress c.pc)
      rw [whole, String.empty_append]
      simp only [String.append_assoc]
    rw [first]
    exact digits_hexAddress c.pc
  · refine columns_eq whole ?_ seen.length_dump
    rw [String.length_append, length_hexAddress]
    rfl
  · refine columns_eq (t := registersText c) (u := "") ?_ wide (registersText_length c)
    rw [rendered, String.append_empty]

end Seen

/-- A line has PC, the bytes of the instruction and the registers in fixed columns, with no more
than 47 columns before the registers, and every byte as two digits. Two equal lines, of whatever
states, have all of these in common. -/
theorem line_aligned (printed : line c b = .ok shown) :
    ∃ d, ofState c b = .ok d ∧ (d.text c).length ≤ 47 ∧
      InstructionAt b c.pc d.bytes ∧ Aligned shown c d.bytes ∧
      (∀ v, Digits (hexByte v) 2 v.toNat) ∧
      ∀ c' b', line c' b' = .ok shown →
        c'.pc = c.pc ∧ InstructionAt b' c'.pc d.bytes ∧
        c'.a = c.a ∧ c'.x = c.x ∧ c'.y = c.y ∧ c'.status = c.status ∧ c'.sp = c.sp := by
  have found {c : Cpu} {b : Bus} (printed : line c b = .ok shown) :
      ∃ d : Disassembly, ofState c b = .ok d ∧ d.Seen c b ∧ Aligned shown c d.bytes := by
    obtain ⟨d, taken, rendered⟩ := bind_ok printed
    obtain rfl := Except.ok.inj rendered
    exact ⟨d, taken, seen_of_state taken, (seen_of_state taken).aligned⟩
  obtain ⟨d, taken, seen, aligned⟩ := found printed
  refine ⟨d, taken, by have := seen.text_fits.1; omega, seen.instructionAt, aligned,
    digits_hexByte, ?_⟩
  intro c' b' printed'
  obtain ⟨d', _, seen', aligned'⟩ := found printed'
  have pc := UInt16.toNat_inj.1 (aligned'.pc.value.symm.trans aligned.pc.value)
  have bytes := seen'.instructionAt.eq_of_spaced seen.instructionAt
    (aligned'.bytes.symm.trans aligned.bytes)
  have registers : registersText c' = registersText c :=
    aligned'.registers.symm.trans aligned.registers
  exact ⟨pc, bytes ▸ seen'.instructionAt, registersText_inj.1 registers⟩

/-- `ORA ($02),Y`, the longest form of an operand, with the pointer behind the instruction. -/
def longestLine : Machine := .holding [0x11, 0x02, 0x34, 0x12]

theorem line_aligned_longest :
    ∃ shown d, line longestLine.cpu longestLine.bus = .ok shown ∧
      ofState longestLine.cpu longestLine.bus = .ok d ∧ (d.text longestLine.cpu).length = 46 ∧
      InstructionAt longestLine.bus 0 [0x11, 0x02] ∧ shown.length = 73 ∧
      Digits (columns 0 4 shown) 4 0 ∧ columns 6 8 shown = padRight 8 (spaced [0x11, 0x02]) ∧
      columns 47 26 shown = registersText longestLine.cpu := by
  have bytes : (ofState longestLine.cpu longestLine.bus).map (·.bytes) = .ok [0x11, 0x02] := by
    decide +kernel
  have long : (ofState longestLine.cpu longestLine.bus).map
      (fun d => (d.text longestLine.cpu).length) = .ok 46 := by
    decide +kernel
  cases taken : ofState longestLine.cpu longestLine.bus with
  | error e => rw [taken] at bytes; cases bytes
  | ok d =>
    have printed : line longestLine.cpu longestLine.bus = .ok (d.render longestLine.cpu) := by
      rw [line, taken]
      rfl
    obtain ⟨d', taken', _, one, aligned, _⟩ := line_aligned printed
    cases taken.symm.trans taken'
    rw [taken] at bytes long
    replace bytes : d.bytes = [0x11, 0x02] := Except.ok.inj bytes
    rw [bytes] at one aligned
    exact ⟨_, d, printed, rfl, Except.ok.inj long, one, aligned.length, aligned.pc, aligned.bytes,
      aligned.registers⟩

end Disassembly
end Nes
