import Nes.CommandLine
import Nes.Proofs.Bootstrap

/-! What the command line reports on an image: the instructions it shows and how it comes to its end. -/
namespace Nes.CommandLine

open Nes.Action Machine Text

/-- A run of instructions that can all be shown, with their lines, and that leaves the machine
running. -/
inductive Shown : Machine → List String → Machine → Prop
  | nil : Shown m [] m
  | cons : Disassembly.line m.cpu m.bus = .ok line → step.run m = .ok .running m' →
      Shown m' lines n → Shown m (line :: lines) n

/-- The lines about a machine that a program has stopped. -/
def summary (executed : Nat) (m : Machine) : List String :=
  ["", "halted after " ++ toString executed ++ " instructions at $" ++ hexAddress m.cpu.pc,
    "A=$" ++ hexByte m.cpu.a ++ " X=$" ++ hexByte m.cpu.x ++ " Y=$" ++ hexByte m.cpu.y ++
      " SP=$" ++ hexByte m.cpu.sp ++ " P=" ++ binaryByte m.cpu.status.toByte,
    "mem[$0200] = $" ++ hexByte (m.bus.ram.read 0x0200)]

/-- The end of a report after a number of instructions: the lines that are still to come and the
failure, if it is one. -/
inductive Ends (executed : Nat) (m : Machine) : List String → Option Failure → Prop
  | halted : Disassembly.line m.cpu m.bus = .ok line → step.run m = .ok .halted n →
      Ends executed m (line :: summary (executed + 1) n) none
  | hidden : Disassembly.line m.cpu m.bus = .error e →
      Ends executed m [] (some { summary := e.message })
  | fault : Disassembly.line m.cpu m.bus = .ok line → step.run m = .error e n →
      Ends executed m [line] (some {
        summary := "cpu fault after " ++ toString executed ++ " instructions"
        cause := some e.message })

/-- The machine on which the program of an image begins. -/
def Begins (image : Array Byte) (m : Machine) : Prop :=
  ∃ c, Cartridge.ofImage image = .ok c ∧ reset.run ((powerOn none).attach c) = .ok () m

/-- How a report on an image comes about. -/
inductive Told (image : Array Byte) : Report → Prop
  | refused : Cartridge.ofImage image = .error e →
      Told image { failure := some { summary := "failed to parse iNES", cause := some e.message } }
  | ended : Begins image m → Shown m lines n → lines.length < 100000 →
      Ends lines.length n rest trouble →
      Told image { lines := (lines ++ rest).toArray, failure := trouble }
  | endless : Begins image m → Shown m lines n → lines.length = 100000 →
      Told image {
        lines := lines.toArray
        failure := some { summary := "no BRK after 100000 instructions" } }

theorem follow_shown (shown : Shown m new n) (lines : Array String) (executed budget : Nat) :
    follow lines executed m (new.length + budget) =
      follow (lines ++ new.toArray) (executed + new.length) n budget := by
  induction shown generalizing lines executed with
  | nil => simp
  | cons printed stepped _ ih =>
    rw [List.length_cons, Nat.add_right_comm, follow, printed, stepped]
    simp only [ih]
    simp [Nat.add_comm, Nat.add_left_comm]

theorem run_read_result (m : Machine) :
    (Machine.read 0x0200).run m = .ok (m.bus.ram.read 0x0200) m := by
  rw [Machine.read, run_onBus, Bus.read_ram _ (by decide)]

theorem summarize_eq (lines : Array String) (executed : Nat) (m : Machine) :
    summarize lines executed m = { lines := lines ++ (summary executed m).toArray } := by
  simp only [summarize, run_read_result, summary]
  simp

theorem follow_ends (ends : Ends executed m rest trouble) (lines : Array String) (budget : Nat) :
    follow lines executed m (budget + 1) = { lines := lines ++ rest.toArray, failure := trouble } := by
  cases ends with
  | halted printed stepped =>
    simp only [follow, printed, stepped, summarize_eq]
    simp
  | hidden unseen =>
    simp only [follow, unseen]
    simp
  | fault printed stepped =>
    simp only [follow, printed, stepped]
    simp

/-- A machine shows its next instruction and runs on, or it ends here, after however many
instructions. -/
theorem moves_or_ends (m : Machine) :
    (∃ line n, Disassembly.line m.cpu m.bus = .ok line ∧ step.run m = .ok .running n) ∨
      ∀ executed, ∃ rest trouble, Ends executed m rest trouble := by
  cases printed : Disassembly.line m.cpu m.bus with
  | error e => exact .inr fun executed => ⟨_, _, .hidden printed⟩
  | ok line =>
    cases stepped : step.run m with
    | error e n => exact .inr fun executed => ⟨_, _, .fault printed stepped⟩
    | ok outcome n =>
      cases outcome with
      | running => exact .inl ⟨line, n, rfl, rfl⟩
      | halted => exact .inr fun executed => ⟨_, _, .halted printed stepped⟩

/-- A machine is shown for as long as one likes, or to its end before that. -/
theorem shown_or_ends (m : Machine) (budget : Nat) :
    ∃ lines n, Shown m lines n ∧ (lines.length = budget ∨
      lines.length < budget ∧ ∀ executed, ∃ rest trouble, Ends executed n rest trouble) := by
  induction budget generalizing m with
  | zero => exact ⟨[], m, .nil, .inl rfl⟩
  | succ budget ih =>
    obtain ⟨line, n, printed, stepped⟩ | ends := moves_or_ends m
    · obtain ⟨lines, final, shown, stopped⟩ := ih n
      refine ⟨line :: lines, final, .cons printed stepped shown, ?_⟩
      simpa using stopped
    · exact ⟨[], m, .nil, .inr ⟨Nat.zero_lt_succ budget, ends⟩⟩

/-- The reset of a machine that has just been switched on cannot fail. -/
theorem begins_of_ofImage (parsed : Cartridge.ofImage image = .ok c) : ∃ m, Begins image m := by
  obtain ⟨_, _, _, _, _, begun⟩ := run_reset_anywhere ((powerOn none).attach c)
  exact ⟨_, c, parsed, begun⟩

theorem exists_told (image : Array Byte) : ∃ r, Told image r := by
  cases parsed : Cartridge.ofImage image with
  | error e => exact ⟨_, .refused parsed⟩
  | ok c =>
    obtain ⟨m, begun⟩ := begins_of_ofImage parsed
    obtain ⟨lines, n, shown, long | ⟨short, ends⟩⟩ := shown_or_ends m 100000
    · exact ⟨_, .endless begun shown long⟩
    · obtain ⟨rest, trouble, ends⟩ := ends lines.length
      exact ⟨_, .ended begun shown short ends⟩

theorem report_of_begins (begun : Begins image m) : report image = follow #[] 0 m instructionLimit := by
  obtain ⟨c, parsed, begun⟩ := begun
  simp only [report, parsed, play, begun]

/-- A report is what is told of its image. -/
theorem Told.report_eq (told : Told image r) : report image = r := by
  cases told with
  | refused parsed => simp only [report, parsed]
  | @ended m lines n rest trouble begun shown short ends =>
    -- The limit leaves one more instruction after those shown: the one that ends the run.
    obtain ⟨budget, limit⟩ : ∃ budget, instructionLimit = lines.length + (budget + 1) :=
      Nat.exists_eq_add_of_lt short
    rw [report_of_begins begun, limit, follow_shown shown, Nat.zero_add, follow_ends ends]
    simp
  | @endless m lines n begun shown long =>
    -- Nothing of the limit is left, and the next instruction is not even looked at.
    have limit : instructionLimit = lines.length + 0 := long.symm
    have text : "no BRK after " ++ toString instructionLimit ++ " instructions" =
        "no BRK after 100000 instructions" := rfl
    rw [report_of_begins begun, limit, follow_shown shown, follow, text]
    simp

/-- An image whose program stops itself within the limit, at an instruction that is shown like all
the instructions before it. -/
def Halts (image : Array Byte) : Prop :=
  ∃ m lines n line final, Begins image m ∧ Shown m lines n ∧ lines.length < 100000 ∧
    Disassembly.line n.cpu n.bus = .ok line ∧ step.run n = .ok .halted final

theorem Ends.halted_iff (ends : Ends executed m rest trouble) :
    trouble = none ↔
      ∃ line n, Disassembly.line m.cpu m.bus = .ok line ∧ step.run m = .ok .halted n := by
  cases ends with
  | halted printed stepped => exact iff_of_true rfl ⟨_, _, printed, stepped⟩
  | hidden unseen =>
    refine iff_of_false (by simp) ?_
    rintro ⟨line, n, printed, _⟩
    cases unseen.symm.trans printed
  | fault _ stepped =>
    refine iff_of_false (by simp) ?_
    rintro ⟨line, n, _, halted⟩
    cases stepped.symm.trans halted

/-- An image that halts is told to the end, whatever else may be told of it. -/
theorem Halts.exists_told (halts : Halts image) : ∃ r, Told image r ∧ r.failure = none := by
  obtain ⟨m, lines, n, line, final, begun, shown, short, printed, stepped⟩ := halts
  exact ⟨_, .ended begun shown short (.halted printed stepped), rfl⟩

theorem Told.failure_eq_none_iff (told : Told image r) : r.failure = none ↔ Halts image := by
  constructor
  · intro fine
    cases told with
    | refused => cases fine
    | endless => cases fine
    | ended begun shown short ends =>
      obtain ⟨line, final, printed, stepped⟩ := ends.halted_iff.mp fine
      exact ⟨_, _, _, line, final, begun, shown, short, printed, stepped⟩
  · intro halts
    obtain ⟨other, told', fine⟩ := halts.exists_told
    rwa [← told.report_eq, told'.report_eq]

theorem Report.exitCode_eq_zero (r : Report) : r.exitCode = 0 ↔ r.failure = none := by
  cases trouble : r.failure <;> simp [Report.exitCode, trouble]

theorem Report.exitCode_eq_one (r : Report) : r.exitCode = 1 ↔ r.failure ≠ none := by
  cases trouble : r.failure <;> simp [Report.exitCode, trouble]

/-- The report on an image is what is told of it. Its exit code is 0 if the program stops itself within
the limit, with all of its instructions shown, and 1 otherwise. Neither the reset nor the last look at
memory can fail. -/
theorem report_told (image : Array Byte) :
    (∀ r, report image = r ↔ Told image r) ∧
    ((report image).exitCode = 0 ↔ Halts image) ∧
    ((report image).exitCode = 1 ↔ ¬ Halts image) ∧
    (∀ c, ∃ m, reset.run ((powerOn none).attach c) = .ok () m) ∧
    (∀ m, ∃ v, (Machine.read 0x0200).run m = .ok v m) := by
  obtain ⟨r, told⟩ := exists_told image
  have reported := told.report_eq
  refine ⟨fun other => ⟨?_, Told.report_eq⟩, ?_, ?_, ?_, fun m => ⟨_, run_read_result m⟩⟩
  · rintro rfl
    exact reported ▸ told
  · rw [reported, Report.exitCode_eq_zero, told.failure_eq_none_iff]
  · rw [reported, Report.exitCode_eq_one, ne_eq, told.failure_eq_none_iff]
  · intro c
    obtain ⟨_, _, _, _, _, begun⟩ := run_reset_anywhere ((powerOn none).attach c)
    exact ⟨_, begun⟩

end Nes.CommandLine
