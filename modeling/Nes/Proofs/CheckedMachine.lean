import Nes.Proofs.Checked
import Nes.Proofs.Decoding

/-! Checked execution of the machine: the operations of the machine over the checked bus, with
the arithmetic of the CPU, the look-up of instructions and the trace watched as well. -/
namespace Nes

open Nes.Action Text

/-! What the CPU computes. -/

/-- The sum of the accumulator, a byte and the carry, sixteen bits wide. -/
def Cpu.sum? (c : Cpu) (v : Byte) : Option Address := do
  let both ← Nes.sum? c.a.toUInt16 v.toUInt16
  Nes.sum? both (if c.status.carry then 1 else 0)

theorem Cpu.sum?_eq (c : Cpu) (v : Byte) :
    c.sum? v = some (UInt16.ofNat (c.a.toNat + v.toNat + c.status.carry.toNat)) := by
  have small := c.a.toNat_lt
  have narrow := v.toNat_lt
  have both : (UInt16.ofNat (c.a.toNat + v.toNat)).toNat = c.a.toNat + v.toNat := by
    rw [UInt16.toNat_ofNat']
    omega
  have carried : (if c.status.carry then 1 else 0 : Address).toNat = c.status.carry.toNat := by
    cases c.status.carry <;> rfl
  have bit := c.status.carry.toNat_le
  rw [sum?, sum?_of_lt (by simp only [UInt8.toNat_toUInt16]; omega), Option.bind_eq_bind,
    Option.bind_some]
  simp only [UInt8.toNat_toUInt16]
  rw [sum?_of_lt (by omega), both, carried]

/-- Addition by way of that sum. -/
def Cpu.add? (c : Cpu) (v : Byte) : Option Cpu := do
  let sum ← c.sum? v
  let result := sum.toUInt8
  return { c with
    a := result
    status := { c.status with
      carry := 0xFF < sum
      overflow := bit c.a 7 == bit v 7 && bit result 7 != bit c.a 7 } }.flagged result

theorem Cpu.add?_eq (c : Cpu) (v : Byte) : c.add? v = some (c.add v) := by
  have small := c.a.toNat_lt
  have narrow := v.toNat_lt
  have bit := c.status.carry.toNat_le
  have value : (UInt16.ofNat (c.a.toNat + v.toNat + c.status.carry.toNat)).toNat =
      c.a.toNat + v.toNat + c.status.carry.toNat := by
    rw [UInt16.toNat_ofNat']
    omega
  have result : (UInt16.ofNat (c.a.toNat + v.toNat + c.status.carry.toNat)).toUInt8 =
      UInt8.ofNat (c.a.toNat + v.toNat + c.status.carry.toNat) := by
    apply UInt8.toNat_inj.1
    rw [UInt16.toNat_toUInt8, value, UInt8.toNat_ofNat']
  have carry : 0xFF < UInt16.ofNat (c.a.toNat + v.toNat + c.status.carry.toNat) ↔
      256 ≤ c.a.toNat + v.toNat + c.status.carry.toNat := by
    rw [UInt16.lt_iff_toNat_lt, value]
    exact Iff.rfl
  simp only [add?, sum?_eq, Option.bind_eq_bind, Option.bind_some, result, carry]
  rfl

/-- What an operation does with its operand, with the sum watched where there is one. -/
def Operation.use? (op : Operation) (use : Byte → Cpu → Cpu) (v : Byte) (c : Cpu) : Option Cpu :=
  match op with
  | .adc | .rra => c.add? v
  | .sbc | .isb => c.add? (v ^^^ 0xFF)
  | _ => some (use v c)

theorem Operation.use?_eq {op : Operation}
    (h : op.effect = .load use ∨ ∃ change, op.effect = .modify change use) (v : Byte) (c : Cpu) :
    op.use? use v c = some (use v c) := by
  have complement : v ^^^ 0xFF = ~~~v := by
    rw [← UInt8.toBitVec_inj]
    exact BitVec.xor_allOnes
  rcases h with h | ⟨change, h⟩ <;> cases op <;> cases h <;>
    simp only [use?, Cpu.add?_eq, complement, Cpu.subtract]

def InstructionSet.lookup? (set : InstructionSet) (code : Byte) : Option (Option Instruction) :=
  (cell? 256 code.toNat).map set.slots.get

theorem InstructionSet.lookup?_eq (set : InstructionSet) (code : Byte) :
    set.lookup? code = some (set.lookup code) := by
  rw [lookup?, cell?_of_lt code.toNat_lt]
  rfl

/-- How far PC has to move past the operand. -/
def Instruction.rest? (i : Instruction) : Option Address := difference? (UInt16.ofNat i.length) 1

theorem Instruction.rest?_eq {i : Instruction} {code : Byte}
    (found : InstructionSet.standard.lookup code = some i) :
    i.rest? = some (UInt16.ofNat (i.length - 1)) := by
  have length := InstructionSet.length_of_lookup found
  have bounds : 1 ≤ i.mode.length ∧ i.mode.length ≤ 3 := by cases i.mode <;> decide
  have whole : (UInt16.ofNat i.length).toNat = i.length := by
    rw [UInt16.toNat_ofNat']
    omega
  have one : (1 : Address).toNat = 1 := rfl
  rw [rest?, difference?_of_le (by omega), whole, one]

namespace Checked

theorem mapM_plain [Monad m] [LawfulMonad m] (f : α → m β) (xs : List α) :
    xs.mapM (fun x => plain (f x)) = plain (xs.mapM f) := by
  induction xs with
  | nil => rw [List.mapM_nil, List.mapM_nil, plain_pure]
  | cons x xs ih => simp only [List.mapM_cons, ih, plain_bind, plain_pure]

/-- An operand is found in the same way through reads with nothing to check. -/
theorem resolve_plain [Monad m] [LawfulMonad m] [MonadExceptOf Fault m]
    (throw : ∀ e, (throwThe Fault e : OptionT m Address) = plain (throwThe Fault e))
    {look : Address → m Byte} {look' : Address → OptionT m Byte}
    (reads : ∀ a, look' a = plain (look a)) (mode : Mode) (pc : Address) (x y : Byte) :
    mode.resolve pc x y look' = plain (mode.resolve pc x y look) := by
  refine mode.resolve_related (fun act act' => act' = plain act) pc x y ?_ ?_ throw reads
  · exact fun v => (plain_pure v).symm
  · rintro α β act _ next next' rfl rest
    rw [funext rest]
    exact (plain_bind act next).symm

end Checked

namespace Disassembly

/-- The operand's text, from the bytes of the instruction by their places. -/
def operandText? (d : Disassembly) (cpu : Cpu) : Option String := do
  let dump := d.instruction.code :: d.operands
  match dump.length with
  | 1 => return if d.instruction.mode = .accumulator then "A" else ""
  | 2 => return { d with operands := [← dump[1]?] }.operandText cpu
  | _ => return { d with operands := (← dump[1]?) :: (← dump[2]?) :: dump.drop 3 }.operandText cpu

theorem operandText?_eq (d : Disassembly) (cpu : Cpu) :
    d.operandText? cpu = some (d.operandText cpu) := by
  obtain ⟨pc, instruction, operands, target, value⟩ := d
  match operands with
  | [] =>
    obtain ⟨code, mnemonic, length, mode, operation⟩ := instruction
    cases mode <;> rfl
  | [v] => rfl
  | lo :: hi :: rest => rfl

def render? (d : Disassembly) (cpu : Cpu) : Option String := do
  return padRight 47 (trimRight (hexAddress d.pc ++ "  " ++ padRight 8 d.bytesText ++ " " ++
    padLeft 4 d.instruction.mnemonic ++ " " ++ (← d.operandText? cpu))) ++ registersText cpu

namespace Checked

open Nes.Checked

def look (bus : Bus) (a : Address) : OptionT (Except Fault) Byte := do
  match ← check (Bus.Checked.peek? bus a) with
  | some v => return v
  | none => throwThe Fault (.unmapped a)

def ofState (cpu : Cpu) (bus : Bus) : OptionT (Except Fault) Disassembly := do
  let code ← look bus cpu.pc
  match ← check (InstructionSet.standard.lookup? code) with
  | none => throwThe Fault (.unknownOpcode code cpu.pc)
  | some instruction =>
    let operands ← (List.range (instruction.length - 1)).mapM fun i =>
      look bus (cpu.pc + 1 + UInt16.ofNat i)
    if instruction.mode.isMemory then
      let target ← instruction.mode.resolve (cpu.pc + 1) cpu.x cpu.y (look bus)
      let value ← check (Bus.Checked.peek? bus target)
      return ⟨cpu.pc, instruction, operands, target, value.getD 0⟩
    else
      return ⟨cpu.pc, instruction, operands, 0, 0⟩

def line (cpu : Cpu) (bus : Bus) : OptionT (Except Fault) String := do
  check ((← ofState cpu bus).render? cpu)

theorem look_eq (bus : Bus) (a : Address) : look bus a = plain (Disassembly.look bus a) := by
  rw [look, Bus.Checked.peek?_eq, check_some, pure_bind, Disassembly.look]
  cases bus.peek? a <;> rfl

theorem ofState_eq (cpu : Cpu) (bus : Bus) :
    ofState cpu bus = plain (Disassembly.ofState cpu bus) := by
  have resolved := resolve_plain (fun _ => rfl) (look_eq bus)
  rw [ofState, Disassembly.ofState, look_eq, plain_bind]
  refine bind_congr fun code => ?_
  rw [InstructionSet.lookup?_eq, check_some, pure_bind]
  cases InstructionSet.standard.lookup code with
  | none => rfl
  | some instruction =>
    simp only [look_eq, mapM_plain, resolved, Bus.Checked.peek?_eq, check_some, pure_bind,
      plain_bind]
    refine bind_congr fun operands => ?_
    split
    · simp only [plain_bind, plain_pure]
    · simp only [plain_pure]

theorem line_eq (cpu : Cpu) (bus : Bus) : line cpu bus = plain (Disassembly.line cpu bus) := by
  have rendered (d : Disassembly) : d.render? cpu = some (d.render cpu) := by
    rw [render?, operandText?_eq]
    rfl
  simp only [line, Disassembly.line, ofState_eq, rendered, check_some, plain_bind, plain_pure]

end Checked
end Disassembly

namespace Machine.Checked

open Nes.Checked

def onBus (act : Checked Bus α) : Checked Machine α :=
  act.focus fun ⟨cpu, bus, log⟩ => (bus, fun bus => ⟨cpu, bus, log⟩)

theorem onBus_plain (act : Action Bus α) : onBus (plain act) = plain (Machine.onBus act) :=
  focus_plain _ act

def reporting (target : Bus → Option Address) (v : Byte) (act : Checked Bus Unit) :
    Checked Machine Unit := do
  let reached := target (← get).bus
  onBus act
  match reached with
  | some t => modify (·.note (.dataWrite t v))
  | none => return

theorem reporting_plain (target : Bus → Option Address) (v : Byte) (act : Action Bus Unit) :
    reporting target v (plain act) = plain (Machine.reporting target v act) := by
  apply eq_plain
  rintro ⟨cpu, bus, log⟩
  rw [reporting, onBus_plain]
  change (plain (Machine.onBus act) >>= _ : Checked Machine Unit).run.run _ = _
  simp only [run_bind_plain, run_onBus, Machine.reporting, run_of]
  cases act.run bus <;> cases target bus <;> rfl

def read (a : Address) : Checked Machine Byte := onBus (Bus.Checked.read a)

def write (a : Address) (v : Byte) : Checked Machine Unit :=
  reporting (·.dataTarget? a) v (Bus.Checked.write a v)

def writeRegister (a : Address) (v : Byte) : Checked Machine Unit :=
  reporting (·.ppu.dataTarget? a) v (Bus.Checked.onPpu (Ppu.Checked.writeRegister a v))

def readWord (a : Address) : Checked Machine Address := readPair read a (a + 1)

def writeWord (a : Address) (v : Address) : Checked Machine Unit := do
  write a (low v)
  write (a + 1) (high v)

def operandAddress (mode : Mode) : Checked Machine Address := do
  let pc ← plain (view (·.pc))
  let x ← plain (view (·.x))
  let y ← plain (view (·.y))
  mode.resolve pc x y read

def push (v : Byte) : Checked Machine Unit := do
  write (← plain (view (·.stackTop))) v
  plain (update fun c => { c with sp := c.sp - 1 })

def pull : Checked Machine Byte := do
  plain (update fun c => { c with sp := c.sp + 1 })
  read (← plain (view (·.stackTop)))

def pushWord (v : Address) : Checked Machine Unit := do
  push (high v)
  push (low v)

def pullWord : Checked Machine Address := do
  let lo ← pull
  let hi ← pull
  return word lo hi

def readOperand (mode : Mode) : Checked Machine Byte := do read (← operandAddress mode)

def modifyOperand (change : Cpu.Change) (mode : Mode) : Checked Machine Byte := do
  let carry ← plain (view (·.status.carry))
  match mode with
  | .accumulator =>
    let (result, carry) := change carry (← plain (view (·.a)))
    plain (update fun c => { c.withCarry carry with a := result })
    return result
  | _ =>
    let target ← operandAddress mode
    let (result, carry) := change carry (← read target)
    plain (update (·.withCarry carry))
    write target result
    return result

/-- The operation's change to the registers. -/
def finish (op : Operation) (use : Byte → Cpu → Cpu) (v : Byte) : Checked Machine Unit := do
  let cpu ← check (op.use? use v (← get).cpu)
  plain (update fun _ => cpu)

def execute (op : Operation) (mode : Mode) : Checked Machine Unit :=
  match op.effect with
  | .internal f => plain (update f)
  | .load use => do
    let v ← readOperand mode
    finish op use v
  | .store source => do
    let target ← operandAddress mode
    write target (← plain (view source))
  | .modify change use => do
    let v ← modifyOperand change mode
    finish op use v
  | .branch taken => do
    if ← plain (view fun c => taken c.status) then plain (goto (← operandAddress .relative))
  | .jump => do plain (goto (← operandAddress mode))
  | .call => do
    let target ← operandAddress mode
    pushWord (← plain (view (·.pc + 1)))
    plain (goto target)
  | .return => do plain (goto ((← pullWord) + 1))
  | .resume => do
    let flags ← pull
    plain (update fun c => { c with status := (Status.ofByte flags).withBreak false })
    plain (goto (← pullWord))
  | .push source => do push (← plain (view source))
  | .pull use => do
    let v ← pull
    plain (update (use v))

theorem read_eq (a : Address) : read a = plain (Machine.read a) := by
  rw [read, Bus.Checked.read_eq, onBus_plain, Machine.read]

theorem write_eq (a : Address) (v : Byte) : write a v = plain (Machine.write a v) := by
  rw [write, Bus.Checked.write_eq, reporting_plain, Machine.write]

theorem writeRegister_eq (a : Address) (v : Byte) :
    writeRegister a v = plain (Machine.writeRegister a v) := by
  rw [writeRegister, Ppu.Checked.writeRegister_eq, Bus.Checked.onPpu_plain, reporting_plain,
    Machine.writeRegister]

theorem readWord_eq (a : Address) : readWord a = plain (Machine.readWord a) := by
  simp only [readWord, Machine.readWord, readPair, read_eq, plain_bind, plain_pure]

theorem writeWord_eq (a v : Address) : writeWord a v = plain (Machine.writeWord a v) := by
  simp only [writeWord, Machine.writeWord, write_eq, plain_bind]

theorem operandAddress_eq (mode : Mode) :
    operandAddress mode = plain (Machine.operandAddress mode) := by
  have resolved := resolve_plain (fun e => (plain_throw e).symm) read_eq
  simp only [operandAddress, Machine.operandAddress, resolved, plain_bind]

theorem push_eq (v : Byte) : push v = plain (Machine.push v) := by
  simp only [push, Machine.push, write_eq, plain_bind]

theorem pull_eq : pull = plain Machine.pull := by
  simp only [pull, Machine.pull, read_eq, plain_bind]

theorem pushWord_eq (v : Address) : pushWord v = plain (Machine.pushWord v) := by
  simp only [pushWord, Machine.pushWord, push_eq, plain_bind]

theorem pullWord_eq : pullWord = plain Machine.pullWord := by
  simp only [pullWord, Machine.pullWord, pull_eq, plain_bind, plain_pure]

theorem readOperand_eq (mode : Mode) : readOperand mode = plain (Machine.readOperand mode) := by
  simp only [readOperand, Machine.readOperand, operandAddress_eq, read_eq, plain_bind]

theorem modifyOperand_eq (change : Cpu.Change) (mode : Mode) :
    modifyOperand change mode = plain (Machine.modifyOperand change mode) := by
  cases mode <;>
    simp only [modifyOperand, Machine.modifyOperand, operandAddress_eq, read_eq, write_eq,
      plain_bind, plain_pure]

theorem finish_eq {op : Operation}
    (h : op.effect = .load use ∨ ∃ change, op.effect = .modify change use) (v : Byte) :
    finish op use v = plain (update (use v)) :=
  eq_plain_of_passes (fun m => Operation.use?_eq h v m.cpu) fun _ => rfl

theorem execute_eq (op : Operation) (mode : Mode) :
    execute op mode = plain (Machine.execute op mode) := by
  unfold execute Machine.execute perform
  cases h : op.effect with
  | internal f => rfl
  | load use => simp only [readOperand_eq, finish_eq (.inl h), plain_bind]
  | store source => simp only [operandAddress_eq, write_eq, plain_bind]
  | modify change use => simp only [modifyOperand_eq, finish_eq (.inr ⟨change, h⟩), plain_bind]
  | branch taken =>
    simp only [operandAddress_eq, plain_bind]
    refine bind_congr fun yes => ?_
    cases yes
    · rfl
    · simp only [plain_bind, ↓reduceIte]
  | jump => simp only [operandAddress_eq, plain_bind]
  | call => simp only [operandAddress_eq, pushWord_eq, plain_bind]
  | «return» => simp only [pullWord_eq, plain_bind]
  | resume => simp only [pull_eq, pullWord_eq, plain_bind]
  | push source => simp only [push_eq, plain_bind]
  | pull use => simp only [pull_eq, plain_bind]

def fetch : Checked Machine Byte := do
  let v ← read (← plain (view (·.pc)))
  plain (update (·.advance 1))
  return v

def announced? (m : Machine) : Option Machine :=
  if m.log.admits .trace then
    match (Disassembly.Checked.line m.cpu m.bus).run with
    | .ok line => line.map fun line => m.note (.instruction line)
    | .error _ => some m
  else some m

def announce : Checked Machine Unit := do set (← check (announced? (← get)))

def step : Checked Machine Outcome := do
  if ← plain (view (·.halted)) then return .halted
  announce
  let start ← plain (view (·.pc))
  let code ← fetch
  if code = 0 then
    execute .brk .implied
    modify (·.note (.halted start))
    return .halted
  match ← check (InstructionSet.standard.lookup? code) with
  | none => throwThe Fault (.unknownOpcode code start)
  | some i =>
    let operand ← plain (view (·.pc))
    execute i.operation i.mode
    if (← plain (view (·.pc))) = operand then
      let rest ← check i.rest?
      plain (update (·.advance rest))
    return .running

def run : (fuel : Nat) → Checked Machine Ending
  | 0 => return .exhausted
  | fuel + 1 => do
    match ← step with
    | .halted => return .halted
    | .running => run fuel

def reset : Checked Machine Unit := do
  plain (update fun _ => {})
  plain (goto (← readWord resetAddress))
  let start ← plain (view (·.pc))
  modify (·.note (.reset start))

def load (program : Array Byte) : Checked Machine Unit := do
  if programCapacity < program.size then
    throwThe Fault (.programTooLarge program.size programCapacity)
  writeWord resetAddress (UInt16.ofNat programBase)
  plain (Machine.place program)

theorem fetch_eq : fetch = plain Machine.fetch := by
  simp only [fetch, Machine.fetch, read_eq, plain_bind, plain_pure]

theorem announced?_eq (m : Machine) : announced? m = some (Machine.announce.after m) := by
  rw [announced?, Disassembly.Checked.line_eq, Machine.announce, after_ok (EStateM.run_modify ..)]
  split
  · cases Disassembly.line m.cpu m.bus <;> rfl
  · rfl

theorem announce_eq : announce = plain Machine.announce :=
  eq_plain_of_passes announced?_eq fun _ => rfl

theorem step_eq : step = plain Machine.step := by
  rw [step, Machine.step, plain_bind]
  refine bind_congr fun halted => ?_
  split
  · exact (plain_pure _).symm
  simp only [announce_eq, fetch_eq, plain_bind]
  refine bind_congr fun _ => bind_congr fun start => bind_congr fun code => ?_
  split
  · simp only [execute_eq, plain_bind]
    rfl
  rw [InstructionSet.lookup?_eq, check_some, pure_bind]
  cases found : InstructionSet.standard.lookup code with
  | none => exact (plain_throw _).symm
  | some i =>
    simp only [execute_eq, Instruction.rest?_eq found, check_some, pure_bind, plain_bind]
    refine bind_congr fun operand => bind_congr fun _ => bind_congr fun pc => ?_
    split
    · simp only [plain_bind, plain_pure]
    · exact (plain_pure _).symm

theorem run_eq (fuel : Nat) : run fuel = plain (Machine.run fuel) := by
  induction fuel with
  | zero => exact (plain_pure _).symm
  | succ fuel ih =>
    rw [run, Machine.run, step_eq, plain_bind]
    refine bind_congr fun outcome => ?_
    cases outcome with
    | halted => exact (plain_pure _).symm
    | running => exact ih

theorem reset_eq : reset = plain Machine.reset := by
  simp only [reset, Machine.reset, readWord_eq, plain_bind]
  rfl

theorem load_eq (program : Array Byte) : load program = plain (Machine.load program) := by
  unfold load Machine.load
  split
  · simp only [writeWord_eq, plain_bind, plain_throw]
  · simp only [writeWord_eq, plain_bind]

end Machine.Checked
end Nes
