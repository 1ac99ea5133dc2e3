import Nes.Cpu.Alu

/-! The operations of the instruction set, apart from where they find their operand:
the documented ones, and those of the undocumented codes, most of which do the
work of two documented ones at once. `Operation.effect` says what each does. -/
namespace Nes

inductive Operation where
  | adc | and | asl | bcc | bcs | beq | bit | bmi | bne | bpl | brk | bvc | bvs | clc
  | cld | cli | clv | cmp | cpx | cpy | dec | dex | dey | eor | inc | inx | iny | jmp
  | jsr | lda | ldx | ldy | lsr | nop | ora | pha | php | pla | plp | rol | ror | rti
  | rts | sbc | sec | sed | sei | sta | stx | sty | tax | tay | tsx | txa | txs | tya
  | alr | anc | arr | axs | dcp | isb | lax | rla | rra | sax | slo | sre
  deriving DecidableEq, Inhabited

/-- What an operation does, by the way it meets its operand. -/
inductive Effect where
  /-- Changes registers only. -/
  | internal (update : Cpu → Cpu)
  /-- Reads the operand, then changes registers. -/
  | load (use : Byte → Cpu → Cpu)
  /-- Writes the operand. -/
  | store (source : Cpu → Byte)
  /-- Changes the operand in place and then may use the new value. -/
  | modify (change : Cpu.Change) (use : Byte → Cpu → Cpu)
  /-- Goes to the operand's address if the flags say so. -/
  | branch (taken : Status → Bool)
  /-- Goes to the operand's address. -/
  | jump
  /-- Goes to the operand's address and leaves the way back on the stack. -/
  | call
  /-- Goes back from a call. -/
  | return
  /-- Goes back from an interrupt, with the flags of that time. -/
  | resume
  | push (source : Cpu → Byte)
  | pull (use : Byte → Cpu → Cpu)

/-- Changes flags only. -/
def Effect.flags (update : Status → Status) : Effect :=
  .internal fun c => { c with status := update c.status }

namespace Operation

def all : List Operation :=
  [adc, and, asl, bcc, bcs, beq, bit, bmi, bne, bpl, brk, bvc, bvs, clc, cld, cli, clv, cmp,
    cpx, cpy, dec, dex, dey, eor, inc, inx, iny, jmp, jsr, lda, ldx, ldy, lsr, nop, ora, pha,
    php, pla, plp, rol, ror, rti, rts, sbc, sec, sed, sei, sta, stx, sty, tax, tay, tsx, txa,
    txs, tya, alr, anc, arr, axs, dcp, isb, lax, rla, rra, sax, slo, sre]

def name : Operation → String
  | adc => "ADC" | and => "AND" | asl => "ASL" | bcc => "BCC" | bcs => "BCS" | beq => "BEQ"
  | bit => "BIT" | bmi => "BMI" | bne => "BNE" | bpl => "BPL" | brk => "BRK" | bvc => "BVC"
  | bvs => "BVS" | clc => "CLC" | cld => "CLD" | cli => "CLI" | clv => "CLV" | cmp => "CMP"
  | cpx => "CPX" | cpy => "CPY" | dec => "DEC" | dex => "DEX" | dey => "DEY" | eor => "EOR"
  | inc => "INC" | inx => "INX" | iny => "INY" | jmp => "JMP" | jsr => "JSR" | lda => "LDA"
  | ldx => "LDX" | ldy => "LDY" | lsr => "LSR" | nop => "NOP" | ora => "ORA" | pha => "PHA"
  | php => "PHP" | pla => "PLA" | plp => "PLP" | rol => "ROL" | ror => "ROR" | rti => "RTI"
  | rts => "RTS" | sbc => "SBC" | sec => "SEC" | sed => "SED" | sei => "SEI" | sta => "STA"
  | stx => "STX" | sty => "STY" | tax => "TAX" | tay => "TAY" | tsx => "TSX" | txa => "TXA"
  | txs => "TXS" | tya => "TYA" | alr => "ALR" | anc => "ANC" | arr => "ARR" | axs => "AXS"
  | dcp => "DCP" | isb => "ISB" | lax => "LAX" | rla => "RLA" | rra => "RRA" | sax => "SAX"
  | slo => "SLO" | sre => "SRE"

def ofName? (text : String) : Option Operation := all.find? (·.name == text)

open Cpu in
def effect : Operation → Effect
  | lda => .load fun v c => c.loadA v
  | ldx => .load fun v c => c.loadX v
  | ldy => .load fun v c => c.loadY v
  | sta => .store (·.a)
  | stx => .store (·.x)
  | sty => .store (·.y)
  | tax => .internal fun c => c.loadX c.a
  | tay => .internal fun c => c.loadY c.a
  | txa => .internal fun c => c.loadA c.x
  | tya => .internal fun c => c.loadA c.y
  | tsx => .internal fun c => c.loadX c.sp
  | txs => .internal fun c => { c with sp := c.x }
  | inx => .internal fun c => c.loadX (c.x + 1)
  | iny => .internal fun c => c.loadY (c.y + 1)
  | dex => .internal fun c => c.loadX (c.x - 1)
  | dey => .internal fun c => c.loadY (c.y - 1)
  | inc => .modify increment fun v c => c.flagged v
  | dec => .modify decrement fun v c => c.flagged v
  | adc => .load fun v c => c.add v
  | sbc => .load fun v c => c.subtract v
  | and => .load fun v c => c.loadA (c.a &&& v)
  | ora => .load fun v c => c.loadA (c.a ||| v)
  | eor => .load fun v c => c.loadA (c.a ^^^ v)
  | bit => .load fun v c => c.testBits v
  | cmp => .load fun v c => c.compare c.a v
  | cpx => .load fun v c => c.compare c.x v
  | cpy => .load fun v c => c.compare c.y v
  | asl => .modify shiftLeft fun v c => c.flagged v
  | lsr => .modify shiftRight fun v c => c.flagged v
  | rol => .modify rotateLeft fun v c => c.flagged v
  | ror => .modify rotateRight fun v c => c.flagged v
  | bcc => .branch fun s => !s.carry
  | bcs => .branch fun s => s.carry
  | bne => .branch fun s => !s.zero
  | beq => .branch fun s => s.zero
  | bpl => .branch fun s => !s.negative
  | bmi => .branch fun s => s.negative
  | bvc => .branch fun s => !s.overflow
  | bvs => .branch fun s => s.overflow
  | jmp => .jump
  | jsr => .call
  | rts => .return
  | rti => .resume
  | brk => .internal fun c => { c with status := c.status.withBreak true, halted := true }
  | nop => .internal fun c => c
  | pha => .push (·.a)
  | php => .push fun c => (c.status.withBreak true).toByte
  | pla => .pull fun v c => c.loadA v
  | plp => .pull fun v c => { c with status := (Status.ofByte v).withBreak false }
  | clc => .flags fun s => { s with carry := false }
  | sec => .flags fun s => { s with carry := true }
  | cld => .flags fun s => { s with decimal := false }
  | sed => .flags fun s => { s with decimal := true }
  | cli => .flags fun s => { s with interruptDisable := false }
  | sei => .flags fun s => { s with interruptDisable := true }
  | clv => .flags fun s => { s with overflow := false }
  | lax => .load fun v c => { c.loadA v with x := v }
  | sax => .store fun c => c.a &&& c.x
  | dcp => .modify decrement fun v c => c.compare c.a v
  | isb => .modify increment fun v c => c.subtract v
  | slo => .modify shiftLeft fun v c => c.loadA (c.a ||| v)
  | rla => .modify rotateLeft fun v c => c.loadA (c.a &&& v)
  | sre => .modify shiftRight fun v c => c.loadA (c.a ^^^ v)
  | rra => .modify rotateRight fun v c => c.add v
  | anc => .load fun v c =>
    let result := c.a &&& v
    (c.loadA result).withCarry (Nes.bit result 7)
  | alr => .load fun v c =>
    let (result, carry) := shiftRight c.status.carry (c.a &&& v)
    (c.withCarry carry).loadA result
  | arr => .load fun v c =>
    let result := (rotateRight c.status.carry (c.a &&& v)).1
    let rotated := c.loadA result
    { rotated with status := { rotated.status with
        carry := Nes.bit result 6, overflow := Nes.bit result 6 != Nes.bit result 5 } }
  | axs => .load fun v c =>
    let both := c.a &&& c.x
    (c.withCarry (v ≤ both)).loadX (both - v)

theorem mem_all (op : Operation) : op ∈ all := by cases op <;> decide

end Operation
end Nes
