import Nes.Instruction.Set

/-! The instruction set of the console's CPU. A code is mostly regular: its lowest
bits choose a column of operations, the middle ones the mode, the highest the
operation, so the large families are given by the code of their first member. -/
namespace Nes.Instruction

open Operation Mode

/-- The eight modes of an operation on the accumulator. -/
def accumulatorFamily (op : Operation) (base : Byte) : List Instruction :=
  [documented op (base + 0x01) indirectX, documented op (base + 0x05) zeroPage,
    documented op (base + 0x09) immediate, documented op (base + 0x0D) absolute,
    documented op (base + 0x11) indirectY, documented op (base + 0x15) zeroPageX,
    documented op (base + 0x19) absoluteY, documented op (base + 0x1D) absoluteX]

/-- The four memory modes of an operation that changes its operand in place. -/
def memoryFamily (op : Operation) (base : Byte) : List Instruction :=
  [documented op (base + 0x06) zeroPage, documented op (base + 0x0E) absolute,
    documented op (base + 0x16) zeroPageX, documented op (base + 0x1E) absoluteX]

/-- The same with the form that changes the accumulator. -/
def shiftFamily (op : Operation) (base : Byte) : List Instruction :=
  documented op (base + 0x0A) accumulator :: memoryFamily op base

/-- The seven modes of an undocumented operation that changes its operand in place and
then works on the accumulator. -/
def combinedFamily (op : Operation) (base : Byte) : List Instruction :=
  [undocumented op (base + 0x03) indirectX, undocumented op (base + 0x07) zeroPage,
    undocumented op (base + 0x0F) absolute, undocumented op (base + 0x13) indirectY,
    undocumented op (base + 0x17) zeroPageX, undocumented op (base + 0x1B) absoluteY,
    undocumented op (base + 0x1F) absoluteX]

/-- The 151 documented instructions. -/
def documentedSet : List Instruction :=
  accumulatorFamily ora 0x00 ++ accumulatorFamily and 0x20 ++ accumulatorFamily eor 0x40 ++
  accumulatorFamily adc 0x60 ++ accumulatorFamily lda 0xA0 ++ accumulatorFamily cmp 0xC0 ++
  accumulatorFamily sbc 0xE0 ++
  shiftFamily asl 0x00 ++ shiftFamily rol 0x20 ++ shiftFamily lsr 0x40 ++ shiftFamily ror 0x60 ++
  memoryFamily dec 0xC0 ++ memoryFamily inc 0xE0 ++
  [documented sta 0x81 indirectX, documented sta 0x85 zeroPage, documented sta 0x8D absolute,
    documented sta 0x91 indirectY, documented sta 0x95 zeroPageX, documented sta 0x99 absoluteY,
    documented sta 0x9D absoluteX,
    documented stx 0x86 zeroPage, documented stx 0x8E absolute, documented stx 0x96 zeroPageY,
    documented sty 0x84 zeroPage, documented sty 0x8C absolute, documented sty 0x94 zeroPageX,
    documented ldx 0xA2 immediate, documented ldx 0xA6 zeroPage, documented ldx 0xAE absolute,
    documented ldx 0xB6 zeroPageY, documented ldx 0xBE absoluteY,
    documented ldy 0xA0 immediate, documented ldy 0xA4 zeroPage, documented ldy 0xAC absolute,
    documented ldy 0xB4 zeroPageX, documented ldy 0xBC absoluteX,
    documented cpy 0xC0 immediate, documented cpy 0xC4 zeroPage, documented cpy 0xCC absolute,
    documented cpx 0xE0 immediate, documented cpx 0xE4 zeroPage, documented cpx 0xEC absolute,
    documented Operation.bit 0x24 zeroPage, documented Operation.bit 0x2C absolute,
    documented bpl 0x10 relative, documented bmi 0x30 relative, documented bvc 0x50 relative,
    documented bvs 0x70 relative, documented bcc 0x90 relative, documented bcs 0xB0 relative,
    documented bne 0xD0 relative, documented beq 0xF0 relative,
    documented jmp 0x4C absolute, documented jmp 0x6C indirect, documented jsr 0x20 absolute,
    documented rts 0x60 implied, documented rti 0x40 implied, documented brk 0x00 implied,
    documented nop 0xEA implied,
    documented pha 0x48 implied, documented pla 0x68 implied, documented php 0x08 implied,
    documented plp 0x28 implied,
    documented tax 0xAA implied, documented tay 0xA8 implied, documented tsx 0xBA implied,
    documented txa 0x8A implied, documented txs 0x9A implied, documented tya 0x98 implied,
    documented inx 0xE8 implied, documented iny 0xC8 implied, documented dex 0xCA implied,
    documented dey 0x88 implied,
    documented clc 0x18 implied, documented sec 0x38 implied, documented cli 0x58 implied,
    documented sei 0x78 implied, documented clv 0xB8 implied, documented cld 0xD8 implied,
    documented sed 0xF8 implied]

/-- The 85 instructions of the codes that are left and known to do something, if only
to skip their operand. -/
def undocumentedSet : List Instruction :=
  combinedFamily slo 0x00 ++ combinedFamily rla 0x20 ++ combinedFamily sre 0x40 ++
  combinedFamily rra 0x60 ++ combinedFamily dcp 0xC0 ++ combinedFamily isb 0xE0 ++
  [undocumented lax 0xA3 indirectX, undocumented lax 0xA7 zeroPage,
    undocumented lax 0xAF absolute, undocumented lax 0xB3 indirectY,
    undocumented lax 0xB7 zeroPageY, undocumented lax 0xBF absoluteY,
    undocumented sax 0x83 indirectX, undocumented sax 0x87 zeroPage,
    undocumented sax 0x8F absolute, undocumented sax 0x97 zeroPageY,
    undocumented anc 0x0B immediate, undocumented anc 0x2B immediate,
    undocumented alr 0x4B immediate, undocumented arr 0x6B immediate,
    undocumented axs 0xCB immediate, undocumented sbc 0xEB immediate] ++
  [0x04, 0x44, 0x64].map (undocumented nop · zeroPage) ++
  [0x14, 0x34, 0x54, 0x74, 0xD4, 0xF4].map (undocumented nop · zeroPageX) ++
  [0x80, 0x82, 0x89, 0xC2, 0xE2].map (undocumented nop · immediate) ++
  [undocumented nop 0x0C absolute] ++
  [0x1C, 0x3C, 0x5C, 0x7C, 0xDC, 0xFC].map (undocumented nop · absoluteX) ++
  [0x1A, 0x3A, 0x5A, 0x7A, 0xDA, 0xFA].map (undocumented nop · implied)

end Nes.Instruction

namespace Nes

/-- The set that the CPU executes. -/
def InstructionSet.standard : InstructionSet :=
  (Instruction.documentedSet ++ Instruction.undocumentedSet).foldl put empty

end Nes
