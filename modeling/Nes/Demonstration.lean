import Nes.Byte

/-! The built-in cartridge image: a program that adds two numbers, stores the sum at
$0200, counts down and stops. -/
namespace Nes.Demonstration

/-- `LDA #$10; CLC; ADC #$05; STA $0200; LDX #$08; DEX; BNE -3; BRK`. -/
def program : Array Byte :=
  #[0xA9, 0x10, 0x18, 0x69, 0x05, 0x8D, 0x00, 0x02, 0xA2, 0x08, 0xCA, 0xD0, 0xFD, 0x00]

/-- One program bank, padded with `NOP` up to the vectors, with the reset vector on its
first byte. -/
def prgBank : Array Byte :=
  program ++ Array.replicate (0x3FFC - program.size) 0xEA ++ #[0x00, 0x80, 0xEA, 0xEA]

def chrBank : Array Byte := Array.replicate 0x2000 0

def header : Array Byte := #[0x4E, 0x45, 0x53, 0x1A, 1, 1] ++ Array.replicate 10 0

def image : Array Byte := header ++ prgBank ++ chrBank

end Nes.Demonstration
