import Nes.Cartridge.Basic

/-! The iNES image format: a sixteen byte header, a trainer if the header says so,
the program banks and the pattern banks. `Cartridge.ofImage` accepts an image that
holds everything its header declares, and otherwise reports the first of its
checks that fails. Bytes behind the declared banks are ignored. -/
namespace Nes

/-- The two sections of banks. -/
inductive Section where
  | prg
  | chr
  deriving DecidableEq

def Section.label : Section → String
  | .prg => "PRG ROM"
  | .chr => "CHR ROM"

inductive ImageError where
  | tooSmall (size : Nat)
  | missingTag
  | unsupportedMapper (id : Byte)
  | unsupportedVersion (version : Byte)
  | noProgram
  /-- The section should end at `stop`, but the image has only `size` bytes. -/
  | truncated (what : Section) (start stop size : Nat)
  deriving DecidableEq

namespace ImageError

/-- What is malformed, for the errors of form rather than of support. -/
def reason : ImageError → String
  | tooSmall size => toString size ++ " bytes is too small for an iNES header"
  | missingTag => "missing NES<1A> magic tag"
  | noProgram => "header declares no PRG ROM banks"
  | truncated what start stop size =>
    what.label ++ " needs bytes " ++ toString start ++ ".." ++ toString stop ++
      " but the image has " ++ toString size
  | unsupportedMapper _ | unsupportedVersion _ => ""

def message : ImageError → String
  | unsupportedMapper id => "unsupported mapper id " ++ toString id.toNat
  | unsupportedVersion version => "unsupported iNES format version " ++ toString version.toNat
  | e => "invalid iNES image: " ++ e.reason

end ImageError

namespace Header

abbrev size : Nat := 16
abbrev trainerSize : Nat := 512

/-- The header that four of its bytes spell: the two bank counts and two bytes of
flags. The mapper is split over the high halves of the flags. -/
def ofFields (prgBanks chrBanks flags6 flags7 : Byte) : Header where
  prgBanks := prgBanks
  chrBanks := chrBanks
  mapper := flags7 / 16 * 16 + flags6 / 16
  version := flags7 / 4 % 4
  mirroring :=
    if bit flags6 3 then .fourScreen else if bit flags6 0 then .vertical else .horizontal
  hasTrainer := bit flags6 2

/-- Where the program banks begin. -/
def prgStart (h : Header) : Nat := size + if h.hasTrainer then trainerSize else 0

/-- Where the pattern banks begin. -/
def chrStart (h : Header) : Nat := h.prgStart + h.prgSize

/-- Where the declared banks end. -/
def stop (h : Header) : Nat := h.chrStart + h.chrSize

end Header

namespace Cartridge

/-- The cartridge of an image whose header has been read. -/
def ofSections (h : Header) (image : Array Byte) : Except ImageError Cartridge :=
  if pos : 0 < h.prgBanks.toNat then
    if prg : h.chrStart ≤ image.size then
      if chr : h.stop ≤ image.size then
        .ok {
          header := h
          prgRom := image.extract h.prgStart h.chrStart
          chrRom := image.extract h.chrStart h.stop
          prg_size := by simp only [Array.size_extract, Header.chrStart] at *; omega
          chr_size := by simp only [Array.size_extract, Header.stop] at *; omega
          prgBanks_pos := pos }
      else .error (.truncated .chr h.chrStart h.stop image.size)
    else .error (.truncated .prg h.prgStart h.chrStart image.size)
  else .error .noProgram

/-- Reads an image. The checks come in the order of the header's fields. -/
def ofImage (image : Array Byte) : Except ImageError Cartridge :=
  if enough : 16 ≤ image.size then
    let h := Header.ofFields image[4] image[5] image[6] image[7]
    if (image[0], image[1], image[2], image[3]) ≠ (0x4E, 0x45, 0x53, 0x1A) then .error .missingTag
    else if h.mapper ≠ 0 then .error (.unsupportedMapper h.mapper)
    else if h.version ≠ 0 then .error (.unsupportedVersion h.version)
    else ofSections h image
  else .error (.tooSmall image.size)

/-- A one-line description: what the header says and how large the sections are. -/
def describe (c : Cartridge) : String :=
  "Cartridge \x7b mapper: " ++ toString c.header.mapper.toNat ++
    ", mirroring: " ++ c.mirroring.label ++
    ", has_trainer: " ++ toString c.header.hasTrainer ++
    ", prg_rom_len: " ++ toString c.prgRom.size ++
    ", chr_rom_len: " ++ toString c.chrRom.size ++ " \x7d"

end Cartridge
end Nes
