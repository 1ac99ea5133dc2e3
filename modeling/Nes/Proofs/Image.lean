import Nes.Cartridge.Image

/-! Where the parts of an accepted image lie, said of its bytes alone. -/
namespace Nes

namespace Image

theorem getD_append {front rest : Array Byte} (inFront : i < front.size) :
    (front ++ rest).getD i 0 = front.getD i 0 := by
  rw [Array.getD_eq_getD_getElem?, Array.getD_eq_getD_getElem?, Array.getElem?_append_left inFront]

def tag (image : Array Byte) : Byte × Byte × Byte × Byte :=
  (image.getD 0 0, image.getD 1 0, image.getD 2 0, image.getD 3 0)

def header (image : Array Byte) : Header :=
  .ofFields (image.getD 4 0) (image.getD 5 0) (image.getD 6 0) (image.getD 7 0)

/-- The program banks follow the header, or the trainer if there is one. -/
def programStart (image : Array Byte) : Nat := if bit (image.getD 6 0) 2 then 528 else 16

def programBanks (image : Array Byte) : Nat := (image.getD 4 0).toNat

def patternStart (image : Array Byte) : Nat := programStart image + 0x4000 * programBanks image

def patternSize (image : Array Byte) : Nat := 0x2000 * (image.getD 5 0).toNat

/-- The place of the byte that the CPU finds at an address of the program window. A single
bank is found twice. -/
def place (image : Array Byte) (a : Address) : Nat :=
  programStart image +
    if programBanks image = 1 then (a.toNat - 0x8000) % 0x4000 else a.toNat - 0x8000

def mirroring (image : Array Byte) : Mirroring :=
  if bit (image.getD 6 0) 3 then .fourScreen
  else if bit (image.getD 6 0) 0 then .vertical
  else .horizontal

end Image

namespace Cartridge

/-- A cartridge carries the sections of its image as they are, and all of them. -/
structure Carries (c : Cartridge) (image : Array Byte) : Prop where
  banks : c.header.prgBanks.toNat = Image.programBanks image
  program : c.prgRom = image.extract (Image.programStart image) (Image.patternStart image)
  pattern : c.chrRom =
    image.extract (Image.patternStart image) (Image.patternStart image + Image.patternSize image)
  whole : Image.patternStart image + Image.patternSize image ≤ image.size
  mirroring : c.mirroring = Image.mirroring image

theorem ofSections_ok (accepted : ofSections h image = .ok c) :
    c.header = h ∧ h.stop ≤ image.size ∧ c.prgRom = image.extract h.prgStart h.chrStart ∧
      c.chrRom = image.extract h.chrStart h.stop := by
  unfold ofSections at accepted
  split at accepted
  · split at accepted
    · split at accepted
      next whole => cases accepted; exact ⟨rfl, whole, rfl, rfl⟩
      · cases accepted
    · cases accepted
  · cases accepted

/-- The checks of an image that is long enough for a header, on its bytes. -/
theorem ofImage_of_size (enough : 16 ≤ image.size) :
    ofImage image =
      let h := Image.header image
      if Image.tag image ≠ (0x4E, 0x45, 0x53, 0x1A) then .error .missingTag
      else if h.mapper ≠ 0 then .error (.unsupportedMapper h.mapper)
      else if h.version ≠ 0 then .error (.unsupportedVersion h.version)
      else ofSections h image := by
  have field (i : Nat) (inImage : i < image.size) : image[i] = image.getD i 0 := by
    simp only [Array.getD_eq_getD_getElem?, Array.getElem?_eq_getElem inImage, Option.getD_some]
  rw [ofImage, dif_pos enough]
  simp only [field]
  rfl

/-- An image is accepted if all checks of its header pass and the sections are there. -/
theorem ofImage_ok_iff : ofImage image = .ok c ↔
    16 ≤ image.size ∧ Image.tag image = (0x4E, 0x45, 0x53, 0x1A) ∧
      (Image.header image).mapper = 0 ∧ (Image.header image).version = 0 ∧
      ofSections (Image.header image) image = .ok c := by
  constructor
  · intro accepted
    by_cases enough : 16 ≤ image.size
    · rw [ofImage_of_size enough] at accepted
      dsimp only at accepted
      split at accepted
      · cases accepted
      next tag =>
        split at accepted
        · cases accepted
        next mapper =>
          split at accepted
          · cases accepted
          next version =>
            exact ⟨enough, Decidable.not_not.1 tag, Decidable.not_not.1 mapper,
              Decidable.not_not.1 version, accepted⟩
    · rw [ofImage, dif_neg enough] at accepted
      cases accepted
  · rintro ⟨enough, tag, mapper, version, accepted⟩
    simp only [ofImage_of_size enough, tag, mapper, version, ne_eq, not_true_eq_false, ↓reduceIte]
    exact accepted

theorem ofImage_ok (accepted : ofImage image = .ok c) :
    ofSections (Image.header image) image = .ok c := by
  obtain ⟨_, _, _, _, sections⟩ := ofImage_ok_iff.1 accepted
  exact sections

theorem header_prgStart : (Image.header image).prgStart = Image.programStart image := by
  rw [Header.prgStart, Image.programStart]
  by_cases trainer : bit (image.getD 6 0) 2 = true <;>
    simp only [Image.header, Header.ofFields, trainer] <;> rfl

theorem header_chrStart : (Image.header image).chrStart = Image.patternStart image := by
  rw [Header.chrStart, header_prgStart]
  rfl

theorem header_stop :
    (Image.header image).stop = Image.patternStart image + Image.patternSize image := by
  rw [Header.stop, header_chrStart]
  rfl

theorem carries_of_ofImage (accepted : ofImage image = .ok c) : c.Carries image := by
  obtain ⟨header, whole, program, pattern⟩ := ofSections_ok (ofImage_ok accepted)
  rw [header_prgStart, header_chrStart] at program
  rw [header_chrStart, header_stop] at pattern
  rw [header_stop] at whole
  exact ⟨header ▸ rfl, program, pattern, whole, by rw [Cartridge.mirroring, header]; rfl⟩

/-- An image with a supported header that holds all that this declares, is accepted. -/
theorem ofImage_of_whole (tag : Image.tag image = (0x4E, 0x45, 0x53, 0x1A))
    (mapper : (Image.header image).mapper = 0) (version : (Image.header image).version = 0)
    (banks : 0 < (Image.header image).prgBanks.toNat)
    (whole : Image.patternStart image + Image.patternSize image ≤ image.size) :
    ∃ c, ofImage image = .ok c := by
  have pattern : (Image.header image).chrStart ≤ image.size := by
    rw [header_chrStart]
    omega
  have enough : 16 ≤ image.size := by
    have start : 16 ≤ Image.programStart image := by
      unfold Image.programStart
      split <;> decide
    simp only [Image.patternStart] at whole
    omega
  have sections : ∃ c, ofSections (Image.header image) image = .ok c := by
    rw [ofSections, dif_pos banks, dif_pos pattern, dif_pos (header_stop ▸ whole)]
    exact ⟨_, rfl⟩
  obtain ⟨c, found⟩ := sections
  exact ⟨c, ofImage_ok_iff.2 ⟨enough, tag, mapper, version, found⟩⟩

namespace Carries

variable {c : Cartridge} {image : Array Byte} (carries : c.Carries image)
include carries

theorem prgSize : c.prgRom.size = 0x4000 * Image.programBanks image := by
  rw [c.prg_size, Header.prgSize, carries.banks]

/-- The CPU's window shows the program section. -/
theorem prgByte (offset : Fin 0x8000) (a : Address) (inWindow : a.toNat = 0x8000 + offset) :
    image[Image.place image a]? = some (c.prgByte offset) := by
  have bound := c.prgOffset_lt offset
  have distance : a.toNat - 0x8000 = offset := by omega
  have single : c.prgRom.size = 0x4000 ↔ Image.programBanks image = 1 := by
    rw [carries.prgSize]
    omega
  have placed : Image.programStart image + c.prgOffset offset = Image.place image a := by
    simp only [Image.place, prgOffset, distance, Header.prgBankSize, single]
  have shown : c.prgRom[c.prgOffset offset]? = some (c.prgByte offset) :=
    Array.getElem?_eq_getElem bound
  rw [carries.program, Array.size_extract] at bound
  rw [carries.program, Array.getElem?_extract_of_lt bound] at shown
  rw [← placed, Array.getElem?_eq_getElem (by omega)]
  exact shown

theorem chrSize : c.chrRom.size = Image.patternSize image := by
  have whole := carries.whole
  rw [carries.pattern, Array.size_extract]
  omega

end Carries

end Cartridge
end Nes
