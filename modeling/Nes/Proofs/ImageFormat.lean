import Nes.Proofs.Image

/-! The images that are accepted and what becomes of them. `Image.Parts` is an image taken apart;
its cartridge has the two sections of banks and little of the header, and nothing of the trainer
or of what follows the banks. -/
namespace Nes

namespace Header

theorem mapper_ofFields (prg chr flags6 flags7 : Byte) :
    (ofFields prg chr flags6 flags7).mapper =
      (flags7 &&& (0xF0 : Byte)) ||| (flags6 >>> (4 : Byte)) := by
  have upper : ∀ n : Nat, n < 256 → n / 16 * 2 ^ 4 = n &&& 0xF0 := by decide +kernel
  have hi := flags7.toNat_lt
  have lo := flags6.toNat_lt
  apply UInt8.toNat_inj.1
  calc
    (ofFields prg chr flags6 flags7).mapper.toNat
      = flags7.toNat / 16 * 2 ^ 4 + flags6.toNat / 16 := by
        simp only [ofFields, UInt8.toNat_add, UInt8.toNat_mul, UInt8.toNat_div, UInt8.reduceToNat]
        omega
    _ = flags7.toNat / 16 * 2 ^ 4 ||| flags6.toNat / 16 := by
        rw [← Nat.shiftLeft_eq]
        exact Nat.shiftLeft_add_eq_or_of_lt (by omega) _
    _ = ((flags7 &&& (0xF0 : Byte)) ||| (flags6 >>> (4 : Byte))).toNat := by
        rw [upper _ hi, UInt8.toNat_or, UInt8.toNat_and, UInt8.toNat_shiftRight,
          Nat.shiftRight_eq_div_pow]
        rfl

theorem version_ofFields (prg chr flags6 flags7 : Byte) :
    (ofFields prg chr flags6 flags7).version = 0 ↔ bit flags7 2 = false ∧ bit flags7 3 = false := by
  have table : ∀ n : Nat, n < 256 → (n / 4 % 4 = 0 ↔ n.testBit 2 = false ∧ n.testBit 3 = false) := by
    decide +kernel
  rw [bit, bit, ← table _ flags7.toNat_lt, ← UInt8.toNat_inj]
  simp [ofFields]

end Header

namespace Cartridge

theorem eq_of_sections {c d : Cartridge} (header : c.header = d.header)
    (program : c.prgRom = d.prgRom) (pattern : c.chrRom = d.chrRom) : c = d := by
  cases c
  cases d
  cases header
  cases program
  cases pattern
  rfl

theorem header_of_ofImage (accepted : ofImage image = .ok c) : c.header = Image.header image :=
  (ofSections_ok (ofImage_ok accepted)).1

end Cartridge

namespace Image

/-- The header is one that a cartridge can be made of: it has the tag, asks for mapper 0 and the
first version of the format, and declares some program memory. -/
structure Supported (image : Array Byte) : Prop where
  tag : tag image = (0x4E, 0x45, 0x53, 0x1A)
  mapper : (image.getD 7 0 &&& (0xF0 : Byte)) ||| (image.getD 6 0 >>> (4 : Byte)) = 0
  version : bit (image.getD 7 0) 2 = false ∧ bit (image.getD 7 0) 3 = false
  banks : 1 ≤ programBanks image

/-- The image has a header, one that is supported, and all that this declares. -/
structure Legal (image : Array Byte) : Prop where
  enough : 16 ≤ image.size
  supported : Supported image
  whole : patternStart image + patternSize image ≤ image.size

theorem supported_iff : Supported image ↔
    tag image = (0x4E, 0x45, 0x53, 0x1A) ∧ (header image).mapper = 0 ∧
      (header image).version = 0 ∧ 0 < (header image).prgBanks.toNat := by
  rw [header, Header.mapper_ofFields, Header.version_ofFields]
  constructor
  · rintro ⟨tag, mapper, version, banks⟩
    exact ⟨tag, mapper, version, banks⟩
  · rintro ⟨tag, mapper, version, banks⟩
    exact ⟨tag, mapper, version, banks⟩

theorem legal_of_ok (accepted : Cartridge.ofImage image = .ok c) : Legal image := by
  obtain ⟨enough, tag, mapper, version, sections⟩ := Cartridge.ofImage_ok_iff.1 accepted
  obtain ⟨declared, _⟩ := Cartridge.ofSections_ok sections
  have banks := declared ▸ c.prgBanks_pos
  exact ⟨enough, supported_iff.2 ⟨tag, mapper, version, banks⟩,
    (Cartridge.carries_of_ofImage accepted).whole⟩

theorem Legal.ok {image : Array Byte} (legal : Legal image) :
    ∃ c, Cartridge.ofImage image = .ok c := by
  obtain ⟨tag, mapper, version, banks⟩ := supported_iff.1 legal.supported
  exact Cartridge.ofImage_of_whole tag mapper version banks legal.whole

section

variable {image other : Array Byte} (same : ∀ i < 16, image.getD i 0 = other.getD i 0)
include same

theorem tag_congr : tag image = tag other := by simp only [tag, same, Nat.reduceLT]

theorem header_congr : header image = header other := by simp only [header, same, Nat.reduceLT]

theorem programStart_congr : programStart image = programStart other := by
  rw [← Cartridge.header_prgStart, ← Cartridge.header_prgStart, header_congr same]

theorem patternStart_congr : patternStart image = patternStart other := by
  rw [← Cartridge.header_chrStart, ← Cartridge.header_chrStart, header_congr same]

theorem patternSize_congr : patternSize image = patternSize other := by
  simp only [patternSize, same, Nat.reduceLT]

theorem Supported.congr (supported : Supported image) : Supported other := by
  rw [supported_iff] at supported ⊢
  rwa [← tag_congr same, ← header_congr same]

end

/-- The parts of an image, of the sizes that its header declares. -/
structure Parts where
  header : Array Byte
  trainer : Array Byte
  program : Array Byte
  pattern : Array Byte
  rest : Array Byte
  header_size : header.size = 16
  supported : Supported header
  trainer_size : trainer.size = if bit (header.getD 6 0) 2 then 512 else 0
  program_size : program.size = 0x4000 * programBanks header
  pattern_size : pattern.size = patternSize header

theorem extract_middle (front body rest : Array Byte) :
    (front ++ body ++ rest).extract front.size (front.size + body.size) = body := by
  rw [Array.append_assoc]
  simp [Array.extract_append]

namespace Parts

def join (p : Parts) : Array Byte := p.header ++ p.trainer ++ p.program ++ p.pattern ++ p.rest

/-- The cartridge of an image. -/
def cartridge (p : Parts) : Cartridge where
  header := {
    prgBanks := p.header.getD 4 0
    chrBanks := p.header.getD 5 0
    mapper := 0
    version := 0
    mirroring := mirroring p.header
    hasTrainer := bit (p.header.getD 6 0) 2 }
  prgRom := p.program
  chrRom := p.pattern
  prg_size := p.program_size
  chr_size := p.pattern_size
  prgBanks_pos := p.supported.banks

variable (p : Parts)

theorem getD_join (i : Nat) (inHeader : i < 16) : p.join.getD i 0 = p.header.getD i 0 := by
  simp only [join, Array.append_assoc]
  exact getD_append (p.header_size ▸ inHeader)

theorem programStart_join : programStart p.join = (p.header ++ p.trainer).size := by
  rw [programStart_congr p.getD_join, programStart, Array.size_append, p.header_size, p.trainer_size]
  split <;> rfl

theorem patternStart_join :
    patternStart p.join = (p.header ++ p.trainer).size + p.program.size := by
  rw [← p.programStart_join, p.program_size, programStart_congr p.getD_join]
  exact patternStart_congr p.getD_join

theorem stop_join : patternStart p.join + patternSize p.join =
    (p.header ++ p.trainer ++ p.program).size + p.pattern.size := by
  rw [p.patternStart_join, p.pattern_size, patternSize_congr p.getD_join]
  simp only [Array.size_append]

theorem legal_join : Legal p.join := by
  refine ⟨?_, p.supported.congr fun i inHeader => (p.getD_join i inHeader).symm, ?_⟩
  · simp only [join, Array.size_append, p.header_size]
    omega
  · rw [p.stop_join]
    simp only [join, Array.size_append]
    omega

theorem program_join : p.join.extract (programStart p.join) (patternStart p.join) = p.program := by
  have whole : p.join = p.header ++ p.trainer ++ p.program ++ (p.pattern ++ p.rest) :=
    Array.append_assoc
  rw [p.patternStart_join, p.programStart_join, whole]
  exact extract_middle _ _ _

theorem pattern_join : p.join.extract (patternStart p.join)
    (patternStart p.join + patternSize p.join) = p.pattern := by
  rw [p.stop_join, p.patternStart_join, ← Array.size_append]
  exact extract_middle _ _ _

theorem header_cartridge : p.cartridge.header = Image.header p.header := by
  obtain ⟨_, mapper, version, _⟩ := supported_iff.1 p.supported
  let declaring (mapper version : Byte) : Header :=
    { p.cartridge.header with mapper, version }
  calc
    p.cartridge.header = declaring 0 0 := rfl
    _ = declaring (Image.header p.header).mapper (Image.header p.header).version := by
      rw [mapper, version]
    _ = Image.header p.header := rfl

theorem ofImage_join : Cartridge.ofImage p.join = .ok p.cartridge := by
  obtain ⟨c, accepted⟩ := p.legal_join.ok
  have carries := Cartridge.carries_of_ofImage accepted
  have same : c = p.cartridge := by
    apply Cartridge.eq_of_sections
    · rw [Cartridge.header_of_ofImage accepted, header_congr p.getD_join, p.header_cartridge]
    · exact carries.program.trans p.program_join
    · exact carries.pattern.trans p.pattern_join
  rw [accepted, same]

/-- Only the sections and three bits of the header make a difference. -/
theorem cartridge_congr {p q : Parts} (program : p.program = q.program)
    (pattern : p.pattern = q.pattern)
    (flags : ∀ i ∈ [0, 2, 3], bit (p.header.getD 6 0) i = bit (q.header.getD 6 0) i) :
    p.cartridge = q.cartridge := by
  have banks : p.header.getD 4 0 = q.header.getD 4 0 := by
    have sizes := congrArg Array.size program
    rw [p.program_size, q.program_size] at sizes
    exact UInt8.toNat_inj.1 (Nat.eq_of_mul_eq_mul_left (by decide) sizes)
  have patternBanks : p.header.getD 5 0 = q.header.getD 5 0 := by
    have sizes := congrArg Array.size pattern
    rw [p.pattern_size, q.pattern_size] at sizes
    exact UInt8.toNat_inj.1 (Nat.eq_of_mul_eq_mul_left (by decide) sizes)
  have vertical := flags 0 (by decide)
  have trainer := flags 2 (by decide)
  have fourScreen := flags 3 (by decide)
  apply Cartridge.eq_of_sections _ program pattern
  simp only [cartridge, mirroring, banks, patternBanks, vertical, trainer, fourScreen]

end Parts

theorem getD_cut (image : Array Byte) (behind : i < n) :
    image.getD i 0 = (image.extract 0 n).getD i 0 := by
  rw [Array.getD_eq_getD_getElem?, Array.getD_eq_getD_getElem?, Array.getElem?_extract, Nat.zero_add]
  split
  · rfl
  next beyond => rw [Array.getElem?_eq_none (by omega)]

theorem getD_extract (image : Array Byte) (i : Nat) (inHeader : i < 16) :
    image.getD i 0 = (image.extract 0 16).getD i 0 := getD_cut image inHeader

theorem le_programStart (image : Array Byte) : 16 ≤ programStart image := by
  unfold programStart
  split <;> decide

theorem programStart_le (image : Array Byte) : programStart image ≤ patternStart image :=
  Nat.le_add_right _ _

namespace Legal

variable {image : Array Byte} (legal : Legal image)
include legal

theorem patternStart_le : patternStart image ≤ image.size :=
  Nat.le_trans (Nat.le_add_right _ _) legal.whole

/-- A legal image taken apart. -/
def parts : Parts where
  header := image.extract 0 16
  trainer := image.extract 16 (programStart image)
  program := image.extract (programStart image) (patternStart image)
  pattern := image.extract (patternStart image) (patternStart image + patternSize image)
  rest := image.extract (patternStart image + patternSize image) image.size
  header_size := by
    have := legal.enough
    rw [Array.size_extract]
    omega
  supported := legal.supported.congr (getD_extract image)
  trainer_size := by
    have inImage := Nat.le_trans (programStart_le image) legal.patternStart_le
    rw [← getD_extract image 6 (by decide), Array.size_extract, Nat.min_eq_left inImage, programStart]
    split <;> rfl
  program_size := by
    have inImage := legal.patternStart_le
    rw [programBanks, ← getD_extract image 4 (by decide), Array.size_extract,
      Nat.min_eq_left inImage]
    exact Nat.add_sub_cancel_left _ _
  pattern_size := by
    rw [Array.size_extract, Nat.min_eq_left legal.whole, ← patternSize_congr (getD_extract image)]
    exact Nat.add_sub_cancel_left _ _

theorem join_parts : legal.parts.join = image := by
  have joined {i j : Nat} (first : i ≤ j) :
      image.extract 0 i ++ image.extract i j = image.extract 0 j := by
    rw [Array.extract_append_extract, Nat.zero_min, Nat.max_eq_right first]
  simp only [Parts.join, parts]
  rw [joined (le_programStart image), joined (programStart_le image),
    joined (Nat.le_add_right _ _), joined legal.whole, Array.extract_size]

end Legal
end Image

namespace Cartridge

/-- Exactly the legal images are accepted. The cartridge has the sections at their places and is
that of the parts of the image, of which only the sections and three bits of the header matter. -/
theorem ofImage_exact (image : Array Byte) :
    ((∃ c, ofImage image = .ok c) ↔ Image.Legal image) ∧
    (∀ c, ofImage image = .ok c →
      c.prgRom = image.extract (Image.programStart image) (Image.patternStart image) ∧
      c.prgRom.size = 0x4000 * Image.programBanks image ∧
      c.chrRom = image.extract (Image.patternStart image)
        (Image.patternStart image + Image.patternSize image) ∧
      c.chrRom.size = Image.patternSize image ∧
      c.header.hasTrainer = bit (image.getD 6 0) 2 ∧
      c.mirroring = Image.mirroring image) ∧
    (∀ c, ofImage image = .ok c ↔ ∃ p : Image.Parts, p.join = image ∧ p.cartridge = c) ∧
    (∀ p q : Image.Parts, p.program = q.program → p.pattern = q.pattern →
      (∀ i ∈ [0, 2, 3], bit (p.header.getD 6 0) i = bit (q.header.getD 6 0) i) →
      ofImage p.join = ofImage q.join) := by
  refine ⟨⟨?_, fun legal => legal.ok⟩, fun c accepted => ?_, fun c => ⟨fun accepted => ?_, ?_⟩, ?_⟩
  · rintro ⟨c, accepted⟩
    exact Image.legal_of_ok accepted
  · have carries := carries_of_ofImage accepted
    refine ⟨carries.program, carries.prgSize, carries.pattern, carries.chrSize, ?_,
      carries.mirroring⟩
    rw [header_of_ofImage accepted]
    rfl
  · have legal := Image.legal_of_ok accepted
    have parsed := legal.parts.ofImage_join
    rw [legal.join_parts, accepted] at parsed
    exact ⟨legal.parts, legal.join_parts, (Except.ok.inj parsed).symm⟩
  · rintro ⟨p, rfl, rfl⟩
    exact p.ofImage_join
  · intro p q program pattern flags
    rw [p.ofImage_join, q.ofImage_join, Image.Parts.cartridge_congr program pattern flags]

/-- One program bank behind a trainer, no pattern bank, and three bytes too many. -/
def trained : Image.Parts where
  header := #[0x4E, 0x45, 0x53, 0x1A, 0x01, 0x00, 0x05, 0x00, 0, 0, 0, 0, 0, 0, 0, 0]
  trainer := .replicate 512 0xFF
  program := .replicate 0x4000 0xEA
  pattern := #[]
  rest := #[1, 2, 3]
  header_size := rfl
  supported := ⟨by decide, by decide, by decide, by decide⟩
  trainer_size := by simp only [Array.size_replicate]; decide
  program_size := by simp only [Array.size_replicate]; decide
  pattern_size := by decide

theorem ofImage_exact_trained :
    ∃ c, ofImage trained.join = .ok c ∧ c.prgRom = .replicate 0x4000 0xEA ∧ c.chrRom = #[] ∧
      c.header.hasTrainer = true ∧ c.mirroring = .vertical := by
  obtain ⟨_, _, parsed, _⟩ := ofImage_exact trained.join
  exact ⟨trained.cartridge, (parsed _).2 ⟨trained, rfl, rfl⟩, rfl, rfl, rfl, rfl⟩

end Cartridge
end Nes
