import Nes.Proofs.CartridgeView
import Nes.Proofs.ImageFormat

/-! The images that are refused, and for what. The checks are listed in their order with what each of
them reports; an image is refused for the first that it fails. -/
namespace Nes

theorem Header.version_eq (prg chr flags6 flags7 : Byte) :
    (ofFields prg chr flags6 flags7).version = (flags7 >>> (2 : Byte)) &&& (3 : Byte) := by
  apply UInt8.toNat_inj.1
  simp only [ofFields, UInt8.toNat_mod, UInt8.toNat_div, UInt8.toNat_and, UInt8.toNat_shiftRight,
    UInt8.reduceToNat, Nat.shiftRight_eq_div_pow]
  exact (Nat.and_two_pow_sub_one_eq_mod (flags7.toNat / 4) 2).symm

namespace Image

def mapper (image : Array Byte) : Byte :=
  (image.getD 7 0 &&& (0xF0 : Byte)) ||| (image.getD 6 0 >>> (4 : Byte))

def version (image : Array Byte) : Byte := (image.getD 7 0 >>> (2 : Byte)) &&& (3 : Byte)

def stop (image : Array Byte) : Nat := patternStart image + patternSize image

/-- A check: whether an image fails it, and what is reported then, in which words. -/
structure Check where
  fails : Bool
  error : ImageError
  text : String

def malformed (reason : String) : String := "invalid iNES image: " ++ reason

/-- The words about a section that the image does not hold. -/
def missing (what : String) (start stop size : Nat) : String :=
  malformed (what ++ " needs bytes " ++ toString start ++ ".." ++ toString stop ++
    " but the image has " ++ toString size)

def checks (image : Array Byte) : List Check :=
  [⟨image.size < 16, .tooSmall image.size,
      malformed (toString image.size ++ " bytes is too small for an iNES header")⟩,
    ⟨tag image ≠ (0x4E, 0x45, 0x53, 0x1A), .missingTag, malformed "missing NES<1A> magic tag"⟩,
    ⟨mapper image ≠ 0, .unsupportedMapper (mapper image),
      "unsupported mapper id " ++ toString (mapper image).toNat⟩,
    ⟨version image ≠ 0, .unsupportedVersion (version image),
      "unsupported iNES format version " ++ toString (version image).toNat⟩,
    ⟨programBanks image = 0, .noProgram, malformed "header declares no PRG ROM banks"⟩,
    ⟨image.size < patternStart image,
      .truncated .prg (programStart image) (patternStart image) image.size,
      missing "PRG ROM" (programStart image) (patternStart image) image.size⟩,
    ⟨image.size < stop image, .truncated .chr (patternStart image) (stop image) image.size,
      missing "CHR ROM" (patternStart image) (stop image) image.size⟩]

/-- The first check that an image fails. -/
def failed? (image : Array Byte) : Option Check := (checks image).find? (·.fails)

theorem message_of_mem {image : Array Byte} {k : Check} (listed : k ∈ checks image) :
    k.error.message = k.text := by
  simp only [checks, List.mem_cons, List.not_mem_nil, or_false] at listed
  rcases listed with rfl | rfl | rfl | rfl | rfl | rfl | rfl <;> rfl

theorem header_mapper (image : Array Byte) : (header image).mapper = mapper image :=
  Header.mapper_ofFields ..

theorem header_version (image : Array Byte) : (header image).version = version image :=
  Header.version_eq ..

/-- An image that passes all checks is a legal one. -/
theorem legal_of_passes {image : Array Byte} (passes : failed? image = none) : Legal image := by
  simp only [failed?, List.find?_eq_none, checks, List.forall_mem_cons, List.not_mem_nil,
    decide_eq_true_eq, Nat.not_lt, ne_eq, Decidable.not_not] at passes
  obtain ⟨enough, tag, mapper, version, banks, _, whole, -⟩ := passes
  rw [← header_mapper] at mapper
  rw [← header_version] at version
  exact ⟨enough, supported_iff.2 ⟨tag, mapper, version, Nat.pos_of_ne_zero banks⟩, whole⟩

theorem failed_cons {k l : Check} {rest : List Check} (found : (k :: rest).find? (·.fails) = some l) :
    (k.fails = true ∧ k = l) ∨ (k.fails = false ∧ rest.find? (·.fails) = some l) := by
  rw [List.find?_cons] at found
  split at found
  next fails => exact .inl ⟨fails, Option.some.inj found⟩
  next passes => exact .inr ⟨passes, found⟩

end Image

namespace Cartridge

/-- What is said of the sections, by their places in the image. -/
theorem ofSections_header (image : Array Byte) :
    (Image.programBanks image = 0 →
      ofSections (Image.header image) image = .error .noProgram) ∧
    (Image.programBanks image ≠ 0 → image.size < Image.patternStart image →
      ofSections (Image.header image) image = .error
        (.truncated .prg (Image.programStart image) (Image.patternStart image) image.size)) ∧
    (Image.programBanks image ≠ 0 → Image.patternStart image ≤ image.size →
      image.size < Image.stop image → ofSections (Image.header image) image = .error
        (.truncated .chr (Image.patternStart image) (Image.stop image) image.size)) := by
  have banks : (Image.header image).prgBanks.toNat = Image.programBanks image := rfl
  have whole : (Image.header image).stop = Image.stop image := header_stop
  rw [← banks, ← header_prgStart, ← header_chrStart, ← whole, ofSections]
  refine ⟨fun none => ?_, fun some short => ?_, fun some program short => ?_⟩
  · rw [dif_neg (by omega)]
  · rw [dif_pos (by omega), dif_neg (by omega)]
  · rw [dif_pos (by omega), dif_pos program, dif_neg (by omega)]

/-- An image is refused for the first check that it fails. -/
theorem ofImage_of_failed {image : Array Byte} {k : Image.Check}
    (found : Image.failed? image = some k) : ofImage image = .error k.error := by
  unfold Image.failed? Image.checks at found
  obtain ⟨small, rfl⟩ | ⟨enough, found⟩ := Image.failed_cons found
  · rw [ofImage, dif_neg (Nat.not_le.2 (of_decide_eq_true small))]
  rw [ofImage_of_size (Nat.not_lt.1 (of_decide_eq_false enough))]
  simp only [Image.header_mapper, Image.header_version]
  obtain ⟨untagged, rfl⟩ | ⟨tagged, found⟩ := Image.failed_cons found
  · rw [if_pos (of_decide_eq_true untagged)]
  rw [if_neg (of_decide_eq_false tagged)]
  obtain ⟨mapped, rfl⟩ | ⟨unmapped, found⟩ := Image.failed_cons found
  · rw [if_pos (of_decide_eq_true mapped)]
  rw [if_neg (of_decide_eq_false unmapped)]
  obtain ⟨later, rfl⟩ | ⟨first, found⟩ := Image.failed_cons found
  · rw [if_pos (of_decide_eq_true later)]
  rw [if_neg (of_decide_eq_false first)]
  obtain ⟨noBanks, noProgram, noPattern⟩ := ofSections_header image
  obtain ⟨bare, rfl⟩ | ⟨banks, found⟩ := Image.failed_cons found
  · exact noBanks (of_decide_eq_true bare)
  have banks := of_decide_eq_false banks
  obtain ⟨short, rfl⟩ | ⟨program, found⟩ := Image.failed_cons found
  · exact noProgram banks (of_decide_eq_true short)
  have program := Nat.not_lt.1 (of_decide_eq_false program)
  obtain ⟨short, rfl⟩ | ⟨_, found⟩ := Image.failed_cons found
  · exact noPattern banks program (of_decide_eq_true short)
  · cases found

theorem ofImage_error_iff {image : Array Byte} :
    ofImage image = .error e ↔ (Image.failed? image).map (·.error) = some e := by
  cases found : Image.failed? image with
  | none =>
    obtain ⟨c, accepted⟩ := (Image.legal_of_passes found).ok
    rw [accepted]
    exact ⟨nofun, nofun⟩
  | some k =>
    rw [ofImage_of_failed found, Option.map_some, Except.error.injEq, Option.some.injEq]

end Cartridge

namespace Image

/-- What is reported of the first `n` bytes of an image, where that is not all it declares. -/
def shortage (image : Array Byte) (n : Nat) : ImageError :=
  if n < 16 then .tooSmall n
  else if n < patternStart image then .truncated .prg (programStart image) (patternStart image) n
  else .truncated .chr (patternStart image) (stop image) n

theorem stop_congr {image other : Array Byte} (same : ∀ i < 16, image.getD i 0 = other.getD i 0) :
    stop image = stop other := by
  rw [stop, patternStart_congr same, patternSize_congr same, stop]

theorem Legal.ofImage_cut {image : Array Byte} (legal : Legal image) (short : n < stop image) :
    Cartridge.ofImage (image.extract 0 n) = .error (shortage image n) := by
  have whole : stop image ≤ image.size := legal.whole
  have size : (image.extract 0 n).size = n := by
    rw [Array.size_extract]
    omega
  unfold shortage
  by_cases small : n < 16
  · rw [if_pos small, Cartridge.ofImage, dif_neg (by omega), size]
  have same (i : Nat) (inHeader : i < 16) : image.getD i 0 = (image.extract 0 n).getD i 0 :=
    getD_cut image (by omega)
  obtain ⟨tag, mapper, version, banks⟩ := supported_iff.1 (legal.supported.congr same)
  obtain ⟨-, noProgram, noPattern⟩ := Cartridge.ofSections_header (image.extract 0 n)
  rw [← programStart_congr same, ← patternStart_congr same, size] at noProgram
  rw [← patternStart_congr same, ← stop_congr same, size] at noPattern
  rw [if_neg small, Cartridge.ofImage_of_size (by omega)]
  simp only [tag, mapper, version, ne_eq, not_true_eq_false, ↓reduceIte]
  split
  next inProgram => exact noProgram (Nat.ne_of_gt banks) inProgram
  next beyond => exact noPattern (Nat.ne_of_gt banks) (Nat.not_lt.1 beyond) short

end Image

namespace Cartridge

/-- An image is refused just if it fails a check, and for the first that it fails, in the words of that
check. What is left of an accepted image when some of the declared bytes are cut off, is refused for
the part that the cut falls in. -/
theorem ofImage_refused (image : Array Byte) :
    (∀ e, ofImage image = .error e ↔ (Image.failed? image).map (·.error) = some e) ∧
    (∀ k ∈ Image.checks image, k.error.message = k.text) ∧
    (∀ c n, ofImage image = .ok c → n < Image.stop image →
      ofImage (image.extract 0 n) = .error (Image.shortage image n)) := by
  refine ⟨fun e => ofImage_error_iff, fun k listed => Image.message_of_mem listed, ?_⟩
  intro c n accepted short
  exact (Image.legal_of_ok accepted).ofImage_cut short

/-- Cut within the header, within the trainer, and before the last byte of pattern memory. -/
theorem ofImage_refused_cut :
    (∃ c, ofImage trained.join = .ok c) ∧ (∃ c, ofImage Demonstration.image = .ok c) ∧
    ofImage (trained.join.extract 0 15) = .error (.tooSmall 15) ∧
    ofImage (trained.join.extract 0 527) = .error (.truncated .prg 528 16912 527) ∧
    ofImage (Demonstration.image.extract 0 24591) =
      .error (.truncated .chr 16400 24592 24591) := by
  obtain ⟨c, accepted⟩ := trained.legal_join.ok
  obtain ⟨d, accepted'⟩ := Demonstration.ofImage_image
  have same (i : Nat) (inHeader : i < 16) := trained.getD_join i inHeader
  have same' (i : Nat) (inHeader : i < 16) := Demonstration.getD_image inHeader
  have places : Image.programStart trained.join = 528 ∧ Image.patternStart trained.join = 16912 ∧
      Image.stop trained.join = 16912 := by
    rw [Image.programStart_congr same, Image.patternStart_congr same, Image.stop_congr same]
    decide
  have places' : Image.patternStart Demonstration.image = 16400 ∧
      Image.stop Demonstration.image = 24592 := by
    rw [Image.patternStart_congr same', Image.stop_congr same']
    decide
  obtain ⟨-, -, cut⟩ := ofImage_refused trained.join
  obtain ⟨-, -, cut'⟩ := ofImage_refused Demonstration.image
  simp only [Image.shortage, places] at cut
  simp only [Image.shortage, places'] at cut'
  exact ⟨⟨c, accepted⟩, ⟨d, accepted'⟩, cut c 15 accepted (by decide),
    cut c 527 accepted (by decide), cut' d 24591 accepted' (by decide)⟩

end Cartridge
end Nes
