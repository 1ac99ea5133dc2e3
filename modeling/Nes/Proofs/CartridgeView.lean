import Nes.Demonstration
import Nes.Proofs.Command
import Nes.Proofs.Execution
import Nes.Proofs.Image

/-! A cartridge keeps its contents. Whatever a program does, the CPU finds the program
section of the image in its window and cannot write there, the reset vector is the image's,
and the picture unit has the image's pattern section and mirroring. -/
namespace Nes

open Nes.Action

namespace Bus

/-- The same cartridge is in, and the picture unit is wired to it. -/
structure SameCartridge (b c : Bus) : Prop where
  cartridge : c.cartridge = b.cartridge
  lines : Ppu.SameLines b.ppu c.ppu

theorem SameCartridge.kept : Bus.Kept SameCartridge where
  refl _ := ⟨rfl, .refl _⟩
  trans first second :=
    ⟨second.cartridge.trans first.cartridge, first.lines.trans second.lines⟩
  ram _ _ := ⟨rfl, .refl _⟩
  resetVector _ _ := ⟨rfl, .refl _⟩
  picture r b := by
    rw [onPpu_after]
    exact ⟨rfl, Ppu.SameLines.request r b.ppu⟩

theorem read_window {b : Bus} {c : Cartridge} (cartridge : b.cartridge = some c)
    (carries : c.Carries image) (inWindow : 0x8000 ≤ a) :
    ∃ v, image[Image.place image a]? = some v ∧ (read a).run b = .ok v b := by
  have above : 0x8000 ≤ a.toNat := UInt16.le_iff_toNat_le.1 inWindow
  obtain ⟨offset, region, placed⟩ := ofAddress_rom above
  refine ⟨_, carries.prgByte offset a placed, ?_⟩
  simp only [read, region, run_of, romByte?, cartridge]

theorem write_window {b : Bus} {c : Cartridge} (cartridge : b.cartridge = some c) (v : Byte)
    (inWindow : 0x8000 ≤ a) : (write a v).run b = .error (.readOnly a) b := by
  have above : 0x8000 ≤ a.toNat := UInt16.le_iff_toNat_le.1 inWindow
  obtain ⟨offset, region, _⟩ := ofAddress_rom above
  simp only [write, region, run_of, cartridge]

end Bus

namespace Demonstration

theorem size_image : image.size = 16 + 0x4000 + 0x2000 := by
  simp [image, header, prgBank, chrBank, program]

theorem getD_image (inHeader : i < 16) : image.getD i 0 = header.getD i 0 := by
  rw [image, Array.append_assoc]
  exact Image.getD_append (by simpa [header] using inHeader)

theorem ofImage_image : ∃ c, Cartridge.ofImage image = .ok c := by
  have declared : Image.header image = .ofFields 1 1 0 0 := by
    simp only [Image.header, getD_image, Nat.reduceLT]
    decide
  apply Cartridge.ofImage_of_whole
  · simp only [Image.tag, getD_image, Nat.reduceLT]
    decide
  · rw [declared]; decide
  · rw [declared]; decide
  · rw [declared]; decide
  · rw [size_image, ← Cartridge.header_stop, declared]; decide

/-- Behind the header lies the program bank. -/
theorem getElem?_image (inBank : i < 0x4000) : image[16 + i]? = prgBank[i]? := by
  have beyond : header.size = 16 := by simp [header]
  have bank : prgBank.size = 0x4000 := by simp [prgBank, program]
  rw [image, Array.append_assoc, Array.getElem?_append_right (by omega), beyond,
    Nat.add_sub_cancel_left, Array.getElem?_append_left (by omega)]

theorem place_image (a : Address) : Image.place image a = 16 + (a.toNat - 0x8000) % 0x4000 := by
  have trainer : bit (image.getD 6 0) 2 = false := by
    rw [getD_image (by decide)]
    decide
  have banks : (image.getD 4 0).toNat = 1 := by
    rw [getD_image (by decide)]
    decide
  simp only [Image.place, Image.programStart, Image.programBanks, trainer, banks,
    Bool.false_eq_true, ↓reduceIte]

end Demonstration

namespace Machine

theorem run_reset {m : Machine} (first : (Bus.read 0xFFFC).run m.bus = .ok lo m.bus)
    (second : (Bus.read 0xFFFD).run m.bus = .ok hi m.bus) :
    reset.run m = .ok () ⟨{ pc := word lo hi }, m.bus, m.log.note (.reset (word lo hi))⟩ := by
  have following : (0xFFFC : Address) + 1 = 0xFFFD := by decide
  simp only [reset, readWord, readPair, resetAddress, EStateM.run_bind, run_update, read,
    run_onBus, first, following, second, EStateM.run_pure, run_goto, run_view, EStateM.run_modify]
  rfl

/-- From the moment an image's cartridge is in until another is put in, the machine shows the
image, and nothing that is done to the machine changes what it shows. -/
theorem shows_inserted_image {image : Array Byte} {c : Cartridge} {b : Bus} {m : Machine}
    {history : List Command} (accepted : Cartridge.ofImage image = .ok c)
    (inserted : m.bus = b.attach c) (stays : ∀ other, .insert other ∉ history) :
    let n := m.afterAll history
    (∀ a, 0x8000 ≤ a →
      ∃ v, image[Image.place image a]? = some v ∧ (Bus.read a).run n.bus = .ok v n.bus) ∧
    (∀ a v, 0x8000 ≤ a → (Bus.write a v).run n.bus = .error (.readOnly a) n.bus) ∧
    (∃ lo hi log, image[Image.place image 0xFFFC]? = some lo ∧
      image[Image.place image 0xFFFD]? = some hi ∧
      reset.run n = .ok () ⟨{ pc := word lo hi }, n.bus, log⟩) ∧
    (n.bus.ppu.chr = image.extract (Image.patternStart image)
        (Image.patternStart image + Image.patternSize image) ∧
      n.bus.ppu.chr.size = Image.patternSize image) ∧
    n.bus.ppu.mirroring = Image.mirroring image := by
  intro n
  have carries := Cartridge.carries_of_ofImage accepted
  have same : Bus.SameCartridge m.bus n.bus := moves_afterAll Bus.SameCartridge.kept m stays
  rw [inserted] at same
  have cartridge : n.bus.cartridge = some c := same.cartridge
  have chr : n.bus.ppu.chr = c.chrRom := same.lines.chr
  have window (a : Address) (inWindow : 0x8000 ≤ a) := Bus.read_window cartridge carries inWindow
  obtain ⟨lo, placedLow, readLow⟩ := window 0xFFFC (by decide)
  obtain ⟨hi, placedHigh, readHigh⟩ := window 0xFFFD (by decide)
  refine ⟨window, fun a v inWindow => Bus.write_window cartridge v inWindow, ?_, ?_, ?_⟩
  · exact ⟨lo, hi, _, placedLow, placedHigh, run_reset readLow readHigh⟩
  · exact ⟨chr.trans carries.pattern, by rw [chr, carries.chrSize]⟩
  · exact same.lines.mirroring.trans carries.mirroring

/-- After a run of the built-in program and an attempt to write over it, its first byte and
the way to it are as in the image. -/
theorem shows_inserted_image_demonstration :
    ∃ c, Cartridge.ofImage Demonstration.image = .ok c ∧
      (∀ other, Command.insert other ∉ [.reset, .run 20, .write 0x8000 0xFF]) ∧
      let n := ({ bus := Bus.empty.attach c } : Machine).afterAll
        [.reset, .run 20, .write 0x8000 0xFF]
      (Bus.read 0x8000).run n.bus = .ok 0xA9 n.bus ∧
      (Bus.write 0x8000 0xFF).run n.bus = .error (.readOnly 0x8000) n.bus ∧
      ∃ log, reset.run n = .ok () ⟨{ pc := 0x8000 }, n.bus, log⟩ := by
  obtain ⟨c, accepted⟩ := Demonstration.ofImage_image
  have stays : ∀ other, Command.insert other ∉ [.reset, .run 20, .write 0x8000 0xFF] := by
    simp
  obtain ⟨shown, refused, restart, _⟩ :=
    shows_inserted_image (m := { bus := Bus.empty.attach c }) accepted rfl stays
  refine ⟨c, accepted, stays, ?_, refused 0x8000 0xFF (by decide), ?_⟩
  · obtain ⟨v, placed, read⟩ := shown 0x8000 (by decide)
    rw [Demonstration.place_image, Demonstration.getElem?_image (by decide)] at placed
    have first : Demonstration.prgBank[0]? = some 0xA9 := by
      simp [Demonstration.prgBank, Demonstration.program]
    cases first.symm.trans placed
    exact read
  · obtain ⟨lo, hi, log, placedLow, placedHigh, restarted⟩ := restart
    rw [Demonstration.place_image, Demonstration.getElem?_image (by decide)] at placedLow placedHigh
    have low : Demonstration.prgBank[0x3FFC]? = some 0x00 := by
      simp [Demonstration.prgBank, Demonstration.program]
    have high : Demonstration.prgBank[0x3FFD]? = some 0x80 := by
      simp [Demonstration.prgBank, Demonstration.program]
    cases low.symm.trans placedLow
    cases high.symm.trans placedHigh
    exact ⟨log, restarted⟩

end Machine
end Nes
