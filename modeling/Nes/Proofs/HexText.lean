import Mathlib.Data.List.TakeWhile
import Nes.Text.Hex

/-! Fixed-width text is printable and can be read back. A number is found in its digits, a part of a
line in its columns. -/
namespace Nes.Text

/-- Only characters of ASCII that have a width, the blank among them. -/
def Printable (text : String) : Prop := ∀ c ∈ text.toList, 32 ≤ c.toNat ∧ c.toNat < 127

-- Character by character: that all characters could be gone through is no help here.
instance (text : String) : Decidable (Printable text) :=
  List.decidableBAll (fun c : Char => 32 ≤ c.toNat ∧ c.toNat < 127) text.toList

/-- The upper-case digits, in the order of their values. -/
def hexDigits : List Char := "0123456789ABCDEF".toList

/-- The number that hexadecimal digits stand for. -/
def hexValue (digits : String) : Nat := digits.toList.foldl (fun n c => 16 * n + hexDigits.idxOf c) 0

/-- Text that is a number of upper-case digits and stands for a value. -/
structure Digits (text : String) (width value : Nat) : Prop where
  length : text.length = width
  upper : ∀ c ∈ text.toList, c ∈ hexDigits
  value : hexValue text = value

/-- A part of a line, by its first column and its width. -/
def columns (start width : Nat) (line : String) : String :=
  String.ofList ((line.toList.drop start).take width)

theorem hexDigit_mem : ∀ n < 16, hexDigit n ∈ hexDigits := by decide

theorem idxOf_hexDigit : ∀ n < 16, hexDigits.idxOf (hexDigit n) = n := by decide

theorem printable_hexDigits : Printable "0123456789ABCDEF" := by decide

theorem toList_hexByte (b : Byte) :
    (hexByte b).toList = [hexDigit (b.toNat / 16), hexDigit (b.toNat % 16)] :=
  String.toList_ofList

theorem mem_hexDigits_of_hexByte (member : c ∈ (hexByte b).toList) : c ∈ hexDigits := by
  have := b.toNat_lt
  rw [toList_hexByte] at member
  obtain _ | ⟨_, _ | ⟨_, ⟨⟩⟩⟩ := member
  · exact hexDigit_mem _ (by omega)
  · exact hexDigit_mem _ (by omega)

theorem mem_hexDigits_of_hexAddress (member : c ∈ (hexAddress a).toList) : c ∈ hexDigits := by
  rw [hexAddress, String.toList_append, List.mem_append] at member
  exact member.elim mem_hexDigits_of_hexByte mem_hexDigits_of_hexByte

theorem foldl_hexByte (n : Nat) (b : Byte) :
    (hexByte b).toList.foldl (fun n c => 16 * n + hexDigits.idxOf c) n = 256 * n + b.toNat := by
  have := b.toNat_lt
  rw [toList_hexByte, List.foldl_cons, List.foldl_cons, List.foldl_nil,
    idxOf_hexDigit _ (by omega), idxOf_hexDigit _ (by omega)]
  omega

theorem hexValue_hexByte (b : Byte) : hexValue (hexByte b) = b.toNat := by
  rw [hexValue, foldl_hexByte, Nat.mul_zero, Nat.zero_add]

theorem hexValue_hexAddress (a : Address) : hexValue (hexAddress a) = a.toNat := by
  rw [hexValue, hexAddress, String.toList_append, List.foldl_append, foldl_hexByte, foldl_hexByte,
    toNat_high, toNat_low]
  omega

theorem digits_hexByte (b : Byte) : Digits (hexByte b) 2 b.toNat :=
  ⟨length_hexByte b, fun _ => mem_hexDigits_of_hexByte, hexValue_hexByte b⟩

theorem digits_hexAddress (a : Address) : Digits (hexAddress a) 4 a.toNat :=
  ⟨length_hexAddress a, fun _ => mem_hexDigits_of_hexAddress, hexValue_hexAddress a⟩

@[simp] theorem hexByte_inj : hexByte a = hexByte b ↔ a = b := by
  refine ⟨fun same => UInt8.toNat_inj.1 ?_, congrArg hexByte⟩
  rw [← hexValue_hexByte a, same, hexValue_hexByte]

/-- Texts whose first or whose last parts are equally long are equal part by part. -/
theorem append_inj {s t u v : String} (long : s.length = t.length ∨ u.length = v.length) :
    s ++ u = t ++ v ↔ s = t ∧ u = v := by
  simp only [← String.length_toList] at long
  simp only [← String.toList_inj, String.toList_append]
  refine ⟨fun same => ?_, fun ⟨first, last⟩ => by rw [first, last]⟩
  exact long.elim (List.append_inj same) (List.append_inj' same)

theorem append_hexByte_inj : s ++ hexByte a = t ++ hexByte b ↔ s = t ∧ a = b := by
  rw [append_inj (.inr (by simp)), hexByte_inj]

/-- A part of a line is in the columns that the part before it leaves to it. -/
theorem columns_eq {s t u : String} (split : line = s ++ t ++ u) (before : s.length = start)
    (inside : t.length = width) : columns start width line = t := by
  rw [← String.length_toList] at before inside
  rw [split, columns, String.toList_append, String.toList_append, List.append_assoc,
    List.drop_left' before, List.take_left' inside, String.ofList_toList]

@[simp] theorem printable_append : Printable (s ++ t) ↔ Printable s ∧ Printable t := by
  simp only [Printable, String.toList_append, List.forall_mem_append]

@[simp] theorem printable_hexByte (b : Byte) : Printable (hexByte b) :=
  fun c member => printable_hexDigits c (mem_hexDigits_of_hexByte member)

@[simp] theorem printable_hexAddress (a : Address) : Printable (hexAddress a) :=
  fun c member => printable_hexDigits c (mem_hexDigits_of_hexAddress member)

theorem printable_blanks (n : Nat) : Printable (String.ofList (List.replicate n ' ')) := by
  intro c member
  rw [String.toList_ofList] at member
  rw [List.eq_of_mem_replicate member]
  decide

@[simp] theorem printable_padRight (width : Nat) :
    Printable (padRight width text) ↔ Printable text := by
  simp only [padRight, printable_append, printable_blanks, and_true]

@[simp] theorem printable_padLeft (width : Nat) :
    Printable (padLeft width text) ↔ Printable text := by
  simp only [padLeft, printable_append, printable_blanks, true_and]

/-- The blank is the only printable character that is dropped at the end of a text. -/
theorem Printable.trimRight_blanks (printable : Printable text) :
    ∃ n, text.toList = (trimRight text).toList ++ List.replicate n ' ' := by
  have blanks : ∀ c ∈ text.toList.reverse.takeWhile Char.isWhitespace, c = ' ' := by
    intro c member
    have wide := printable c (List.mem_reverse.1 ((List.takeWhile_sublist _).subset member))
    have white := List.mem_takeWhile_imp member
    simp only [Char.isWhitespace, Bool.or_eq_true, decide_eq_true_eq, or_assoc] at white
    obtain blank | rfl | rfl | rfl := white
    · exact blank
    all_goals exact absurd wide (by decide)
  refine ⟨(text.toList.reverse.takeWhile Char.isWhitespace).length, ?_⟩
  rw [← List.reverse_inj, List.reverse_append, List.reverse_replicate,
    ← List.eq_replicate_of_mem blanks, trimRight, String.toList_ofList, List.reverse_reverse,
    List.takeWhile_append_dropWhile]

/-- What is dropped at the end comes back with the padding. -/
theorem Printable.padRight_trimRight (printable : Printable text) (fits : text.length ≤ width) :
    padRight width (trimRight text) = padRight width text := by
  obtain ⟨n, same⟩ := printable.trimRight_blanks
  have long : text.length = (trimRight text).length + n := by
    rw [← String.length_toList, same, List.length_append, List.length_replicate,
      String.length_toList]
  have filled : width - (trimRight text).length = n + (width - text.length) := by omega
  rw [← String.toList_inj, padRight, padRight, String.toList_append, String.toList_append, same,
    String.toList_ofList, String.toList_ofList, filled, ← List.replicate_append_replicate,
    List.append_assoc]

/-- Bytes with blanks between them. -/
def spaced (bytes : List Byte) : String := " ".intercalate (bytes.map hexByte)

theorem spaced_singleton (v : Byte) : spaced [v] = hexByte v := rfl

theorem spaced_cons_cons (v w : Byte) (bytes : List Byte) :
    spaced (v :: w :: bytes) = hexByte v ++ " " ++ spaced (w :: bytes) :=
  String.intercalate_cons_cons

theorem length_spaced (v : Byte) (bytes : List Byte) :
    (spaced (v :: bytes)).length = 3 * bytes.length + 2 := by
  induction bytes generalizing v with
  | nil => simp [spaced_singleton]
  | cons w bytes ih =>
    have blank : " ".length = 1 := rfl
    simp only [spaced_cons_cons, String.length_append, length_hexByte, ih, blank, List.length_cons]
    omega

theorem printable_spaced (bytes : List Byte) : Printable (spaced bytes) := by
  induction bytes with
  | nil => decide
  | cons v bytes ih =>
    cases bytes with
    | nil => simp [spaced_singleton]
    | cons w bytes =>
      rw [spaced_cons_cons, printable_append, printable_append]
      exact ⟨⟨printable_hexByte v, by decide⟩, ih⟩

theorem exists_spaced_cons (v : Byte) (bytes : List Byte) :
    ∃ rest, spaced (v :: bytes) = hexByte v ++ rest := by
  cases bytes with
  | nil => exact ⟨"", (String.append_empty).symm⟩
  | cons w bytes => exact ⟨_, (spaced_cons_cons v w bytes).trans String.append_assoc⟩

/-- Equally many bytes can be read back, whatever comes behind them. -/
theorem spaced_append_inj {bytes others : List Byte} (long : bytes.length = others.length)
    (same : spaced bytes ++ s = spaced others ++ t) : bytes = others := by
  induction bytes generalizing others with
  | nil => exact (List.length_eq_zero_iff.1 long.symm).symm
  | cons v bytes ih =>
    obtain ⟨w, others, rfl⟩ := List.exists_cons_of_length_eq_add_one long.symm
    have rest : bytes.length = others.length := Nat.succ.inj long
    cases bytes with
    | nil =>
      obtain rfl := List.length_eq_zero_iff.1 rest.symm
      rw [spaced_singleton, spaced_singleton, append_inj (.inl (by simp))] at same
      rw [hexByte_inj.1 same.1]
    | cons v' bytes =>
      obtain ⟨w', others, rfl⟩ := List.exists_cons_of_length_eq_add_one rest.symm
      simp only [spaced_cons_cons, String.append_assoc] at same
      rw [append_inj (.inl (by simp)), String.append_right_inj] at same
      rw [hexByte_inj.1 same.1, ih rest same.2]

end Nes.Text
