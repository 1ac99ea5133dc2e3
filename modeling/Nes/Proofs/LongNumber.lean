import Mathlib.Data.Nat.Digits.Defs
import Nes.Byte

/-! Numbers of several bytes, the lowest first: what they are worth without a sign and in two's
complement. -/
namespace Nes.Long

def unsigned (bytes : List Byte) : Nat := Nat.ofDigits 256 (bytes.map (·.toNat))

/-- The upper half of the numbers stands for the negative ones. -/
def signed (bytes : List Byte) : Int :=
  if 2 * unsigned bytes < 256 ^ bytes.length then unsigned bytes
  else unsigned bytes - (256 ^ bytes.length : Nat)

@[simp] theorem unsigned_nil : unsigned [] = 0 := rfl

@[simp] theorem unsigned_cons (v : Byte) (bytes : List Byte) :
    unsigned (v :: bytes) = v.toNat + 256 * unsigned bytes := Nat.ofDigits_cons

theorem unsigned_reverse_cons (v : Byte) (bytes : List Byte) :
    unsigned (v :: bytes).reverse = unsigned bytes.reverse + 256 ^ bytes.length * v.toNat := by
  rw [unsigned, List.map_reverse, List.map_cons, Nat.ofDigits_reverse_cons, List.length_map,
    ← List.map_reverse]
  rfl

theorem digit_lt {bytes : List Byte} {d : Nat} (member : d ∈ bytes.map (·.toNat)) : d < 256 := by
  obtain ⟨v, _, rfl⟩ := List.mem_map.1 member
  exact v.toNat_lt

theorem unsigned_lt (bytes : List Byte) : unsigned bytes < 256 ^ bytes.length := by
  have below := Nat.ofDigits_lt_base_pow_length (b := 256) (by decide)
    (fun d (member : d ∈ bytes.map (·.toNat)) => digit_lt member)
  rwa [List.length_map] at below

/-- Of two numbers, the bytes above the lowest tell the order, unless they are equal. -/
theorem unsigned_cons_le (x y : Byte) (xs ys : List Byte) :
    unsigned (y :: ys) ≤ unsigned (x :: xs) ↔
      unsigned ys + (1 - (decide (y ≤ x)).toNat) ≤ unsigned xs := by
  have := x.toNat_lt
  have := y.toNat_lt
  rw [unsigned_cons, unsigned_cons]
  by_cases lowest : y ≤ x
  · rw [decide_eq_true lowest, Bool.toNat_true]
    rw [UInt8.le_iff_toNat_le] at lowest
    omega
  · rw [decide_eq_false lowest, Bool.toNat_false]
    rw [UInt8.le_iff_toNat_le] at lowest
    omega

theorem unsigned_inj {bytes others : List Byte} (length : bytes.length = others.length)
    (same : unsigned bytes = unsigned others) : bytes = others := by
  have digits : bytes.map (·.toNat) = others.map (·.toNat) :=
    Nat.ofDigits_inj_of_len_eq (b := 256) (by decide) (by simpa using length)
      (fun _ member => digit_lt member) (fun _ member => digit_lt member) same
  exact (List.map_inj_right fun _ _ => UInt8.toNat_inj.1).1 digits

/-- A sum that comes apart into a number of so many bytes and a carry. -/
theorem carried {r w sum : Nat} {carry : Bool} (below : r < w)
    (apart : r + w * carry.toNat = sum) : r = sum % w ∧ (carry = true ↔ w ≤ sum) := by
  cases carry with
  | false =>
    rw [Bool.toNat_false, Nat.mul_zero, Nat.add_zero] at apart
    subst apart
    exact ⟨(Nat.mod_eq_of_lt below).symm, by simpa using below⟩
  | true =>
    rw [Bool.toNat_true, Nat.mul_one] at apart
    subst apart
    rw [Nat.add_mod_right]
    exact ⟨(Nat.mod_eq_of_lt below).symm, by simp⟩

/-- All numbers of some bytes are twice as many as fit below the highest bit. -/
theorem pow_eq_double (pos : 0 < n) : 256 ^ n = 2 * 2 ^ (8 * n - 1) := by
  have bits : 256 ^ n = 2 ^ (8 * n) := (pow_mul 2 8 n).symm
  rw [bits, ← pow_succ', Nat.sub_add_cancel (by omega)]

/-- One byte more moves the highest bit up by eight places. -/
theorem top_succ (pos : 0 < n) : 8 * (n + 1) - 1 = 8 + (8 * n - 1) := by omega

theorem testBit_top {u : Nat} (pos : 0 < n) (below : u < 256 ^ n) :
    u.testBit (8 * n - 1) = decide (256 ^ n ≤ 2 * u) := by
  rw [pow_eq_double pos] at *
  have half : 0 < 2 ^ (8 * n - 1) := Nat.two_pow_pos _
  rw [Nat.testBit_eq_decide_div_mod_eq]
  generalize 2 ^ (8 * n - 1) = h at *
  have quotient : u / h < 2 := Nat.div_lt_of_lt_mul (by omega)
  rw [Nat.mod_eq_of_lt quotient, decide_eq_decide]
  have reached : 1 ≤ u / h ↔ 1 * h ≤ u := Nat.le_div_iff_mul_le half
  omega

theorem bit_seven (v : Byte) : bit v 7 = decide (128 ≤ v.toNat) := by
  have top := testBit_top (n := 1) (by decide) v.toNat_lt
  refine top.trans (decide_eq_decide.2 ?_)
  omega

/-- The highest bit is that of the highest byte. -/
theorem testBit_cons (v : Byte) {bytes : List Byte} (more : bytes ≠ []) :
    (unsigned (v :: bytes)).testBit (8 * (bytes.length + 1) - 1) =
      (unsigned bytes).testBit (8 * bytes.length - 1) := by
  have shifted := Nat.testBit_two_pow_mul_add (unsigned bytes) v.toNat_lt
    (8 + (8 * bytes.length - 1))
  rw [if_neg (by omega), Nat.add_sub_cancel_left] at shifted
  rw [top_succ (List.length_pos_iff.2 more), unsigned_cons, Nat.add_comm]
  exact shifted

theorem signed_cons (v : Byte) {bytes : List Byte} (more : bytes ≠ []) :
    signed (v :: bytes) = v.toNat + 256 * signed bytes := by
  have := v.toNat_lt
  simp only [signed, unsigned_cons, List.length_cons, pow_succ]
  rw [pow_eq_double (List.length_pos_iff.2 more)]
  generalize 2 ^ (8 * bytes.length - 1) = half
  split <;> split <;> omega

theorem unsigned_not (bytes : List Byte) :
    unsigned (bytes.map (~~~·)) + unsigned bytes + 1 = 256 ^ bytes.length := by
  induction bytes with
  | nil => rfl
  | cons v bytes ih =>
    have := v.toNat_lt
    have flipped : (~~~v).toNat = 255 - v.toNat := UInt8.toNat_not v
    rw [List.map_cons, unsigned_cons, unsigned_cons, flipped, List.length_cons, pow_succ]
    omega

theorem signed_not {bytes : List Byte} (more : bytes ≠ []) :
    signed (bytes.map (~~~·)) = -1 - signed bytes := by
  have whole := unsigned_not bytes
  simp only [signed, List.length_map]
  rw [pow_eq_double (List.length_pos_iff.2 more)] at *
  generalize 2 ^ (8 * bytes.length - 1) = half at *
  split <;> split <;> omega

end Nes.Long
