import Mathlib.Data.List.Nodup
import Nes.Proofs.Decoding

/-! What a list of instructions builds. They are registered one after the other, and after each of
them the set holds exactly those that have come so far; so a code that comes a second time is found
out where it does. -/
namespace Nes.InstructionSet

/-- The first instruction of a list, in its order, whose code an earlier one has used. -/
def FirstRepeated (l : List Instruction) (i : Instruction) : Prop :=
  ∃ before after, l = before ++ i :: after ∧ (before.map (·.code)).Nodup ∧
    i.code ∈ before.map (·.code)

/-- The set holds the instructions of a list, each under a code of its own, and no others. -/
structure Holds (set : InstructionSet) (l : List Instruction) : Prop where
  distinct : (l.map (·.code)).Nodup
  lookup : ∀ code i, set.lookup code = some i ↔ i ∈ l ∧ i.code = code
  size : set.size = l.length

theorem ext_lookup {set other : InstructionSet}
    (same : ∀ code, set.lookup code = other.lookup code) : set = other := by
  obtain ⟨slots⟩ := set
  obtain ⟨others⟩ := other
  congr 1
  refine Vector.ext fun n small => ?_
  have slot : (slotOf (UInt8.ofNat n)).val = n := Nat.mod_eq_of_lt small
  have found := same (UInt8.ofNat n)
  simpa only [InstructionSet.lookup, Fin.getElem_fin, slot] using found

theorem size_put {set : InstructionSet} (i : Instruction) (free : set.lookup i.code = none) :
    (set.put i).size = set.size + 1 := by
  have slot : (slotOf i.code).val < set.slots.toList.length := by simp
  have vacant : set.slots.toList[(slotOf i.code).val] = none := by
    rw [Vector.getElem_toList]
    exact free
  simp only [size, put, Vector.toList_set, List.countP_set slot, vacant]
  simp

theorem size_le (set : InstructionSet) : set.size ≤ 256 := by
  have bound := List.countP_le_length (p := Option.isSome) (l := set.slots.toList)
  rwa [Vector.length_toList] at bound

theorem isEmpty_iff (set : InstructionSet) : set.isEmpty = true ↔ set.size = 0 := beq_iff_eq

theorem FirstRepeated.not_nodup {l : List Instruction} (first : FirstRepeated l i) :
    ¬ (l.map (·.code)).Nodup := by
  obtain ⟨before, after, rfl, _, used⟩ := first
  intro distinct
  rw [List.map_append, List.map_cons, List.nodup_append] at distinct
  exact distinct.2.2 _ used _ List.mem_cons_self rfl

namespace Holds

theorem nothing : Holds empty [] where
  distinct := List.nodup_nil
  lookup code i := by simp
  size := by
    rw [InstructionSet.size, empty, Vector.toList_replicate, List.countP_replicate]
    rfl

variable {set : InstructionSet} {l : List Instruction}

theorem lookup_eq_none (holds : Holds set l) (code : Byte) :
    set.lookup code = none ↔ ∀ i ∈ l, i.code ≠ code := by
  rw [Option.eq_none_iff_forall_ne_some]
  simp only [ne_eq, holds.lookup, not_and]

theorem unique (holds : Holds set l) (found : i ∈ l) (found' : j ∈ l) (same : i.code = j.code) :
    i = j := by
  have one := (holds.lookup i.code i).2 ⟨found, rfl⟩
  have other := (holds.lookup i.code j).2 ⟨found', same.symm⟩
  exact Option.some.inj (one.symm.trans other)

theorem put (holds : Holds set l) (fresh : i.code ∉ l.map (·.code)) :
    Holds (set.put i) (l ++ [i]) where
  distinct := by
    rw [List.map_append, List.map_singleton, ← List.concat_eq_append]
    exact holds.distinct.concat fresh
  lookup code j := by
    by_cases same : code = i.code
    · subst same
      rw [lookup_put_same, List.mem_append, List.mem_singleton, Option.some_inj]
      constructor
      · rintro rfl
        exact ⟨.inr rfl, rfl⟩
      · rintro ⟨old | rfl, same⟩
        · exact absurd (same ▸ List.mem_map_of_mem old) fresh
        · rfl
    · rw [lookup_put_other set i same, holds.lookup, List.mem_append, List.mem_singleton]
      refine and_congr_left fun named => ⟨.inl, fun found => found.resolve_right ?_⟩
      rintro rfl
      exact same named.symm
  size := by
    have free : set.lookup i.code = none := by
      rw [holds.lookup_eq_none]
      exact fun j found same => fresh (same ▸ List.mem_map_of_mem found)
    rw [size_put i free, holds.size, List.length_append, List.length_singleton]

/-- One more instruction is registered, or refused as its code is in use. -/
theorem add (holds : Holds set l) (i : Instruction) :
    (add set i = .ok (set.put i) ∧ Holds (set.put i) (l ++ [i])) ∨
      (add set i = .error ⟨i.code⟩ ∧ i.code ∈ l.map (·.code)) := by
  by_cases used : i.code ∈ l.map (·.code)
  · obtain ⟨j, found, same⟩ := List.mem_map.1 used
    have taken := (holds.lookup i.code j).2 ⟨found, same⟩
    right
    rw [InstructionSet.add, taken]
    exact ⟨rfl, used⟩
  · have free : set.lookup i.code = none := by
      rw [holds.lookup_eq_none]
      exact fun j found same => used (same ▸ List.mem_map_of_mem found)
    left
    rw [InstructionSet.add, free]
    exact ⟨rfl, holds.put used⟩

/-- The rest of a list is registered after its beginning, or one of its instructions is the first
that comes with a code in use. -/
theorem foldlM (holds : Holds set l) (rest : List Instruction) :
    (∃ set', rest.foldlM InstructionSet.add set = .ok set' ∧ Holds set' (l ++ rest)) ∨
      ∃ i, rest.foldlM InstructionSet.add set = .error ⟨i.code⟩ ∧ FirstRepeated (l ++ rest) i := by
  induction rest generalizing set l with
  | nil => exact .inl ⟨set, rfl, (List.append_nil l).symm ▸ holds⟩
  | cons i rest ih =>
    rw [List.foldlM_cons]
    obtain ⟨added, holds'⟩ | ⟨refused, used⟩ := holds.add i
    · rw [added, List.append_cons]
      exact ih holds'
    · rw [refused]
      exact .inr ⟨i, rfl, l, rest, rfl, holds.distinct, used⟩

end Holds

theorem ofList_outcome (l : List Instruction) :
    (∃ set, ofList l = .ok set ∧ Holds set l) ∨
      ∃ i, ofList l = .error ⟨i.code⟩ ∧ FirstRepeated l i :=
  Holds.nothing.foldlM l

theorem holds_of_ofList {set : InstructionSet} (built : ofList l = .ok set) : Holds set l := by
  obtain ⟨set', built', holds⟩ | ⟨i, refused, _⟩ := ofList_outcome l
  · cases built.symm.trans built'
    exact holds
  · cases built.symm.trans refused

theorem lookup_documented (listed : i ∈ Instruction.documentedSet) :
    standard.lookup i.code = some i :=
  ((holds_of_ofList ofList_standard).lookup i.code i).2 ⟨List.mem_append_left _ listed, rfl⟩

theorem exists_of_nodup {l : List Instruction} (distinct : (l.map (·.code)).Nodup) :
    ∃ set, ofList l = .ok set ∧ Holds set l := by
  obtain built | ⟨i, _, first⟩ := ofList_outcome l
  · exact built
  · exact absurd distinct first.not_nodup

/-- The instructions before the first repeated one are registered, and then it is refused. -/
theorem FirstRepeated.ofList_eq {l : List Instruction} (first : FirstRepeated l i) :
    ofList l = .error ⟨i.code⟩ := by
  obtain ⟨before, after, rfl, distinct, used⟩ := first
  obtain ⟨set, built, holds⟩ := exists_of_nodup distinct
  obtain ⟨_, fresh⟩ | ⟨refused, _⟩ := holds.add i
  · exact absurd fresh.distinct (FirstRepeated.not_nodup ⟨before, [], rfl, distinct, used⟩)
  · rw [ofList] at built ⊢
    rw [List.foldlM_append, built]
    change ((i :: after).foldlM add set) = _
    rw [List.foldlM_cons, refused]
    rfl

/-- A set is built exactly from the lists that use no code twice. It holds each instruction of the
list under its code and nothing else, however the list was ordered. Any other list is refused for
the first code that comes again, and so is every list with more instructions than there are
codes. -/
theorem ofList_exact (l : List Instruction) :
    ((∃ set, ofList l = .ok set) ↔ (l.map (·.code)).Nodup) ∧
    (∀ set, ofList l = .ok set →
      (∀ code i, set.lookup code = some i ↔ i ∈ l ∧ i.code = code) ∧
      (∀ i ∈ l, ∀ j ∈ l, i.code = j.code → i = j) ∧
      (∀ code, set.lookup code = none ↔ ∀ i ∈ l, i.code ≠ code) ∧
      set.size = l.length ∧ (set.isEmpty = true ↔ l = []) ∧
      ∀ other, l.Perm other → ofList other = .ok set) ∧
    (∀ code, ofList l = .error ⟨code⟩ ↔ ∃ i, FirstRepeated l i ∧ i.code = code) ∧
    (256 < l.length → ∃ i, FirstRepeated l i ∧ ofList l = .error ⟨i.code⟩) := by
  refine ⟨⟨?_, ?_⟩, fun set built => ?_, fun code => ⟨fun refused => ?_, ?_⟩, fun long => ?_⟩
  · rintro ⟨set, built⟩
    exact (holds_of_ofList built).distinct
  · intro distinct
    obtain ⟨set, built, _⟩ := exists_of_nodup distinct
    exact ⟨set, built⟩
  · have holds := holds_of_ofList built
    refine ⟨holds.lookup, fun i found j found' => holds.unique found found', holds.lookup_eq_none,
      holds.size, ?_, fun other perm => ?_⟩
    · rw [isEmpty_iff, holds.size, List.length_eq_zero_iff]
    · have distinct := (perm.map (·.code)).nodup_iff.1 holds.distinct
      obtain ⟨set', built', holds'⟩ := exists_of_nodup distinct
      have same : set' = set := by
        refine ext_lookup fun code => Option.ext fun i => ?_
        rw [holds'.lookup, holds.lookup, perm.mem_iff]
      rw [built', same]
  · obtain ⟨set, built, _⟩ | ⟨i, refused', first⟩ := ofList_outcome l
    · cases refused.symm.trans built
    · cases refused.symm.trans refused'
      exact ⟨i, first, rfl⟩
  · rintro ⟨i, first, rfl⟩
    exact first.ofList_eq
  · obtain ⟨set, _, holds⟩ | ⟨i, refused, first⟩ := ofList_outcome l
    · have bound := size_le set
      rw [holds.size] at bound
      omega
    · exact ⟨i, first, refused⟩

/-- Two instructions in either order, and a list in which the third instruction repeats the code of
the first and the fourth that of the second. -/
theorem ofList_exact_repeated :
    let nop := Instruction.documented .nop 0xEA .implied
    let lda := Instruction.documented .lda 0xA9 .immediate
    let other := Instruction.undocumented .sbc 0xEA .immediate
    (∃ set, ofList [nop, lda] = .ok set ∧ ofList [lda, nop] = .ok set ∧
      set.lookup 0xA9 = some lda ∧ set.lookup 0x00 = none ∧ set.size = 2) ∧
    FirstRepeated [nop, lda, other, lda] other ∧
    ofList [nop, lda, other, lda] = .error ⟨0xEA⟩ := by
  intro nop lda other
  obtain ⟨builds, holds, _⟩ := ofList_exact [nop, lda]
  obtain ⟨set, built⟩ := builds.2 (by decide)
  obtain ⟨found, _, missing, size, _, reordered⟩ := holds set built
  have first : FirstRepeated [nop, lda, other, lda] other :=
    ⟨[nop, lda], [lda], rfl, by decide, by decide⟩
  refine ⟨⟨set, built, reordered _ (.swap lda nop []), ?_, ?_, size⟩, first, ?_⟩
  · exact (found 0xA9 lda).2 ⟨by decide, rfl⟩
  · exact (missing 0x00).2 (by decide)
  · exact ((ofList_exact [nop, lda, other, lda]).2.2.1 0xEA).2 ⟨other, first, rfl⟩

end Nes.InstructionSet
