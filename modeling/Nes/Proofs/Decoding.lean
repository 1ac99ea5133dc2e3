import Nes.Instruction.Standard

/-! What the instructions of the standard set have in common, whichever of the codes
they have: each is found under its own code, is as long as its mode says, and its
operation can find its operand in its mode. Only then can it be said in which modes an
operation looks for an operand at all. -/
namespace Nes

/-- Whether an operation with this effect can find its operand in a mode. -/
def Effect.fits : Effect → Mode → Bool
  | .load _, mode => mode = .immediate || mode.isMemory
  | .modify _ _, mode => mode = .accumulator || mode.isMemory
  | .store _, mode | .jump, mode | .call, mode => mode.isMemory
  | .branch _, mode => mode = .relative
  | .return, mode | .resume, mode | .push _, mode | .pull _, mode => mode = .implied
  | .internal _, _ => true

/-- The operations that have a form for the accumulator. -/
def Operation.shifts : List Operation := [asl, lsr, rol, ror]

/-- The mode in which an operation seeks its operand in memory, if it does. -/
def Effect.sought? : Effect → Mode → Option Mode
  | .load _, mode | .store _, mode | .jump, mode | .call, mode => some mode
  | .modify _ _, mode => if mode = .accumulator then none else some mode
  | .branch _, _ => some .relative
  | _, _ => none

theorem Effect.memory_of_modify (fits : (Effect.modify change use).fits mode = true)
    (sought : (Effect.modify change use).sought? mode = some mode') :
    mode' = mode ∧ mode.isMemory = true := by
  simp only [Effect.fits, Bool.or_eq_true, decide_eq_true_eq] at fits
  by_cases accumulator : mode = .accumulator
  · simp only [Effect.sought?, accumulator, ↓reduceIte] at sought
    cases sought
  · simp only [Effect.sought?, accumulator, ↓reduceIte] at sought
    exact ⟨(Option.some.inj sought).symm, fits.resolve_left accumulator⟩

/-- An operation that fits its mode seeks its operand in that mode. -/
theorem Effect.sought_of_fits {effect : Effect} (fits : effect.fits mode = true)
    (sought : effect.sought? mode = some mode') :
    mode' = mode ∧ (mode = .relative ∨ mode = .immediate ∨ mode.isMemory = true) := by
  cases effect with
  | load use =>
    cases sought
    simp only [Effect.fits, Bool.or_eq_true, decide_eq_true_eq] at fits
    exact ⟨rfl, .inr fits⟩
  | store _ | jump | call => cases sought; exact ⟨rfl, .inr (.inr fits)⟩
  | modify change use =>
    obtain ⟨same, memory⟩ := memory_of_modify fits sought
    exact ⟨same, .inr (.inr memory)⟩
  | branch taken =>
    cases sought
    have relative : mode = .relative := of_decide_eq_true fits
    exact ⟨relative.symm, .inl relative⟩
  | internal _ | «return» | resume | push _ | pull _ => cases sought

namespace InstructionSet

theorem lookup_foldl_put {l : List Instruction} {set : InstructionSet}
    (h : (l.foldl put set).lookup code = some i) :
    (i ∈ l ∧ i.code = code) ∨ set.lookup code = some i := by
  induction l generalizing set with
  | nil => exact .inr h
  | cons head tail ih =>
    rcases ih h with ⟨member, same⟩ | found
    · exact .inl ⟨List.mem_cons_of_mem _ member, same⟩
    · by_cases same : code = head.code
      · subst same
        rw [lookup_put_same] at found
        cases found
        exact .inl ⟨List.mem_cons_self, rfl⟩
      · rw [lookup_put_other _ _ same] at found
        exact .inr found

theorem mem_of_lookup (h : standard.lookup code = some i) :
    i ∈ Instruction.documentedSet ++ Instruction.undocumentedSet ∧ i.code = code := by
  rcases lookup_foldl_put h with found | found
  · exact found
  · rw [lookup_empty] at found
    cases found

/-- A list that uses no code twice, and none that is taken, is registered as a whole. -/
theorem foldlM_add {l : List Instruction} {set : InstructionSet}
    (free : ∀ i ∈ l, set.lookup i.code = none) (distinct : (l.map (·.code)).Nodup) :
    l.foldlM add set = .ok (l.foldl put set) := by
  induction l generalizing set with
  | nil => rfl
  | cons head tail ih =>
    rw [List.forall_mem_cons] at free
    rw [List.map_cons, List.nodup_cons] at distinct
    have first : add set head = .ok (set.put head) := by
      rw [add, free.1]
      rfl
    rw [List.foldlM_cons, first, List.foldl_cons]
    refine ih (fun i member => ?_) distinct.2
    have other : i.code ≠ head.code := fun same =>
      distinct.1 (same ▸ List.mem_map_of_mem member)
    rw [lookup_put_other set head other]
    exact free.2 i member

/-- Whether numbers are apart from one another and from those that the bits of a mask stand for. -/
def unmarked (mask : Nat) : List Nat → Bool
  | [] => true
  | n :: rest => !mask.testBit n && unmarked (mask ||| 1 <<< n) rest

theorem nodup_of_unmarked {mask : Nat} {l : List Nat} (h : unmarked mask l = true) :
    l.Nodup ∧ ∀ n ∈ l, mask.testBit n = false := by
  induction l generalizing mask with
  | nil => exact ⟨List.nodup_nil, nofun⟩
  | cons n rest ih =>
    simp only [unmarked, Bool.and_eq_true, Bool.not_eq_true'] at h
    obtain ⟨apart, free⟩ := ih h.2
    simp only [Nat.one_shiftLeft, Nat.testBit_or, Nat.testBit_two_pow, Bool.or_eq_false_iff,
      decide_eq_false_iff_not] at free
    refine ⟨List.nodup_cons.2 ⟨fun member => (free n member).2 rfl, apart⟩, ?_⟩
    rw [List.forall_mem_cons]
    exact ⟨h.1, fun other member => (free other member).1⟩

/-- The standard set is what its list registers, without a code used twice. -/
theorem ofList_standard :
    ofList (Instruction.documentedSet ++ Instruction.undocumentedSet) = .ok standard := by
  have unmarked : unmarked 0
      ((Instruction.documentedSet ++ Instruction.undocumentedSet).map (·.code.toNat)) = true := by
    decide +kernel
  have apart := (nodup_of_unmarked unmarked).1
  rw [List.Nodup, List.pairwise_map] at apart
  refine foldlM_add (fun i _ => lookup_empty i.code) ?_
  rw [List.Nodup, List.pairwise_map]
  exact apart.imp fun different same => different (congrArg UInt8.toNat same)

theorem lookup_zero : (standard.lookup 0).map (·.operation) = some .brk := by decide +kernel

private theorem standard_regular : ∀ i ∈ Instruction.documentedSet ++ Instruction.undocumentedSet,
    i.length = i.mode.length ∧ i.operation.effect.fits i.mode = true ∧
      (i.mode = .indirect → i.operation = .jmp) := by
  decide +kernel

private theorem standard_brk :
    ∀ i ∈ Instruction.documentedSet ++ Instruction.undocumentedSet,
      i.operation = .brk → i.code = 0 := by
  decide +kernel

private theorem standard_accumulator :
    ∀ i ∈ Instruction.documentedSet ++ Instruction.undocumentedSet,
      i.mode = .accumulator → i.operation ∈ Operation.shifts := by
  decide +kernel

private theorem standard_transfer :
    ∀ i ∈ Instruction.documentedSet ++ Instruction.undocumentedSet,
      i.operation = .jmp ∨ i.operation = .jsr → i.length = 3 := by
  decide +kernel

theorem eq_of_code (known : standard.lookup i.code = some i)
    (other : standard.lookup j.code = some j) (same : i.code = j.code) : i = j := by
  rw [same, other] at known
  exact (Option.some.inj known).symm

variable {code : Byte} {i : Instruction} (h : standard.lookup code = some i)
include h

theorem code_of_lookup : i.code = code := (mem_of_lookup h).2

theorem length_of_lookup : i.length = i.mode.length := (standard_regular i (mem_of_lookup h).1).1

theorem fits_of_lookup : i.operation.effect.fits i.mode = true :=
  (standard_regular i (mem_of_lookup h).1).2.1

/-- No code but zero stops the CPU. -/
theorem ne_brk_of_lookup (known : code ≠ 0) : i.operation ≠ .brk :=
  fun brk => known ((mem_of_lookup h).2.symm.trans (standard_brk i (mem_of_lookup h).1 brk))

theorem jmp_of_indirect : i.mode = .indirect → i.operation = .jmp :=
  (standard_regular i (mem_of_lookup h).1).2.2

theorem shift_of_accumulator : i.mode = .accumulator → i.operation ∈ Operation.shifts :=
  standard_accumulator i (mem_of_lookup h).1

/-- Jumps and calls have two operand bytes. -/
theorem length_of_transfer : i.operation = .jmp ∨ i.operation = .jsr → i.length = 3 :=
  standard_transfer i (mem_of_lookup h).1

end InstructionSet
end Nes
