import OSLabs.Proof.Sorts.Exchange
import OSLabs.Proof.Sorts.Merge

namespace OSLabs.Sorts

open Buffer

variable {before left right behind values memory : List Int} {array inputLength nested : Nat}

/-- The elements in ascending order. -/
abbrev ascending (values : List Int) : List Int := values.insertionSort (· ≤ ·)

theorem ascending_perm (values : List Int) : (ascending values).Perm values := List.perm_insertionSort _ values

theorem ascending_sorted (values : List Int) : (ascending values).Pairwise (· ≤ ·) :=
  List.pairwise_insertionSort (· ≤ ·) values

/-- `BruteForceSort` leaves the elements in ascending order. -/
theorem bruteForceSort_eq (values : List Int) : bruteForceSort values = some (ascending values) := by
  obtain ⟨sorted, succeeds, isSorted, perm⟩ := bruteForceSort_sorts values
  rw [succeeds, eq_of_sorted (perm.trans (ascending_perm values).symm) isSorted (ascending_sorted values)]

/-- The first element of a half in ascending order is a least one. -/
theorem exists_head (right : List Int) (nonempty : right ≠ []) :
    ∃ head, (ascending right).head? = some head ∧ head ∈ right ∧ ∀ other ∈ right, head ≤ other := by
  cases shape : ascending right with
  | nil =>
      have perm := ascending_perm right
      rw [shape] at perm
      exact absurd perm.nil_eq.symm nonempty
  | cons head rest =>
      have perm := ascending_perm right
      have sorted := ascending_sorted right
      rw [shape] at perm sorted
      refine ⟨head, rfl, perm.mem_iff.mp List.mem_cons_self, fun other member => ?_⟩
      rcases List.mem_cons.mp (perm.mem_iff.mpr member) with rfl | isRest
      · exact le_refl _
      · exact (List.pairwise_cons.mp sorted).1 other isRest

/-- Halves in order are merged to the elements of both in ascending order. -/
theorem merged_eq {head : Int} (isHead : head ∈ right) (inOrder : MergesInOrder left right) :
    merged head (ascending left) (ascending right) = ascending (left ++ right) := by
  obtain ⟨perm, sorted⟩ := merged_perm head (ascending_sorted left) (ascending_sorted right)
    fun later member greater => by
      rcases inOrder later ((ascending_perm right).mem_iff.mp member) with ⟨earlier, isLeft, le⟩ | least
      · exact ⟨earlier, (ascending_perm left).mem_iff.mpr isLeft, le⟩
      · exact absurd (least head isHead) (not_le.mpr greater)
  refine eq_of_sorted (perm.trans ?_) sorted (ascending_sorted _)
  exact ((ascending_perm left).append (ascending_perm right)).trans (ascending_perm (left ++ right)).symm

/-- Halves that are not in order make `Merge` write an element twice and a greater one behind the slice. -/
theorem merged_of_not_inOrder {head : Int} (least : ∀ other ∈ right, head ≤ other)
    (disordered : ¬ MergesInOrder left right) :
    ∃ written last, merged head (ascending left) (ascending right) = written ++ [last] ∧ head < last ∧
      (written ++ [last]).Perm (head :: (left ++ right)) := by
  simp only [MergesInOrder, not_forall, not_or, not_exists, not_and, not_le] at disordered
  obtain ⟨later, isRight, above, other, isOther, less⟩ := disordered
  obtain ⟨written, last, same, greater, perm⟩ := merged_twice head (ascending_sorted right)
    ((ascending_perm right).mem_iff.mpr isRight) ((least other isOther).trans_lt less)
    fun earlier (isLeft : earlier ∈ ascending left) => above earlier ((ascending_perm left).mem_iff.mp isLeft)
  refine ⟨written, last, same, greater, perm.trans (List.Perm.cons head ?_)⟩
  exact (ascending_perm left).append (ascending_perm right)

/-- The calls sort both halves of a longer slice, when they do, and then `Merge` writes what it makes of them. -/
theorem mergeSortNested_halves {mid : Nat} (isMid : mid = values.length / 2) (long : 1 < values.length)
    (sortsLeft : mergeSortNested nested (before ++ values.take mid ++
      (values.drop mid ++ behind)) before.length mid =
      some (before ++ ascending (values.take mid) ++ (values.drop mid ++ behind)))
    (sortsRight : mergeSortNested nested (before ++ ascending (values.take mid) ++ values.drop mid ++ behind)
        (before.length + mid) (values.length - mid) =
      some (before ++ ascending (values.take mid) ++ ascending (values.drop mid) ++ behind))
    {head : Int} (first : (ascending (values.drop mid)).head? = some head) :
    mergeSortNested (nested + 1) (before ++ values ++ behind) before.length values.length =
      filled (overwrite (halves before (ascending (values.take mid)) (ascending (values.drop mid)) behind)
        before.length)
        [] (merged head (ascending (values.take mid)) (ascending (values.drop mid))) := by
  have split : before ++ values ++ behind = before ++ values.take mid ++ (values.drop mid ++ behind) := by
    rw [← List.append_assoc, List.append_assoc before (values.take mid), List.take_append_drop]
  have leftLength : (ascending (values.take mid)).length = mid := by
    rw [List.length_insertionSort, List.length_take]
    omega
  have rightLength : (ascending (values.drop mid)).length = values.length - mid := by
    rw [List.length_insertionSort, List.length_drop]
  have merges := merge_eq before behind
    (show values.length - 1 + 1 = (ascending (values.take mid)).length + (ascending
      (values.drop mid)).length by omega) first
  rw [mergeSortNested, ← isMid, if_pos long, split, sortsLeft]
  simp only [Option.bind_eq_bind, Option.bind_some, ← List.append_assoc]
  rw [sortsRight, Option.bind_some, ← merges, leftLength, halves, ← List.append_assoc]

/-- A slice of at most one element is left as it is. -/
theorem mergeSortNested_short (short : inputLength ≤ 1) :
    mergeSortNested nested memory array inputLength = some memory := by
  cases nested <;> simp [mergeSortNested, short]

theorem ascending_short (short : values.length ≤ 1) : ascending values = values := by
  have sorted : values.Pairwise (· ≤ ·) := by
    match values, short with
    | [], _ => exact List.Pairwise.nil
    | [value], _ => exact List.pairwise_singleton _ _
  exact eq_of_sorted (ascending_perm values) (ascending_sorted values) sorted

/-- The calls sort the values wherever these stand in the memory. -/
def SortedAnywhere (values : List Int) : Prop :=
  ∀ before behind nested, values.length ≤ nested →
    mergeSortNested nested (before ++ values ++ behind) before.length values.length =
      some (before ++ ascending values ++ behind)

/-- A longer slice with halves that the calls sort gets what `Merge` makes of the sorted halves. -/
theorem SortedAnywhere.merges (before behind : List Int) {mid : Nat} (isMid : mid = values.length / 2)
    (long : 1 < values.length)
    (sortsLeft : SortedAnywhere (values.take mid)) (sortsRight : SortedAnywhere (values.drop mid))
    (enough : values.length ≤ nested + 1) {head : Int} (first : (ascending (values.drop mid)).head? = some head) :
    mergeSortNested (nested + 1) (before ++ values ++ behind) before.length values.length =
      filled (overwrite (halves before (ascending (values.take mid)) (ascending (values.drop mid)) behind)
        before.length)
        [] (merged head (ascending (values.take mid)) (ascending (values.drop mid))) := by
  have leftLength : (values.take mid).length = mid := by
    rw [List.length_take]
    omega
  have rightLength : (values.drop mid).length = values.length - mid := List.length_drop
  have left := sortsLeft before (values.drop mid ++ behind) nested (by omega)
  have right := sortsRight (before ++ ascending (values.take mid)) behind nested (by omega)
  rw [List.length_append, List.length_insertionSort] at right
  rw [leftLength] at left right
  rw [rightLength] at right
  exact mergeSortNested_halves isMid long left right first

/-- `Merge` writes the sorted values when the two halves are in order. -/
theorem overwrite_eq {written : List Int} (perm : written.Perm (left ++ right)) :
    overwrite (halves before left right behind) before.length written = some (before ++ written ++ behind) := by
  have length : written.length = left.length + right.length := by rw [perm.length_eq, List.length_append]
  have inside : before.length + written.length ≤ (halves before left right behind).length := by
    simp only [halves, List.length_append]
    omega
  have rest : (halves before left right behind).drop (before.length + written.length) = behind := by
    rw [halves, List.drop_append_of_le_length (by simp [length]), List.drop_eq_nil_of_le (by simp [length]),
      List.nil_append]
  have front : (halves before left right behind).take before.length = before := by
    rw [halves, List.append_assoc, List.take_left]
  rw [overwrite, if_pos inside, rest, front]

/-- The calls sort the values of a slice whose halves merge in order. -/
theorem Mergeable.sortedAnywhere (mergeable : Mergeable values) (room : values.length ≤ maxValsPerThread) :
    SortedAnywhere values := by
  induction mergeable with
  | short short =>
      intro before behind nested _
      rw [mergeSortNested_short short, ascending_short short]
  | @halves values left right inOrder sortsLeft sortsRight =>
      intro before behind nested enough
      by_cases short : values.length ≤ 1
      · rw [mergeSortNested_short short, ascending_short short]
      obtain ⟨nested, rfl⟩ : ∃ fewer, nested = fewer + 1 := ⟨nested - 1, by omega⟩
      obtain ⟨head, first, isHead, -⟩ := exists_head (values.drop (values.length / 2))
        (by rw [← List.length_pos_iff, List.length_drop]; omega)
      have sorts := (sortsLeft (by rw [List.length_take]; omega)).merges before behind rfl
        (by omega) (sortsRight (by rw [List.length_drop]; omega)) enough first
      have same : merged head (ascending (values.take (values.length / 2)))
        (ascending (values.drop (values.length / 2))) =
          ascending values := by
        rw [merged_eq isHead inOrder, List.take_append_drop]
      have perm : (ascending values).Perm (ascending (values.take (values.length / 2)) ++
          ascending (values.drop (values.length / 2))) := by
        refine (ascending_perm values).trans (List.Perm.trans ?_
          ((ascending_perm _).append (ascending_perm _)).symm)
        rw [List.take_append_drop]
      rw [sorts, same, filled, List.nil_append, if_pos (by rw [List.length_insertionSort]; exact room),
        overwrite_eq perm]

/-- A right half of at most one element merges in order. -/
theorem mergesInOrder_short (short : right.length ≤ 1) : MergesInOrder left right := by
  intro later isRight
  refine Or.inr fun other isOther => ?_
  obtain ⟨only, rfl⟩ := List.length_eq_one_iff.mp (Nat.le_antisymm short (List.length_pos_of_mem isRight))
  rw [List.mem_singleton.mp isRight, List.mem_singleton.mp isOther]

/-- At most two elements merge in order. -/
theorem mergeable_of_length (few : values.length ≤ 2) : Mergeable values := by
  refine Mergeable.halves (Mergeable.short ?_) (Mergeable.short ?_) (mergesInOrder_short ?_)
  · rw [List.length_take]
    omega
  all_goals
    rw [List.length_drop]
    omega

/-- All halves of a descending list merge in order. -/
theorem mergeable_of_descending (descending : values.Pairwise (· ≥ ·)) : Mergeable values := by
  induction size : values.length using Nat.strong_induction_on generalizing values with
  | h size' inductionHypothesis =>
    subst size
    by_cases short : values.length ≤ 1
    · exact Mergeable.short short
    have leftLength : (values.take (values.length / 2)).length = values.length / 2 := by
      rw [List.length_take]
      omega
    have apart : ∀ earlier ∈ values.take (values.length / 2), ∀ later ∈ values.drop (values.length / 2),
        later ≤ earlier := by
      have both := descending
      rw [← List.take_append_drop (values.length / 2) values] at both
      exact (List.pairwise_append.mp both).2.2
    refine Mergeable.halves ?_ ?_ fun later isRight => Or.inl ?_
    · exact inductionHypothesis _ (by rw [leftLength]; omega) descending.take rfl
    · exact inductionHypothesis _ (by rw [List.length_drop]; omega) descending.drop rfl
    · obtain ⟨earlier, isLeft⟩ := List.exists_mem_of_length_pos (l := values.take (values.length / 2)) (by omega)
      exact ⟨earlier, isLeft, apart earlier isLeft later isRight⟩

/-- The slice stands between the rest of the memory. -/
theorem eq_slice (memory : List Int) (array inputLength : Nat) :
    memory.take array ++ slice memory array inputLength ++ memory.drop (array + inputLength) = memory := by
  rw [slice, ← List.drop_drop, List.append_assoc, List.take_append_drop, List.take_append_drop]

section Slices
variable (inside : array + inputLength ≤ memory.length)
include inside

theorem length_slice : (slice memory array inputLength).length = inputLength := by
  rw [Buffer.length_slice]
  omega

theorem length_before : (memory.take array).length = array := by
  rw [List.length_take]
  omega

/-- A slice that the calls sort anywhere is sorted in its memory, and nothing else changes. -/
theorem SortedAnywhere.sortsSlice (sorted : SortedAnywhere (slice memory array inputLength)) :
    SortsSlice memory array inputLength := by
  have sorts := sorted (memory.take array) (memory.drop (array + inputLength)) inputLength (length_slice inside).le
  rw [eq_slice, length_before inside, length_slice inside] at sorts
  exact ⟨ascending (slice memory array inputLength), bruteForceSort_eq _, sorts⟩

/-- A slice with halves that the calls sort, but which do not merge in order, is not sorted. -/
theorem not_sortsSlice {mid : Nat} (isMid : mid = inputLength / 2) (long : 1 < inputLength)
    (sortsLeft : SortedAnywhere ((slice memory array inputLength).take mid))
    (sortsRight : SortedAnywhere ((slice memory array inputLength).drop mid))
    (disordered : ¬ MergesInOrder ((slice memory array inputLength).take mid)
    ((slice memory array inputLength).drop mid)) :
    ¬ SortsSlice memory array inputLength := by
  rintro ⟨sorted, isSorted, sorts⟩
  obtain rfl : ascending (slice memory array inputLength) = sorted :=
    Option.some.inj ((bruteForceSort_eq _).symm.trans isSorted)
  obtain ⟨nested, rfl⟩ : ∃ fewer, inputLength = fewer + 1 := ⟨inputLength - 1, by omega⟩
  have length := length_slice inside
  obtain ⟨head, first, _, least⟩ := exists_head ((slice memory array (nested + 1)).drop mid)
    (by rw [← List.length_pos_iff, List.length_drop]; omega)
  obtain ⟨written, last, isMerged, greater, perm⟩ := merged_of_not_inOrder least disordered
  have merges := sortsLeft.merges (memory.take array) (memory.drop (array + (nested + 1)))
    (by rw [length]; exact isMid) (by omega) sortsRight length.le first
  rw [eq_slice, length_before inside, length, isMerged] at merges
  rw [mergeSort, merges, filled, List.nil_append] at sorts
  split at sorts
  · rw [overwrite] at sorts
    split at sorts
    · have front : (halves (memory.take array) (ascending ((slice memory array (nested + 1)).take mid))
          (ascending ((slice memory array (nested + 1)).drop mid))
            (memory.drop (array + (nested + 1)))).take array =
          memory.take array := by
        rw [halves, List.append_assoc]
        exact List.take_left' (length_before inside)
      have same := Option.some.inj sorts
      simp only [front, List.append_assoc] at same
      have lengths : written.length = (ascending (slice memory array (nested + 1))).length := by
        have total := perm.length_eq
        rw [List.take_append_drop, List.length_append, List.length_singleton, List.length_cons] at total
        rw [List.length_insertionSort]
        omega
      have isAscending : written = ascending (slice memory array (nested + 1)) :=
        (List.append_inj (List.append_cancel_left same) lengths).1
      -- without the elements of the slice, `last` alone is left to be `head`
      have alone : (slice memory array (nested + 1) ++ [last]).Perm (slice memory array (nested + 1) ++
          [head]) := by
        rw [List.take_append_drop] at perm
        refine List.Perm.trans ?_ (perm.trans (List.perm_append_singleton head _).symm)
        exact (isAscending ▸ ascending_perm (slice memory array (nested + 1))).symm.append_right [last]
      have twice := ((List.perm_append_left_iff _).mp alone).singleton_eq
      simp only [List.cons.injEq, and_true] at twice
      exact greater.ne twice.symm
    · cases sorts
  · cases sorts

end Slices

/-- A longer list that is not sorted: its right half has a greater element than all others,
and smaller ones follow. -/
def disorderedValues (inputLength : Nat) : List Int :=
  List.replicate (inputLength / 2) 0 ++ 2 :: List.replicate (inputLength - inputLength / 2 - 1) 1

theorem not_sortsSlice_disordered (long : 3 ≤ inputLength) (room : inputLength ≤ maxValsPerThread) :
    ¬ SortsSlice (disorderedValues inputLength) 0 inputLength := by
  have length : (disorderedValues inputLength).length = inputLength := by
    simp only [disorderedValues, List.length_append, List.length_cons, List.length_replicate]
    omega
  have whole : slice (disorderedValues inputLength) 0 inputLength = disorderedValues inputLength := by
    rw [slice, List.drop_zero, List.take_of_length_le length.le]
  have left : (disorderedValues inputLength).take (inputLength / 2) = List.replicate (inputLength / 2) 0 :=
    List.take_left' List.length_replicate
  have right : (disorderedValues inputLength).drop (inputLength / 2) =
      2 :: List.replicate (inputLength - inputLength / 2 - 1) 1 :=
    List.drop_left' List.length_replicate
  refine not_sortsSlice (by omega) (show inputLength / 2 = inputLength / 2 from rfl) (by omega) ?_ ?_ ?_
  · rw [whole, left]
    refine (mergeable_of_descending ?_).sortedAnywhere ?_
    · exact List.pairwise_replicate.mpr (Or.inr le_rfl)
    · rw [List.length_replicate]
      omega
  · rw [whole, right]
    refine (mergeable_of_descending ?_).sortedAnywhere ?_
    · refine List.pairwise_cons.mpr ⟨fun other member => ?_, List.pairwise_replicate.mpr (Or.inr le_rfl)⟩
      rw [List.eq_of_mem_replicate member]
      decide
    · rw [List.length_cons, List.length_replicate]
      omega
  · rw [whole, left, right]
    intro inOrder
    have one : (1 : Int) ∈ List.replicate (inputLength - inputLength / 2 - 1) (1 : Int) :=
      List.mem_replicate.mpr ⟨by omega, rfl⟩
    rcases inOrder 2 List.mem_cons_self with ⟨earlier, isLeft, le⟩ | least
    · rw [List.eq_of_mem_replicate isLeft] at le
      exact absurd le (by decide)
    · exact absurd (least 1 (List.mem_cons_of_mem 2 one)) (by decide)

section
variable {memory : List Int} {array inputLength : Nat} (inside : array + inputLength ≤ memory.length)
  (room : inputLength ≤ maxValsPerThread)

include inside room

theorem sortsSlice_of_mergeable (mergeable : Mergeable (slice memory array inputLength)) :
    SortsSlice memory array inputLength :=
  (mergeable.sortedAnywhere (by rw [length_slice inside]; exact room)).sortsSlice inside

/-- When the two halves of a slice are merged rightly, the last merge decides. -/
theorem sortsSlice_iff_mergesInOrder (left : Mergeable ((slice memory array inputLength).take (inputLength / 2)))
    (right : Mergeable ((slice memory array inputLength).drop (inputLength / 2))) :
    SortsSlice memory array inputLength ↔ MergesInOrder ((slice memory array inputLength).take (inputLength / 2))
      ((slice memory array inputLength).drop (inputLength / 2)) := by
  have length := length_slice inside
  refine ⟨fun sortsSlice => ?_, fun inOrder => ?_⟩
  · by_contra disordered
    refine not_sortsSlice inside rfl ?_ (left.sortedAnywhere ?_) (right.sortedAnywhere ?_) disordered sortsSlice
    · by_contra short
      exact disordered (mergesInOrder_short (by rw [List.length_drop]; omega))
    · exact (List.length_take_le' _ _).trans (by omega)
    · rw [List.length_drop]
      omega
  · have whole := @Mergeable.halves (slice memory array inputLength)
    rw [length] at whole
    exact sortsSlice_of_mergeable inside room (whole left right inOrder)

end

/-- All slices of a length are sorted exactly when the length is at most 2. -/
theorem forall_sortsSlice_iff {inputLength : Nat} (room : inputLength ≤ maxValsPerThread) :
    (∀ memory array, array + inputLength ≤ memory.length → SortsSlice memory array inputLength) ↔
      inputLength ≤ 2 := by
  refine ⟨fun sortsAll => ?_, fun few memory array inside => ?_⟩
  · by_contra long
    refine not_sortsSlice_disordered (by omega) room (sortsAll (disorderedValues inputLength) 0 ?_)
    simp only [disorderedValues, List.length_append, List.length_cons, List.length_replicate]
    omega
  · exact sortsSlice_of_mergeable inside room (mergeable_of_length (by rw [length_slice inside]; exact few))

/-- A slice whose halves merge in order is sorted,
and when the two halves of a slice are so this is also necessary.
`MergeSort` sorts all slices of a length exactly when these have at most two elements. -/
theorem mergeSort_sortsSlice (memory : List Int) (array inputLength : Nat)
    (inside : array + inputLength ≤ memory.length)
    (room : inputLength ≤ maxValsPerThread) :
    (Mergeable (slice memory array inputLength) → SortsSlice memory array inputLength) ∧
      (Mergeable ((slice memory array inputLength).take (inputLength / 2)) →
        Mergeable ((slice memory array inputLength).drop (inputLength / 2)) →
        (SortsSlice memory array inputLength ↔
          MergesInOrder ((slice memory array inputLength).take (inputLength / 2))
          ((slice memory array inputLength).drop (inputLength / 2)))) ∧
      ((∀ memory array, array + inputLength ≤ memory.length → SortsSlice memory array inputLength) ↔
        inputLength ≤ 2) :=
  ⟨sortsSlice_of_mergeable inside room, sortsSlice_iff_mergesInOrder inside room, forall_sortsSlice_iff room⟩

theorem two_sorted : SortsSlice [9, 5, 4, 7] 1 2 :=
  (mergeSort_sortsSlice [9, 5, 4, 7] 1 2 (by decide) (by decide)).2.2.mpr (by decide) _ _ (by decide)

/-- The left half 1 is exhausted before 3, so that 2 is merged twice and 3 goes to the element behind the slice. -/
theorem mergeSort_writes_behind :
    mergeSort [1, 2, 3, 7] 0 3 = some [1, 2, 2, 3] ∧ mergeSort [1, 2, 3] 0 3 = none ∧
      ¬ SortsSlice [1, 2, 3, 7] 0 3 := by
  refine ⟨by decide, by decide, ?_⟩
  rintro ⟨sorted, isSorted, sorts⟩
  have written : mergeSort [1, 2, 3, 7] 0 3 = some [1, 2, 2, 3] := by decide
  obtain rfl := Option.some.inj (isSorted.symm.trans (show bruteForceSort [1, 2, 3] = some [1, 2, 3] by decide))
  exact absurd (Option.some.inj (sorts.symm.trans written)) (by decide)

end OSLabs.Sorts
