import OSLabs.Construction.Sorts
import OSLabs.Proof.Buffer.Order

namespace OSLabs.Sorts

open Buffer

variable {initial array : List Int} {i j : Nat}

/-- The first `i` elements have reached their places: each is at most every later element. -/
structure Placed (initial : List Int) (i : Nat) (array : List Int) : Prop where
  perm : array.Perm initial
  placed : ∀ p q (first : p < array.length) (second : q < array.length), p < i → p < q → array[p] ≤ array[q]

/-- The inner loop has compared element `i` with those before `j`. -/
structure Compared (initial : List Int) (i j : Nat) (array : List Int) : Prop extends Placed initial i array where
  least : ∀ q (first : i < array.length) (second : q < array.length), i < q → q < j → array[i] ≤ array[q]

theorem Placed.length (placed : Placed initial i array) : array.length = initial.length := placed.perm.length_eq

/-- The inner loop keeps the smaller one of two elements at place `i`. -/
theorem Compared.step (compared : Compared initial i j array) (before : i < j) (inRange : j < array.length) :
    Ensures (bruteForceStep i j array) (Compared initial i (j + 1)) := by
  have first : i < array.length := before.trans inRange
  simp only [bruteForceStep, load_eq inRange, load_eq first, Option.bind_eq_bind, Option.bind_some]
  split
  · next less =>
      rw [swap_eq inRange first]
      refine ensures_some ⟨⟨(swapped_perm _ _).trans compared.perm, ?_⟩, ?_⟩
      · intro p q firstInside secondInside placed later
        have pInRange : p < array.length := by simpa using firstInside
        have qInRange : q < array.length := by simpa using secondInside
        rw [getElem_swapped _ _ _ pInRange, getElem_swapped _ _ _ qInRange, if_neg (by omega), if_neg (by omega)]
        split
        · exact compared.placed p j _ inRange placed (by omega)
        · split
          · exact compared.placed p i _ first placed placed
          · exact compared.placed p q _ qInRange placed later
      · intro q firstInside secondInside after upTo
        have qInRange : q < array.length := by simpa using secondInside
        rw [getElem_swapped _ _ _ first, getElem_swapped _ _ _ qInRange, if_pos rfl, if_neg (by omega)]
        split
        · exact less.le
        · exact less.le.trans (compared.least q first qInRange after (by omega))
  · next notLess =>
      refine ensures_some ⟨compared.toPlaced, fun q _ secondInside after upTo => ?_⟩
      by_cases last : q = j
      · subst last
        exact not_lt.mp notLess
      · exact compared.least q first secondInside after (by omega)

/-- One round of the outer loop puts the least of the remaining elements to place `i`. -/
theorem Placed.round (placed : Placed initial i array) (inRange : i < initial.length) :
    Ensures (forLoop (bruteForceStep i) (i + 1) (initial.length - (i + 1)) array) (Placed initial (i + 1)) := by
  have start : Compared initial i (i + 1) array := ⟨placed, fun q _ _ after upTo => by omega⟩
  refine (ensures_forLoop (Compared initial i) start fun j state lower upper compared => ?_).mono
    fun state compared => ?_
  · exact compared.step (by omega) (by rw [compared.length]; omega)
  · refine ⟨compared.perm, fun p q first second before later => ?_⟩
    have length := compared.length
    by_cases last : p = i
    · subst last
      exact compared.least q first second later (by omega)
    · exact compared.placed p q first second (by omega) later

/-- `BruteForceSort` uses only indices of the array and sorts it. -/
theorem bruteForceSort_sorts (initial : List Int) :
    Ensures (bruteForceSort initial) fun sorted => sorted.Pairwise (· ≤ ·) ∧ sorted.Perm initial := by
  have start : Placed initial 0 initial := ⟨List.Perm.refl _, fun p q _ _ before => by omega⟩
  refine (ensures_forLoop (Placed initial) start fun i state _ upper placed => placed.round (by omega)).mono
    fun sorted placed => ⟨?_, placed.perm⟩
  rw [List.pairwise_iff_getElem]
  intro p q first second before
  have length := placed.length
  exact placed.placed p q first second (by omega) before

/-- The inner loop of `BubbleSort` has compared the neighbours before `i`.
While `sorted` is set, nothing has changed and these neighbours are in order. -/
structure Bubbled (initial : List Int) (i : Nat) (state : BubbleState) : Prop where
  perm : state.2.Perm initial
  unchanged : state.1 = true → state.2 = initial ∧
    ∀ p (first : p < initial.length) (second : p + 1 < initial.length), p + 1 < i → initial[p] ≤ initial[p + 1]
  fewer : state.1 = false → inversions state.2 < inversions initial

/-- An exchange lowers the number of inversions, and two neighbours in order are left alone. -/
theorem Bubbled.step {state : BubbleState} (bubbled : Bubbled initial (i + 1) state)
    (inRange : i + 1 < state.2.length) :
    Ensures (bubbleStep (i + 1) state) (Bubbled initial (i + 2)) := by
  have first : i < state.2.length := by omega
  simp only [bubbleStep, Nat.add_sub_cancel, load_eq inRange, load_eq first, Option.bind_eq_bind, Option.bind_some]
  split
  · next wrong =>
      rw [swap_eq first inRange]
      have less := inversions_swapped first inRange wrong
      refine ensures_some ⟨(swapped_perm _ _).trans bubbled.perm, fun isSet => (by cases isSet), fun _ => ?_⟩
      cases flag : state.1 with
      | false => exact less.trans (bubbled.fewer flag)
      | true => exact (bubbled.unchanged flag).1 ▸ less
  · next inOrder =>
      refine ensures_some ⟨bubbled.perm, fun isSet => ?_, bubbled.fewer⟩
      obtain ⟨same, ordered⟩ := bubbled.unchanged isSet
      refine ⟨same, fun p firstInside secondInside upTo => ?_⟩
      by_cases last : p = i
      · subst last
        simpa [same] using inOrder
      · exact ordered p firstInside secondInside (by omega)

/-- Before each pass the array is a permutation of its first content, and it is sorted when `sorted` is set. -/
structure Passed (initial : List Int) (state : BubbleState) : Prop where
  perm : state.2.Perm initial
  sorted : state.1 = true → state.2.Pairwise (· ≤ ·)

/-- The number of inversions that a pass can still find. -/
def remaining (state : BubbleState) : Nat := if state.1 then 0 else inversions state.2 + 1

/-- A pass either finds the array sorted or lowers the number of inversions. -/
theorem bubblePass_ensures (state : BubbleState) :
    Ensures (bubblePass state) fun next => next.2.Perm state.2 ∧
      (next.1 = true → next.2.Pairwise (· ≤ ·)) ∧ (next.1 = false → inversions next.2 < inversions state.2) := by
  have start : Bubbled state.2 1 (true, state.2) :=
    ⟨List.Perm.refl _, fun _ => ⟨rfl, fun p _ _ upTo => by omega⟩, fun unset => (by cases unset)⟩
  refine (ensures_forLoop (Bubbled state.2) start fun i between lower upper bubbled => ?_).mono
    fun next bubbled => ⟨bubbled.perm, fun isSet => ?_, bubbled.fewer⟩
  · obtain ⟨i, rfl⟩ : ∃ before, i = before + 1 := ⟨i - 1, by omega⟩
    exact bubbled.step (by rw [bubbled.perm.length_eq]; omega)
  · obtain ⟨same, ordered⟩ := bubbled.unchanged isSet
    rw [same]
    refine List.isChain_iff_pairwise.mp (List.isChain_iff_getElem.mpr fun p inRange => ?_)
    exact ordered p (by omega) inRange (by omega)

/-- The loop of `BubbleSort` ends after at most one round for each inversion and one more,
and the array is sorted. -/
theorem bubbleSort_sorts (initial : List Int) {rounds : Nat} (enough : inversions initial + 1 ≤ rounds) :
    Ensures (bubbleSort rounds initial) fun sorted => sorted.Pairwise (· ≤ ·) ∧ sorted.Perm initial := by
  have start : Passed initial (false, initial) := ⟨List.Perm.refl _, fun isSet => by cases isSet⟩
  have few : remaining (false, initial) ≤ rounds := enough
  have loop : Ensures (whileLoop (fun state => !state.1) bubblePass rounds (false, initial)) fun final =>
      Passed initial final ∧ (!final.1) = false := by
    refine ensures_whileLoop (Passed initial) remaining start few fun state passed again => ?_
    refine (bubblePass_ensures state).mono fun next ensured => ⟨⟨ensured.1.trans passed.perm, ensured.2.1⟩, ?_⟩
    have unset : state.1 = false := by simpa using again
    cases flag : next.1 with
    | true => simp [remaining, unset, flag]
    | false => simpa [remaining, unset, flag] using ensured.2.2 flag
  obtain ⟨final, ends, passed, done⟩ := loop
  exact ⟨final.2, by rw [bubbleSort, ends]; rfl, passed.sorted (by simpa using done), passed.perm⟩

/-- Both sorts end and leave the array as the same list, which is the ascending permutation of its old content. -/
theorem sorts_agree (initial : List Int) :
    ∃ sorted rounds, bruteForceSort initial = some sorted ∧
      (∀ more, rounds ≤ more → bubbleSort more initial = some sorted) ∧
      sorted.Pairwise (· ≤ ·) ∧ sorted.Perm initial := by
  obtain ⟨sorted, succeeds, ascending, perm⟩ := bruteForceSort_sorts initial
  refine ⟨sorted, inversions initial + 1, succeeds, fun more enough => ?_, ascending, perm⟩
  obtain ⟨other, ends, otherAscending, otherPerm⟩ := bubbleSort_sorts initial enough
  rw [ends, eq_of_sorted (otherPerm.trans perm.symm) otherAscending ascending]

end OSLabs.Sorts
