import OSLabs.Construction.Selection
import OSLabs.Proof.Buffer.Order

namespace OSLabs.Selection

open Buffer

variable {initial A : List Int} {i j max : Nat}

/-- The elements behind place `i` have reached their places: each is at least every earlier element. -/
structure Placed (initial : List Int) (i : Nat) (A : List Int) : Prop where
  perm : A.Perm initial
  placed : ∀ p q (first : p < A.length) (second : q < A.length), i < q → p < q → A[p] ≤ A[q]

/-- The index names a greatest one of the first `j` elements. -/
structure Greatest (A : List Int) (i j max : Nat) : Prop where
  inside : max < i
  greatest : ∀ k (first : k < A.length) (second : max < A.length), k < j → A[k] ≤ A[max]

theorem Greatest.step (greatest : Greatest A i j max) (inside : j < i) (inRange : i < A.length) :
    Ensures (maxStep A j max) (Greatest A i (j + 1)) := by
  have here : j < A.length := inside.trans inRange
  have there : max < A.length := greatest.inside.trans inRange
  simp only [maxStep, load_eq here, load_eq there, Option.bind_eq_bind, Option.bind_some]
  apply ensures_some
  split
  · next greater =>
      refine ⟨inside, fun k first _ upTo => ?_⟩
      by_cases last : k = j
      · subst last
        exact le_refl _
      · exact (greatest.greatest k first there (by omega)).trans (le_of_lt greater)
  · next notGreater =>
      refine ⟨greatest.inside, fun k first _ upTo => ?_⟩
      by_cases last : k = j
      · subst last
        exact not_lt.mp notGreater
      · exact greatest.greatest k first there (by omega)

/-- The inner loop leaves out place `i` and finds a greatest element before it. -/
theorem ensures_greatest (inRange : i + 1 < A.length) :
    Ensures (forLoop (maxStep A) 1 i 0) (Greatest A (i + 1) (i + 1)) := by
  have start : Greatest A (i + 1) 1 0 := by
    refine ⟨Nat.zero_lt_succ i, fun k first second upTo => ?_⟩
    obtain rfl : k = 0 := by omega
    exact le_refl _
  rw [show i + 1 = 1 + i from Nat.add_comm i 1] at start ⊢
  exact ensures_forLoop (Greatest A (1 + i)) start fun j max _ inside greatest => greatest.step inside (by omega)

/-- One round puts a greatest one of the first elements to place `i + 1`. -/
theorem Placed.round (placed : Placed initial (i + 1) A) (inRange : i + 1 < A.length) :
    Ensures (selectStep (i + 1) A) (Placed initial i) := by
  refine (ensures_greatest inRange).bind fun max greatest => ?_
  have there : max < A.length := greatest.inside.trans inRange
  simp only [load_eq there, load_eq inRange, Option.bind_eq_bind, Option.bind_some]
  split
  · next greater =>
      rw [swap_eq there inRange]
      refine ensures_some ⟨(swapped_perm _ _).trans placed.perm,
        fun p q firstInside secondInside behind before => ?_⟩
      have pInRange : p < A.length := by simpa using firstInside
      have qInRange : q < A.length := by simpa using secondInside
      have inside := greatest.inside
      rw [getElem_swapped _ _ _ pInRange, getElem_swapped _ _ _ qInRange]
      by_cases last : q = i + 1
      · rw [if_neg (by omega), if_pos last]
        split
        · exact le_of_lt greater
        · exact greatest.greatest p pInRange there (by omega)
      · rw [if_neg last, if_neg (show q ≠ max by omega)]
        split
        · exact placed.placed max q there qInRange (by omega) (by omega)
        · split
          · exact placed.placed (i + 1) q inRange qInRange (by omega) (by omega)
          · exact placed.placed p q pInRange qInRange (by omega) before
  · next notGreater =>
      refine ensures_some ⟨placed.perm, fun p q first second behind before => ?_⟩
      by_cases last : q = i + 1
      · subst last
        exact (greatest.greatest p first there (by omega)).trans (not_lt.mp notGreater)
      · exact placed.placed p q first second (by omega) before

/-- `selection_sort` uses only indices of the array and sorts it. -/
theorem selectionSort_sorts (A : List Int) :
    ∃ sorted, selectionSort A A.length = some sorted ∧ sorted.Pairwise (· ≤ ·) ∧ sorted.Perm A := by
  have start : Placed A (A.length - 1) A := ⟨List.Perm.refl A, fun p q _ second behind _ => by omega⟩
  obtain ⟨sorted, succeeds, placed⟩ := ensures_downLoop (Placed A) start fun i state below placed =>
    placed.round (by rw [placed.perm.length_eq]; omega)
  refine ⟨sorted, succeeds, ?_, placed.perm⟩
  rw [List.pairwise_iff_getElem]
  intro p q first second before
  exact placed.placed p q first second (by omega) before

end OSLabs.Selection
