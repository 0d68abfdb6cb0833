import OSLabs.Proof.Buffer.Loops
import Mathlib.Data.List.Sort

namespace OSLabs.Buffer

variable {A : Type} [LinearOrder A]

/-- The number of pairs of elements that stand in the wrong order. -/
def inversions : List A → Nat
  | [] => 0
  | first :: rest => rest.countP (fun later => later < first) + inversions rest

theorem inversions_cons (first : A) (rest : List A) :
    inversions (first :: rest) = rest.countP (fun later => later < first) + inversions rest := rfl

/-- The exchange of two neighbours in the wrong order lowers the number of inversions. -/
theorem inversions_swapped {array : List A} {i : Nat} (first : i < array.length) (second : i + 1 < array.length)
    (wrong : array[i + 1] < array[i]) : inversions (swapped array i (i + 1) first second) < inversions array := by
  induction i generalizing array with
  | zero =>
      obtain ⟨greater, smaller, rest, rfl⟩ : ∃ greater smaller rest, array = greater :: smaller :: rest := by
        rcases array with _ | ⟨greater, _ | ⟨smaller, rest⟩⟩
        · cases first
        · simp at second
        · exact ⟨greater, smaller, rest, rfl⟩
      have notAgain : ¬ greater < smaller := wrong.not_gt
      have less : smaller < greater := wrong
      simp only [swapped, List.getElem_cons_zero, List.getElem_cons_succ, List.set_cons_zero, List.set_cons_succ,
        inversions_cons, List.countP_cons, less, notAgain, decide_true, decide_false]
      simp
      omega
  | succ i inductionHypothesis =>
      obtain ⟨other, rest, rfl⟩ := List.exists_cons_of_length_pos (Nat.zero_lt_of_lt first)
      have firstInside : i < rest.length := Nat.lt_of_succ_lt_succ first
      have secondInside : i + 1 < rest.length := Nat.lt_of_succ_lt_succ second
      have same : swapped (other :: rest) (i + 1) (i + 2) first second =
          other :: swapped rest i (i + 1) firstInside secondInside := rfl
      have less := inductionHypothesis firstInside secondInside wrong
      rw [same, inversions_cons, inversions_cons, (swapped_perm firstInside secondInside).countP_eq]
      omega

/-- Two arrays with the same elements in ascending order are the same. -/
theorem eq_of_sorted {first second : List A} (perm : first.Perm second) (firstSorted : first.Pairwise (· ≤ ·))
    (secondSorted : second.Pairwise (· ≤ ·)) : first = second :=
  perm.eq_of_pairwise (fun _ _ _ _ => le_antisymm) firstSorted secondSorted

end OSLabs.Buffer
