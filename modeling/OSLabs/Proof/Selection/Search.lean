import OSLabs.Construction.Selection

namespace OSLabs.Selection

variable {item result : Int} {A : List Int} {rounds size : Nat}

/-- The first round leaves the loop before it loads an element. -/
theorem searchStep_breaks {lo hi : Int} (ordered : lo ≤ hi) :
    (searchStep item A lo hi).run = some (.error .breaks) := by
  have notEmpty : ¬ hi < lo := Int.not_lt.mpr ordered
  rw [searchStep, if_neg notEmpty]
  rfl

/-- The function gives zero for every array and every item. -/
theorem binarySearch_succ (rounds : Nat) : binarySearch (rounds + 1) item A size = some 0 := by
  have ordered : (0 : Int) ≤ size := Int.natCast_nonneg size
  rw [binarySearch, searchLoop, searchStep_breaks ordered]

theorem eq_zero_of_binarySearch (ends : binarySearch rounds item A size = some result) : result = 0 := by
  cases rounds with
  | zero => cases ends
  | succ rounds =>
      rw [binarySearch_succ] at ends
      exact (Option.some.inj ends).symm

/-- Exactly the items that are missing are answered correctly. -/
theorem binarySearch_decides (item : Int) (A : List Int) : Decides item A ↔ item ∉ A := by
  constructor
  · rintro ⟨rounds, result, ends, decides⟩ member
    have one := decides.mpr member
    rw [eq_zero_of_binarySearch ends] at one
    cases one
  · intro missing
    refine ⟨1, 0, binarySearch_succ 0, ?_⟩
    constructor
    · intro one
      cases one
    · intro member
      exact absurd member missing

/-- The sorted list of `main` has 27, which is not found. -/
theorem not_found : ¬ Decides 27 [17, 27, 45, 89, 100, 317] := by
  rintro ⟨rounds, result, ends, decides⟩
  have one := decides.mpr (by decide)
  rw [eq_zero_of_binarySearch ends] at one
  cases one

end OSLabs.Selection
