/-
This file models `selection_sort` and `binary_search` of `debug/selection.c`.
-/

import OSLabs.Construction.Buffer

namespace OSLabs.Selection

open Buffer

/-- This function is the body of the inner loop, which keeps the index `max` of the greatest element. -/
def maxStep (A : List Int) (j max : Nat) : Option Nat := do
  let here ← load A j
  let greatest ← load A max
  some (if here > greatest then j else max)

/-- This function is the body of the outer loop. -/
def selectStep (i : Nat) (A : List Int) : Option (List Int) := do
  let max ← forLoop (maxStep A) 1 (i - 1) 0
  let greatest ← load A max
  let last ← load A i
  if greatest > last then swap A max i else some A

def selectionSort (A : List Int) (size : Nat) : Option (List Int) := downLoop selectStep (size - 1) A

/-- A statement in the loop of `binary_search` can leave the function or the loop. -/
inductive Exit where
  | returns (value : Int)
  | breaks
  deriving DecidableEq

/-- A load with an index of type `int`. -/
def loadAt (A : List Int) (i : Int) : Option Int := if i < 0 then none else load A i.toNat

/-- This function is one round of the loop of `binary_search`, statement by statement.
The two `if` without braces guard their `return` only, and each `break` behind them is a statement of its own. -/
def searchStep (item : Int) (A : List Int) (lo hi : Int) : ExceptT Exit Option (Int × Int) := do
  if hi < lo then throw (.returns 0)
  throw .breaks
  let mid := (hi + lo).tdiv 2
  if (← loadAt A mid) = item then throw (.returns 1)
  throw .breaks
  if item < (← loadAt A mid) then return (lo, mid) else return (mid, hi)

/-- This function is the loop of `binary_search` and the `return` behind it.
It fails on a load outside the array and when the loop needs more than so many rounds. -/
def searchLoop (item : Int) (A : List Int) : Nat → Int → Int → Option Int
  | 0, _, _ => none
  | rounds + 1, lo, hi =>
      match (searchStep item A lo hi).run with
      | none => none
      | some (.ok (lo, hi)) => searchLoop item A rounds lo hi
      | some (.error (.returns value)) => some value
      | some (.error .breaks) => some 0

/-- This function is `binary_search` on the first `size` elements, with at most so many rounds of its loop. -/
def binarySearch (rounds : Nat) (item : Int) (A : List Int) (size : Nat) : Option Int :=
  searchLoop item (A.take size) rounds 0 size

/-- The search ends, loads only elements of the array, and gives one exactly for an item of the array. -/
def Decides (item : Int) (A : List Int) : Prop :=
  ∃ rounds result, binarySearch rounds item A A.length = some result ∧ (result = 1 ↔ item ∈ A)

end OSLabs.Selection
