/-
This file models the sorting functions of `threads_basics/thread_sorting/threadSort.c`.
-/

import OSLabs.Construction.Buffer

namespace OSLabs.Sorts

open Buffer

/-- The constant `MAX_VALS_PER_THREAD`. -/
def maxValsPerThread : Nat := 1000

/-- This function is the body of the inner loop of `BruteForceSort`. -/
def bruteForceStep (i j : Nat) (inputList : List Int) : Option (List Int) := do
  let later ← load inputList j
  let earlier ← load inputList i
  if later < earlier then swap inputList j i else some inputList

def bruteForceSort (inputList : List Int) : Option (List Int) :=
  let inputLength := inputList.length
  forLoop (fun i => forLoop (bruteForceStep i) (i + 1) (inputLength - (i + 1))) 0 inputLength inputList

/-- The flag `sorted` and the array. -/
abbrev BubbleState := Bool × List Int

/-- This function is the body of the inner loop of `BubbleSort`. -/
def bubbleStep (i : Nat) (state : BubbleState) : Option BubbleState := do
  let later ← load state.2 i
  let earlier ← load state.2 (i - 1)
  if later < earlier then
    let inputList ← swap state.2 (i - 1) i
    some (false, inputList)
  else some state

/-- This function is the body of the `while` loop of `BubbleSort`. -/
def bubblePass (state : BubbleState) : Option BubbleState :=
  forLoop bubbleStep 1 (state.2.length - 1) (true, state.2)

/-- This function is `BubbleSort` with at most so many rounds of its `while` loop. -/
def bubbleSort (rounds : Nat) (inputList : List Int) : Option (List Int) :=
  (whileLoop (fun state => !state.1) bubblePass rounds (false, inputList)).map Prod.snd

/-- The elements of `tempArray` before `pos`, and the two positions in the array. -/
structure MergeState where
  tempArray : List Int
  lpos : Nat
  rpos : Nat

/-- This function is `tempArray[pos++] = value`.
It fails outside the array. -/
def MergeState.push (state : MergeState) (value : Int) : Option MergeState :=
  if state.tempArray.length < maxValsPerThread then some { state with tempArray := state.tempArray ++ [value] }
  else none

/-- This function is `tempArray[pos++] = array[lpos++]`.
The pointer is an index in the memory. -/
def takeLeft (memory : List Int) (array : Nat) (state : MergeState) : Option MergeState := do
  let value ← load memory (array + state.lpos)
  let state ← state.push value
  some { state with lpos := state.lpos + 1 }

/-- This function is `tempArray[pos++] = array[rpos++]`. -/
def takeRight (memory : List Int) (array : Nat) (state : MergeState) : Option MergeState := do
  let value ← load memory (array + state.rpos)
  let state ← state.push value
  some { state with rpos := state.rpos + 1 }

/-- This function is the body of the first loop of `Merge`. -/
def mergeStep (memory : List Int) (array : Nat) (state : MergeState) : Option MergeState := do
  let first ← load memory (array + state.lpos)
  let second ← load memory (array + state.rpos)
  if first < second then takeLeft memory array state else takeRight memory array state

/-- This function is the body of the last loop of `Merge`. -/
def copyStep (array left : Nat) (tempArray : List Int) (iter : Nat) (memory : List Int) : Option (List Int) := do
  let value ← load tempArray iter
  store memory (array + (iter + left)) value

/-- This function is `Merge`.
Each of its `while` loops advances a position in each round. -/
def merge (memory : List Int) (array left mid right : Nat) : Option (List Int) := do
  let state ← whileLoop (fun state => decide (state.lpos ≤ mid ∧ state.rpos ≤ right)) (mergeStep memory array)
    (right + 2 - left) ⟨[], left, mid⟩
  let state ← whileLoop (fun state => decide (state.lpos < mid)) (takeLeft memory array) (mid - left) state
  let state ← whileLoop (fun state => decide (state.rpos ≤ right)) (takeRight memory array) (right + 1 - mid) state
  forLoop (copyStep array left state.tempArray) 0 state.tempArray.length memory

/-- This function is `MergeSort` with at most so many nested calls. -/
def mergeSortNested : Nat → List Int → Nat → Nat → Option (List Int)
  | 0, memory, _, inputLength => if inputLength > 1 then none else some memory
  | nested + 1, memory, array, inputLength =>
      let mid := inputLength / 2
      if inputLength > 1 then do
        let memory ← mergeSortNested nested memory array mid
        let memory ← mergeSortNested nested memory (array + mid) (inputLength - mid)
        merge memory array 0 mid (inputLength - 1)
      else some memory

/-- The calls nest at most as deep as the array is long. -/
def mergeSort (memory : List Int) (array inputLength : Nat) : Option (List Int) :=
  mergeSortNested inputLength memory array inputLength

/-- `MergeSort` sorts its slice as `BruteForceSort` does and changes nothing else. -/
def SortsSlice (memory : List Int) (array inputLength : Nat) : Prop :=
  ∃ sorted, bruteForceSort (slice memory array inputLength) = some sorted ∧
    mergeSort memory array inputLength = some (memory.take array ++ sorted ++ memory.drop (array + inputLength))

/-- Each element of the right half is at most some element of the left half,
or it is a least one of its own half. -/
def MergesInOrder (left right : List Int) : Prop :=
  ∀ later ∈ right, (∃ earlier ∈ left, later ≤ earlier) ∨ ∀ other ∈ right, later ≤ other

instance (left right : List Int) : Decidable (MergesInOrder left right) := inferInstanceAs (Decidable (∀ _ ∈ _, _))

/-- All halves of a list merge in order. -/
inductive Mergeable : List Int → Prop where
  | short {values : List Int} (length : values.length ≤ 1) : Mergeable values
  | halves {values : List Int} (left : Mergeable (values.take (values.length / 2)))
      (right : Mergeable (values.drop (values.length / 2)))
      (inOrder : MergesInOrder (values.take (values.length / 2)) (values.drop (values.length / 2))) :
      Mergeable values

end OSLabs.Sorts
