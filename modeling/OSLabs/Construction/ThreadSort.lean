/-
This file models the threads of `threads_basics/thread_sorting/threadSort.c`.
-/

import OSLabs.Construction.Buffer
import OSLabs.Construction.Spawn
import Mathlib.Data.List.Sort

namespace OSLabs.ThreadSort

open Transition Spawn Buffer

/-- This is `struct sortData`.
The pointer is the index in `data_array` to which it points. -/
structure SortData where
  current : Nat
  vals : Nat
  data : Nat

/-- All threads share the one `information` of `main` and the array. -/
structure Memory where
  information : SortData
  dataArray : List Int

/-- A correct sort in place replaces its slice by the same elements in ascending order. -/
def sortInPlace (array : List Int) (data vals : Nat) : List Int :=
  array.take data ++ (slice array data vals).insertionSort (· ≤ ·) ++ array.drop (data + vals)

/-- These are the routines that `thread_dispatch` selects with `currentSort`. -/
def dispatch (currentSort : Nat) (array : List Int) (data vals : Nat) : List Int :=
  match currentSort with
  | 0 => sortInPlace array data vals
  | 1 => sortInPlace array data vals
  | 2 => sortInPlace array data vals
  | _ => array

/-- These are the program points of `main` from the creation loop on, in source order. -/
inductive MainPlace where
  | createLoop (i : Nat)
  | setCurrent (i : Nat)
  | setData (i : Nat)
  | create (i : Nat)
  | joinLoop (k : Nat)
  | done
  deriving DecidableEq

/-- These are the program points of `thread_dispatch`, in source order.
A place carries the local variables that have been read. -/
inductive DispatchPlace where
  | readCurrent
  | readData (currentSort : Nat)
  | readVals (currentSort dataArray : Nat)
  | sort (currentSort dataArray valsPerThread : Nat)
  | done (dataArray : Nat)
  deriving DecidableEq

inductive Place where
  | main (place : MainPlace)
  | dispatch (place : DispatchPlace)
  deriving DecidableEq

section
variable {n : Nat}

/-- The main thread and the `n` threads that it creates. -/
abbrev Thread (n : Nat) := Option (Fin n)

/-- A configuration of the threads. -/
abbrev State (n : Nat) := Config (Thread n) Memory Place

/-- This function is the creation loop and the join loop of `main`. -/
def main (valsPerThread : Nat) : MainPlace → Instr (Thread n) Memory Place
  | .createLoop i => .access fun memory => (memory, .main (if i < n then .setCurrent i else .joinLoop 0))
  | .setCurrent i => .access fun memory =>
      ({ memory with information := { memory.information with current := i % 3 } }, .main (.setData i))
  | .setData i => .access fun memory =>
      ({ memory with information := { memory.information with data := i * valsPerThread } }, .main (.create i))
  | .create i =>
      if inRange : i < n then
        .create (some ⟨i, inRange⟩) (.dispatch .readCurrent) (.main (.createLoop (i + 1)))
      else .exit
  | .joinLoop k =>
      if inRange : k < n then .join (some ⟨k, inRange⟩) (.main (.joinLoop (k + 1)))
      else .access fun memory => (memory, .main .done)
  | .done => .exit

/-- This function is `thread_dispatch`. -/
def threadDispatch : DispatchPlace → Instr (Thread n) Memory Place
  | .readCurrent => .access fun memory => (memory, .dispatch (.readData memory.information.current))
  | .readData currentSort => .access fun memory =>
      (memory, .dispatch (.readVals currentSort memory.information.data))
  | .readVals currentSort dataArray => .access fun memory =>
      (memory, .dispatch (.sort currentSort dataArray memory.information.vals))
  | .sort currentSort dataArray valsPerThread => .access fun memory =>
      ({ memory with dataArray := OSLabs.ThreadSort.dispatch currentSort memory.dataArray dataArray valsPerThread },
        .dispatch (.done dataArray))
  | .done _ => .exit

def code (valsPerThread : Nat) (_ : Thread n) : Place → Instr (Thread n) Memory Place
  | .main place => main valsPerThread place
  | .dispatch place => threadDispatch place

/-- Before the creation loop `information` names the first sort and the first slice. -/
def start (valsPerThread : Nat) (dataArray : List Int) : State n :=
  Config.initial ⟨⟨0, valsPerThread, 0⟩, dataArray⟩ none (.main (.createLoop 0))

/-- The thread has been created and has not yet read `information.data`. -/
def DispatchPlace.unread : DispatchPlace → Bool
  | .readCurrent | .readData _ => true
  | _ => false

def Place.unread : Place → Bool
  | .dispatch place => place.unread
  | .main _ => false

/-- Main overwrites `information.data` only when every created thread has read it. -/
def Settled (config : State n) (thread : Thread n) : Prop :=
  ∀ i place, config.place thread = some (.main (.setData i)) → ∀ other, config.place other = some place →
    place.unread = false

/-- The array that `main` builds for the test: `total_nums` down to 1. -/
def reversed (total : Nat) : List Int := (List.range total).map fun i => (total : Int) - i

/-- Each slice is in ascending order and a permutation of what it held at the start. -/
def SlicesSorted (n valsPerThread : Nat) (initial final : List Int) : Prop :=
  ∀ i < n, (slice final (i * valsPerThread) valsPerThread).Pairwise (· ≤ ·) ∧
    (slice final (i * valsPerThread) valsPerThread).Perm (slice initial (i * valsPerThread) valsPerThread)

end

end OSLabs.ThreadSort
