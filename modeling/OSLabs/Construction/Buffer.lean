/-
This file gives arrays whose accesses are checked, and loops over them.
-/

namespace OSLabs.Buffer

variable {A S : Type}

/-- A load fails outside the array. -/
def load (array : List A) (i : Nat) : Option A := array[i]?

/-- A store fails outside the array. -/
def store (array : List A) (i : Nat) (value : A) : Option (List A) :=
  if i < array.length then some (array.set i value) else none

/-- The elements of an array from an index on. -/
def slice (array : List A) (first count : Nat) : List A := (array.drop first).take count

/-- The two elements change places through a temporary variable. -/
def swap (array : List A) (i j : Nat) : Option (List A) := do
  let temp ← load array i
  let other ← load array j
  let array ← store array i other
  store array j temp

/-- This function is `for (i = first; i < first + count; i++)`. -/
def forLoop (body : Nat → S → Option S) : Nat → Nat → S → Option S
  | _, 0, state => some state
  | i, count + 1, state => (body i state).bind (forLoop body (i + 1) count)

/-- This function is `for (i = first; i > 0; i--)`. -/
def downLoop (body : Nat → S → Option S) : Nat → S → Option S
  | 0, state => some state
  | i + 1, state => (body (i + 1) state).bind (downLoop body i)

/-- This function is a `while` loop.
It fails when the loop needs more than so many rounds. -/
def whileLoop (test : S → Bool) (body : S → Option S) : Nat → S → Option S
  | 0, state => if test state then none else some state
  | rounds + 1, state => if test state then (body state).bind (whileLoop test body rounds) else some state

end OSLabs.Buffer
