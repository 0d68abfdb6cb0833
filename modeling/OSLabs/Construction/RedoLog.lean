/-
This file gives the installation of logged values over a store.
-/

import Mathlib.Logic.Function.Basic

namespace OSLabs.RedoLog

variable {A V : Type} [DecidableEq A]

/-- This function copies the values of consecutive slots to their targets, in order. -/
def install (slot : Nat → A) : List A → Nat → (A → V) → A → V
  | [], _, store => store
  | target :: rest, tail, store =>
      install slot rest (tail + 1) (Function.update store target (store (slot tail)))

/-- A change of the value at one address. -/
structure Update (A V : Type) where
  target : A
  write : V → V

/-- This function performs changes in order. -/
def apply (store : A → V) (updates : List (Update A V)) : A → V :=
  updates.foldl (fun store update => Function.update store update.target (update.write (store update.target)))
    store

/-- The changes of one author. -/
def updatesOf {T : Type} [DecidableEq T] (author : T) (written : List (T × Update A V)) : List (Update A V) :=
  (written.filter fun entry => entry.1 = author).map Prod.snd

end OSLabs.RedoLog
