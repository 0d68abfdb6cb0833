/-
This file gives runs of a system that takes one move after another.
-/

namespace OSLabs.Transition

variable {S M : Type}

/-- A run is a sequence of moves in which each step meets the side condition.
The history lists each earlier state with the move made there, newest first. -/
inductive Run (fire : S → M → Option S) (allowed : S → M → Prop) (start : S) : List (S × M) → S → Prop where
  | start : Run fire allowed start [] start
  | step {history : List (S × M)} {state next : S} (move : M)
      (before : Run fire allowed start history state)
      (permitted : allowed state move)
      (fired : fire state move = some next) :
      Run fire allowed start ((state, move) :: history) next

/-- A state is reachable when some run with this side condition ends in it. -/
def Reachable (fire : S → M → Option S) (allowed : S → M → Prop) (start state : S) : Prop :=
  ∃ history, Run fire allowed start history state

/-- The side condition that allows every move. -/
def Free (_ : S) (_ : M) : Prop := True

/-- This function follows a complete list of moves and checks the side condition before each of them. -/
def drive (fire : S → M → Option S) (allowed : S → M → Prop) [∀ state move, Decidable (allowed state move)]
    (state : S) : List M → Option S
  | [] => some state
  | move :: rest =>
      if allowed state move then (fire state move).bind fun next => drive fire allowed next rest else none

instance (state : S) (move : M) : Decidable (Free state move) := inferInstanceAs (Decidable True)

end OSLabs.Transition
