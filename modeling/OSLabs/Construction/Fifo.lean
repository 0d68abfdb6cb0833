/-
This file gives queues of bounded capacity and windows of arrays whose indexes wrap around.
-/

namespace OSLabs.Fifo

variable {A : Type}

inductive Op (A : Type) where
  | push (value : A)
  | pop
  deriving DecidableEq

/-- This function performs one operation: the values that wait and those that leave the queue.
It fails for a push to a full queue and for a pop from an empty one. -/
def step (capacity : Nat) (waiting : List A) : Op A → Option (List A × List A)
  | .push value => if waiting.length < capacity then some (waiting ++ [value], []) else none
  | .pop =>
      match waiting with
      | [] => none
      | value :: rest => some (rest, [value])

/-- This function performs the operations in order up to the first failure. -/
def run (capacity : Nat) (waiting : List A) : List (Op A) → Option (List A × List A)
  | [] => some (waiting, [])
  | op :: rest =>
      (step capacity waiting op).bind fun first =>
        (run capacity first.1 rest).map fun later => (later.1, first.2 ++ later.2)

/-- The values that are pushed, in order. -/
def pushed (ops : List (Op A)) : List A :=
  ops.filterMap fun op =>
    match op with
    | .push value => some value
    | .pop => none

def Op.isPop : Op A → Bool
  | .push _ => false
  | .pop => true

/-- The number of pops. -/
def pops (ops : List (Op A)) : Nat := ops.countP Op.isPop

/-- The values at `count` indexes from `first` on, where index `n` is index zero again. -/
def window {n : Nat} (positive : 0 < n) (array : Vector A n) (first count : Nat) : List A :=
  (List.range count).map fun k => array.get ⟨(first + k) % n, Nat.mod_lt _ positive⟩

end OSLabs.Fifo
