/-
This file models the circular list of `debug/sllist.c`.
-/

import OSLabs.Construction.Linked
import Mathlib.Logic.Relation

namespace OSLabs.Sllist

open Linked

variable {A : Type} [DecidableEq A]

/-- This function is `init_node`. -/
def initNode (node : A) (next : Memory A) : Memory A := Function.update next node (some node)

/-- This function is `add_head`. -/
def addHead (head node : A) (next : Memory A) : Memory A :=
  let next := Function.update next node (next head)
  Function.update next head (some node)

/-- This function is the loop of `add_tail`.
It fails when it follows `NULL` and when it needs more than so many rounds. -/
def tailLoop (head : A) (next : Memory A) : Nat → Option A → Option A
  | 0, _ => none
  | rounds + 1, p => do
      let p ← p
      if next p ≠ some head then tailLoop head next rounds (next p) else some p

/-- This function is `add_tail`. -/
def addTail (rounds : Nat) (head node : A) (next : Memory A) : Option (Memory A) := do
  let p ← tailLoop head next rounds (next head)
  let next := Function.update next node (next p)
  some (Function.update next p (some node))

/-- This function is the loop of `del_node` with its variables `p` and `n`. -/
def delLoop (head node : A) (next : Memory A) : Nat → A → Option A → Option (A × Option A)
  | 0, _, _ => none
  | rounds + 1, p, n =>
      if n ≠ some node ∧ n ≠ some head then do
        let n ← n
        delLoop head node next rounds n (next n)
      else some (p, n)

/-- This function is `del_node`. -/
def delNode (rounds : Nat) (head node : A) (next : Memory A) : Option (Memory A) := do
  let (p, n) ← delLoop head node next rounds head (next head)
  if n = some head then return next
  let n ← n
  if (next n).isSome then return Function.update next p (next n) else return Function.update next p none

/-- A loop has ended, or it has followed `NULL`, or it goes on. -/
inductive Ending where
  | ended
  | undefined
  | running
  deriving DecidableEq

/-- This function is a number of rounds of the loop of `print_list`:
the calls of `print_fn` and how the rounds end. The inner test of `p` comes behind the access to `p->next`
and always succeeds. -/
def printLoop (next : Memory A) : Nat → Option A → List A × Ending
  | 0, _ => ([], .running)
  | _ + 1, none => ([], .undefined)
  | rounds + 1, some p =>
      if (next p).isSome then
        let rest := printLoop next rounds (next p)
        (p :: rest.1, rest.2)
      else ([], .ended)

/-- This function is `print_list`. -/
def printList (rounds : Nat) (head : A) (next : Memory A) : List A × Ending := printLoop next rounds (next head)

/-- The operations on a list. -/
inductive Operation (A : Type) where
  | addHead (node : A)
  | addTail (node : A)
  | delNode (node : A)
  deriving DecidableEq

/-- The argument of an operation. -/
def Operation.node : Operation A → A
  | .addHead node | .addTail node | .delNode node => node

def perform (rounds : Nat) (head : A) : Operation A → Memory A → Option (Memory A)
  | .addHead node, next => some (addHead head node next)
  | .addTail node, next => addTail rounds head node next
  | .delNode node, next => delNode rounds head node next

/-- The operations one after the other, where each loop has at most so many rounds. -/
def run (rounds : Nat) (head : A) : List (Operation A) → Memory A → Option (Memory A)
  | [], next => some next
  | operation :: rest, next => (perform rounds head operation next).bind (run rounds head rest)

/-- The abstract list after an operation. -/
def Operation.apply : Operation A → List A → List A
  | .addHead node, nodes => node :: nodes
  | .addTail node, nodes => nodes ++ [node]
  | .delNode node, nodes => nodes.erase node

/-- The abstract list after the operations. -/
def contents (nodes : List A) (operations : List (Operation A)) : List A :=
  operations.foldl (fun nodes operation => operation.apply nodes) nodes

/-- An operation adds a node only when it is not in the list, of which the sentinel is a part. -/
def Operation.Fits (head : A) (nodes : List A) : Operation A → Prop
  | .addHead node | .addTail node => node ∉ head :: nodes
  | .delNode _ => True

/-- Every operation fits the list that it is applied to. -/
def Fitting (head : A) : List A → List (Operation A) → Prop
  | _, [] => True
  | nodes, operation :: rest => operation.Fits head nodes ∧ Fitting head (operation.apply nodes) rest

/-- A node that the pointers reach from another one. -/
def Reaches (next : Memory A) : A → A → Prop := Relation.ReflTransGen fun node other => next node = some other

/-- The memory holds this list behind its sentinel: the pointers lead over exactly its nodes back to the sentinel,
and no pointer on the way is `NULL`. -/
structure Holds (head : A) (nodes : List A) (next : Memory A) : Prop where
  visits : Chain next head nodes head
  linked : ∀ node, Reaches next head node → next node ≠ none

/-- The call of `print_list` ends and prints exactly these nodes. -/
def Prints (head : A) (nodes : List A) (next : Memory A) : Prop :=
  ∃ rounds, printList rounds head next = (nodes, .ended)

end OSLabs.Sllist
