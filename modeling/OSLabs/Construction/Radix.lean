/-
This file gives trees of tables in a memory. An entry of a table may lead to another table.
-/

import Mathlib.Logic.Function.Basic

namespace OSLabs.Radix

variable {P I E T : Type}

/-- The table to which a path leads from a first table. -/
def find (child : E → Option P) (memory : P → I → E) : P → List I → Option P
  | table, [] => some table
  | table, i :: path => (child (memory table i)).bind fun next => find child memory next path

/-- The table to which a path leads in one of several trees. -/
def locate (child : E → Option P) (memory : P → I → E) (root : T → Option P) (tree : T) (path : List I) :
    Option P :=
  (root tree).bind fun table => find child memory table path

/-- Up to some depth, each table is reached on one path in one tree. -/
def Separate (child : E → Option P) (memory : P → I → E) (root : T → Option P) (depth : Nat) : Prop :=
  ∀ first second path other table, path.length ≤ depth → other.length ≤ depth →
    locate child memory root first path = some table → locate child memory root second other = some table →
    first = second ∧ path = other

/-- A table is reached on a path that is shorter than some depth. -/
def Reach (child : E → Option P) (memory : P → I → E) (depth : Nat) (table last : P) : Prop :=
  ∃ path, path.length < depth ∧ find child memory table path = some last

/-- Below a table each table is reached on one path. -/
def Single (child : E → Option P) (memory : P → I → E) (depth : Nat) (table : P) : Prop :=
  ∀ path other last, path.length < depth → other.length < depth → find child memory table path = some last →
    find child memory table other = some last → path = other

/-- The memory after an entry is stored. -/
def store [DecidableEq P] [DecidableEq I] (memory : P → I → E) (table : P) (i : I) (entry : E) : P → I → E :=
  Function.update memory table (Function.update (memory table) i entry)

end OSLabs.Radix
