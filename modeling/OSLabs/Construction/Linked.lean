/-
This file gives chains of nodes in a memory of pointers.
-/

import Mathlib.Logic.Function.Basic

namespace OSLabs.Linked

/-- Each node has one pointer, which may be `NULL`. -/
abbrev Memory (A : Type) := A → Option A

/-- The pointers lead from the first node over these nodes to the last node. -/
def Chain {A : Type} (next : Memory A) : A → List A → A → Prop
  | first, [], last => next first = some last
  | first, node :: rest, last => next first = some node ∧ Chain next node rest last

end OSLabs.Linked
