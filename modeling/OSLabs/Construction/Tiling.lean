/-
This file gives blocks of memory that do not overlap.
-/

import Mathlib.Algebra.Order.Ring.Nat

namespace OSLabs.Tiling

/-- Two blocks have no address in common. -/
def Apart (size : Nat → Nat) (a b : Nat) : Prop := a + size a ≤ b ∨ b + size b ≤ a

/-- The blocks lie between two addresses, none overlaps another, and this is the sum of their sizes. -/
structure Tiles (size : Nat → Nat) (blocks : List Nat) (low high total : Nat) : Prop where
  inside : ∀ a ∈ blocks, 0 < size a ∧ low ≤ a ∧ a + size a ≤ high
  apart : blocks.Pairwise (Apart size)
  sum : (blocks.map size).sum = total

/-- The address belongs to the block and is not its first one. -/
def Behind (size : Nat → Nat) (a unit : Nat) : Prop := a < unit ∧ unit < a + size a

end OSLabs.Tiling
