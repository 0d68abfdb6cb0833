import OSLabs.Construction.Linked
import Mathlib.Data.List.Basic

namespace OSLabs.Linked

variable {A : Type} {next changed : Memory A} {first other last stop node : A} {nodes left right : List A}

/-- A chain is a chain to one of its nodes and a chain from it. -/
theorem chain_append : Chain next first (left ++ node :: right) last ↔
    Chain next first left node ∧ Chain next node right last := by
  induction left generalizing first with
  | nil => exact Iff.rfl
  | cons _ left inductionHypothesis =>
      rw [List.cons_append, Chain, Chain, inductionHypothesis, and_assoc]

/-- Another node with the same pointer starts the same chain, also when other pointers have changed. -/
theorem Chain.start (chain : Chain next first nodes last) (begins : changed other = next first)
    (same : ∀ node ∈ nodes, changed node = next node) : Chain changed other nodes last := by
  induction nodes generalizing first other with
  | nil => exact begins.trans chain
  | cons node rest inductionHypothesis =>
      obtain ⟨here, chain⟩ := chain
      refine ⟨begins.trans here, ?_⟩
      exact inductionHypothesis chain (same node List.mem_cons_self) fun later member =>
        same later (List.mem_cons_of_mem node member)

theorem getLastD_mem : nodes.getLastD first ∈ first :: nodes := by
  induction nodes generalizing first with
  | nil => exact List.mem_cons_self
  | cons node rest inductionHypothesis =>
      rw [List.getLastD_cons]
      exact List.mem_cons_of_mem first inductionHypothesis

theorem Chain.next_last (chain : Chain next first nodes last) : next (nodes.getLastD first) = some last := by
  induction nodes generalizing first with
  | nil => exact chain
  | cons node rest inductionHypothesis =>
      rw [List.getLastD_cons]
      exact inductionHypothesis chain.2

/-- When only the pointer of its last node has changed, the chain goes on where that pointer leads. -/
theorem Chain.relink (chain : Chain next first left stop) (distinct : (first :: left).Nodup)
    (same : ∀ node ∈ first :: left, node ≠ left.getLastD first → changed node = next node)
    (rest : Chain changed (left.getLastD first) right last) : Chain changed first (left ++ right) last := by
  induction left generalizing first with
  | nil => exact rest
  | cons node left inductionHypothesis =>
      obtain ⟨here, chain⟩ := chain
      obtain ⟨outside, distinct⟩ := List.nodup_cons.mp distinct
      rw [List.getLastD_cons] at same rest
      refine ⟨?_, ?_⟩
      · rw [← here]
        refine same first List.mem_cons_self ?_
        rintro equal
        exact outside (equal ▸ getLastD_mem)
      · refine inductionHypothesis chain distinct (fun later member => ?_) rest
        exact same later (List.mem_cons_of_mem first member)

/-- The pointer of each node leads to a node of the chain or to its last node. -/
theorem Chain.exists_next (chain : Chain next first nodes last) (member : node ∈ first :: nodes) :
    ∃ other ∈ nodes ++ [last], next node = some other := by
  induction nodes generalizing first with
  | nil =>
      obtain rfl := List.mem_singleton.mp member
      exact ⟨last, List.mem_singleton_self last, chain⟩
  | cons second rest inductionHypothesis =>
      obtain ⟨here, chain⟩ := chain
      cases member with
      | head => exact ⟨second, List.mem_cons_self, here⟩
      | tail _ member =>
          obtain ⟨other, inside, there⟩ := inductionHypothesis chain member
          exact ⟨other, List.mem_cons_of_mem second inside, there⟩

/-- The pointers of a closed chain never leave it. -/
theorem Chain.exists_next_closed (chain : Chain next first nodes first) (member : node ∈ first :: nodes) :
    ∃ other ∈ first :: nodes, next node = some other := by
  obtain ⟨other, inside, there⟩ := chain.exists_next member
  refine ⟨other, ?_, there⟩
  rw [List.mem_append, List.mem_singleton] at inside
  exact List.mem_cons.mpr inside.symm

end OSLabs.Linked
