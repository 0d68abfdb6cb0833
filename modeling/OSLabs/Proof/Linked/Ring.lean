import OSLabs.Proof.Linked.Chain
import Mathlib.Data.List.Perm.Basic
import Mathlib.Order.Lattice

namespace OSLabs.Linked

section
variable {A : Type} {next : Memory A} {first last node other : A} {nodes : List A}

/-- The pointers determine the chain to a last node that comes once. -/
theorem Chain.unique {others : List A} (chain : Chain next first nodes last)
    (chain' : Chain next first others last)
    (outside : last ∉ nodes) (outside' : last ∉ others) : nodes = others := by
  induction nodes generalizing first others with
  | nil =>
      cases others with
      | nil => rfl
      | cons other others =>
          obtain rfl := Option.some.inj (chain.symm.trans chain'.1)
          exact absurd List.mem_cons_self outside'
  | cons node nodes inductionHypothesis =>
      cases others with
      | nil =>
          obtain rfl := Option.some.inj (chain'.symm.trans chain.1)
          exact absurd List.mem_cons_self outside
      | cons other others =>
          obtain rfl := Option.some.inj (chain.1.symm.trans chain'.1)
          exact congrArg _ (inductionHypothesis chain.2 chain'.2 (List.not_mem_of_not_mem_cons outside)
            (List.not_mem_of_not_mem_cons outside'))

/-- A closed chain can be entered at each of its nodes. -/
theorem Chain.rotate (closed : Chain next first nodes first) (member : node ∈ first :: nodes) :
    ∃ others, Chain next node others node ∧ (node :: others).Perm (first :: nodes) := by
  cases member with
  | head => exact ⟨nodes, closed, List.Perm.refl _⟩
  | tail _ member =>
      obtain ⟨left, right, rfl⟩ := List.append_of_mem member
      obtain ⟨toNode, fromNode⟩ := chain_append.mp closed
      refine ⟨right ++ first :: left, chain_append.mpr ⟨fromNode, toNode⟩, ?_⟩
      have turned : ((node :: right) ++ first :: left).Perm ((first :: left) ++ node :: right) :=
        List.perm_append_comm
      exact turned

/-- Different nodes lead to different nodes. -/
theorem Chain.injective (chain : Chain next first nodes last) (distinct : (nodes ++ [last]).Nodup)
    (here : node ∈ first :: nodes) (there : other ∈ first :: nodes) (same : next node = next other) :
    node = other := by
  induction nodes generalizing first with
  | nil => rw [List.mem_singleton.mp here, List.mem_singleton.mp there]
  | cons second rest inductionHypothesis =>
      obtain ⟨begins, chain⟩ := chain
      obtain ⟨outside, distinct⟩ := List.nodup_cons.mp distinct
      -- The second node cannot come again, because the pointer of no later node leads to it.
      have unlike : ∀ later ∈ second :: rest, next later ≠ some second := by
        intro later member leads
        obtain ⟨after, inside, there⟩ := chain.exists_next member
        rw [leads, Option.some.injEq] at there
        exact outside (there ▸ inside)
      cases here with
      | head =>
          cases there with
          | head => rfl
          | tail _ there => exact absurd (same ▸ begins) (unlike other there)
      | tail _ here =>
          cases there with
          | head => exact absurd (same.trans begins) (unlike node here)
          | tail _ there => exact inductionHypothesis chain distinct here there

/-- A chain goes over some first nodes and goes on from the last of them. -/
theorem Chain.cut {left right : List A} (chain : Chain next first (left ++ right) last) :
    (∃ stop, Chain next first left stop) ∧ Chain next (left.getLastD first) right last := by
  induction left generalizing first with
  | nil =>
      refine ⟨?_, chain⟩
      cases right with
      | nil => exact ⟨last, chain⟩
      | cons second rest => exact ⟨second, chain.1⟩
  | cons second left inductionHypothesis =>
      obtain ⟨begins, chain⟩ := chain
      obtain ⟨⟨stop, before⟩, after⟩ := inductionHypothesis chain
      rw [List.getLastD_cons]
      exact ⟨⟨stop, begins, before⟩, after⟩

/-- The last node comes behind all others. -/
theorem getLastD_of_pairwise {R : A → A → Prop} (related : (first :: nodes).Pairwise R)
    (member : node ∈ first :: nodes) :
    node = nodes.getLastD first ∨ R node (nodes.getLastD first) := by
  induction nodes generalizing first with
  | nil => exact .inl (List.mem_singleton.mp member)
  | cons second rest inductionHypothesis =>
      obtain ⟨before, relatedRest⟩ := List.pairwise_cons.mp related
      rw [List.getLastD_cons]
      cases member with
      | head => exact .inr (before _ getLastD_mem)
      | tail _ member => exact inductionHypothesis relatedRest member

/-- Each node of a chain is the last one of a part at its beginning. -/
theorem exists_getLastD_eq (member : node ∈ first :: nodes) :
    ∃ before after, nodes = before ++ after ∧ before.getLastD first = node := by
  cases member with
  | head => exact ⟨[], nodes, rfl, rfl⟩
  | tail _ member =>
      obtain ⟨left, right, rfl⟩ := List.append_of_mem member
      refine ⟨left ++ [node], right, ?_, List.getLastD_concat ..⟩
      rw [List.append_assoc]
      rfl

end

section
variable {A : Type} [LinearOrder A] {next : Memory A} {first last node : A} {nodes : List A}

/-- In a chain whose nodes are in order, a pointer leads to the next larger node or from the largest one to the
end. -/
theorem Chain.next_cases (chain : Chain next first nodes last) (sorted : (first :: nodes).Pairwise (· < ·))
    (member : node ∈ first :: nodes) :
    (next node = some last ∧ ∀ other ∈ first :: nodes, other ≤ node) ∨
      ∃ other ∈ nodes, next node = some other ∧ node < other ∧ ∀ third ∈ first :: nodes, third ≤ node ∨
        other ≤ third := by
  induction nodes generalizing first with
  | nil =>
      obtain rfl := List.mem_singleton.mp member
      exact .inl ⟨chain, fun other there => (List.mem_singleton.mp there).le⟩
  | cons second rest inductionHypothesis =>
      obtain ⟨begins, chain⟩ := chain
      obtain ⟨below, ordered⟩ := List.pairwise_cons.mp sorted
      cases member with
      | head =>
          refine .inr ⟨second, List.mem_cons_self, begins, below second List.mem_cons_self, fun third there => ?_⟩
          rcases List.mem_cons.mp there with rfl | there
          · exact .inl le_rfl
          · rcases List.mem_cons.mp there with rfl | there
            · exact .inr le_rfl
            · exact .inr ((List.pairwise_cons.mp ordered).1 third there).le
      | tail _ member =>
          have later := below node member
          rcases inductionHypothesis chain ordered member with ⟨ends, largest⟩ | ⟨other, inside, leads, less, between⟩
          · refine .inl ⟨ends, fun other there => ?_⟩
            rcases List.mem_cons.mp there with rfl | there
            · exact later.le
            · exact largest other there
          · refine .inr ⟨other, List.mem_cons_of_mem second inside, leads, less, fun third there => ?_⟩
            rcases List.mem_cons.mp there with rfl | there
            · exact .inl later.le
            · exact between third there

end

end OSLabs.Linked
