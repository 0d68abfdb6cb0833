import OSLabs.Proof.Sllist.Refinement

namespace OSLabs.Sllist

open Linked

variable {A : Type} [DecidableEq A] {head p : A} {nodes left right : List A} {next : Memory A}

omit [DecidableEq A] in
/-- On a closed chain every pointer leads on. -/
theorem printLoop_running (chain : Chain next head nodes head) (member : p ∈ head :: nodes) (rounds : Nat) :
    (printLoop next rounds (some p)).2 = .running := by
  induction rounds generalizing p with
  | zero => rfl
  | succ rounds inductionHypothesis =>
      obtain ⟨other, inside, here⟩ := chain.exists_next_closed member
      simpa [printLoop, here] using inductionHypothesis inside

omit [DecidableEq A] in
/-- The calls go over the nodes of a chain and then on from its last node. -/
theorem printLoop_chain {last : A} (chain : Chain next p nodes last) (rounds : Nat) :
    (printLoop next (nodes.length + 1 + rounds) (some p)).1 =
      p :: nodes ++ (printLoop next rounds (some last)).1 := by
  induction nodes generalizing p with
  | nil =>
      have here : next p = some last := chain
      rw [List.length_nil, Nat.zero_add, Nat.add_comm]
      simp [printLoop, here]
  | cons second rest inductionHypothesis =>
      obtain ⟨here, chain⟩ := chain
      have rounds_eq : (second :: rest).length + 1 + rounds = (rest.length + 1 + rounds) + 1 := by
        rw [List.length_cons]
        omega
      rw [rounds_eq]
      simp [printLoop, here, inductionHypothesis chain]

omit [DecidableEq A] in
/-- Behind the nodes of the list the sentinel is printed. -/
theorem printList_calls (chain : Chain next head nodes head) :
    (printList (nodes.length + 1) head next).1 = nodes ++ [head] := by
  obtain ⟨first, _, here⟩ := chain.exists_next_closed List.mem_cons_self
  have calls := printLoop_chain chain 1
  have last : (printLoop next 1 (some head)).1 = [head] := by simp [printLoop, here]
  have unfolded : (printLoop next (nodes.length + 1 + 1) (some head)).1 =
      head :: (printList (nodes.length + 1) head next).1 := by
    rw [printLoop, here, printList, here]
    rfl
  rw [last, unfolded] at calls
  exact List.tail_eq_of_cons_eq calls

/-- No list is printed: the loop goes on for ever, and it also prints the sentinel. -/
theorem printList_endless (head : A) (unset : Memory A) (operations : List (Operation A)) (rounds : Nat)
    (fitting : Fitting head [] operations) (enough : operations.length < rounds) :
    ∃ final, run rounds head operations (initNode head unset) = some final ∧
      ¬ Prints head (contents [] operations) final ∧
      (∀ rounds, (printList rounds head final).2 = .running) ∧
      ∃ rounds, head ∈ (printList rounds head final).1 := by
  obtain ⟨final, ends, represents⟩ := (Represents.init head unset).run fitting (by simpa using enough)
  have running (rounds : Nat) : (printList rounds head final).2 = .running := by
    obtain ⟨first, member, here⟩ := represents.visits.exists_next_closed List.mem_cons_self
    rw [printList, here]
    exact printLoop_running represents.visits member rounds
  refine ⟨final, ends, ?_, running, (contents [] operations).length + 1, ?_⟩
  · rintro ⟨rounds, ended⟩
    have ending := running rounds
    rw [ended] at ending
    cases ending
  · rw [printList_calls represents.visits]
    exact List.mem_append_right _ (List.mem_singleton_self head)

/-- The list with one node is printed for ever. -/
theorem one_node_endless : ∃ final, run 2 0 [.addHead 1] (initNode 0 fun _ => none) = some final ∧
    ¬ Prints 0 [1] final ∧ (∀ rounds, (printList rounds 0 final).2 = .running) ∧
    ∃ rounds, 0 ∈ (printList rounds 0 final).1 :=
  printList_endless 0 (fun _ => none) [.addHead 1] 2 (by simp [Fitting, Operation.Fits]) (by decide)

/-- The empty list is not printed either. -/
theorem empty_endless : ¬ Prints 0 [] (initNode 0 fun _ => none) := by
  rintro ⟨rounds, ended⟩
  have running := printLoop_running (Represents.init 0 fun _ => none).visits List.mem_cons_self rounds
  have here : initNode 0 (fun _ => none) 0 = some 0 := rfl
  rw [printList, here] at ended
  rw [ended] at running
  cases running

end OSLabs.Sllist
