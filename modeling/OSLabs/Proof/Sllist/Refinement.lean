import OSLabs.Construction.Sllist
import OSLabs.Proof.Linked.Chain
import Mathlib.Data.List.Nodup

namespace OSLabs.Sllist

open Linked

variable {A : Type} [DecidableEq A] {head node p n : A} {nodes left right : List A} {next : Memory A}
  {rounds : Nat}

section Loops

/-- The loop of `add_tail` stops at the last node. -/
theorem tailLoop_eq (chain : Chain next p nodes head) (outside : head ∉ nodes) (enough : nodes.length < rounds) :
    tailLoop head next rounds (some p) = some (nodes.getLastD p) := by
  induction nodes generalizing p rounds with
  | nil =>
      cases rounds with
      | zero => cases enough
      | succ rounds =>
          have closes : ¬ next p ≠ some head := not_not.mpr chain
          exact if_neg closes
  | cons second rest inductionHypothesis =>
      cases rounds with
      | zero => cases enough
      | succ rounds =>
          obtain ⟨here, chain⟩ := chain
          obtain ⟨different, outside⟩ := not_or.mp (mt List.mem_cons.mpr outside)
          have goesOn : next p ≠ some head := by
            rw [here]
            exact fun equal => different (Option.some.inj equal).symm
          rw [List.getLastD_cons, ← inductionHypothesis chain outside (Nat.lt_of_succ_lt_succ enough), ← here]
          exact if_pos goesOn

/-- The loop of `del_node` passes the nodes up to the first one that it stops at. -/
theorem delLoop_eq (chain : Chain next p left n) (stops : n = node ∨ n = head)
    (passes : ∀ other ∈ left, other ≠ node ∧ other ≠ head) (enough : left.length < rounds) :
    delLoop head node next rounds p (next p) = some (left.getLastD p, some n) := by
  induction left generalizing p rounds with
  | nil =>
      cases rounds with
      | zero => cases enough
      | succ rounds =>
          have here : next p = some n := chain
          have last : ¬ (some n ≠ some node ∧ some n ≠ some head) := by
            rintro ⟨noNode, noHead⟩
            exact stops.elim (fun equal => noNode (equal ▸ rfl)) fun equal => noHead (equal ▸ rfl)
          rw [delLoop, here, if_neg last]
          rfl
  | cons second rest inductionHypothesis =>
      cases rounds with
      | zero => cases enough
      | succ rounds =>
          obtain ⟨here, chain⟩ := chain
          obtain ⟨noNode, noHead⟩ := passes second List.mem_cons_self
          have goesOn : some second ≠ some node ∧ some second ≠ some head := by
            simp [noNode, noHead]
          rw [delLoop, here, if_pos goesOn, List.getLastD_cons]
          exact inductionHypothesis chain (fun other member => passes other (List.mem_cons_of_mem second member))
            (Nat.lt_of_succ_lt_succ enough)

end Loops

theorem length_apply_le (operation : Operation A) (nodes : List A) :
    (operation.apply nodes).length ≤ nodes.length + 1 := by
  cases operation with
  | addHead node => exact Nat.le_refl _
  | addTail node => exact Nat.le_of_eq List.length_append
  | delNode node => exact Nat.le_succ_of_le List.length_erase_le

/-- The memory represents the list: its sentinel and its nodes are distinct and form a closed chain. -/
structure Represents (head : A) (nodes : List A) (next : Memory A) : Prop where
  visits : Chain next head nodes head
  distinct : (head :: nodes).Nodup

namespace Represents

theorem init (head : A) (unset : Memory A) : Represents head [] (initNode head unset) :=
  ⟨Function.update_self head _ unset, List.nodup_singleton head⟩

omit [DecidableEq A] in
/-- No pointer that is reached from the sentinel is `NULL`. -/
theorem holds (represents : Represents head nodes next) : Holds head nodes next := by
  refine ⟨represents.visits, fun node reaches => ?_⟩
  have member : node ∈ head :: nodes := by
    induction reaches with
    | refl => exact List.mem_cons_self
    | tail _ step inside =>
        obtain ⟨other, member, here⟩ := represents.visits.exists_next_closed inside
        rw [step] at here
        exact Option.some.inj here ▸ member
  obtain ⟨other, _, here⟩ := represents.visits.exists_next_closed member
  rw [here]
  exact Option.some_ne_none other

section Operations
variable (represents : Represents head nodes next)

include represents

theorem addHead (fresh : node ∉ head :: nodes) : Represents head (node :: nodes) (addHead head node next) := by
  obtain ⟨noHead, noNode⟩ := not_or.mp (mt List.mem_cons.mpr fresh)
  have outside : head ∉ nodes := (List.nodup_cons.mp represents.distinct).1
  refine ⟨⟨Function.update_self head _ _, ?_⟩, ?_⟩
  · refine represents.visits.start ?_ fun other member => ?_
    · rw [Sllist.addHead, Function.update_of_ne noHead, Function.update_self]
    · rw [Sllist.addHead, Function.update_of_ne (ne_of_mem_of_not_mem member outside),
        Function.update_of_ne (ne_of_mem_of_not_mem member noNode)]
  · exact (List.Perm.swap head node nodes).nodup_iff.mp (List.nodup_cons.mpr ⟨fresh, represents.distinct⟩)

/-- The new node is linked behind the last node. -/
theorem addTail (fresh : node ∉ head :: nodes) (enough : nodes.length < rounds) :
    ∃ after, addTail rounds head node next = some after ∧ Represents head (nodes ++ [node]) after ∧
      ∀ other, other ∉ head :: nodes → other ≠ node → after other = next other := by
  have outside : head ∉ nodes := (List.nodup_cons.mp represents.distinct).1
  obtain ⟨last, isLast⟩ : ∃ last, last = nodes.getLastD head := ⟨_, rfl⟩
  have member : last ∈ head :: nodes := isLast ▸ getLastD_mem
  have found : tailLoop head next rounds (next head) = some last := by
    rw [isLast]
    cases nodes with
    | nil =>
        have closes : next head = some head := represents.visits
        rw [closes, tailLoop_eq represents.visits outside enough]
    | cons first rest =>
        obtain ⟨here, chain⟩ := represents.visits
        rw [here, List.getLastD_cons]
        exact tailLoop_eq chain (fun inside => outside (List.mem_cons_of_mem first inside))
          (Nat.lt_of_succ_lt enough)
  have closes : next last = some head := isLast ▸ represents.visits.next_last
  have different : node ≠ last := fun equal => fresh (equal ▸ member)
  refine ⟨Function.update (Function.update next node (next last)) last (some node), ?_, ⟨?_, ?_⟩, ?_⟩
  · simp [Sllist.addTail, found]
  · refine represents.visits.relink represents.distinct (fun other inside notLast => ?_) ?_
    · rw [← isLast] at notLast
      rw [Function.update_of_ne notLast, Function.update_of_ne (ne_of_mem_of_not_mem inside fresh)]
    · rw [← isLast]
      refine ⟨Function.update_self last _ _, ?_⟩
      rw [Chain, Function.update_of_ne different, Function.update_self, closes]
  · have distinct : (node :: head :: nodes).Nodup := List.nodup_cons.mpr ⟨fresh, represents.distinct⟩
    exact (List.perm_append_singleton node (head :: nodes)).nodup_iff.mpr distinct
  · intro other noMember noNode
    rw [Function.update_of_ne (ne_of_mem_of_not_mem member noMember).symm, Function.update_of_ne noNode]

/-- The walk stops at the sentinel when the node is not in the list. -/
theorem delNode_absent (absent : node ∉ nodes) (enough : nodes.length < rounds) :
    delNode rounds head node next = some next := by
  have outside : head ∉ nodes := (List.nodup_cons.mp represents.distinct).1
  have found := delLoop_eq represents.visits (.inr rfl)
    (fun other member => ⟨ne_of_mem_of_not_mem member absent, ne_of_mem_of_not_mem member outside⟩) enough
  simp [delNode, found]

/-- The pointer to the node is changed to the pointer of the node. -/
theorem delNode_present (member : node ∈ nodes) (enough : nodes.length < rounds) :
    ∃ after, delNode rounds head node next = some after ∧ Represents head (nodes.erase node) after ∧
      ∀ other, other ∉ head :: nodes → after other = next other := by
  obtain ⟨left, right, rfl⟩ := List.append_of_mem member
  obtain ⟨before, behind⟩ := chain_append.mp represents.visits
  obtain ⟨outside, distinct⟩ := List.nodup_cons.mp represents.distinct
  obtain ⟨distinctLeft, distinctRight, apart⟩ := List.nodup_append.mp distinct
  have noNode : node ∉ left := fun inside => apart node inside node List.mem_cons_self rfl
  have noHead : head ∉ left := fun inside => outside (List.mem_append_left _ inside)
  obtain ⟨q, isLast⟩ : ∃ q, q = left.getLastD head := ⟨_, rfl⟩
  have qInside : q ∈ head :: left := isLast ▸ getLastD_mem
  obtain ⟨successor, _, there⟩ := behind.exists_next List.mem_cons_self
  have short : left.length < rounds := by
    rw [List.length_append] at enough
    omega
  have found := delLoop_eq before (.inl rfl)
    (fun other inside => ⟨ne_of_mem_of_not_mem inside noNode, ne_of_mem_of_not_mem inside noHead⟩) short
  have notRight (other : A) (inside : other ∈ right) : other ≠ q := by
    rintro rfl
    cases qInside with
    | head => exact outside (List.mem_append_right _ (List.mem_cons_of_mem node inside))
    | tail _ inLeft => exact apart other inLeft other (List.mem_cons_of_mem node inside) rfl
  have erased : (left ++ node :: right).erase node = left ++ right := by
    rw [List.erase_append_right _ noNode, List.erase_cons_head]
  refine ⟨Function.update next q (next node), ?_, ⟨?_, ?_⟩, ?_⟩
  · have notEnd : node ≠ head := fun equal => outside (equal ▸ List.mem_append_right left List.mem_cons_self)
    rw [← isLast] at found
    simp [delNode, found, notEnd, there]
  · rw [erased]
    refine before.relink (List.nodup_cons.mpr ⟨noHead, distinctLeft⟩) (fun other _ notLast => ?_) ?_
    · rw [← isLast] at notLast
      rw [Function.update_of_ne notLast]
    · rw [← isLast]
      refine behind.start (Function.update_self q _ _) fun other inside => ?_
      rw [Function.update_of_ne (notRight other inside)]
  · exact represents.distinct.sublist (List.Sublist.cons_cons head List.erase_sublist)
  · intro other noMember
    have different : other ≠ q := by
      rintro rfl
      cases qInside with
      | head => exact noMember List.mem_cons_self
      | tail _ inLeft => exact noMember (List.mem_cons_of_mem head (List.mem_append_left _ inLeft))
    rw [Function.update_of_ne different]

/-- An operation on the memory does what the abstract operation does, and it changes no other pointer. -/
theorem perform {operation : Operation A} (fits : operation.Fits head nodes) (enough : nodes.length < rounds) :
    ∃ after, perform rounds head operation next = some after ∧ Represents head (operation.apply nodes) after ∧
      ∀ other, other ∉ head :: nodes → other ≠ operation.node → after other = next other := by
  cases operation with
  | addHead node =>
      refine ⟨_, rfl, represents.addHead fits, fun other noMember noNode => ?_⟩
      have noArgument : other ≠ node := noNode
      rw [Sllist.addHead, Function.update_of_ne (List.ne_of_not_mem_cons noMember),
        Function.update_of_ne noArgument]
  | addTail node => exact represents.addTail fits enough
  | delNode node =>
      by_cases member : node ∈ nodes
      · obtain ⟨after, succeeds, holds, same⟩ := represents.delNode_present member enough
        exact ⟨after, succeeds, holds, fun other noMember _ => same other noMember⟩
      · refine ⟨next, represents.delNode_absent member enough, ?_, fun _ _ _ => rfl⟩
        rw [Operation.apply, List.erase_of_not_mem member]
        exact represents

/-- The operations of a fitting run keep the memory and the abstract list together. -/
theorem run {operations : List (Operation A)} (fitting : Fitting head nodes operations)
    (enough : nodes.length + operations.length < rounds) :
    ∃ final, run rounds head operations next = some final ∧ Represents head (contents nodes operations) final := by
  induction operations generalizing nodes next with
  | nil => exact ⟨next, rfl, represents⟩
  | cons operation rest inductionHypothesis =>
      obtain ⟨fits, fitting⟩ := fitting
      rw [List.length_cons] at enough
      have room : nodes.length < rounds := by omega
      obtain ⟨after, succeeds, holds, _⟩ := represents.perform fits room
      have length := length_apply_le operation nodes
      obtain ⟨final, ends, holds⟩ := inductionHypothesis holds fitting (by omega)
      refine ⟨final, ?_, holds⟩
      rw [Sllist.run, succeeds, Option.bind_some, ends]

end Operations

end Represents

theorem fitting_append {before after : List (Operation A)} (fitting : Fitting head nodes (before ++ after)) :
    Fitting head nodes before ∧ Fitting head (contents nodes before) after := by
  induction before generalizing nodes with
  | nil => exact ⟨trivial, fitting⟩
  | cons operation rest inductionHypothesis =>
      obtain ⟨fits, fitting⟩ := fitting
      obtain ⟨first, second⟩ := inductionHypothesis fitting
      exact ⟨⟨fits, first⟩, second⟩

theorem length_contents_le (nodes : List A) (operations : List (Operation A)) :
    (contents nodes operations).length ≤ nodes.length + operations.length := by
  induction operations generalizing nodes with
  | nil => exact Nat.le_refl _
  | cons operation rest inductionHypothesis =>
      have step := length_apply_le operation nodes
      have later := inductionHypothesis (operation.apply nodes)
      rw [List.length_cons, contents, List.foldl_cons, ← contents]
      omega

/-- Every loop ends, the memory holds the abstract list, and each operation changes only pointers of the list
and of its argument. -/
theorem sllist_refines (head : A) (unset : Memory A) (operations : List (Operation A)) (rounds : Nat)
    (fitting : Fitting head [] operations) (enough : operations.length < rounds) :
    (∃ final, run rounds head operations (initNode head unset) = some final ∧
      Holds head (contents [] operations) final) ∧
    ∀ before operation after, operations = before ++ operation :: after →
      ∃ here there, run rounds head before (initNode head unset) = some here ∧
        perform rounds head operation here = some there ∧
        ∀ other, other ∉ head :: contents [] before → other ≠ operation.node → there other = here other := by
  have start := Represents.init head unset
  constructor
  · obtain ⟨final, ends, represents⟩ := start.run fitting (by simpa using enough)
    exact ⟨final, ends, represents.holds⟩
  · rintro before operation after rfl
    obtain ⟨first, second⟩ := fitting_append fitting
    obtain ⟨fits, _⟩ := second
    rw [List.length_append, List.length_cons] at enough
    have enoughBefore : ([] : List A).length + before.length < rounds := by
      rw [List.length_nil]
      omega
    obtain ⟨here, reached, represents⟩ := start.run first enoughBefore
    have room : (contents [] before).length < rounds :=
      Nat.lt_of_le_of_lt (length_contents_le [] before) enoughBefore
    obtain ⟨there, succeeds, _, same⟩ := represents.perform fits room
    exact ⟨here, there, reached, succeeds, same⟩

/-- A node is deleted and added again. -/
theorem deleted_and_added :
    ∃ final, run 5 0 [.addTail 1, .addHead 2, .delNode 1, .addTail 1] (initNode 0 fun _ => none) = some final ∧
      Holds 0 [2, 1] final :=
  (sllist_refines 0 (fun _ => none) [.addTail 1, .addHead 2, .delNode 1, .addTail 1] 5
    (by simp [Fitting, Operation.Fits, Operation.apply]) (by decide)).1

end OSLabs.Sllist
