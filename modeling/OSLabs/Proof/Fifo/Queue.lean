import OSLabs.Construction.Fifo

namespace OSLabs.Fifo

variable {A : Type} {capacity : Nat} {waiting final popped : List A}

/-- The values that one operation pushes. -/
def Op.values : Op A → List A
  | .push value => [value]
  | .pop => []

theorem pushed_cons (op : Op A) (rest : List (Op A)) : pushed (op :: rest) = op.values ++ pushed rest := by
  cases op <;> rfl

theorem pops_cons (op : Op A) (rest : List (Op A)) : pops (op :: rest) = pops rest + if op.isPop then 1 else 0 :=
  List.countP_cons

/-- An operation that succeeds pushes to a queue with room or pops the value that waits first. -/
theorem step_cases {op : Op A} (stepped : step capacity waiting op = some (final, popped)) :
    (∃ value, op = .push value ∧ waiting.length < capacity ∧ final = waiting ++ [value] ∧ popped = []) ∨
      ∃ value, op = .pop ∧ waiting = value :: final ∧ popped = [value] := by
  cases op with
  | push value =>
      rw [step] at stepped
      split at stepped
      · next room =>
          obtain ⟨rfl, rfl⟩ := Prod.mk.inj (Option.some.inj stepped)
          exact .inl ⟨value, rfl, room, rfl, rfl⟩
      · cases stepped
  | pop =>
      cases waiting with
      | nil => cases stepped
      | cons value rest =>
          obtain ⟨rfl, rfl⟩ := Prod.mk.inj (Option.some.inj stepped)
          exact .inr ⟨value, rfl, rfl, rfl⟩

/-- An operation fails only for a full or an empty queue. -/
theorem step_eq_none_iff {op : Op A} (within : waiting.length ≤ capacity) :
    step capacity waiting op = none ↔ waiting.length = if op.isPop then 0 else capacity := by
  cases op with
  | push value =>
      simp only [step, Op.isPop]
      split <;> simp <;> omega
  | pop => cases waiting <;> simp [step, Op.isPop]

/-- What waits and what comes in is what leaves and what waits then. -/
theorem step_conserves {op : Op A} (stepped : step capacity waiting op = some (final, popped)) :
    waiting ++ op.values = popped ++ final ∧ popped.length = if op.isPop then 1 else 0 := by
  rcases step_cases stepped with ⟨value, rfl, _, rfl, rfl⟩ | ⟨value, rfl, rfl, rfl⟩
  · exact ⟨rfl, rfl⟩
  · exact ⟨List.append_nil _, rfl⟩

/-- A run begins with a step. -/
theorem exists_of_run_cons {op : Op A} {rest : List (Op A)}
    (ran : run capacity waiting (op :: rest) = some (final, popped)) :
    ∃ middle first later, step capacity waiting op = some (middle, first) ∧
      run capacity middle rest = some (final, later) ∧ popped = first ++ later := by
  obtain ⟨⟨middle, first⟩, stepped, continued⟩ := Option.bind_eq_some_iff.mp ran
  obtain ⟨⟨last, later⟩, others, same⟩ := Option.map_eq_some_iff.mp continued
  obtain ⟨rfl, rfl⟩ := Prod.mk.inj same
  exact ⟨middle, first, later, stepped, others, rfl⟩

/-- A run of the queue gives back what was pushed, in order. -/
theorem run_conserves {ops : List (Op A)} (ran : run capacity waiting ops = some (final, popped)) :
    waiting ++ pushed ops = popped ++ final ∧ popped.length = pops ops := by
  induction ops generalizing waiting popped with
  | nil =>
      obtain ⟨rfl, rfl⟩ := Prod.mk.inj (Option.some.inj ran)
      exact ⟨List.append_nil _, rfl⟩
  | cons op rest inductionHypothesis =>
      obtain ⟨middle, first, later, stepped, continued, rfl⟩ := exists_of_run_cons ran
      obtain ⟨conserved, count⟩ := step_conserves stepped
      obtain ⟨conservedLater, countLater⟩ := inductionHypothesis continued
      constructor
      · rw [pushed_cons, ← List.append_assoc, conserved, List.append_assoc, conservedLater, List.append_assoc]
      · rw [List.length_append, pops_cons, count, countLater, Nat.add_comm]

end OSLabs.Fifo
