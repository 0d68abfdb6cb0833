import OSLabs.Construction.Transition

namespace OSLabs.Transition

variable {S M : Type} {fire : S → M → Option S} {allowed : S → M → Prop} {start state next : S}
  {history : List (S × M)}

/-- A property that holds at the start and is kept by every step holds in every reached state. -/
theorem Run.invariant (Invariant : S → Prop) (base : Invariant start)
    (kept : ∀ {history state next} move, Run fire allowed start history state → Invariant state →
      allowed state move → fire state move = some next → Invariant next)
    (reached : Run fire allowed start history state) : Invariant state := by
  induction reached with
  | start => exact base
  | step move before permitted fired inductionHypothesis =>
      exact kept move before inductionHypothesis permitted fired

/-- A weaker side condition has more runs. -/
theorem Run.mono {weaker : S → M → Prop} (implies : ∀ state move, allowed state move → weaker state move)
    (reached : Run fire allowed start history state) : Run fire weaker start history state := by
  induction reached with
  | start => exact .start
  | step move _ permitted fired inductionHypothesis =>
      exact .step move inductionHypothesis (implies _ _ permitted) fired

/-- Every run is a run without side condition. -/
theorem Run.free (reached : Run fire allowed start history state) : Run fire Free start history state :=
  reached.mono fun _ _ _ => trivial

/-- A run can be continued by another one. -/
theorem Run.append {later : List (S × M)} (reached : Run fire allowed start history state)
    (continued : Run fire allowed state later next) : Run fire allowed start (later ++ history) next := by
  induction continued with
  | start => exact reached
  | step move _ permitted fired inductionHypothesis => exact .step move inductionHypothesis permitted fired

theorem Reachable.refl : Reachable fire allowed start start := ⟨[], .start⟩

theorem Reachable.trans (first : Reachable fire allowed start state) (second : Reachable fire allowed state next) :
    Reachable fire allowed start next := by
  obtain ⟨_, reached⟩ := first
  obtain ⟨_, continued⟩ := second
  exact ⟨_, reached.append continued⟩

/-- One move prolongs a run. -/
theorem Reachable.step (reached : Reachable fire allowed start state) (move : M) (permitted : allowed state move)
    (fired : fire state move = some next) : Reachable fire allowed start next := by
  obtain ⟨_, run⟩ := reached
  exact ⟨_, .step move run permitted fired⟩

/-- A property that holds at the start and is kept by every step holds in every reachable state. -/
theorem Reachable.invariant (Invariant : S → Prop) (base : Invariant start)
    (kept : ∀ {state next} move, Invariant state → allowed state move → fire state move = some next →
      Invariant next)
    (reached : Reachable fire allowed start state) : Invariant state := by
  obtain ⟨_, run⟩ := reached
  exact run.invariant Invariant base fun move _ holds permitted fired => kept move holds permitted fired

/-- A list of moves that can be followed is a run. -/
theorem reachable_of_drive [∀ state move, Decidable (allowed state move)] {moves : List M}
    (driven : drive fire allowed state moves = some next) : Reachable fire allowed state next := by
  induction moves generalizing state with
  | nil =>
      cases driven
      exact .refl
  | cons move rest inductionHypothesis =>
      unfold drive at driven
      split at driven
      · next permitted =>
          obtain ⟨between, fired, driven⟩ := Option.bind_eq_some_iff.mp driven
          exact (Reachable.refl.step move permitted fired).trans (inductionHypothesis driven)
      · cases driven

/-- A test that holds at the end of a list of moves holds in a reachable state. -/
theorem exists_reachable (fire : S → M → Option S) (allowed : S → M → Prop)
    [∀ state move, Decidable (allowed state move)] (start : S) (moves : List M) (test : S → Bool)
    (passes : (drive fire allowed start moves).any test = true) :
    ∃ state, Reachable fire allowed start state ∧ test state = true := by
  cases driven : drive fire allowed start moves with
  | none => simp [driven] at passes
  | some state => exact ⟨state, reachable_of_drive driven, by simpa [driven] using passes⟩

/-- Where every step lowers a measure, the measure bounds the number of steps. -/
theorem Run.length_add_le (measure : S → Nat)
    (lower : ∀ {history state next} move, Run fire allowed start history state → allowed state move →
      fire state move = some next → measure next < measure state)
    (reached : Run fire allowed start history state) : history.length + measure state ≤ measure start := by
  induction reached with
  | start => simp
  | step move before permitted fired inductionHypothesis =>
      have less := lower move before permitted fired
      simp only [List.length_cons]
      omega

/-- Where every step lowers a measure and every unfinished state can move, every run can be finished. -/
theorem Reachable.exists_finished (Finished : S → Prop) (measure : S → Nat)
    (lower : ∀ {state next} move, Reachable fire allowed start state → allowed state move →
      fire state move = some next → measure next < measure state)
    (progress : ∀ {state}, Reachable fire allowed start state → ¬ Finished state →
      ∃ move next, allowed state move ∧ fire state move = some next)
    (reached : Reachable fire allowed start state) :
    ∃ final, Reachable fire allowed state final ∧ Finished final := by
  induction size : measure state using Nat.strongRecOn generalizing state with
  | ind size inductionHypothesis =>
      by_cases finished : Finished state
      · exact ⟨state, .refl, finished⟩
      · obtain ⟨move, next, permitted, fired⟩ := progress reached finished
        have less := lower move reached permitted fired
        obtain ⟨final, continued, done⟩ :=
          inductionHypothesis _ (size ▸ less) (reached.step move permitted fired) rfl
        exact ⟨final, (Reachable.refl.step move permitted fired).trans continued, done⟩

end OSLabs.Transition
