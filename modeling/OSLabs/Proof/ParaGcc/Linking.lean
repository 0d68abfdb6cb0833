import OSLabs.Proof.ParaGcc.Scheduling

namespace OSLabs.ParaGcc

open Transition Process

section
variable {files : List (List UInt8)} {maxGccs : Nat} {outcome : Nat → Termination} {config : State}
  {started ended : Nat}

/-- A compilation that passes the test of main has exited with zero or was killed. -/
theorem eq_exit_or_killed {termination : Termination} (zero : wExitStatus termination.word = 0) :
    termination = .exit 0 ∨ ∃ signal core, termination = .killed signal core := by
  cases termination with
  | exited code =>
      left
      have isZero : code.val = 0 := by simpa using zero
      exact congrArg Termination.exited (Fin.ext isZero)
  | killed signal core => exact .inr ⟨signal, core, rfl⟩

/-- When main has passed all compilations, each of them has exited with zero or was killed. -/
theorem Standing.outcomes_of_passed (standing : Standing files maxGccs (Outcomes outcome) config started ended)
    (finished : ended = files.length) (passed : Passed config) {k : Nat} (inRange : k < files.length) :
    outcome k = .exit 0 ∨ ∃ signal core, outcome k = .killed signal core := by
  obtain ⟨termination, reaped, isOutcome, _⟩ := standing.reaped_of_ended finished inRange
  rw [← isOutcome]
  exact eq_exit_or_killed (passed.1 k termination reaped)

/-- Where a killed compilation comes with one that exits with another code, main links only after success. -/
theorem Standing.linksAfterSuccess (standing : Standing files maxGccs (Outcomes outcome) config started ended)
    (noticed : (∃ k < files.length, ∃ signal core, outcome k = .killed signal core) →
      ∃ k < files.length, ∃ code, outcome k = .exited code ∧ code ≠ 0) :
    LinksAfterSuccess files.length outcome config := by
  have all (finished : ended = files.length) (passed : Passed config) :
      ∀ k < files.length, outcome k = .exit 0 := by
    intro k inRange
    rcases standing.outcomes_of_passed finished passed inRange with zero | killed
    · exact zero
    · obtain ⟨j, below, code, exited, nonzero⟩ := noticed ⟨k, inRange, killed⟩
      rcases standing.outcomes_of_passed finished passed below with zero | ⟨signal, core, killed⟩
      · rw [exited] at zero
        exact absurd (Termination.exited.inj zero) nonzero
      · simp [exited] at killed
  refine ⟨fun linking => ?_, fun termination zombie wrong => ?_⟩
  · obtain ⟨finished, passed⟩ := standing.over_of_linking linking
    exact all finished passed
  · have main := standing.main
    rw [zombie] at main
    rcases main with ⟨finished, passed, _⟩ | ⟨gaveUp, _, output, _⟩
    · obtain ⟨k, inRange, failed⟩ := wrong
      exact absurd (all finished passed k inRange) failed
    · exact ⟨gaveUp, output⟩

/-- Where no compilation exits with another code, main links. -/
theorem exists_linked (outcome : Nat → Termination) (positive : 1 ≤ maxGccs)
    (unnoticed : ∀ k < files.length, ∀ code, outcome k = .exited code → code = 0) :
    ∃ config termination, Reachable (fire (program files maxGccs)) (Ends (Outcomes outcome)) start config ∧
      config.status 1 = some (.zombie termination) ∧ config.output = [] := by
  have first : Reachable (fire (program files maxGccs)) (Ends (Outcomes outcome)) start start := .refl
  obtain ⟨config, reached, zombie⟩ := first.exists_finished
    (fun config : State => ∃ termination, config.status 1 = some (.zombie termination))
      (total (weight files.length))
    (fun {state next} move before permitted fired => by
      obtain ⟨_, run⟩ := before
      obtain ⟨started, standing⟩ := exists_standing positive run
      exact standing.lower permitted fired)
    (fun {state} before alive => by
      obtain ⟨_, run⟩ := before
      obtain ⟨started, standing⟩ := exists_standing positive run
      exact standing.progress (fun k => ⟨outcome k, rfl⟩) (not_exists.mp alive))
  obtain ⟨termination, here⟩ := zombie
  refine ⟨config, termination, reached, here, ?_⟩
  obtain ⟨_, run⟩ := reached
  obtain ⟨started, standing⟩ := exists_standing positive run
  have main := standing.main
  rw [here] at main
  rcases main with ⟨_, passed, _⟩ | ⟨_, ⟨k, other, reaped, nonzero⟩, _⟩
  · exact passed.2
  · obtain ⟨j, below, same, fits⟩ := standing.crew.exists_child reaped (by omega)
    obtain rfl : k = j := by omega
    obtain rfl : other = outcome k := fits
    have inRange := below.trans_le standing.within
    cases isOutcome : outcome k with
    | exited code =>
        obtain rfl := unnoticed k inRange code isOutcome
        simp [isOutcome] at nonzero
    | killed signal core => simp [isOutcome] at nonzero

/-- Main links only after success in all runs if and only if a killed compilation never comes without one that
exits with another code than zero.
Every run is finite, and it can only stop when main has ended. -/
theorem links_after_success (files : List (List UInt8)) (maxGccs : Nat) (positive : 1 ≤ maxGccs)
    (outcome : Nat → Termination) :
    ((∀ config, Reachable (fire (program files maxGccs)) (Ends (Outcomes outcome)) start config →
        LinksAfterSuccess files.length outcome config) ↔
      ((∃ k < files.length, ∃ signal core, outcome k = .killed signal core) →
        ∃ k < files.length, ∃ code, outcome k = .exited code ∧ code ≠ 0)) ∧
    ∀ history config, Run (fire (program files maxGccs)) (Ends (Outcomes outcome)) start history config →
      history.length ≤ 10 * files.length + 4 ∧
        ((∃ move next, Ends (Outcomes outcome) config move ∧
          fire (program files maxGccs) config move = some next) ∨
          ∃ termination, config.status 1 = some (.zombie termination)) := by
  refine ⟨⟨fun right killed => ?_, fun noticed config reached => ?_⟩,
    fun history config reached => ⟨run_length_le positive reached, ?_⟩⟩
  · by_contra unnoticed
    obtain ⟨config, termination, reached, zombie, output⟩ := exists_linked outcome positive
      fun k inRange code exited => not_not.mp fun nonzero => unnoticed ⟨k, inRange, code, exited, nonzero⟩
    obtain ⟨k, inRange, signal, core, isKilled⟩ := killed
    have gaveUp := (right config reached).2 termination zombie ⟨k, inRange, by simp [isKilled, Termination.exit]⟩
    simp [output] at gaveUp
  · obtain ⟨_, run⟩ := reached
    obtain ⟨started, standing⟩ := exists_standing positive run
    exact standing.linksAfterSuccess noticed
  · obtain ⟨started, standing⟩ := exists_standing positive reached
    by_cases ended : ∃ termination, config.status 1 = some (.zombie termination)
    · exact .inr ended
    · exact .inl (standing.progress (fun k => ⟨outcome k, rfl⟩) (not_exists.mp ended))

/-- The compilation of this file is killed by a segmentation fault. -/
def crashed (_ : Nat) : Termination := .killed .segv true

/-- Main links after a compilation that was killed. -/
theorem linked_after_crash : ∃ config : State,
    Reachable (fire (program [[97, 46, 99]] 3)) (Ends (Outcomes crashed)) start config ∧
      config.status 1 = some (.executing (.link [[97, 46, 111]])) ∧ ¬ LinksAfterSuccess 1 crashed config := by
  obtain ⟨config, reached, linked⟩ :=
    exists_reachable (fire (program [[97, 46, 99]] 3)) (Ends (Outcomes crashed)) start
    [.run 1, .run 1, .run 2, .terminate 2 (crashed 0), .run 1, .reap 1 2, .run 1, .run 1, .run 1]
    (fun config => decide (config.status 1 = some (.executing (.link [[97, 46, 111]])))) (by decide)
  have here := of_decide_eq_true linked
  exact ⟨config, reached, here, fun right => absurd (right.1 (.inr ⟨_, here⟩) 0 (by decide)) (by decide)⟩

/-- With one file, one `gcc` and a segmentation fault. -/
theorem links_after_success_crashed :
    (∀ config, Reachable (fire (program [[97, 46, 99]] 1)) (Ends (Outcomes crashed)) start config →
        LinksAfterSuccess 1 crashed config) ↔
      ((∃ k < 1, ∃ signal core, crashed k = .killed signal core) → ∃ k < 1, ∃ code, crashed k = .exited code ∧
        code ≠ 0) :=
  (links_after_success [[97, 46, 99]] 1 (by decide) crashed).1

end

end OSLabs.ParaGcc
