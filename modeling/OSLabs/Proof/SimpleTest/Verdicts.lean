import OSLabs.Construction.SimpleTest
import OSLabs.Proof.Process.Crew

namespace OSLabs.SimpleTest

open Transition Process

/-- The processes of `simple_test.c`. -/
abbrev State := Config Place Unit Line

/-- How the process of a test ends. -/
def Outcome.termination : Outcome → Termination
  | .passed => .exit 0
  | .failed => .exit 1
  | .killed signal core => .killed signal core

/-- What the process of test `k` does. -/
def ChildFits (tests : List Outcome) (k : Nat) : Status Place Unit → Prop
  | .running (.test j) => j = k
  | .zombie termination | .reaped termination => termination = (tests.getD k .passed).termination
  | _ => False

/-- The process of test `k` has been waited for. -/
def seen (config : State) (k : Nat) : Bool := (config.status (k + 2)).any Status.isReaped

/-- The number of tests with such an outcome whose processes have been waited for. -/
def seenCount (tests : List Outcome) (config : State) (test : Outcome → Bool) : Nat :=
  ((Finset.range tests.length).filter fun k => test (tests.getD k .passed) && seen config k).card

/-- The printed verdicts are those of the processes that have been waited for, except for so many. -/
def Balanced (tests : List Outcome) (config : State) (passed failed : Nat) : Prop :=
  config.output.count .testPassed + passed = seenCount tests config (· = .passed) ∧
    config.output.count .testFailed + failed = seenCount tests config (· = .failed) ∧
    config.output.count .testCrashed = 0

/-- What holds at each place of the main process. -/
def MainFits (tests : List Outcome) (config : State) (started ended : Nat) : Option (Status Place Unit) → Prop
  | some (.running (.addTest numTests)) => numTests ≤ tests.length ∧ started = 0 ∧ Balanced tests config 0 0
  | some (.running (.setup j)) => j ≤ tests.length ∧ started = j ∧ Balanced tests config 0 0
  | some (.running (.fork j)) => j < tests.length ∧ started = j ∧ Balanced tests config 0 0
  | some (.running (.collect i)) =>
      started = tests.length ∧ (0 < i → ended = started) ∧ Balanced tests config 0 0
  | some (.running (.wait i)) => i < tests.length ∧ started = tests.length ∧ Balanced tests config 0 0
  | some (.running (.verdict i status)) => i < tests.length ∧ started = tests.length ∧
      ∃ outcome : Outcome, status = outcome.termination.word ∧
        Balanced tests config (if outcome = .passed then 1 else 0) (if outcome = .failed then 1 else 0)
  | some (.running (.printPassed i)) => i < tests.length ∧ started = tests.length ∧ Balanced tests config 1 0
  | some (.running (.printFailed i)) => i < tests.length ∧ started = tests.length ∧ Balanced tests config 0 1
  | some (.running .return) | some (.zombie _) =>
      started = tests.length ∧ ended = started ∧ Balanced tests config 0 0
  | _ => False

/-- The invariant of the test runner. -/
structure Standing (tests : List Outcome) (config : State) (started ended : Nat) : Prop where
  crew : Crew (ChildFits tests) config started ended
  main : MainFits tests config started ended (config.status 1)

section
variable {tests : List Outcome} {config next : State} {started ended : Nat}

/-- The number of tests with an outcome does not change when the same processes have been waited for. -/
theorem seenCount_congr (same : ∀ k, seen next k = seen config k) (test : Outcome → Bool) :
    seenCount tests next test = seenCount tests config test := by
  simp only [seenCount, same]

/-- One more process has been waited for. -/
theorem seenCount_reap {k : Nat} (inRange : k < tests.length) (unseen : seen config k = false)
    (now : seen next k = true) (others : ∀ j, j ≠ k → seen next j = seen config j) (test : Outcome → Bool) :
    seenCount tests next test = seenCount tests config test + if test (tests.getD k .passed) then 1 else 0 := by
  have outside : k ∉ (Finset.range tests.length).filter fun k =>
      (test (tests.getD k .passed) && seen config k) = true := by
    simp [unseen]
  unfold seenCount
  split
  · next isSuch =>
      rw [← Finset.card_insert_of_notMem outside]
      congr 1
      ext j
      by_cases same : j = k
      · subst same
        simp only [Finset.mem_filter, Finset.mem_range, Finset.mem_insert, isSuch, now]
        simp [inRange]
      · simp [same, others j same]
  · next notSuch =>
      refine congrArg Finset.card (Finset.filter_congr fun j _ => ?_)
      by_cases same : j = k
      · subst same
        simp only [notSuch, Bool.false_and]
      · rw [others j same]

/-- When all processes have been waited for, all tests are counted. -/
theorem card_filter_getD (tests : List Outcome) (test : Outcome → Bool) :
    ((Finset.range tests.length).filter fun k => test (tests.getD k .passed) = true).card = tests.countP test := by
  induction tests using List.reverseRecOn with
  | nil => rfl
  | append_singleton tests last inductionHypothesis =>
      have before : ∀ k ∈ Finset.range tests.length,
          (test ((tests ++ [last]).getD k .passed) = true ↔ test (tests.getD k .passed) = true) := by
        intro k inRange
        simp [List.getElem?_append_left (Finset.mem_range.mp inRange)]
      have final : (tests ++ [last]).getD tests.length .passed = last := by simp
      rw [List.length_append, List.length_singleton, Finset.range_add_one, Finset.filter_insert,
        Finset.filter_congr before, final, List.countP_append, List.countP_singleton, ← inductionHypothesis]
      split
      · rw [Finset.card_insert_of_notMem (by simp)]
      · rfl

theorem balanced_congr (same : ∀ k, seen next k = seen config k) (output : next.output = config.output) :
    Balanced tests next = Balanced tests config := by
  funext passed failed
  simp only [Balanced, seenCount_congr same, output]

/-- What holds of the main process does not depend on processes that have not been waited for. -/
theorem MainFits.congr {status : Option (Status Place Unit)} (fits : MainFits tests config started ended status)
    (same : ∀ k, seen next k = seen config k) (output : next.output = config.output) :
    MainFits tests next started ended status := by
  unfold MainFits at fits ⊢
  rw [balanced_congr same output]
  exact fits

/-- A jump of the main process keeps the invariant. -/
theorem Standing.jump (standing : Standing tests config started ended) {place : Place}
    (main : MainFits tests config started ended (some (.running place))) :
    Standing tests (config.setPlace 1 place) started ended := by
  refine ⟨standing.crew.setMain _, ?_⟩
  rw [Config.setPlace_status, Function.update_self]
  exact main.congr (fun k => by simp [seen]) rfl

/-- A line that the main process prints keeps the invariant. -/
theorem Standing.print (standing : Standing tests config started ended) {place : Place} {line : Line}
    (main : MainFits tests (config.print line) started ended (some (.running place))) :
    Standing tests ((config.print line).setPlace 1 place) started ended := by
  refine ⟨(standing.crew.congr rfl rfl rfl rfl rfl : Crew _ (config.print line) _ _).setMain _, ?_⟩
  rw [Config.setPlace_status, Function.update_self]
  exact main.congr (fun k => by simp [seen]) rfl

/-- A child that goes on keeps the invariant. -/
theorem Standing.child (standing : Standing tests config started ended) {k : Nat}
    {before after : Status Place Unit}
    (here : config.status (k + 2) = some before) (kept : after.isReaped = before.isReaped)
    (fits : ChildFits tests k after) : Standing tests (config.setStatus (k + 2) after) started ended := by
  refine ⟨standing.crew.setChild here kept fits, ?_⟩
  have isMain : (config.setStatus (k + 2) after).status 1 = config.status 1 := by simp
  rw [isMain]
  refine standing.main.congr (fun j => ?_) rfl
  by_cases same : j = k
  · simp [seen, same, here, kept]
  · simp [seen, same]

/-- The main process keeps the invariant when it does not wait for a process. -/
theorem Standing.main_run (within : tests.length ≤ maxTests) (standing : Standing tests config started ended)
    (fired : fire (program tests) config (.run 1) = some next) :
    ∃ started, Standing tests next started ended := by
  obtain ⟨place, here, performed⟩ := exists_of_run fired
  have main := standing.main
  rw [here] at main
  cases place with
  | addTest numTests =>
      obtain ⟨bound, none, balanced⟩ := main
      obtain rfl := Option.some.inj performed
      refine ⟨started, standing.jump ?_⟩
      by_cases more : numTests < tests.length
      · have room : numTests ≠ maxTests := by omega
        rw [if_pos more, if_neg room]
        exact ⟨more, none, balanced⟩
      · rw [if_neg more]
        exact ⟨Nat.zero_le _, none, balanced⟩
  | setup j =>
      obtain ⟨bound, rfl, balanced⟩ := main
      by_cases more : started < tests.length
      · simp only [program, SimpleTest.main, more, ↓reduceIte, perform] at performed
        obtain rfl := Option.some.inj performed
        refine ⟨started, standing.print ⟨more, rfl, ?_⟩⟩
        simpa [Balanced, seenCount, seen] using balanced
      · simp only [program, SimpleTest.main, more, ↓reduceIte, perform] at performed
        obtain rfl := Option.some.inj performed
        exact ⟨started, standing.jump ⟨by omega, by simp, balanced⟩⟩
  | fork j =>
      obtain ⟨more, rfl, balanced⟩ := main
      obtain rfl := Option.some.inj performed
      have holds : ChildFits tests started (.running (.test started)) := rfl
      have fresh := standing.crew.fresh
      have same (k : Nat) :
          seen ((config.spawn 1 (.test started)).setPlace 1 (.setup (started + 1))) k = seen config k := by
        by_cases last : k = started
        · simp [seen, last, fresh, Status.isReaped, standing.crew.numbered _ fresh.le]
        · simp [seen, fresh, last]
      refine ⟨started + 1, standing.crew.fork holds _, ?_⟩
      rw [Config.setPlace_status, Function.update_self]
      refine ⟨more, rfl, ?_⟩
      rw [balanced_congr same rfl]
      exact balanced
  | collect i =>
      obtain ⟨all, finished, balanced⟩ := main
      obtain rfl := Option.some.inj performed
      refine ⟨started, standing.jump ?_⟩
      by_cases more : i < tests.length
      · rw [if_pos more]
        exact ⟨more, all, balanced⟩
      · rw [if_neg more]
        refine ⟨all, ?_, balanced⟩
        by_cases first : i = 0
        · have children := standing.crew.children
          omega
        · exact finished (by omega)
  | wait i =>
      obtain ⟨more, all, balanced⟩ := main
      simp only [program, SimpleTest.main, perform] at performed
      split at performed
      · next none =>
          obtain rfl := Option.some.inj performed
          have children := standing.crew.children
          exact ⟨started, standing.jump ⟨all, by omega, balanced⟩⟩
      · cases performed
  | verdict i status =>
      obtain ⟨more, all, outcome, rfl, balanced⟩ := main
      obtain rfl := Option.some.inj performed
      refine ⟨started, standing.jump ?_⟩
      cases outcome with
      | passed => simpa [Outcome.termination, Termination.exit] using ⟨more, all, balanced⟩
      | failed => simpa [Outcome.termination, Termination.exit] using ⟨more, all, balanced⟩
      | killed signal core => simpa [Outcome.termination] using ⟨more, all, balanced⟩
  | printPassed i =>
      obtain ⟨more, all, balanced⟩ := main
      obtain rfl := Option.some.inj performed
      refine ⟨started, standing.print ⟨more, all, ?_⟩⟩
      simpa [Balanced, seenCount, seen] using balanced
  | printFailed i =>
      obtain ⟨more, all, balanced⟩ := main
      obtain rfl := Option.some.inj performed
      refine ⟨started, standing.print ⟨more, all, ?_⟩⟩
      simpa [Balanced, seenCount, seen] using balanced
  | «return» =>
      obtain rfl := Option.some.inj performed
      refine ⟨started, ?_⟩
      rw [standing.crew.quiet.finish_eq]
      refine ⟨standing.crew.setMain _, ?_⟩
      rw [Config.setStatus_status, Function.update_self]
      have ended : MainFits tests config started ended (some (.zombie (.exit 0))) := main
      exact ended.congr (fun k => by simp [seen]) rfl
  | exceeded | abort | test => exact main.elim

/-- Only the main process waits, and only at one place. -/
theorem Standing.exists_of_reap (standing : Standing tests config started ended) {pid child : Nat}
    (fired : fire (program tests) config (.reap pid child) = some next) :
    ∃ k i, k < started ∧ i < tests.length ∧ config.status 1 = some (.running (.wait i)) ∧
      config.status (k + 2) = some (.zombie (tests.getD k .passed).termination) ∧
      next = (config.setStatus (k + 2) (.reaped (tests.getD k .passed).termination)).setPlace 1
        (.verdict i (tests.getD k .passed).termination.word) := by
  obtain ⟨place, termination, after, here, zombie, awaits, parent, rfl⟩ := Process.exists_of_reap fired
  have isMain : pid = 1 := by
    by_contra notMain
    obtain ⟨k, _, rfl, fits⟩ := standing.crew.exists_child here notMain
    cases place with
    | test j =>
        simp only [program, SimpleTest.main] at awaits
        cases outcome : tests.getD j .passed <;> simp only [outcome, Outcome.instr] at awaits <;> cases awaits
    | _ => exact fits
  subst isMain
  obtain ⟨k, below, rfl, fits⟩ := standing.crew.child_of_parent parent zombie
  have main := standing.main
  rw [here] at main
  cases place with
  | wait i =>
      obtain rfl := Option.some.inj awaits
      obtain rfl : termination = (tests.getD k .passed).termination := fits
      exact ⟨k, i, below, main.1, here, zombie, rfl⟩
  | setup j =>
      simp only [program, SimpleTest.main] at awaits
      split at awaits <;> cases awaits
  | test j => exact main.elim
  | _ => cases awaits

/-- A process that the main process waits for gives one verdict more. -/
theorem Standing.reap (standing : Standing tests config started ended) {pid child : Nat}
    (fired : fire (program tests) config (.reap pid child) = some next) :
    Standing tests next started (ended + 1) := by
  obtain ⟨k, i, below, more, here, zombie, rfl⟩ := standing.exists_of_reap fired
  have main := standing.main
  rw [here] at main
  obtain ⟨_, all, balanced⟩ := main
  have holds : ChildFits tests k (.reaped (tests.getD k .passed).termination) := rfl
  refine ⟨standing.crew.reap zombie rfl holds _, ?_⟩
  rw [Config.setPlace_status, Function.update_self]
  have inRange : k < tests.length := by omega
  have unseen : seen config k = false := by simp [seen, zombie, Status.isReaped]
  have counted (test : Outcome → Bool) : seenCount tests
      ((config.setStatus (k + 2) (.reaped (tests.getD k .passed).termination)).setPlace 1
        (.verdict i (tests.getD k .passed).termination.word)) test =
      seenCount tests config test + if test (tests.getD k .passed) then 1 else 0 :=
    seenCount_reap inRange unseen (by simp [seen, Status.isReaped]) (fun j other => by simp [seen, other]) test
  refine ⟨more, all, tests.getD k .passed, rfl, ?_, ?_, balanced.2.2⟩
  · rw [counted, ← balanced.1]
    simp
  · rw [counted, ← balanced.2.1]
    simp

/-- No process of the test runner calls `exec`. -/
theorem not_refused (pid : Nat) : fire (program tests) config (.refuse pid) ≠ some next := by
  intro fired
  obtain ⟨place, image, failed, here, instr, _⟩ := exists_of_refuse fired
  cases place with
  | setup j =>
      simp only [program, SimpleTest.main] at instr
      split at instr <;> cases instr
  | test j =>
      simp only [program, SimpleTest.main] at instr
      cases outcome : tests.getD j .passed <;> simp only [outcome, Outcome.instr] at instr <;> cases instr
  | _ => cases instr

/-- No process of the test runner executes another image. -/
theorem Standing.not_terminated (standing : Standing tests config started ended) (pid : Nat)
    (termination : Termination) : fire (program tests) config (.terminate pid termination) ≠ some next := by
  intro fired
  obtain ⟨image, here, _⟩ := exists_of_terminate fired
  have main := standing.main
  by_cases isMain : pid = 1
  · rw [isMain] at here
    rw [here] at main
    exact main.elim
  · obtain ⟨k, _, _, fits⟩ := standing.crew.exists_child here isMain
    exact fits.elim

/-- Every move keeps the invariant. -/
theorem Standing.step (within : tests.length ≤ maxTests) (standing : Standing tests config started ended)
    {move : Move}
    (fired : fire (program tests) config move = some next) :
    ∃ started ended, Standing tests next started ended := by
  cases move with
  | run pid =>
      by_cases isMain : pid = 1
      · subst isMain
        obtain ⟨started, after⟩ := standing.main_run within fired
        exact ⟨started, ended, after⟩
      · obtain ⟨place, here, performed⟩ := exists_of_run fired
        obtain ⟨k, _, rfl, fits⟩ := standing.crew.exists_child here isMain
        cases place with
        | test j =>
            obtain rfl : j = k := fits
            refine ⟨started, ended, ?_⟩
            simp only [program, SimpleTest.main] at performed
            cases outcome : tests.getD j .passed <;> simp only [outcome, Outcome.instr, perform] at performed
            all_goals
              obtain rfl := Option.some.inj performed
              rw [standing.crew.quiet.finish_eq]
              exact standing.child here rfl (by simp only [ChildFits, outcome, Outcome.termination])
        | _ => exact fits.elim
  | refuse pid => exact absurd fired (not_refused pid)
  | reap pid child => exact ⟨started, ended + 1, standing.reap fired⟩
  | deliver pid signal =>
      obtain ⟨_, _, waiting, _⟩ := exists_of_deliver fired
      simp [standing.crew.quiet.1 pid] at waiting
  | terminate pid termination => exact absurd fired (standing.not_terminated pid termination)

/-- Every run meets the invariant. -/
theorem exists_standing (within : tests.length ≤ maxTests)
    (reached : Reachable (fire (program tests)) Free start config) :
    ∃ started ended, Standing tests config started ended := by
  have unseen (k : Nat) : seen start k = false := by simp [seen, start, Config.initial]
  have silent : start.output = [] := rfl
  have balanced : Balanced tests start 0 0 := by simp [Balanced, seenCount, unseen, silent]
  have first : Standing tests start 0 0 := ⟨crew_initial _, Nat.zero_le _, rfl, balanced⟩
  refine reached.invariant (fun config => ∃ started ended, Standing tests config started ended) ⟨0, 0, first⟩
    fun move holds _ fired => ?_
  obtain ⟨started, ended, standing⟩ := holds
  exact standing.step within fired

/-- What a process has still to do when there are so many tests. -/
def weight (numTests : Nat) : Status Place Unit → Nat
  | .running (.addTest k) => numTests - k + 9 * numTests + 8
  | .running (.setup j) => 7 * (numTests - j) + 2 * numTests + 7
  | .running (.fork j) => 7 * (numTests - j) + 2 * numTests + 6
  | .running (.collect i) => 2 * (numTests - i) + 5
  | .running (.wait i) => 2 * (numTests - i) + 4
  | .running (.verdict i _) => 2 * (numTests - i) + 6
  | .running (.printPassed i) | .running (.printFailed i) => 2 * (numTests - i) + 5
  | .running .exceeded => 5
  | .running (.test _) | .running .abort | .running .return | .executing _ => 4
  | .zombie _ => 3
  | .reaped _ => 0

/-- Every move lowers the measure. -/
theorem Standing.lower (within : tests.length ≤ maxTests) (standing : Standing tests config started ended)
    {move : Move}
    (fired : fire (program tests) config move = some next) :
    total (weight tests.length) next < total (weight tests.length) config := by
  have numbered := standing.crew.numbered
  have main := standing.main
  cases move with
  | run pid =>
      obtain ⟨place, here, performed⟩ := exists_of_run fired
      by_cases isMain : pid = 1
      · subst isMain
        rw [here] at main
        cases place with
        | addTest numTests =>
            obtain rfl := Option.some.inj performed
            refine total_setStatus_lt _ numbered here ?_
            split
            · split <;> simp only [weight] <;> omega
            · simp only [weight]
              omega
        | setup j =>
            simp only [program, SimpleTest.main] at performed
            split at performed
            · obtain rfl := Option.some.inj performed
              exact total_setStatus_lt _ (numbered.of_status rfl rfl : (config.print _).Numbered) here
                (by simp [weight])
            · obtain rfl := Option.some.inj performed
              refine total_setStatus_lt _ numbered here ?_
              simp only [weight]
              omega
        | fork j =>
            obtain ⟨more, rfl, _⟩ := main
            obtain rfl := Option.some.inj performed
            refine total_fork_lt _ numbered here ?_
            simp only [weight]
            omega
        | collect i =>
            obtain rfl := Option.some.inj performed
            refine total_setStatus_lt _ numbered here ?_
            split <;> simp only [weight] <;> omega
        | wait i =>
            simp only [program, SimpleTest.main, perform] at performed
            split at performed
            · obtain rfl := Option.some.inj performed
              refine total_setStatus_lt _ numbered here ?_
              have more := main.1
              simp only [weight]
              omega
            · cases performed
        | verdict i status =>
            obtain rfl := Option.some.inj performed
            refine total_setStatus_lt _ numbered here ?_
            split
            · simp [weight]
            · split <;> simp [weight]
        | printPassed i | printFailed i =>
            obtain rfl := Option.some.inj performed
            exact total_setStatus_lt _ (numbered.of_status rfl rfl : (config.print _).Numbered)
              here (by simp [weight])
        | «return» =>
            obtain rfl := Option.some.inj performed
            rw [standing.crew.quiet.finish_eq]
            exact total_setStatus_lt _ numbered here (by simp [weight])
        | exceeded | abort | test => exact main.elim
      · obtain ⟨k, _, rfl, fits⟩ := standing.crew.exists_child here isMain
        cases place with
        | test j =>
            simp only [program, SimpleTest.main] at performed
            cases outcome : tests.getD j .passed <;> simp only [outcome, Outcome.instr, perform] at performed
            all_goals
              obtain rfl := Option.some.inj performed
              rw [standing.crew.quiet.finish_eq]
              exact total_setStatus_lt _ numbered here (by simp [weight])
        | _ => exact fits.elim
  | refuse pid =>
      exact absurd fired (not_refused pid)
  | reap pid child =>
      obtain ⟨k, i, below, more, here, zombie, rfl⟩ := standing.exists_of_reap fired
      refine total_reap_lt _ numbered here zombie ?_
      simp only [weight]
      omega
  | deliver pid signal =>
      obtain ⟨_, _, waiting, _⟩ := exists_of_deliver fired
      simp [standing.crew.quiet.1 pid] at waiting
  | terminate pid termination => exact absurd fired (standing.not_terminated pid termination)

/-- As long as the main process has not ended, some move is possible. -/
theorem Standing.progress (standing : Standing tests config started ended) (alive : ¬ Ended config) :
    ∃ move next, Free config move ∧ fire (program tests) config move = some next := by
  have main := standing.main
  cases here : config.status 1 with
  | none => simp [here, MainFits] at main
  | some status =>
      rw [here] at main
      cases status with
      | running place =>
          cases place with
          | setup j =>
              refine ⟨.run 1, ?_⟩
              rw [fire_run here]
              simp only [program, SimpleTest.main]
              split
              · exact ⟨_, trivial, rfl⟩
              · exact ⟨_, trivial, rfl⟩
          | wait i =>
              obtain ⟨more, all, _⟩ := main
              have children := standing.crew.children
              by_cases finished : ended = started
              · refine ⟨.run 1, config.setPlace 1 (.collect (i + 1)), trivial, ?_⟩
                rw [fire_run here]
                exact if_pos (by omega)
              · obtain ⟨k, status, below, there, unreaped, fits⟩ := standing.crew.exists_unreaped (by omega)
                cases status with
                | running place =>
                    cases place with
                    | test j =>
                        refine ⟨.run (k + 2), ?_⟩
                        rw [fire_run there]
                        simp only [program, SimpleTest.main]
                        cases tests.getD j .passed <;> exact ⟨_, trivial, rfl⟩
                    | _ => exact fits.elim
                | executing image => exact fits.elim
                | zombie termination =>
                    exact ⟨.reap 1 (k + 2), _, trivial, fire_reap here there rfl (standing.crew.parents k below)⟩
                | reaped termination => cases unreaped
          | exceeded | abort | test => exact main.elim
          | _ => exact ⟨.run 1, _, trivial, fire_run here⟩
      | executing image => exact main.elim
      | zombie termination => exact absurd ⟨termination, here⟩ alive
      | reaped termination => exact main.elim

/-- When the main process has ended, it has waited for all tests
and has printed the verdicts of those that were not killed. -/
theorem Standing.verdicts (standing : Standing tests config started ended) (finished : Ended config) :
    config.output.count .testPassed = tests.count .passed ∧ config.output.count .testFailed = tests.count .failed ∧
      config.output.count .testCrashed = 0 ∧ config.children 1 = 0 := by
  obtain ⟨termination, here⟩ := finished
  have main := standing.main
  rw [here] at main
  obtain ⟨all, waited, passed, failed, crashed⟩ := main
  have children := standing.crew.children
  have whole (test : Outcome → Bool) : seenCount tests config test = tests.countP test := by
    rw [← card_filter_getD]
    unfold seenCount
    refine congrArg Finset.card (Finset.filter_congr fun k inRange => ?_)
    obtain ⟨termination, reaped, _⟩ := standing.crew.exists_reaped waited (all ▸ Finset.mem_range.mp inRange)
    simp [seen, reaped, Status.isReaped]
  refine ⟨?_, ?_, crashed, by omega⟩
  · rw [Nat.add_zero, whole] at passed
    simpa [List.count, Bool.beq_eq_decide_eq] using passed
  · rw [Nat.add_zero, whole] at failed
    simpa [List.count, Bool.beq_eq_decide_eq] using failed

/-- Every run can be finished. -/
theorem exists_ended (within : tests.length ≤ maxTests) :
    ∃ config, Reachable (fire (program tests)) Free start config ∧ Ended config := by
  have first : Reachable (fire (program tests)) Free start start := .refl
  refine first.exists_finished Ended (total (weight tests.length)) ?_ ?_
  · intro state next move before _ fired
    obtain ⟨started, ended, standing⟩ := exists_standing within before
    exact standing.lower within fired
  · intro state before alive
    obtain ⟨started, ended, standing⟩ := exists_standing within before
    exact standing.progress alive

/-- The verdicts are right in all runs if and only if no test is killed by a signal.
All test processes are waited for in any case, every run is finite, and it can only stop when the main process has
ended. -/
theorem verdicts_right (tests : List Outcome) (within : tests.length ≤ maxTests) :
    ((∀ config, Reachable (fire (program tests)) Free start config → Ended config → Verdicts tests config) ↔
      ∀ outcome ∈ tests, outcome.isKilled = false) ∧
    (∀ config, Reachable (fire (program tests)) Free start config → Ended config →
      config.output.count .testPassed = tests.count .passed ∧
        config.output.count .testFailed = tests.count .failed ∧
        config.children 1 = 0) ∧
    ∀ history config, Run (fire (program tests)) Free start history config →
      history.length ≤ 10 * tests.length + 8 ∧
        ((∃ move next, fire (program tests) config move = some next) ∨ Ended config) := by
  refine ⟨⟨fun right outcome member => ?_, fun unkilled config reached finished => ?_⟩,
    fun config reached finished => ?_,
    fun history config reached => ⟨?_, ?_⟩⟩
  · obtain ⟨config, reached, finished⟩ := exists_ended within
    obtain ⟨started, ended, standing⟩ := exists_standing within reached
    have crashed := (right config reached finished).2.2.1
    rw [(standing.verdicts finished).2.2.1, eq_comm, List.countP_eq_zero] at crashed
    exact Bool.eq_false_iff.mpr (crashed outcome member)
  · obtain ⟨started, ended, standing⟩ := exists_standing within reached
    obtain ⟨passed, failed, crashed, waited⟩ := standing.verdicts finished
    refine ⟨passed, failed, ?_, waited⟩
    rw [crashed, eq_comm, List.countP_eq_zero]
    intro outcome member
    simp [unkilled outcome member]
  · obtain ⟨started, ended, standing⟩ := exists_standing within reached
    obtain ⟨passed, failed, _, waited⟩ := standing.verdicts finished
    exact ⟨passed, failed, waited⟩
  · have bounded := reached.length_add_le (total (weight tests.length)) fun move before _ fired => by
      obtain ⟨started, ended, standing⟩ := exists_standing within ⟨_, before.free⟩
      exact standing.lower within fired
    have first : total (weight tests.length) start = 10 * tests.length + 8 := by
      simp [total, start, Config.initial, weight, Finset.sum_range_succ]
      omega
    omega
  · obtain ⟨started, ended, standing⟩ := exists_standing within ⟨_, reached⟩
    by_cases finished : Ended config
    · exact .inr finished
    · obtain ⟨move, next, _, fired⟩ := standing.progress finished
      exact .inl ⟨move, next, fired⟩

/-- A test that is killed by a segmentation fault, as `test4` is. -/
def crashing : List Outcome := [.passed, .killed .segv true]

/-- The main process ends without a verdict for the test that was killed. -/
theorem crash_unnoticed : ∃ config : State, Reachable (fire (program crashing)) Free start config ∧ Ended config ∧
    config.output = [.testPassed, .startingSetup, .startingSetup] ∧ ¬ Verdicts crashing config := by
  obtain ⟨config, reached, holds⟩ := exists_reachable (fire (program crashing)) Free start
    (List.replicate 8 (Move.run 1) ++ [Move.run 2, .run 3, .run 1, .reap 1 2, .run 1, .run 1, .reap 1 3,
      .run 1, .run 1, .run 1,
      .run 1, .run 1, .run 1])
    (fun config => decide (config.status 1 = some (.zombie (.exit 0))) &&
      decide (config.output = [.testPassed, .startingSetup, .startingSetup])) (by decide)
  rw [Bool.and_eq_true, decide_eq_true_eq, decide_eq_true_eq] at holds
  refine ⟨config, reached, ⟨_, holds.1⟩, holds.2, fun right => ?_⟩
  have crashed := right.2.2.1
  rw [holds.2] at crashed
  exact absurd crashed (by decide)

/-- With two tests that pass and one that fails. -/
theorem verdicts_right_three :
    (∀ config, Reachable (fire (program [.passed, .passed, .failed])) Free start config → Ended config →
      Verdicts [.passed, .passed, .failed] config) ↔
        ∀ outcome ∈ [Outcome.passed, .passed, .failed], outcome.isKilled = false :=
  (verdicts_right [.passed, .passed, .failed] (by decide)).1

end

end OSLabs.SimpleTest
