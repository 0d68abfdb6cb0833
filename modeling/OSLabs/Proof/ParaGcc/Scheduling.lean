import OSLabs.Construction.ParaGcc
import OSLabs.Proof.Process.Crew

namespace OSLabs.ParaGcc

open Transition Process

/-- The processes of `para_gcc.c`. -/
abbrev State := Config Place Image Line

/-- Every compilation that main has waited for has the exit status zero as main reads it, and main has printed
nothing. -/
def Passed (config : State) : Prop :=
  (∀ k termination, config.status (k + 2) = some (.reaped termination) → wExitStatus termination.word = 0) ∧
    config.output = []

/-- Main has waited for a compilation with another exit status. -/
def Failed (config : State) : Prop :=
  ∃ k termination, config.status (k + 2) = some (.reaped termination) ∧ wExitStatus termination.word ≠ 0

/-- The place of main, the two counters, and the calls of `exec` that main has made. -/
def MainFits (files : List (List UInt8)) (maxGccs started ended : Nat) (passed failed : Prop) (output : List Line)
    (calls : List (Nat × Image)) : Option (Status Place Image) → Prop
  | some (.running (.loop a b)) => a = started ∧ b = ended ∧ passed ∧ calls = []
  | some (.running (.fork a b)) =>
      a = started ∧ b = ended ∧ a < files.length ∧ a < b + maxGccs ∧ passed ∧ calls = []
  | some (.running (.wait a b)) => a = started ∧ b = ended ∧ b < a ∧ passed ∧ calls = []
  | some (.running (.check a b status)) => a = started ∧ b = ended ∧ (wExitStatus status = 0 → passed) ∧
      (wExitStatus status ≠ 0 → failed) ∧ output = [] ∧ calls = []
  | some (.running .childFailed) => failed ∧ output = [] ∧ calls = []
  | some (.running .abort) => failed ∧ output = [.childFailed] ∧ calls = []
  | some (.running .link) => ended = files.length ∧ passed ∧ calls = []
  | some (.executing (.link _)) =>
      ended = files.length ∧ passed ∧ calls = [(1, .link (files.map replaceDotcWithDoto))]
  | some (.zombie termination) =>
      ended = files.length ∧ passed ∧ calls = [(1, .link (files.map replaceDotcWithDoto))] ∨
        termination = .exit 1 ∧ failed ∧ output = [.childFailed] ∧ calls = []
  | _ => False

/-- What the process of compilation `k` does. -/
def ChildFits (files : List (List UInt8)) (possible : Nat → Termination → Prop) (k : Nat) :
    Status Place Image → Prop
  | .running (.compile a _) => a = k
  | .executing image => image = .compile (files.getD k [])
  | .zombie termination | .reaped termination => possible k termination
  | _ => False

/-- The calls of `exec` that the process of compilation `k` has made. -/
def childCalls (files : List (List UInt8)) (k : Nat) : Status Place Image → List (Nat × Image)
  | .running _ => []
  | _ => [(k + 2, .compile (files.getD k []))]

/-- The invariant of the processes when main has started and waited for so many compilations. -/
structure Standing (files : List (List UInt8)) (maxGccs : Nat) (possible : Nat → Termination → Prop)
    (config : State)
    (started ended : Nat) : Prop where
  crew : Crew (ChildFits files possible) config started ended
  within : started ≤ files.length
  limited : started ≤ ended + maxGccs
  called : ∀ k status, config.status (k + 2) = some status → calls config (k + 2) = childCalls files k status
  uncalled : ∀ k, config.status (k + 2) = none → calls config (k + 2) = []
  noRoot : calls config 0 = []
  main : MainFits files maxGccs started ended (Passed config) (Failed config) config.output (calls config 1)
    (config.status 1)

section
variable {files : List (List UInt8)} {maxGccs : Nat} {possible : Nat → Termination → Prop} {config next : State}
  {started ended : Nat}

/-- The place of main fits also when the same compilations have failed. -/
theorem MainFits.congr {passed failed passed' failed' : Prop} {output : List Line} {calls : List (Nat × Image)}
    {status : Option (Status Place Image)}
    (fits : MainFits files maxGccs started ended passed failed output calls status)
    (samePassed : passed ↔ passed') (sameFailed : failed ↔ failed') :
    MainFits files maxGccs started ended passed' failed' output calls status := by
  rw [← propext samePassed, ← propext sameFailed]
  exact fits

/-- Main calls `exec` at most once, to link. -/
theorem MainFits.calls_eq {passed failed : Prop} {output : List Line} {calls : List (Nat × Image)}
    {status : Option (Status Place Image)}
    (fits : MainFits files maxGccs started ended passed failed output calls status) :
    calls = [] ∨ calls = [(1, .link (files.map replaceDotcWithDoto))] := by
  unfold MainFits at fits
  split at fits <;> grind

/-- A move of main that starts no compilation keeps the invariant. -/
theorem Standing.of_main (standing : Standing files maxGccs possible config started ended) {before : State}
    {status : Status Place Image} (same : before = { config with output := before.output, execs := before.execs })
    (execs : ∀ pid, pid ≠ 1 → calls before pid = calls config pid)
    (main : MainFits files maxGccs started ended (Passed before) (Failed before) before.output (calls before 1)
      (some status)) : Standing files maxGccs possible (before.setStatus 1 status) started ended := by
  have child (k : Nat) : (before.setStatus 1 status).status (k + 2) = config.status (k + 2) := by
    rw [same]
    simp
  have crew : Crew (ChildFits files possible) before started ended := by
    rw [same]
    exact standing.crew.congr rfl rfl rfl rfl rfl
  refine ⟨crew.setMain status, standing.within, standing.limited, fun k status there => ?_, fun k none => ?_,
    (execs 0 (by decide)).trans standing.noRoot, ?_⟩
  · rw [child] at there
    exact (execs _ (by omega)).trans (standing.called k status there)
  · rw [child] at none
    exact (execs _ (by omega)).trans (standing.uncalled k none)
  · rw [Config.setStatus_status, Function.update_self]
    exact main.congr (by simp [Passed]) (by simp [Failed])

/-- A move of a compilation that main has still to wait for keeps the invariant. -/
theorem Standing.of_child (standing : Standing files maxGccs possible config started ended) {before : State}
    {k : Nat}
    {here there : Status Place Image} (same : before = { config with execs := before.execs })
    (first : config.status (k + 2) = some here) (firstUnreaped : here.isReaped = false)
    (lastUnreaped : there.isReaped = false) (execs : ∀ pid, pid ≠ k + 2 → calls before pid = calls config pid)
    (called : calls before (k + 2) = childCalls files k there) (fits : ChildFits files possible k there) :
    Standing files maxGccs possible (before.setStatus (k + 2) there) started ended := by
  have other (j : Nat) (different : j ≠ k) :
      (before.setStatus (k + 2) there).status (j + 2) = config.status (j + 2) := by
    rw [same]
    simp [different]
  have isMain : (before.setStatus (k + 2) there).status 1 = config.status 1 := by
    rw [same]
    simp
  have own : (before.setStatus (k + 2) there).status (k + 2) = some there := Function.update_self ..
  have reaped (j : Nat) (termination : Termination) :
      (before.setStatus (k + 2) there).status (j + 2) = some (.reaped termination) ↔
        config.status (j + 2) = some (.reaped termination) := by
    by_cases equal : j = k
    · subst equal
      rw [own, first]
      constructor
      · rintro ⟨⟩
        cases lastUnreaped
      · rintro ⟨⟩
        cases firstUnreaped
    · rw [other j equal]
  have output : before.output = config.output := by rw [same]
  have crew : Crew (ChildFits files possible) before started ended := by
    rw [same]
    exact standing.crew.congr rfl rfl rfl rfl rfl
  have unmoved : before.status (k + 2) = some here := by
    rw [same]
    exact first
  refine ⟨crew.setChild unmoved (lastUnreaped.trans firstUnreaped.symm) fits, standing.within, standing.limited,
    fun j status there => ?_, fun j none => ?_, (execs 0 (by omega)).trans standing.noRoot, ?_⟩
  · by_cases equal : j = k
    · subst equal
      obtain rfl := Option.some.inj (own.symm.trans there)
      exact called
    · rw [other j equal] at there
      exact (execs _ (by omega)).trans (standing.called j status there)
  · by_cases equal : j = k
    · subst equal
      cases own.symm.trans none
    · rw [other j equal] at none
      exact (execs _ (by omega)).trans (standing.uncalled j none)
  · rw [isMain, Config.setStatus_output, output]
    show MainFits files maxGccs started ended _ _ config.output (calls before 1) (config.status 1)
    rw [execs 1 (by omega)]
    refine standing.main.congr ?_ ?_
    · simp only [Passed, reaped, Config.setStatus_output, output]
    · simp only [Failed, reaped]

/-- Main starts the next compilation. -/
theorem Standing.fork (standing : Standing files maxGccs possible config started ended)
    (here : config.status 1 = some (.running (.fork started ended)))
    (fired : fire (program files maxGccs) config (.run 1) = some next) :
    Standing files maxGccs possible next (started + 1) ended := by
  have main := standing.main
  rw [here] at main
  obtain ⟨-, -, inRange, room, passed, uncalled⟩ := main
  rw [fire_run here] at fired
  obtain rfl := Option.some.inj fired
  have fresh := standing.crew.fresh
  have holds : ChildFits files possible started (.running (.compile started ended)) := rfl
  have absent : config.status (started + 2) = none := standing.crew.numbered _ fresh.le
  have child (k : Nat) : ((config.spawn 1 (.compile started ended)).setPlace 1 (.loop (started + 1) ended)).status
      (k + 2) = if k = started then some (.running (.compile started ended)) else config.status (k + 2) := by
    split
    · next same => simp [same, fresh]
    · next other => simp [fresh, other]
  have reaped (k : Nat) (termination : Termination) :
      ((config.spawn 1 (.compile started ended)).setPlace 1 (.loop (started + 1) ended)).status (k + 2) =
        some (.reaped termination) ↔ config.status (k + 2) = some (.reaped termination) := by
    rw [child]
    split
    · next last => simp [last, absent]
    · rfl
  refine ⟨standing.crew.fork holds _, inRange, room, fun k status there => ?_, fun k none => ?_,
    standing.noRoot, ?_⟩
  · rw [child] at there
    split at there
    · next last =>
        subst last
        obtain rfl := Option.some.inj there
        exact standing.uncalled k absent
    · exact standing.called k status there
  · rw [child] at none
    split at none
    · cases none
    · exact standing.uncalled k none
  · have loop : MainFits files maxGccs (started + 1) ended (Passed config) (Failed config) config.output
        (calls config 1) (some (.running (.loop (started + 1) ended))) := ⟨rfl, rfl, passed, uncalled⟩
    simp only [Config.setPlace_status, Function.update_self]
    refine loop.congr ?_ ?_
    · simp only [Passed, reaped]
      rfl
    · simp only [Failed, reaped]

/-- Only main waits, and only at one place. -/
theorem Standing.exists_of_reap (standing : Standing files maxGccs possible config started ended) {pid child : Nat}
    (fired : fire (program files maxGccs) config (.reap pid child) = some next) :
    pid = 1 ∧ ∃ k termination, k < started ∧ config.status 1 = some (.running (.wait started ended)) ∧
      config.status (k + 2) = some (.zombie termination) ∧ possible k termination ∧
      next = (config.setStatus (k + 2) (.reaped termination)).setPlace 1
        (.check started (ended + 1) termination.word) := by
  obtain ⟨place, termination, after, here, zombie, awaits, parent, rfl⟩ := Process.exists_of_reap fired
  have isMain : pid = 1 := by
    by_contra notMain
    obtain ⟨k, _, _, fits⟩ := standing.crew.exists_child here notMain
    cases place with
    | compile => cases awaits
    | _ => exact fits
  subst isMain
  obtain ⟨k, below, rfl, fits⟩ := standing.crew.child_of_parent parent zombie
  have main := standing.main
  rw [here] at main
  cases place with
  | wait a b =>
      obtain ⟨rfl, rfl, _⟩ := main
      obtain rfl := Option.some.inj awaits
      exact ⟨rfl, k, termination, below, here, zombie, fits, rfl⟩
  | _ => cases awaits

/-- Main waits for a compilation. -/
theorem Standing.reap (standing : Standing files maxGccs possible config started ended) {pid child : Nat}
    (fired : fire (program files maxGccs) config (.reap pid child) = some next) :
    Standing files maxGccs possible next started (ended + 1) := by
  obtain ⟨_, k, termination, below, here, zombie, isPossible, rfl⟩ := standing.exists_of_reap fired
  have main := standing.main
  rw [here] at main
  obtain ⟨_, _, waiting, passed, uncalled⟩ := main
  have holds : ChildFits files possible k (.reaped termination) := isPossible
  have child (j : Nat) : ((config.setStatus (k + 2) (.reaped termination)).setPlace 1
      (.check started (ended + 1) termination.word)).status (j + 2) =
        if j = k then some (.reaped termination) else config.status (j + 2) := by
    split
    · next same => simp [same]
    · next other => simp [other]
  have limited := standing.limited
  refine ⟨standing.crew.reap zombie rfl holds _,
    standing.within, by omega, fun j status there => ?_, fun j none => ?_,
    standing.noRoot, ?_⟩
  · rw [child] at there
    split at there
    · next same =>
        subst same
        obtain rfl := Option.some.inj there
        exact standing.called j (.zombie termination) zombie
    · exact standing.called j status there
  · rw [child] at none
    split at none
    · cases none
    · exact standing.uncalled j none
  · simp only [Config.setPlace_status, Function.update_self, MainFits]
    refine ⟨trivial, trivial, fun zero => ⟨fun j other isReaped => ?_, passed.2⟩, fun nonzero => ?_, passed.2,
      uncalled⟩
    · rw [child] at isReaped
      split at isReaped
      · obtain rfl : termination = other := by simpa using isReaped
        exact zero
      · exact passed.1 j other isReaped
    · exact ⟨k, termination, by simp [child], nonzero⟩

/-- The instruction of a process that does not wait keeps the invariant,
and main may start one more compilation. -/
theorem Standing.run (positive : 1 ≤ maxGccs)
    (standing : Standing files maxGccs possible config started ended) {pid : Nat}
    (fired : fire (program files maxGccs) config (.run pid) = some next) :
    Standing files maxGccs possible next started ended ∨
      Standing files maxGccs possible next (started + 1) ended := by
  obtain ⟨place, here, performed⟩ := exists_of_run fired
  have children := standing.crew.children
  by_cases isMain : pid = 1
  · subst isMain
    have main := standing.main
    rw [here] at main
    cases place with
    | loop a b =>
        obtain ⟨rfl, rfl, passed⟩ := main
        obtain rfl := Option.some.inj performed
        refine .inl (standing.of_main rfl (fun _ _ => rfl) ?_)
        have within := standing.within
        by_cases more : b < files.length
        · by_cases room : a < files.length ∧ (a : Int) - b < maxGccs
          · simp only [more, room, and_self, ↓reduceIte]
            exact ⟨rfl, rfl, room.1, by omega, passed⟩
          · simp only [more, room, ↓reduceIte]
            exact ⟨rfl, rfl, by omega, passed⟩
        · simp only [more, ↓reduceIte]
          exact ⟨by omega, passed⟩
    | fork a b =>
        obtain ⟨rfl, rfl, _⟩ := main
        exact .inr (standing.fork here fired)
    | compile a b => exact main.elim
    | wait a b =>
        obtain ⟨rfl, rfl, waiting, _⟩ := main
        have present : config.children 1 ≠ 0 := by omega
        simp [program, ParaGcc.main, perform, present] at performed
    | check a b status =>
        obtain ⟨rfl, rfl, zero, nonzero, output, uncalled⟩ := main
        obtain rfl := Option.some.inj performed
        refine .inl (standing.of_main rfl (fun _ _ => rfl) ?_)
        by_cases failed : wExitStatus status ≠ 0
        · rw [if_pos failed]
          exact ⟨nonzero failed, output, uncalled⟩
        · rw [if_neg failed]
          exact ⟨rfl, rfl, zero (not_not.mp failed), uncalled⟩
    | childFailed =>
        obtain rfl := Option.some.inj performed
        refine .inl (standing.of_main rfl (fun _ _ => rfl) ?_)
        exact ⟨main.1, by simp [main.2.1], main.2.2⟩
    | abort =>
        obtain rfl := Option.some.inj performed
        rw [standing.crew.quiet.finish_eq]
        exact .inl (standing.of_main rfl (fun _ _ => rfl) (.inr ⟨rfl, main⟩))
    | link =>
        obtain rfl := Option.some.inj performed
        refine .inl (standing.of_main rfl (fun pid other => ?_) ?_)
        · simp [calls, other.symm]
        · exact ⟨main.1, main.2.1, by simpa [calls] using main.2.2⟩
    | «return» => exact main.elim
    | undefined => exact main.elim
  · obtain ⟨k, below, rfl, fits⟩ := standing.crew.exists_child here isMain
    cases place with
    | compile a b =>
        obtain rfl : a = k := fits
        obtain rfl := Option.some.inj performed
        have none := standing.called a _ here
        refine .inl (standing.of_child rfl here rfl rfl (fun pid other => ?_) ?_ rfl)
        · simp [calls, other.symm]
        · simpa [calls, childCalls] using none
    | _ => exact fits.elim

/-- A compilation that ends, or the linker that ends, keeps the invariant. -/
theorem Standing.terminate (standing : Standing files maxGccs possible config started ended) {pid : Nat}
    {termination : Termination} (permitted : Ends possible config (.terminate pid termination))
    (fired : fire (program files maxGccs) config (.terminate pid termination) = some next) :
    Standing files maxGccs possible next started ended := by
  obtain ⟨image, here, rfl⟩ := exists_of_terminate fired
  rw [standing.crew.quiet.finish_eq]
  by_cases isMain : pid = 1
  · subst isMain
    have main := standing.main
    rw [here] at main
    refine standing.of_main rfl (fun _ _ => rfl) ?_
    cases image with
    | compile file => exact main.elim
    | link objects => exact .inl main
  · obtain ⟨k, below, rfl, fits⟩ := standing.crew.exists_child here isMain
    have isPossible : possible k termination := by simpa [Ends] using permitted
    exact standing.of_child rfl here rfl rfl (fun _ _ => rfl) (standing.called k (.executing image) here)
      isPossible

/-- Every permitted move keeps the invariant, and the second counter counts the waits. -/
theorem Standing.step (positive : 1 ≤ maxGccs) (standing : Standing files maxGccs possible config started ended)
    {move : Move} (permitted : Ends possible config move)
    (fired : fire (program files maxGccs) config move = some next) :
    ∃ started, Standing files maxGccs possible next started (ended + if waited move then 1 else 0) := by
  cases move with
  | run pid =>
      rcases standing.run positive fired with same | more
      · exact ⟨started, same⟩
      · exact ⟨started + 1, more⟩
  | refuse pid => exact permitted.elim
  | reap pid child =>
      obtain ⟨rfl, _⟩ := standing.exists_of_reap fired
      exact ⟨started, standing.reap fired⟩
  | deliver pid signal =>
      obtain ⟨_, _, waiting, _⟩ := exists_of_deliver fired
      simp [standing.crew.quiet.1 pid] at waiting
  | terminate pid termination => exact ⟨started, standing.terminate permitted fired⟩

theorem standing_start : Standing files maxGccs possible start 0 0 := by
  have alone (k : Nat) : start.status (k + 2) = none := by simp [start, Config.initial]
  refine ⟨crew_initial _, Nat.zero_le _, Nat.zero_le _, by simp [alone], fun _ _ => rfl, rfl, ?_⟩
  exact ⟨rfl, rfl, ⟨by simp [alone], rfl⟩, rfl⟩

/-- Every run meets the invariant. -/
theorem exists_standing (positive : 1 ≤ maxGccs) {history : List (State × Move)}
    (reached : Run (fire (program files maxGccs)) (Ends possible) start history config) :
    ∃ started, Standing files maxGccs possible config started (waits history) := by
  induction reached with
  | start => exact ⟨0, standing_start⟩
  | step move _ permitted fired inductionHypothesis =>
      obtain ⟨started, standing⟩ := inductionHypothesis
      obtain ⟨started, after⟩ := standing.step positive permitted fired
      refine ⟨started, ?_⟩
      simpa only [waits, List.countP_cons] using after

/-- As long as main has not ended, some move is possible. -/
theorem Standing.progress (standing : Standing files maxGccs possible config started ended)
    (ends : ∀ k, ∃ termination, possible k termination)
    (alive : ∀ termination, config.status 1 ≠ some (.zombie termination)) :
    ∃ move next, Ends possible config move ∧ fire (program files maxGccs) config move = some next := by
  have main := standing.main
  cases here : config.status 1 with
  | none => simp [here, MainFits] at main
  | some status =>
      rw [here] at main
      cases status with
      | running place =>
          cases place with
          | wait a b =>
              obtain ⟨rfl, rfl, waiting, _⟩ := main
              obtain ⟨k, status, below, there, unreaped, fits⟩ := standing.crew.exists_unreaped waiting
              cases status with
              | running place =>
                  cases place with
                  | compile => exact ⟨.run (k + 2), _, trivial, fire_run there⟩
                  | _ => exact fits.elim
              | executing image =>
                  obtain ⟨termination, isPossible⟩ := ends k
                  exact ⟨.terminate (k + 2) termination, _, .inr isPossible, fire_terminate there⟩
              | zombie termination =>
                  exact ⟨.reap 1 (k + 2), _, trivial, fire_reap here there rfl (standing.crew.parents k below)⟩
              | reaped termination => cases unreaped
          | compile | «return» | undefined => exact main.elim
          | _ => exact ⟨.run 1, _, trivial, fire_run here⟩
      | executing image => exact ⟨.terminate 1 (.exit 0), _, .inl rfl, fire_terminate here⟩
      | zombie termination => exact absurd here (alive termination)
      | reaped termination => exact main.elim

/-- What a process has still to do when there are so many files. -/
def weight (limit : Nat) : Status Place Image → Nat
  | .running (.loop a b) => 7 * (limit - a) + 3 * (limit - b) + 4
  | .running (.fork a b) | .running (.wait a b) => 7 * (limit - a) + 3 * (limit - b) + 3
  | .running (.check a b _) => 7 * (limit - a) + 3 * (limit - b) + 5
  | .running .childFailed => 4
  | .running (.compile _ _) | .running .abort | .running .link => 3
  | .running .return | .running .undefined | .executing _ => 2
  | .zombie _ => 1
  | .reaped _ => 0

/-- Every permitted move lowers the measure. -/
theorem Standing.lower (standing : Standing files maxGccs possible config started ended) {move : Move}
    (permitted : Ends possible config move) (fired : fire (program files maxGccs) config move = some next) :
    total (weight files.length) next < total (weight files.length) config := by
  have numbered := standing.crew.numbered
  cases move with
  | run pid =>
      obtain ⟨place, here, performed⟩ := exists_of_run fired
      by_cases isMain : pid = 1
      · subst isMain
        have main := standing.main
        rw [here] at main
        have within := standing.within
        cases place with
        | loop a b =>
            obtain rfl := Option.some.inj performed
            refine total_setStatus_lt _ numbered here ?_
            split
            · split <;> simp only [weight] <;> omega
            · simp only [weight]
              omega
        | fork a b =>
            obtain ⟨rfl, rfl, inRange, _⟩ := main
            obtain rfl := Option.some.inj performed
            refine total_fork_lt _ numbered here ?_
            simp only [weight]
            omega
        | compile a b => exact main.elim
        | wait a b =>
            obtain ⟨rfl, rfl, waiting, _⟩ := main
            have children := standing.crew.children
            have present : config.children 1 ≠ 0 := by omega
            simp [program, ParaGcc.main, perform, present] at performed
        | check a b status =>
            obtain rfl := Option.some.inj performed
            refine total_setStatus_lt _ numbered here ?_
            split <;> simp only [weight] <;> omega
        | childFailed =>
            obtain rfl := Option.some.inj performed
            exact total_setStatus_lt _ (numbered.of_status rfl rfl : (config.print _).Numbered)
              here (by simp [weight])
        | abort =>
            obtain rfl := Option.some.inj performed
            rw [standing.crew.quiet.finish_eq]
            exact total_setStatus_lt _ numbered here (by simp [weight])
        | link =>
            obtain rfl := Option.some.inj performed
            exact total_setStatus_lt _ (numbered.of_status rfl rfl : (config.call _ _).Numbered)
              here (by simp [weight])
        | «return» | undefined => exact main.elim
      · obtain ⟨k, _, rfl, fits⟩ := standing.crew.exists_child here isMain
        cases place with
        | compile a b =>
            obtain rfl := Option.some.inj performed
            exact total_setStatus_lt _ (numbered.of_status rfl rfl : (config.call _ _).Numbered)
              here (by simp [weight])
        | _ => exact fits.elim
  | refuse pid => exact permitted.elim
  | reap pid child =>
      obtain ⟨_, k, termination, below, here, zombie, _, rfl⟩ := standing.exists_of_reap fired
      have main := standing.main
      rw [here] at main
      have waiting := main.2.2.1
      have within := standing.within
      refine total_reap_lt _ numbered here zombie ?_
      simp only [weight]
      omega
  | deliver pid signal =>
      obtain ⟨_, _, waiting, _⟩ := exists_of_deliver fired
      simp [standing.crew.quiet.1 pid] at waiting
  | terminate pid termination =>
      obtain ⟨image, here, rfl⟩ := exists_of_terminate fired
      rw [standing.crew.quiet.finish_eq]
      exact total_setStatus_lt _ numbered here (by simp [weight])

/-- When main has waited as often as there are files, it has waited for every compilation. -/
theorem Standing.reaped_of_ended (standing : Standing files maxGccs possible config started ended)
    (finished : ended = files.length) {k : Nat} (inRange : k < files.length) :
    ∃ termination, config.status (k + 2) = some (.reaped termination) ∧ possible k termination ∧
      calls config (k + 2) = [(k + 2, .compile (files.getD k []))] := by
  have within := standing.within
  have children := standing.crew.children
  obtain ⟨termination, reaped, isPossible⟩ := standing.crew.exists_reaped (by omega) (show k < started by omega)
  exact ⟨termination, reaped, isPossible, standing.called k _ reaped⟩

/-- When main links, it has waited for as many successful compilations as there are files. -/
theorem Standing.over_of_linking (standing : Standing files maxGccs possible config started ended)
    (linking : Linking config) : ended = files.length ∧ Passed config := by
  have main := standing.main
  rcases linking with here | ⟨objects, here⟩
  · rw [here] at main
    exact ⟨main.1, main.2.1⟩
  · rw [here] at main
    exact ⟨main.1, main.2.1⟩

/-- The invariant gives what the scheduling loop promises. -/
theorem Standing.scheduled (standing : Standing files maxGccs possible config started ended) :
    Scheduled files maxGccs config := by
  have main := standing.main
  have limited := standing.limited
  have children := standing.crew.children
  have own (k : Nat) (below : k < started) :
      (∃ b, config.status (k + 2) = some (.running (.compile k b))) ∧ calls config (k + 2) = [] ∨
        calls config (k + 2) = [(k + 2, .compile (files.getD k []))] := by
    obtain ⟨status, there, fits⟩ := standing.crew.members k below
    have called := standing.called k status there
    cases status with
    | running place =>
        cases place with
        | compile a b =>
            obtain rfl : a = k := fits
            exact .inl ⟨⟨b, there⟩, called⟩
        | _ => exact fits.elim
    | _ => exact .inr called
  refine ⟨fun place a b here isLoop => ?_, fun a b here => ?_,
    ⟨started, standing.within, standing.crew.fresh, fun k below => ⟨standing.crew.parents k below, own k below⟩⟩,
    fun pid file called => ?_, fun linking k inRange => ?_⟩
  · rw [here] at main
    have counters : a = started ∧ b = ended := by
      cases place with
      | loop | fork | wait | check =>
          obtain ⟨rfl, rfl⟩ := Prod.mk.inj (Option.some.inj isLoop)
          exact ⟨main.1, main.2.1⟩
      | _ => cases isLoop
    omega
  · rw [here] at main
    obtain ⟨rfl, rfl, waiting, _⟩ := main
    omega
  · have member : (pid, Image.compile file) ∈ calls config pid := by simp [calls, called]
    match pid with
    | 0 => simp [standing.noRoot] at member
    | 1 =>
        rcases standing.main.calls_eq with none | linked
        · simp [none] at member
        · simp [linked] at member
    | k + 2 =>
        by_cases below : k < started
        · rcases own k below with ⟨_, none⟩ | only
          · simp [none] at member
          · have inRange : k < files.length := below.trans_le standing.within
            have file : file = files.getD k [] := by simpa [only] using member
            exact ⟨k, rfl, by simp [file, inRange]⟩
        · have fresh := standing.crew.fresh
          have absent : config.status (k + 2) = none := standing.crew.numbered _ (by omega)
          simp [standing.uncalled k absent] at member
  · obtain ⟨termination, reaped, _, compiled⟩ :=
      standing.reaped_of_ended (standing.over_of_linking linking).1 inRange
    exact ⟨⟨termination, reaped⟩, compiled⟩

/-- No run is longer than the measure of its start. -/
theorem run_length_le (positive : 1 ≤ maxGccs) {history : List (State × Move)}
    (reached : Run (fire (program files maxGccs)) (Ends possible) start history config) :
    history.length ≤ 10 * files.length + 4 := by
  have bounded := reached.length_add_le (total (weight files.length)) fun move before permitted fired =>
    (exists_standing positive before).choose_spec.lower permitted fired
  have first : total (weight files.length) start = 10 * files.length + 4 := by
    simp [total, start, Config.initial, weight, Finset.sum_range_succ]
    omega
  omega

/-- Where no compilation fails, main does not give up. -/
theorem Standing.not_failed (standing : Standing files maxGccs (fun _ termination =>
    termination = .exit 0) config started
    ended) : ¬ Failed config := by
  rintro ⟨k, termination, reaped, nonzero⟩
  obtain ⟨j, _, same, fits⟩ := standing.crew.exists_child reaped (by omega)
  obtain rfl : termination = .exit 0 := fits
  simp [Termination.exit] at nonzero

/-- Where no compilation fails, the end of main comes after the link. -/
theorem Standing.ended_of_zombie
    (standing : Standing files maxGccs (fun _ termination => termination = .exit 0) config started ended)
    {termination : Termination} (zombie : config.status 1 = some (.zombie termination)) :
    ended = files.length ∧ calls config 1 = [(1, .link (files.map replaceDotcWithDoto))] := by
  have main := standing.main
  rw [zombie] at main
  rcases main with ⟨all, _, linked⟩ | ⟨_, failed, _⟩
  · exact ⟨all, linked⟩
  · exact absurd failed standing.not_failed

/-- The loop keeps its promises in every run with at least one `gcc` at a time.
Where all compilations succeed, every run is finite, main links after one wait for each file,
and a run can only stop when main has linked. -/
theorem scheduling (files : List (List UInt8)) (maxGccs : Nat) (positive : 1 ≤ maxGccs) :
    (∀ history config, Run (fire (program files maxGccs)) (Ends fun _ _ => True) start history config →
      Scheduled files maxGccs config) ∧
    ∀ history config, Run (fire (program files maxGccs)) (Ends fun _ termination =>
      termination = .exit 0) start history
        config →
      history.length ≤ 10 * files.length + 4 ∧ (Linking config → waits history = files.length) ∧
        ((∃ move next, Ends (fun _ termination => termination = .exit 0) config move ∧
            fire (program files maxGccs) config move = some next) ∨
          waits history = files.length ∧ calls config 1 = [(1, .link (files.map replaceDotcWithDoto))]) := by
  refine ⟨fun history config reached => ?_,
    fun history config reached => ⟨run_length_le positive reached, fun linking => ?_, ?_⟩⟩
  · obtain ⟨started, standing⟩ := exists_standing positive reached
    exact standing.scheduled
  · obtain ⟨started, standing⟩ := exists_standing positive reached
    exact (standing.over_of_linking linking).1
  · obtain ⟨started, standing⟩ := exists_standing positive reached
    by_cases alive : ∀ termination, config.status 1 ≠ some (.zombie termination)
    · exact .inl (standing.progress (fun _ => ⟨_, rfl⟩) alive)
    · obtain ⟨termination, zombie⟩ := not_forall.mp alive
      exact .inr (standing.ended_of_zombie (not_not.mp zombie))

/-- With two files and one `gcc` at a time. -/
theorem scheduling_two : 1 ≤ 1 ∧ ∀ history config,
    Run (fire (program [[97, 46, 99], [98, 46, 99]] 1)) (Ends fun _ _ => True) start history config →
      Scheduled [[97, 46, 99], [98, 46, 99]] 1 config :=
  ⟨by decide, (scheduling [[97, 46, 99], [98, 46, 99]] 1 (by decide)).1⟩

end

end OSLabs.ParaGcc
