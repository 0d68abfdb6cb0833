import OSLabs.Proof.Server.Schedule

namespace OSLabs.Server

open Transition Process

section Safety

variable {course : List Request → Nat → Prop} {config : State} {requests : List Request}

/-- Where the worker reads the next command, every child outside the table has ended. -/
theorem Standing.foregroundDone {orphans : Prop} (standing : Standing orphans course config) :
    ForegroundDone config := by
  intro requests children here pid parent notMember
  by_contra alive
  obtain ⟨status, there, _, unreaped⟩ := exists_of_alive (by simpa using alive)
  have notWorker : pid ≠ 1 := by
    rintro rfl
    simp [standing.root.2] at parent
  rcases standing.tended pid status there unreaped notWorker with ⟨place, running, member⟩ | ⟨_, ended⟩
  · rw [parent, here] at running
    cases running
    exact notMember member
  · exact ended parent _ here

/-- The remaining commands have no foreground command when there are background children. -/
def Orderly (requests : List Request) (count : Nat) : Prop :=
  ForegroundFirst requests ∧ (count ≠ 0 → ∀ request ∈ served requests, request.isBackground = true)

theorem course_orderly : Course True Orderly where
  background := by
    intro command rest count orderly
    have split := List.pairwise_cons.mp orderly.1
    exact ⟨split.2, fun _ request member => split.1 request member rfl⟩
  foreground := by
    intro command argument rest count orderly
    have split := List.pairwise_cons.mp orderly.1
    exact ⟨split.2, fun some request member => orderly.2 some request (List.mem_cons_of_mem _ member)⟩
  closes strict := absurd trivial strict

/-- A foreground command is served only while there are no background children. -/
theorem Orderly.eq_zero {command : List UInt8} {argument : Option (List UInt8)} {rest : List Request} {count : Nat}
    (orderly : Orderly (.foreground command argument :: rest) count) : count = 0 := by
  by_contra some
  have background := orderly.2 some (.foreground command argument) List.mem_cons_self
  cases background

theorem course_any : Course True fun _ _ => True where
  background _ := trivial
  foreground _ := trivial
  closes strict := absurd trivial strict

/-- A session without a foreground command behind a background command meets the invariant. -/
theorem standing_of_foregroundFirst (ordered : ForegroundFirst requests)
    (reached : Reachable (fire program) Free (start requests) config) : Standing True Orderly config := by
  refine Standing.reachable course_orderly ⟨ordered, by simp⟩ (fun config move standing _ => ⟨?_, by simp⟩) reached
  intro child _ pid rest children here member
  obtain ⟨⟨command, argument, holds⟩, _⟩ := (standing.places 1 _ here).sound
  have none : children = [] := List.length_eq_zero_iff.mp holds.eq_zero
  simp [none] at member

end Safety

section Violation

variable {requests : List Request}

/-- Otherwise a foreground command follows directly on a background command. -/
theorem exists_adjacent (mixed : ¬ ForegroundFirst requests) :
    ∃ before background command argument after,
      requests = before ++ Request.background background :: .foreground command argument :: after ∧
        Request.close ∉ before := by
  induction requests with
  | nil => exact absurd List.Pairwise.nil mixed
  | cons request rest inductionHypothesis =>
      cases request with
      | close => exact absurd List.Pairwise.nil mixed
      | foreground command argument =>
          have later : ¬ ForegroundFirst rest := by
            intro ordered
            exact mixed (List.pairwise_cons.mpr ⟨by simp [Request.isBackground], ordered⟩)
          obtain ⟨before, background, command', argument', after, rfl, noClose⟩ := inductionHypothesis later
          exact ⟨.foreground command argument :: before, background, command', argument', after,
            rfl, by simpa using noClose⟩
      | background command =>
          by_cases ordered : ForegroundFirst rest
          · cases rest with
            | nil => exact absurd (List.pairwise_singleton _ _) mixed
            | cons second others =>
                cases second with
                | close => exact absurd (List.pairwise_singleton _ _) mixed
                | foreground other argument => exact ⟨[], command, other, argument, others, rfl, List.not_mem_nil⟩
                | background other =>
                    have split := List.pairwise_cons.mp ordered
                    refine absurd (List.pairwise_cons.mpr ⟨fun request member _ => ?_, ordered⟩) mixed
                    rcases List.mem_cons.mp member with rfl | later
                    · rfl
                    · exact split.1 request later rfl
          · obtain ⟨before, background, command', argument', after, rfl, noClose⟩ := inductionHypothesis ordered
            exact ⟨.background command :: before, background, command', argument', after,
              rfl, by simpa using noClose⟩

/-- The child of a background command can carry it out and end. -/
theorem exists_ended {child : Nat} {command : List UInt8} {config : State}
    (here : config.status child = some (.running (.background command))) (below : child < config.fresh)
    (parent : config.parent child = 1) :
    ∃ next, Reachable (fire program) Free config next ∧ next.status child = some (.zombie (.exit 0)) ∧
      next.parent child = 1 ∧ ∀ other < config.fresh, other ≠ child →
        next.status other = config.status other ∧ next.parent other = config.parent other := by
  have distinct : config.fresh ≠ child := below.ne'
  let image : Image := ⟨command, none⟩
  let forked : State := (config.spawn child (.execute image)).setPlace child (.install [config.fresh])
  have first : Reachable (fire program) Free config forked := reachable_run child _ forked Reachable.refl here rfl
  let signalled : State :=
    (forked.setDisposition child .term .caught).setPlace child (.waitGrandchild [config.fresh])
  have second := reachable_run child (.install [config.fresh]) signalled first (by simp [forked]) rfl
  let executed : State := (signalled.call config.fresh image).setStatus config.fresh (.executing image)
  have there : signalled.status config.fresh =
    some (.running (.execute image)) := by simp [signalled, forked, distinct]
  have third := reachable_execute config.fresh (.exit 0) second there rfl
  let ended : State := executed.finish config.fresh (.exit 0)
  have waits : ended.status child = some (.running (.waitGrandchild [config.fresh])) := by
    simp [ended, executed, signalled, Ne.symm distinct]
  have zombie : ended.status config.fresh = some (.zombie (.exit 0)) := by simp [ended]
  have isParent : ended.parent config.fresh = child := by simp [ended, executed, signalled, forked]
  let reaped : State := (ended.setStatus config.fresh (.reaped (.exit 0))).setPlace child (.leave [config.fresh])
  have fourth : Reachable (fire program) Free config reaped :=
    reachable_reap child config.fresh _ third waits zombie rfl isParent
  have fifth :=
    reachable_run child (.leave [config.fresh]) (reaped.finish child (.exit 0)) fourth (by simp [reaped]) rfl
  refine ⟨_, fifth, by simp, ?_, fun other inRange different => ⟨?_, ?_⟩⟩
  · simpa [reaped, ended, executed, signalled, forked, Ne.symm distinct] using parent
  · simp [reaped, ended, executed, signalled, forked, different, inRange.ne]
  · simp [reaped, ended, executed, signalled, forked, inRange.ne]

/-- When a background command ends first, the worker reads the next command before the foreground command has
ended. -/
theorem Calm.not_foregroundDone {background command : List UInt8} {argument : Option (List UInt8)}
    {rest : List Request}
    {children : List Nat} {config : State}
    (calm : Calm (.background background :: .foreground command argument :: rest) children config) :
    ∃ next, Reachable (fire program) Free config next ∧ ¬ ForegroundDone next := by
  have two := calm.two
  obtain ⟨between, reached, _, later, child, fresh⟩ := Calm.background calm
  let forked : State := (between.spawn 1 (.execute ⟨command, argument⟩)).setPlace 1
    (.waitForeground between.fresh rest (children ++ [config.fresh]))
  have served := reachable_run 1 _ forked reached later.here rfl
  have notWorker : config.fresh ≠ 1 := by omega
  have below : config.fresh < between.fresh := by omega
  have parent : between.parent config.fresh = 1 := (later.ready config.fresh (by simp)).parent
  have background : forked.status config.fresh = some (.running (.background background)) := by
    simpa [forked, notWorker, below.ne] using child
  have isParent : forked.parent config.fresh = 1 := by simpa [forked, below.ne] using parent
  obtain ⟨ended, continued, zombie, isChild, others⟩ := exists_ended background (Nat.lt_succ_of_lt below) isParent
  have first : 1 < forked.fresh := by
    have grown : forked.fresh = between.fresh + 1 := rfl
    omega
  have waits :
      ended.status 1 = some (.running (.waitForeground between.fresh rest (children ++ [config.fresh]))) := by
    rw [(others 1 first (Ne.symm notWorker)).1]
    simp [forked]
  let reaped : State :=
    (ended.setStatus config.fresh (.reaped (.exit 0))).setPlace 1 (.read rest (children ++ [config.fresh]))
  have last : Reachable (fire program) Free config reaped :=
    reachable_reap 1 config.fresh _ (served.trans continued) waits zombie rfl isChild
  refine ⟨reaped, last, fun done => ?_⟩
  have foreground := others between.fresh (Nat.lt_succ_self _) below.ne'
  have notTable : between.fresh ∉ children ++ [config.fresh] := by
    intro member
    rcases List.mem_append.mp member with old | new
    · have inRange := calm.below _ old
      omega
    · have same := List.mem_singleton.mp new
      omega
  have alive : reaped.alive between.fresh = true := by
    have notFirst : between.fresh ≠ 1 := by omega
    simp [reaped, Config.alive, notFirst, below.ne', foreground.1, forked, Status.isAlive]
  have dead := done rest (children ++ [config.fresh]) (by simp [reaped]) between.fresh
    (by simp [reaped, foreground.2, forked]) notTable
  rw [alive] at dead
  cases dead

end Violation

/-- The worker reads the next command only when every foreground command has ended, in all runs,
if and only if the session has no foreground command behind a background command.
In every session this holds for the runs in which the `wait` for a foreground command finds no ended background
command. -/
theorem foreground_done (requests : List Request) :
    ((∀ config, Reachable (fire program) Free (start requests) config → ForegroundDone config) ↔
      ForegroundFirst requests) ∧
    ∀ config, Reachable (fire program) Undisturbed (start requests) config → ForegroundDone config := by
  refine ⟨⟨fun done => ?_, fun ordered config reached => ?_⟩, fun config reached => ?_⟩
  · by_contra mixed
    obtain ⟨before, background, command, argument, after, rfl, noClose⟩ := exists_adjacent mixed
    obtain ⟨between, children, reached, _, calm⟩ := Calm.serve noClose (calm_start _)
    obtain ⟨last, continued, violated⟩ := calm.not_foregroundDone
    exact violated (done last (reached.trans continued))
  · exact (standing_of_foregroundFirst ordered reached).foregroundDone
  · have standing : Standing True (fun _ _ => True) config :=
      Standing.reachable course_any trivial (fun _ _ _ undisturbed => ⟨undisturbed, by simp⟩) reached
    exact standing.foregroundDone

/-- After `ls &` and `ls` the worker can read the next command while the second `ls` has not even started. -/
theorem foreground_not_awaited : ∃ config,
    Reachable (fire program) Free (start ([[108, 115, 32, 38], [108, 115]].map request)) config ∧
      config.status 1 = some (.running (.read [] [2])) ∧ config.parent 3 = 1 ∧
      config.status 3 = some (.running (.execute ⟨[108, 115], none⟩)) ∧ ¬ ForegroundDone config := by
  obtain ⟨config, reached, holds⟩ := exists_reachable (fire program) Free
    (start ([[108, 115, 32, 38], [108, 115]].map request))
    [.run 1, .run 1, .run 2, .run 2, .run 4, .terminate 4 (.exit 0), .reap 2 4, .run 2, .reap 1 2]
    (fun config => decide (config.status 1 = some (.running (.read [] [2]))) && decide (config.parent 3 = 1) &&
      decide (config.status 3 = some (.running (.execute ⟨[108, 115], none⟩)))) (by decide)
  simp only [Bool.and_eq_true, decide_eq_true_eq] at holds
  obtain ⟨⟨here, parent⟩, there⟩ := holds
  refine ⟨config, reached, here, parent, there, fun done => ?_⟩
  have dead := done [] [2] here 3 parent (by decide)
  simp [Config.alive, there, Status.isAlive] at dead

end OSLabs.Server
