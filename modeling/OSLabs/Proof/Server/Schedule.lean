import OSLabs.Proof.Server.Family

namespace OSLabs.Server

open Transition Process

/-- A child of a background command can be killed by `SIGTERM`. -/
structure Ready (config : State) (child : Nat) : Prop where
  notWorker : child ≠ 1
  parent : config.parent child = 1
  here : ∃ place, config.status child = some (.running place) ∧ place.isChild = true ∧ place.installed = false
  default : config.disposition child .term = .default
  none : config.pending child = []

/-- The worker reads the next command, and the processes of its table are ready to be killed. -/
structure Calm (requests : List Request) (children : List Nat) (config : State) : Prop where
  here : config.status 1 = some (.running (.read requests children))
  two : 2 ≤ config.fresh
  default : config.disposition 1 .term = .default
  below : ∀ child ∈ children, child < config.fresh
  ready : ∀ child ∈ children, Ready config child
  nodup : children.Nodup

/-- The processes that existed before are as they were, except for those that are touched. -/
structure Frame (touched : List Nat) (config next : State) : Prop where
  fresh : config.fresh ≤ next.fresh
  parent : ∀ pid < config.fresh, pid ∉ touched → next.parent pid = config.parent pid
  status : ∀ pid < config.fresh, pid ∉ touched → next.status pid = config.status pid
  disposition : ∀ pid < config.fresh, pid ∉ touched → next.disposition pid = config.disposition pid
  pending : ∀ pid < config.fresh, pid ∉ touched → next.pending pid = config.pending pid

section

variable {config next last : State} {touched children : List Nat} {rest : List Request} {child : Nat}

theorem Frame.refl (touched : List Nat) (config : State) : Frame touched config config :=
  ⟨Nat.le_refl _, fun _ _ _ => rfl, fun _ _ _ => rfl, fun _ _ _ => rfl, fun _ _ _ => rfl⟩

theorem Frame.trans (before : Frame touched config next) (after : Frame touched next last) :
    Frame touched config last where
  fresh := before.fresh.trans after.fresh
  parent pid below other :=
    (after.parent pid (below.trans_le before.fresh) other).trans (before.parent pid below other)
  status pid below other :=
    (after.status pid (below.trans_le before.fresh) other).trans (before.status pid below other)
  disposition pid below other :=
    (after.disposition pid (below.trans_le before.fresh) other).trans (before.disposition pid below other)
  pending pid below other :=
    (after.pending pid (below.trans_le before.fresh) other).trans (before.pending pid below other)

theorem Ready.frame (ready : Ready config child) (frame : Frame touched config next) (below : child < config.fresh)
    (untouched : child ∉ touched) : Ready next child where
  notWorker := ready.notWorker
  parent := by rw [frame.parent child below untouched, ready.parent]
  here := by
    rw [frame.status child below untouched]
    exact ready.here
  default := by rw [frame.disposition child below untouched, ready.default]
  none := by rw [frame.pending child below untouched, ready.none]

/-- The worker serves a background command whose child does nothing. -/
theorem Calm.background {command : List UInt8} (calm : Calm (.background command :: rest) children config) :
    ∃ next, Reachable (fire program) Free config next ∧ Frame [1] config next ∧
      Calm rest (children ++ [config.fresh]) next ∧
      next.status config.fresh = some (.running (.background command)) ∧ next.fresh = config.fresh + 1 := by
  have two := calm.two
  have notFresh : ∀ pid, pid < config.fresh → pid ≠ config.fresh := fun pid below => below.ne
  have notWorker : config.fresh ≠ 1 := by omega
  let forked : State := (config.spawn 1 (.background command)).setPlace 1 (.read rest (children ++ [config.fresh]))
  have reached : Reachable (fire program) Free config forked :=
    reachable_run 1 _ forked Reachable.refl calm.here rfl
  have frame : Frame [1] config forked := by
    refine ⟨Nat.le_succ _, ?_, ?_, ?_, ?_⟩
    · intro pid below other
      simp [forked, notFresh pid below]
    · intro pid below other
      rw [List.mem_singleton] at other
      simp [forked, notFresh pid below, other]
    · intro pid below other
      simp [forked, notFresh pid below]
    · intro pid below other
      simp [forked, notFresh pid below]
  have there : forked.status config.fresh = some (.running (.background command)) := by simp [forked, notWorker]
  refine ⟨forked, reached, frame, ⟨by simp [forked], Nat.le_succ_of_le two, ?_, ?_, ?_, ?_⟩, there, rfl⟩
  · simpa [forked, Ne.symm notWorker] using calm.default
  · intro child member
    rcases List.mem_append.mp member with old | new
    · exact Nat.lt_succ_of_lt (calm.below child old)
    · rw [List.mem_singleton.mp new]
      exact Nat.lt_succ_self _
  · intro child member
    rcases List.mem_append.mp member with old | new
    · have ready := calm.ready child old
      exact ready.frame frame (calm.below child old) (by simpa using ready.notWorker)
    · rw [List.mem_singleton.mp new]
      exact ⟨notWorker, by simp [forked], ⟨_, there, rfl, rfl⟩, by simpa [forked] using calm.default, by simp [forked]⟩
  · refine List.nodup_append.mpr ⟨calm.nodup, List.nodup_singleton _, ?_⟩
    intro child old other new
    rw [List.mem_singleton.mp new]
    exact (calm.below child old).ne

/-- The worker serves a foreground command and awaits its child. -/
theorem Calm.foreground {command : List UInt8} {argument : Option (List UInt8)}
    (calm : Calm (.foreground command argument :: rest) children config) :
    ∃ next, Reachable (fire program) Free config next ∧ Frame [1] config next ∧ Calm rest children next := by
  have two := calm.two
  have notWorker : config.fresh ≠ 1 := by omega
  let image : Image := ⟨command, argument⟩
  let forked : State := (config.spawn 1 (.execute image)).setPlace 1 (.waitForeground config.fresh rest children)
  have first : Reachable (fire program) Free config forked := reachable_run 1 _ forked Reachable.refl calm.here rfl
  let executed : State := (forked.call config.fresh image).setStatus config.fresh (.executing image)
  have there : forked.status config.fresh = some (.running (.execute image)) := by simp [forked, notWorker]
  have second := reachable_execute config.fresh (.exit 0) first there rfl
  let ended : State := executed.finish config.fresh (.exit 0)
  have zombie : ended.status config.fresh = some (.zombie (.exit 0)) := by simp [ended]
  have parent : ended.parent config.fresh = 1 := by simp [ended, executed, forked]
  have waits : ended.status 1 = some (.running (.waitForeground config.fresh rest children)) := by
    simp [ended, executed, forked, Ne.symm notWorker]
  let reaped : State := (ended.setStatus config.fresh (.reaped (.exit 0))).setPlace 1 (.read rest children)
  have third : Reachable (fire program) Free config reaped :=
    reachable_reap 1 config.fresh _ second waits zombie rfl parent
  have frame : Frame [1] config reaped := by
    refine ⟨by simp [reaped, ended, executed, forked], ?_, ?_, ?_, ?_⟩
    · intro pid below other
      simp [reaped, ended, executed, forked, below.ne]
    · intro pid below other
      rw [List.mem_singleton] at other
      simp [reaped, ended, executed, forked, below.ne, other]
    · intro pid below other
      simp [reaped, ended, executed, forked, below.ne]
    · intro pid below other
      rw [List.mem_singleton] at other
      have notParent : pid ≠ executed.parent config.fresh := by simpa [executed, forked] using other
      have kept : ended.pending pid = executed.pending pid := executed.finish_pending_of_ne _ notParent _
      have same : reaped.pending pid = ended.pending pid := rfl
      rw [same, kept]
      simp [executed, forked, below.ne]
  refine ⟨reaped, third, frame, ⟨by simp [reaped], by simp [reaped, ended, executed, forked]; omega, ?_,
    fun child member => (calm.below child member).trans_le frame.fresh, fun child member => ?_, calm.nodup⟩⟩
  · simpa [reaped, ended, executed, forked, Ne.symm notWorker] using calm.default
  · exact (calm.ready child member).frame frame (calm.below child member)
      (by simpa using (calm.ready child member).notWorker)

/-- The worker serves any commands without `close`. -/
theorem Calm.serve {before : List Request} (noClose : Request.close ∉ before)
    (calm : Calm (before ++ rest) children config) :
    ∃ next children, Reachable (fire program) Free config next ∧ Frame [1] config next ∧
      Calm rest children next := by
  induction before generalizing config children with
  | nil => exact ⟨config, children, Reachable.refl, Frame.refl [1] config, calm⟩
  | cons request before inductionHypothesis =>
      rw [List.mem_cons, not_or] at noClose
      obtain ⟨next, table, reached, frame, later⟩ : ∃ next table, Reachable (fire program) Free config next ∧
          Frame [1] config next ∧ Calm (before ++ rest) table next := by
        cases request with
        | close => exact absurd rfl noClose.1
        | background command =>
            obtain ⟨next, reached, frame, later, _⟩ := Calm.background calm
            exact ⟨next, _, reached, frame, later⟩
        | foreground command argument =>
            obtain ⟨next, reached, frame, later⟩ := Calm.foreground calm
            exact ⟨next, _, reached, frame, later⟩
      obtain ⟨last, table, continued, afterwards, done⟩ := inductionHypothesis noClose.2 later
      exact ⟨last, table, reached.trans continued, frame.trans afterwards, done⟩

theorem calm_start (requests : List Request) : Calm requests [] (start requests) where
  here := rfl
  two := Nat.le_refl 2
  default := rfl
  below _ member := by cases member
  ready _ member := by cases member
  nodup := List.nodup_nil

end

end OSLabs.Server
