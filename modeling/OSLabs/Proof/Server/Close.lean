import OSLabs.Proof.Server.Schedule

namespace OSLabs.Server

open Transition Process

section Safety

variable {course : List Request → Nat → Prop} {config : State} {requests : List Request}

theorem Place.isChild_of_watched {place : Place} {child : Nat} (notWorker : place.isWorker = false)
    (member : child ∈ place.watched) : place.isChild = true := by
  cases place with
  | background | install | waitGrandchild | leave | handleKill | handleWait => rfl
  | read | waitForeground | closeKill | closeWait => cases notWorker
  | execute | execFailed => exact absurd member List.not_mem_nil

/-- When the worker has ended and there are no orphans, every process has ended. -/
theorem Standing.nothingLeft (standing : Standing False course config) : NothingLeft config := by
  rintro ⟨termination, zombie⟩ pid
  by_contra alive
  obtain ⟨status, there, isAlive, unreaped⟩ := exists_of_alive (by simpa using alive)
  have notWorker : pid ≠ 1 := by
    rintro rfl
    rw [zombie] at there
    cases there
    cases isAlive
  obtain ⟨place, running, member⟩ := (standing.tended pid status there unreaped notWorker).resolve_right And.left
  have notFirst : config.parent pid ≠ 1 := by
    intro first
    rw [first, zombie] at running
    cases running
  have fits := standing.places _ place running
  have isOther : place.isWorker = false := by
    by_contra isWorker
    exact notFirst (fits.worker.mp (by simpa using isWorker))
  have grandparent := fits.child (Place.isChild_of_watched isOther member)
  obtain ⟨worker, present, _⟩ := (standing.tended _ _ running rfl notFirst).resolve_right And.left
  rw [grandparent, zombie] at present
  cases present

/-- The session closes, and there is room for the background children. -/
def Closing (requests : List Request) (count : Nat) : Prop :=
  Request.close ∈ requests ∧ count + backgrounds requests ≤ maxBackgroundCmds

theorem course_closing : Course False Closing where
  background := by
    rintro command rest count ⟨closes, room⟩
    refine ⟨by simpa using closes, ?_⟩
    have next : backgrounds (.background command :: rest) = backgrounds rest + 1 := List.countP_cons_of_pos rfl
    omega
  foreground := by
    rintro command argument rest count ⟨closes, room⟩
    refine ⟨by simpa using closes, ?_⟩
    have next : backgrounds (.foreground command argument :: rest) = backgrounds rest :=
      List.countP_cons_of_neg (by simp [Request.isBackground])
    omega
  closes _ _ closing := absurd closing.1 List.not_mem_nil

/-- A child has at most one child. -/
theorem Place.Sound.grandChildren_le {place : Place} (sound : place.Sound course) :
    place.grandChildren.length ≤ 1 := by
  induction place with
  | install | waitGrandchild | leave => exact sound.1
  | handleKill _ interrupted inductionHypothesis => exact inductionHypothesis sound.2.2
  | handleWait _ _ interrupted inductionHypothesis => exact inductionHypothesis sound.2.2.2
  | _ => exact Nat.zero_le _

/-- The tables have room for what is stored in them. -/
theorem Place.Sound.table_le {place : Place} (sound : place.Sound Closing) :
    place.table.length ≤ maxBackgroundCmds := by
  cases place with
  | read requests children =>
      have room := sound.1.2
      have entries : (Place.read requests children).table.length = children.length := rfl
      omega
  | waitForeground pid requests children =>
      obtain ⟨⟨command, argument, _, room⟩, _⟩ := sound
      have entries : (Place.waitForeground pid requests children).table.length = children.length := rfl
      omega
  | _ => exact sound.grandChildren_le.trans (by decide)

theorem mem_session (texts : List (List UInt8)) : Request.close ∈ session texts := by
  unfold session
  rw [List.map_append, List.mem_append]
  exact Or.inr (List.mem_singleton.mpr rfl)

/-- In careful runs of a session with few background commands the worker leaves nothing behind. -/
theorem standing_closing {texts : List (List UInt8)} (few : backgrounds (session texts) ≤ maxBackgroundCmds)
    (reached : Reachable (fire program) Careful (start (session texts)) config) : Standing False Closing config :=
  Standing.reachable course_closing ⟨mem_session texts, by simpa using few⟩
    (fun _ _ _ careful => ⟨careful.1, fun _ => careful.2⟩) reached

/-- The session closes without background commands. -/
def Plain (requests : List Request) (count : Nat) : Prop :=
    Closing requests count ∧ count + backgrounds requests = 0

theorem course_plain : Course False Plain where
  background := by
    rintro command rest count ⟨_, none⟩
    have next : backgrounds (.background command :: rest) = backgrounds rest + 1 := List.countP_cons_of_pos rfl
    omega
  foreground := by
    rintro command argument rest count ⟨closing, none⟩
    have next : backgrounds (.foreground command argument :: rest) = backgrounds rest :=
      List.countP_cons_of_neg (by simp [Request.isBackground])
    exact ⟨course_closing.foreground closing, next ▸ none⟩
  closes strict count plain := course_closing.closes strict count plain.1

theorem not_busy : ¬ Busy Plain := by
  rintro ⟨requests, count, _, none⟩
  omega

/-- Without background commands every move is careful. -/
theorem Standing.careful (standing : Standing False Plain config) (move : Move) : Careful config move := by
  refine ⟨fun child _ pid rest children here member => ?_, fun pid _ grandchildren here => ?_⟩
  · obtain ⟨⟨command, argument, _, none⟩, _⟩ := (standing.places 1 _ here).sound
    have empty : children = [] := List.length_eq_zero_iff.mp (by omega)
    simp [empty] at member
  · exact not_busy (standing.places pid _ here).sound.2.2

/-- Without background commands every run is careful. -/
theorem reachable_careful {texts : List (List UInt8)} (none : backgrounds (session texts) = 0)
    (reached : Reachable (fire program) Free (start (session texts)) config) :
    Reachable (fire program) Careful (start (session texts)) config := by
  refine reached.invariant (Reachable (fire program) Careful (start (session texts))) Reachable.refl
    fun move before _ fired => before.step move ?_ fired
  have plain : Plain (session texts) 0 := ⟨⟨mem_session texts, by simp [none]⟩, by simp [none]⟩
  exact (Standing.reachable course_plain plain (fun _ _ _ careful => ⟨careful.1, fun _ => careful.2⟩)
    before).careful move

end Safety

section Violation

variable {config : State} {rest : List Request} {children remaining : List Nat} {child : Nat}

/-- The worker kills and awaits a child that is ready. -/
theorem exists_killed (here : config.status 1 = some (.running (.closeKill (child :: remaining))))
    (ready : Ready config child) :
    ∃ next, Reachable (fire program) Free config next ∧ Frame [1, child] config next ∧
      next.status 1 = some (.running (.closeKill remaining)) := by
  obtain ⟨place, there, isChild, notInstalled⟩ := ready.here
  have notWorker : (1 : Nat) ≠ child := Ne.symm ready.notWorker
  let sent : State := (config.send child .term).setPlace 1 (.closeWait child remaining)
  have first : Reachable (fire program) Free config sent := reachable_run 1 _ sent Reachable.refl here rfl
  have alive : config.alive child = true := by simp [Config.alive, there, Status.isAlive]
  have pending : sent.pending child = [.term] := by
    have deadly : Disposition.default.discards .term = false := by decide
    simp [sent, Config.send, ready.default, deadly, alive, ready.none]
  have running : sent.status child = some (.running place) := by simp [sent, ready.notWorker, there]
  have unblocked : program.blocks place .term = false := by
    cases place with
    | background | install => rfl
    | waitGrandchild | leave | handleKill | handleWait => cases notInstalled
    | read | waitForeground | closeKill | closeWait | execute | execFailed => cases isChild
  let killed : State := (sent.unpend child .term).finish child (.killed .term false)
  have second : Reachable (fire program) Free config killed :=
    first.step (.deliver child .term) trivial
      (fire_deliver_default running (by simp [pending]) unblocked
        (by simpa [sent] using ready.default) (by decide))
  have waits : killed.status 1 = some (.running (.closeWait child remaining)) := by simp [killed, sent, notWorker]
  have zombie : killed.status child = some (.zombie (.killed .term false)) := by simp [killed]
  have parent : killed.parent child = 1 := by simpa [killed, sent] using ready.parent
  have awaits : (program.code (.closeWait child remaining)).awaits child =
    some fun _ => .closeKill remaining := if_pos rfl
  let reaped : State := (killed.setStatus child (.reaped (.killed .term false))).setPlace 1 (.closeKill remaining)
  have third : Reachable (fire program) Free config reaped :=
    reachable_reap 1 child _ second waits zombie awaits parent
  refine ⟨reaped, third, ⟨by simp [reaped, killed, sent], ?_, ?_, ?_, ?_⟩, by simp [reaped]⟩
  · intro pid _ _
    simp [reaped, killed, sent]
  · intro pid _ other
    rw [List.mem_cons, List.mem_singleton, not_or] at other
    simp [reaped, killed, sent, other.1, other.2]
  · intro pid _ _
    simp [reaped, killed, sent]
  · intro pid _ other
    rw [List.mem_cons, List.mem_singleton, not_or] at other
    have notParent : pid ≠ (sent.unpend child .term).parent child := by simpa [sent, ready.parent] using other.1
    have kept : killed.pending pid = (sent.unpend child .term).pending pid :=
      Config.finish_pending_of_ne _ _ notParent _
    have same : reaped.pending pid = killed.pending pid := rfl
    have unsent : sent.pending pid = config.pending pid := Config.send_pending_of_ne _ _ other.2 _
    rw [same, kept, Config.unpend_pending, Function.update_of_ne other.2, unsent]

/-- The worker kills and awaits its children and ends. -/
theorem exists_closed (here : config.status 1 = some (.running (.closeKill remaining)))
    (ready : ∀ child ∈ remaining, Ready config child) (below : ∀ child ∈ remaining, child < config.fresh)
    (nodup : remaining.Nodup) :
    ∃ next, Reachable (fire program) Free config next ∧
      (∃ termination, next.status 1 = some (.zombie termination)) ∧
      ∀ pid < config.fresh, pid ≠ 1 → pid ∉ remaining → next.status pid = config.status pid := by
  induction remaining generalizing config with
  | nil =>
      have ended : Reachable (fire program) Free config (config.finish 1 (.exit 1)) :=
        reachable_run 1 _ _ Reachable.refl here rfl
      exact ⟨_, ended, ⟨.exit 1, by simp⟩, fun pid _ other _ => by simp [other]⟩
  | cons child remaining inductionHypothesis =>
      rw [List.nodup_cons] at nodup
      obtain ⟨between, reached, frame, later⟩ := exists_killed here (ready child List.mem_cons_self)
      have notTouched : ∀ other ∈ remaining, other ∉ [1, child] := by
        intro other member touched
        rcases List.mem_cons.mp touched with isWorker | same
        · exact (ready other (List.mem_cons_of_mem _ member)).notWorker isWorker
        · exact nodup.1 (List.mem_singleton.mp same ▸ member)
      obtain ⟨next, continued, ended, kept⟩ := inductionHypothesis later
        (fun other member => (ready other (List.mem_cons_of_mem _ member)).frame frame
          (below other (List.mem_cons_of_mem _ member)) (notTouched other member))
        (fun other member => (below other (List.mem_cons_of_mem _ member)).trans_le frame.fresh) nodup.2
      refine ⟨next, reached.trans continued, ended, fun pid known other notMember => ?_⟩
      rw [List.mem_cons, not_or] at notMember
      rw [kept pid (known.trans_le frame.fresh) other notMember.2,
        frame.status pid known (by simp [other, notMember.1])]

/-- A session with a background command has one before its first `close`. -/
theorem exists_background {requests : List Request} (closes : Request.close ∈ requests)
    (some : backgrounds requests ≠ 0) :
    ∃ before command between after, requests =
      before ++ Request.background command :: (between ++ Request.close :: after) ∧
      Request.close ∉ before ∧ Request.close ∉ between := by
  induction requests with
  | nil => cases closes
  | cons request rest inductionHypothesis =>
      cases request with
      | close => exact absurd rfl some
      | background command =>
          have later : Request.close ∈ rest := by simpa using closes
          obtain ⟨between, after, rfl, noClose⟩ := List.eq_append_cons_of_mem later
          exact ⟨[], command, between, after, rfl, List.not_mem_nil, noClose⟩
      | foreground command argument =>
          have later : Request.close ∈ rest := by simpa using closes
          have next : backgrounds (.foreground command argument :: rest) = backgrounds rest :=
            List.countP_cons_of_neg (by simp [Request.isBackground])
          obtain ⟨before, background, between, after, rfl, noClose, noClose'⟩ :=
            inductionHypothesis later (next ▸ some)
          exact ⟨.foreground command argument :: before, background, between, after,
            rfl, by simpa using noClose, noClose'⟩

/-- A child that has forked but not yet called `signal` leaves its own child behind. -/
theorem Calm.orphan {command : List UInt8} (calm : Calm (.background command :: rest) children config) :
    ∃ next table grandchild, Reachable (fire program) Free config next ∧ Calm rest table next ∧
      grandchild < next.fresh ∧ next.status grandchild = some (.running (.execute ⟨command, none⟩)) ∧
      grandchild ≠ 1 := by
  obtain ⟨between, reached, _, later, child, fresh⟩ := Calm.background calm
  have two := calm.two
  have below : config.fresh < between.fresh := by omega
  have notWorker : config.fresh ≠ 1 := by omega
  let forked : State := (between.spawn config.fresh (.execute ⟨command, none⟩)).setPlace config.fresh
    (.install [between.fresh])
  have forks := reachable_run config.fresh (.background command) forked reached child rfl
  have grandchild : forked.status between.fresh = some (.running (.execute ⟨command, none⟩)) := by
    simp [forked, below.ne']
  have kept : Frame [config.fresh] between forked := by
    refine ⟨Nat.le_succ _, ?_, ?_, ?_, ?_⟩
    · intro pid inRange _
      simp [forked, inRange.ne]
    · intro pid inRange other
      rw [List.mem_singleton] at other
      simp [forked, inRange.ne, other]
    · intro pid inRange _
      simp [forked, inRange.ne]
    · intro pid inRange _
      simp [forked, inRange.ne]
  have notLast : (1 : Nat) ≠ between.fresh := by omega
  have calmAgain : Calm rest (children ++ [config.fresh]) forked := by
    refine ⟨?_, by simp [forked]; omega, ?_, fun pid member => Nat.lt_succ_of_lt (later.below pid member),
      fun pid member => ?_, later.nodup⟩
    · simpa [forked, Ne.symm notWorker, notLast] using later.here
    · simpa [forked, notLast] using later.default
    · have ready := later.ready pid member
      by_cases isChild : pid = config.fresh
      · subst isChild
        exact ⟨notWorker, by simpa [forked, below.ne] using ready.parent, ⟨.install [between.fresh], by simp [forked], rfl, rfl⟩,
          by simpa [forked, below.ne] using ready.default, by simpa [forked, below.ne] using ready.none⟩
      · exact ready.frame kept (later.below pid member) (by simpa using isChild)
  exact ⟨forked, _, between.fresh, forks, calmAgain, Nat.lt_succ_self _, grandchild, by omega⟩

/-- After a background command the worker can end before a process that its child has forked. -/
theorem exists_left {texts : List (List UInt8)} (some : backgrounds (session texts) ≠ 0) :
    ∃ config, Reachable (fire program) Free (start (session texts)) config ∧ ¬ NothingLeft config := by
  obtain ⟨before, command, between, after, split, noClose, noClose'⟩ := exists_background (mem_session texts) some
  rw [split]
  obtain ⟨first, table, reached, _, calm⟩ := Calm.serve noClose (calm_start _)
  obtain ⟨second, table, grandchild, forked, calm, inRange, orphan, notWorker⟩ := calm.orphan
  obtain ⟨third, table, served, frame, calm⟩ := Calm.serve noClose' calm
  have there : third.status grandchild = Option.some (.running (.execute ⟨command, none⟩)) := by
    rw [frame.status grandchild inRange (by simpa using notWorker), orphan]
  let closing : State := third.setPlace 1 (.closeKill table)
  have closes : Reachable (fire program) Free third closing :=
    reachable_run 1 (.read (.close :: after) table) closing Reachable.refl calm.here rfl
  have ready : ∀ child ∈ table, Ready closing child := by
    intro child member
    have known := calm.ready child member
    exact ⟨known.notWorker,
      known.parent, by simpa [closing, known.notWorker] using known.here, known.default, known.none⟩
  obtain ⟨last, ends, ended, kept⟩ := exists_closed (by simp [closing]) ready calm.below calm.nodup
  have notTable : grandchild ∉ table := by
    intro member
    obtain ⟨place, running, isChild, _⟩ := (calm.ready grandchild member).here
    rw [there] at running
    cases running
    cases isChild
  have left : last.status grandchild = Option.some (.running (.execute ⟨command, none⟩)) := by
    rw [kept grandchild (inRange.trans_le frame.fresh) notWorker notTable]
    simpa [closing, notWorker] using there
  refine ⟨last, (((reached.trans forked).trans served).trans closes).trans ends, fun nothing => ?_⟩
  have dead := nothing ended grandchild
  simp [Config.alive, left, Status.isAlive] at dead

end Violation

/-- With at most five background commands the tables have room and the worker leaves nothing behind in every run
in which the `wait` for a foreground command finds no ended background command
and no child gets `SIGTERM` between its `fork` and its call of `signal`.
This holds in all runs of a session if and only if the session has no background command. -/
theorem close_complete (texts : List (List UInt8)) :
    (backgrounds (session texts) ≤ maxBackgroundCmds → ∀ config,
      Reachable (fire program) Careful (start (session texts)) config → InBounds config ∧ NothingLeft config) ∧
    ((∀ config, Reachable (fire program) Free (start (session texts)) config →
      InBounds config ∧ NothingLeft config) ↔
      backgrounds (session texts) = 0) := by
  have safe (few : backgrounds (session texts) ≤ maxBackgroundCmds) (config : State)
      (reached : Reachable (fire program) Careful (start (session texts)) config) :
      InBounds config ∧ NothingLeft config := by
    have standing := standing_closing few reached
    exact ⟨fun pid place running => (standing.places pid place running).sound.table_le, standing.nothingLeft⟩
  refine ⟨safe, fun complete => ?_, fun none config reached => ?_⟩
  · by_contra some
    obtain ⟨config, reached, left⟩ := exists_left some
    exact left (complete config reached).2
  · exact safe (by omega) config (reachable_careful none reached)

/-- After `ls &` and `close` the worker can end while the process that is to execute `ls` is still there. -/
theorem orphan_left : ∃ config, Reachable (fire program) Free (start (session [[108, 115, 32, 38]])) config ∧
    config.status 1 = some (.zombie (.exit 1)) ∧
      config.status 3 = some (.running (.execute ⟨[108, 115], none⟩)) ∧ ¬ NothingLeft config := by
  obtain ⟨config, reached, holds⟩ := exists_reachable (fire program) Free (start (session [[108, 115, 32, 38]]))
    [.run 1, .run 2, .run 1, .run 1, .deliver 2 .term, .reap 1 2, .run 1]
    (fun config => decide (config.status 1 = some (.zombie (.exit 1))) &&
      decide (config.status 3 = some (.running (.execute ⟨[108, 115], none⟩)))) (by decide)
  simp only [Bool.and_eq_true, decide_eq_true_eq] at holds
  refine ⟨config, reached, holds.1, holds.2, fun nothing => ?_⟩
  have dead := nothing ⟨_, holds.1⟩ 3
  simp [Config.alive, holds.2, Status.isAlive] at dead

end OSLabs.Server
