import OSLabs.Proof.Pthread.Progress
import OSLabs.Proof.Xv6.Log.Crash

namespace OSLabs.Xv6.Log

open Pthread RedoLog

/-- The process is about to wait for the log. -/
def Point.aboutToSleep : Point → Bool
  | .beginSleep => true
  | _ => false

/-- The process is about to wake those that wait for the log. -/
def Point.wakes : Point → Bool
  | .endWakeup | .finishWakeup => true
  | _ => false

theorem Point.locked_of_aboutToSleep {point : Point} (about : point.aboutToSleep = true) :
    point.locked = true := by
  cases point <;> first | rfl | cases about

section
variable {T : Type}

/-- A process returns between its system calls or when it has panicked. -/
theorem isPanic_of_isExit {layout : Layout} {t : T} {place : Place}
    (exits : (process layout t place).isExit = true)
    (elsewhere : place.point ≠ .idle) : place.point.isPanic = true := by
  obtain ⟨point, op, rest⟩ := place
  cases point with
  | idle => exact absurd rfl elsewhere
  | writeAppend => cases op <;> cases exits
  | logWritePanicked | endOpPanicked => rfl
  | _ => cases exits

/-- A commit runs, a system call is open, or a process is about to wake those that wait. -/
def Busy (places : T → Place) (memory : Memory T) : Prop :=
  memory.committing = true ∨ 0 < memory.outstanding ∨ ∃ t, (places t).point.wakes = true

/-- A process that is not about to wake others changes nothing of this when it leaves the counters alone. -/
theorem Busy.move [DecidableEq T] {places : T → Place} {memory after : Memory T} {t : T} {next : Place}
    (busy : Busy places memory) (committing : after.committing = memory.committing)
    (outstanding : after.outstanding = memory.outstanding) (quiet : (places t).point.wakes = false) :
    Busy (Function.update places t next) after := by
  rcases busy with commits | isOpen | ⟨other, wakes⟩
  · exact .inl (committing.trans commits)
  · exact .inr (.inl (outstanding ▸ isOpen))
  · refine .inr (.inr ⟨other, ?_⟩)
    have different : other ≠ t := by
      rintro rfl
      rw [wakes] at quiet
      cases quiet
    rwa [Function.update_of_ne different]

end

section
variable {T : Type} {layout : Layout} {calls : T → List (List (Update Nat Block))} {disk : Disk}
  [DecidableEq T] [Fintype T]
  {allowed : History T (Memory T) Place Mutex Chan → State T → T → Prop}
  {history : History T (Memory T) Place Mutex Chan} {config : State T}

/-- Someone will wake a process that sleeps in `begin_op`. -/
theorem busy_of_awaits (fits : Fits layout calls) (empty : decodeHead (disk layout.logstart) = some [])
    (reached : Run (process layout) (start disk calls) allowed history config) (waiter : T)
    (awaits : (config.status waiter).awaits .log (fun place => place.point.aboutToSleep) = true) :
    Busy config.places config.memory := by
  refine reached.awaited .log (fun place => place.point.aboutToSleep) (fun _ places memory => Busy places memory)
    (fun _ => rfl) ?_ ?_ ?_ ?_ waiter awaits
  · intro history config t mutex place before here
    have guard := guarded before t
    rw [here] at guard
    rw [show place.point = .beginTest from guard]
    rfl
  · intro t place mutex next wait
    obtain ⟨point, op, rest⟩ := place
    cases point with
    | idle => cases rest <;> cases wait
    | writeAppend => cases op <;> cases wait
    | beginSleep => rfl
    | _ => cases wait
  · intro history config t place after next before _ here effect about
    have consistent := consistent fits empty before
    have count := outstanding_eq before
    obtain ⟨point, op, rest⟩ := place
    cases point with
    | idle => cases rest <;> cases effect; cases about
    | beginTest =>
        cases effect
        cases flag : config.memory.committing with
        | true => exact .inl flag
        | false =>
            simp only [flag, Bool.false_eq_true, ↓reduceIte] at about ⊢
            split at about
            · next full =>
                refine .inr (.inl ?_)
                by_contra none
                have zero : config.memory.outstanding = 0 := by omega
                rw [(consistent.settled flag).2 zero, zero] at full
                exact absurd full (by decide)
            · cases about
    | writePanics =>
        cases effect
        simp only [Place.go] at about
        split at about
        · cases about
        · split at about <;> cases about
    | inOp | commitTest =>
        cases effect
        simp only [Place.go] at about
        split at about <;> cases about
    | writeAppend => cases op <;> cases effect <;> cases about
    | endCount =>
        simp only [process, Instr.effect, Option.some.injEq] at effect
        split at effect
        · cases effect
          cases about
        · split at effect <;> cases effect <;> cases about
    | writeLog tail | installTrans tail =>
        simp only [process, Instr.effect, Option.some.injEq] at effect
        split at effect <;> cases effect <;> cases about
    | logWritePanicked | endOpPanicked => cases effect
    | _ => cases effect; cases about
  · intro history config t place after next waiter before _ here effect awaits still busy
    have place_eq := Config.places_of_ready here
    have owned := owned before
    obtain ⟨point, op, rest⟩ := place
    cases point with
    | idle => cases rest <;> cases effect; exact busy.move rfl rfl (by rw [place_eq]; rfl)
    | endWakeup | finishWakeup =>
        cases effect
        -- Who is about to sleep owns the mutex, but the process that wakes the others owns it.
        have inside : ∀ place : Place, place.point.aboutToSleep = true → held place .lock = true := fun _ =>
          Point.locked_of_aboutToSleep
        have about : (config.status waiter).runs (fun place => place.point.aboutToSleep) = false :=
          owned.runs_eq_false here inside rfl rfl
        rw [still rfl] at about
        cases about
    | beginCount =>
        cases effect
        have count := outstanding_eq before
        refine .inr (.inl ?_)
        show 0 < config.memory.outstanding + 1
        omega
    | endCount =>
        have idle := committing_eq_false before (t := t) (by rw [place_eq]; rfl)
        simp only [process, Instr.effect, Option.some.injEq, idle, Bool.false_eq_true, ↓reduceIte] at effect
        split at effect
        · cases effect
          exact .inl rfl
        · cases effect
          exact .inr (.inr ⟨t, by rw [Function.update_self]; rfl⟩)
    | finishCommit =>
        cases effect
        exact .inr (.inr ⟨t, by rw [Function.update_self]; rfl⟩)
    | writeAppend => cases op <;> cases effect <;> exact busy.move rfl rfl (by rw [place_eq]; rfl)
    | writeLog tail | installTrans tail =>
        simp only [process, Instr.effect, Option.some.injEq] at effect
        split at effect <;> cases effect <;> exact busy.move rfl rfl (by rw [place_eq]; rfl)
    | logWritePanicked | endOpPanicked => cases effect
    | _ =>
        cases effect
        exact busy.move rfl rfl (by rw [place_eq]; rfl)

/-- A process in a wait continues at the test in `begin_op`. -/
theorem ready_of_point (reached : Run (process layout) (start disk calls) allowed history config) {t : T}
    (elsewhere : (config.places t).point ≠ .beginTest) : config.status t = .ready (config.places t) := by
  have guard := guarded reached t
  cases here : config.status t with
  | ready place => rw [Config.places_of_ready here]
  | blocked cond mutex place | woken mutex place =>
      rw [here] at guard
      refine absurd ?_ elsewhere
      rw [Config.places, here]
      exact guard

/-- Unless a process has panicked, some unfinished process is not asleep. -/
theorem not_stalled (fits : Fits layout calls) (empty : decodeHead (disk layout.logstart) = some [])
    (reached : Run (process layout) (start disk calls) allowed history config)
    (calm : ∀ t, (config.places t).point.isPanic = false) : ¬ Stalled (process layout) config := by
  intro stalled
  obtain ⟨waiter, waits⟩ := stalled.exists_blocked
  have runs : ∀ t, (config.places t).point ≠ .beginTest → (config.places t).point = .idle := by
    intro t elsewhere
    by_contra unfinished
    have panics := isPanic_of_isExit (stalled.exits (ready_of_point reached elsewhere)) unfinished
    rw [calm t] at panics
    cases panics
  have awaits : (config.status waiter).awaits .log (fun place => place.point.aboutToSleep) = true := by
    cases here : config.status waiter with
    | blocked cond mutex place => cases cond; rfl
    | ready place | woken mutex place =>
        rw [here] at waits
        cases waits
  rcases busy_of_awaits fits empty reached waiter awaits with commits | isOpen | ⟨t, wakes⟩
  · obtain ⟨t, commits⟩ := exists_of_committing reached commits
    rw [runs t (by rintro same; rw [same] at commits; cases commits)] at commits
    cases commits
  · rw [outstanding_eq reached] at isOpen
    obtain ⟨t, isOpen⟩ := exists_of_number_pos (Int.natCast_pos.mp isOpen)
    change (config.places t).point.isOpen = true at isOpen
    rw [runs t (by rintro same; rw [same] at isOpen; cases isOpen)] at isOpen
    cases isOpen
  · rw [runs t (by rintro same; rw [same] at wakes; cases wakes)] at wakes
    cases wakes

/-- As long as no process has panicked, some process can move until all have made their system calls,
`outstanding` counts the open ones, and at most one process commits, while none is open. -/
theorem begin_op_never_stuck (fits : Fits layout calls) (empty : decodeHead (disk layout.logstart) = some [])
    (reached : Reachable (process layout) (start disk calls) config)
    (calm : ∀ t, (config.places t).point.isPanic = false) :
    ¬ Stuck (process layout) config ∧ config.memory.outstanding = config.number (fun _ place =>
      place.point.isOpen) ∧
      ∀ t, (config.places t).point.commits = true → config.memory.committing = true ∧
        ∀ other, (config.places other).point.isOpen = false ∧ ((config.places other).point.commits = true →
          other = t) := by
  obtain ⟨history, reached⟩ := reached
  refine ⟨?_, outstanding_eq reached, fun t commits => ⟨committing_of_commits reached commits, fun other =>
    ⟨not_isOpen reached commits other, fun second => commits_unique reached second commits⟩⟩⟩
  refine (owned reached).not_stuck (fun _ _ first second _ _ => by cases first; cases second; rfl) ?_
    (not_stalled fits empty reached calm)
  intro t place mutex here holds
  have silent := calm t
  rw [Config.places_of_ready here] at silent
  obtain ⟨point, op, rest⟩ := place
  cases point with
  | writeAppend => cases op <;> rfl
  | logWritePanicked | endOpPanicked => cases silent
  | beginTest | beginSleep | beginCount | releaseBegin | writePanics | releaseWrite | endCount | endWakeup | releaseEnd
  | releaseCommit | finishCommit | finishWakeup | releaseFinish => rfl
  | _ => cases holds

end

/-- Two processes run in turn. The second one waits for the commit of the first one,
which is between its two locks. -/
theorem begin_op_waits_for_commit :
    ∃ config : State (Fin 2), Reachable (process smallLayout) (start (fun _ _ => 0) fun _ => [twoBlocks]) config ∧
      (config.status 1).isBlocked = true ∧ ¬ Stuck (process smallLayout) config := by
  obtain ⟨config, reached, holds⟩ := exists_reachable (process smallLayout)
    (start (T := Fin 2) (fun _ _ => 0) fun _ => [twoBlocks]) (turns 20 0 ++ turns 4 1)
    (fun config => (config.status 1).isBlocked = true ∧ ∀ t, (config.places t).point.isPanic = false)
      (by decide +kernel)
  simp only [decide_eq_true_eq] at holds
  have fits : Fits smallLayout fun _ : Fin 2 => [twoBlocks] := by
    unfold Fits
    decide
  exact ⟨config, reached, holds.1, (begin_op_never_stuck fits (by decide) reached holds.2).1⟩

end OSLabs.Xv6.Log
