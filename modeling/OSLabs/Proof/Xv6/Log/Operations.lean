import OSLabs.Construction.Xv6.Log
import OSLabs.Proof.Pthread.Local
import OSLabs.Proof.Pthread.Tally

namespace OSLabs.Xv6.Log

open Pthread RedoLog

/-- The process owns `log.lock` at these points. -/
def Point.locked : Point → Bool
  | .beginTest | .beginSleep | .beginCount | .releaseBegin | .writePanics | .writeAppend | .releaseWrite | .endCount
  | .endWakeup | .releaseEnd | .releaseCommit | .finishCommit | .finishWakeup | .releaseFinish
  | .logWritePanicked | .endOpPanicked => true
  | _ => false

def held (place : Place) (_ : Mutex) : Bool := place.point.locked

/-- What the tests under `log.lock` have shown still holds, and each sleep continues at the test. -/
def Guard (layout : Layout) {T : Type} (_ : T) (status : Status Place Mutex Chan) (memory : Memory T) : Prop :=
  match status with
  | .ready ⟨.beginCount, _, _⟩ =>
      memory.committing = false ∧ memory.lh.length + (memory.outstanding + 1) * maxOpBlocks ≤ logSize
  | .ready ⟨.writeAppend, _, _⟩ => memory.lh.length < logSize ∧ memory.lh.length < layout.nlog - 1
  | .ready _ => True
  | .blocked _ _ place | .woken _ place => place.point = .beginTest

section
variable {T : Type} {layout : Layout} {calls : T → List (List (Update Nat Block))} {disk : Disk}

theorem process_respects (t : T) (place : Place) : (process layout t place).Respects held place := by
  obtain ⟨point, op, rest⟩ := place
  cases point with
  | idle =>
      cases rest with
      | nil => trivial
      | cons next rest =>
          intro before after there effect
          cases effect
          rfl
  | writeAppend =>
      cases op with
      | nil | cons update op =>
          intro before after there effect
          cases effect
          rfl
  | writeLog tail | installTrans tail =>
      intro before after there effect
      simp only at effect
      split at effect <;> cases effect <;> rfl
  | endCount =>
      intro before after there effect
      simp only at effect
      split at effect
      · cases effect
        rfl
      · split at effect <;> cases effect <;> rfl
  | beginTest =>
      intro before after there effect
      cases effect
      simp only [Place.go]
      split
      · rfl
      · split <;> rfl
  | writePanics =>
      intro before after there effect
      cases effect
      simp only [Place.go]
      split
      · rfl
      · split <;> rfl
  | inOp | commitTest =>
      intro before after there effect
      cases effect
      simp only [Place.go]
      split <;> rfl
  | beginCount | writeHead | commitReset | clearHead | finishCommit =>
      intro before after there effect
      cases effect
      rfl
  | acquireBegin | releaseBegin | acquireWrite | releaseWrite | acquireEnd | releaseEnd | releaseCommit | acquireFinish
  | releaseFinish =>
      funext mutex
      cases mutex
      rfl
  | beginSleep => exact ⟨rfl, rfl⟩
  | endWakeup | finishWakeup => rfl
  | logWritePanicked | endOpPanicked => trivial

theorem start_owned : Owned (fun _ => held) (start disk calls) := by
  refine ⟨fun mutex t => ?_, fun t => trivial⟩
  simp [start, Status.holds, held, Point.locked]

/-- Only the owner of `log.lock` can lose its guard. -/
theorem guard_stable (t : T) (status : Status Place Mutex Chan) (memory memory' : Memory T)
    (free : status.holds held .lock = false) (guard : Guard layout t status memory) :
    Guard layout t status memory' := by
  cases status with
  | ready place =>
      obtain ⟨point, op, rest⟩ := place
      cases point <;> trivial
  | blocked chan mutex place | woken mutex place => exact guard

/-- The guards need no more than a shorter header and the same counters. -/
theorem guard_shrinks {t : T} {status : Status Place Mutex Chan} {memory after : Memory T}
    (shorter : after.lh.length ≤ memory.lh.length) (outstanding : after.outstanding = memory.outstanding)
    (committing : after.committing = memory.committing) (guard : Guard layout t status memory) :
    Guard layout t status after := by
  cases status with
  | ready place =>
      obtain ⟨point, op, rest⟩ := place
      cases point with
      | beginCount =>
          simp only [Guard, outstanding, committing] at guard ⊢
          exact ⟨guard.1, by omega⟩
      | writeAppend =>
          simp only [Guard] at guard ⊢
          omega
      | _ => trivial
  | blocked chan mutex place | woken mutex place => exact guard

variable [DecidableEq T] [Fintype T] {allowed : History T (Memory T) Place Mutex Chan → State T → T → Prop}
  {history : History T (Memory T) Place Mutex Chan} {config : State T}

theorem owned (reached : Run (process layout) (start disk calls) allowed history config) :
    Owned (fun _ => held) config := by
  refine reached.owned process_respects start_owned ?_
  intro _ _ t place mutex next _ _ _ unlocks unheld
  obtain ⟨point, op, rest⟩ := place
  cases point with
  | idle => cases rest <;> cases unlocks
  | writeAppend => cases op <;> cases unlocks
  | _ => cases unlocks <;> cases unheld

theorem guarded (reached : Run (process layout) (start disk calls) allowed history config) :
    Everywhere (Guard layout) config := by
  refine Run.everywhere (Guard layout) ?_ ?_ ?_ ?_ reached
  · intro t
    trivial
  · intro t chan mutex place memory guard
    exact guard
  · intro t mutex place memory guard
    obtain ⟨point, op, rest⟩ := place
    cases guard
    trivial
  · intro history config t place before all _ here
    have guard := all t
    rw [here] at guard
    have others : place.point.locked = true → ∀ memory other, other ≠ t →
        Guard layout other (config.status other) memory :=
      fun locked memory other different =>
        all.undisturbed (owned before) guard_stable here (locked : held place .lock = true) memory different
    have alike : ∀ {memory : Memory T}, memory.lh.length ≤ config.memory.lh.length →
        memory.outstanding = config.memory.outstanding → memory.committing = config.memory.committing →
        ∀ other, other ≠ t → Guard layout other (config.status other) memory :=
      fun shorter outstanding committing other _ => guard_shrinks shorter outstanding committing (all other)
    obtain ⟨point, op, rest⟩ := place
    cases point with
    | idle =>
        cases rest with
        | nil => trivial
        | cons next rest =>
            intro after there effect
            cases effect
            exact ⟨trivial, fun other _ => all other⟩
    | acquireBegin | acquireWrite | acquireEnd | acquireFinish => exact fun _ => trivial
    | releaseBegin | releaseWrite | releaseEnd | releaseCommit | releaseFinish | endWakeup | finishWakeup
    | logWritePanicked | endOpPanicked => trivial
    | beginSleep => rfl
    | beginTest =>
        intro after there effect
        cases effect
        refine ⟨?_, others rfl _⟩
        simp only [Place.go]
        split
        · trivial
        · next idle =>
            split
            · trivial
            · next room => exact ⟨by simpa using idle, by omega⟩
    | writePanics =>
        intro after there effect
        cases effect
        refine ⟨?_, others rfl _⟩
        simp only [Place.go]
        split
        · trivial
        · next room =>
            split
            · trivial
            · exact ⟨by omega, by omega⟩
    | inOp | commitTest =>
        intro after there effect
        cases effect
        refine ⟨?_, fun other _ => all other⟩
        simp only [Place.go]
        split <;> trivial
    | beginCount =>
        intro after there effect
        cases effect
        exact ⟨trivial, others rfl _⟩
    | writeAppend =>
        cases op with
        | nil | cons update op =>
            intro after there effect
            cases effect
            exact ⟨trivial, others rfl _⟩
    | endCount =>
        intro after there effect
        refine ⟨?_, others rfl _⟩
        simp only at effect
        split at effect
        · cases effect
          trivial
        · split at effect <;> cases effect <;> trivial
    | finishCommit =>
        intro after there effect
        cases effect
        exact ⟨trivial, others rfl _⟩
    | writeLog tail | installTrans tail =>
        intro after there effect
        simp only at effect
        split at effect <;> cases effect <;> exact ⟨trivial, alike (Nat.le_refl _) rfl rfl⟩
    | writeHead | clearHead =>
        intro after there effect
        cases effect
        exact ⟨trivial, alike (Nat.le_refl _) rfl rfl⟩
    | commitReset =>
        intro after there effect
        cases effect
        exact ⟨trivial, alike (Nat.zero_le _) rfl rfl⟩

/-- The variable `outstanding` counts the open system calls. -/
theorem outstanding_eq (reached : Run (process layout) (start disk calls) allowed history config) :
    config.memory.outstanding = config.number fun _ place => place.point.isOpen := by
  rw [← tally_weigh]
  refine reached.counted Memory.outstanding _ (tally_eq_zero fun t => rfl).symm ?_
  intro t place memory after next effect
  obtain ⟨point, op, rest⟩ := place
  cases point with
  | idle => cases rest <;> cases effect; rfl
  | writeAppend => cases op <;> cases effect <;> rfl
  | beginTest =>
      cases effect
      simp only [Place.go]
      split
      · rfl
      · split <;> rfl
  | writePanics =>
      cases effect
      simp only [Place.go]
      split
      · rfl
      · split <;> rfl
  | inOp | commitTest =>
      cases effect
      simp only [Place.go]
      split <;> rfl
  | endCount =>
      simp only [process, Instr.effect, Option.some.injEq] at effect
      split at effect
      · cases effect
        simp [weigh, Point.isOpen, Place.go]
      · split at effect <;> cases effect <;> simp [weigh, Point.isOpen, Place.go]
  | writeLog tail | installTrans tail =>
      simp only [process, Instr.effect, Option.some.injEq] at effect
      split at effect <;> cases effect <;> rfl
  | logWritePanicked | endOpPanicked => cases effect
  | _ => cases effect; simp [weigh, Point.isOpen, Place.go]

/-- The flag `committing` as a number. -/
def Memory.commits (memory : Memory T) : Int := if memory.committing then 1 else 0

omit [DecidableEq T] [Fintype T] in
theorem Memory.commits_logWrite (memory : Memory T) (t : T) (update : Update Nat Block) :
    (memory.logWrite t update).commits = memory.commits := rfl

omit [DecidableEq T] [Fintype T] in
theorem Memory.commits_writeLog (memory : Memory T) (tail blockno : Nat) :
    (memory.writeLog layout tail blockno).commits = memory.commits := rfl

omit [DecidableEq T] [Fintype T] in
theorem Memory.commits_installTrans (memory : Memory T) (tail blockno : Nat) :
    (memory.installTrans layout tail blockno).commits = memory.commits := rfl

/-- The flag `committing` tells whether a commit runs, and there is at most one. -/
theorem commits_eq (reached : Run (process layout) (start disk calls) allowed history config) :
    config.memory.commits = config.number fun _ place => place.point.commits := by
  rw [← tally_weigh]
  refine reached.balanced Memory.commits _ ?_ ?_
  · rw [tally_eq_zero fun t => rfl]
    rfl
  intro history config t place _ equal _ here
  obtain ⟨point, op, rest⟩ := place
  cases point with
  | idle =>
      cases rest with
      | nil => trivial
      | cons next rest =>
          intro after there effect
          cases effect
          simp [weigh, Point.commits]
  | writeAppend =>
      cases op with
      | nil | cons update op =>
          intro after there effect
          cases effect
          simp [weigh, Point.commits, Place.go, Memory.commits_logWrite]
  | beginTest =>
      intro after there effect
      cases effect
      simp only [Place.go]
      split
      · simp [weigh, Point.commits]
      · split <;> simp [weigh, Point.commits]
  | writePanics =>
      intro after there effect
      cases effect
      simp only [Place.go]
      split
      · simp [weigh, Point.commits]
      · split <;> simp [weigh, Point.commits]
  | inOp | commitTest =>
      intro after there effect
      cases effect
      simp only [Place.go]
      split <;> simp [weigh, Point.commits]
  | endCount =>
      intro after there effect
      simp only at effect
      split at effect
      · cases effect
        simp [weigh, Point.commits, Place.go, Memory.commits]
      · next idle =>
          split at effect <;> cases effect <;> simp [weigh, Point.commits, Place.go, Memory.commits, idle]
  | writeLog tail | installTrans tail =>
      intro after there effect
      simp only at effect
      split at effect <;> cases effect <;>
        simp [weigh, Point.commits, Place.go, Memory.commits_writeLog, Memory.commits_installTrans]
  | finishCommit =>
      intro after there effect
      cases effect
      have one : weigh (fun _ place => Point.commits place.point) t (config.status t).place ≤ tally _ config :=
        le_tally (fun _ _ => by unfold weigh; split <;> decide) t
      rw [← equal, here] at one
      have running : config.memory.committing = true := by
        by_contra idle
        simp [weigh, Point.commits, Memory.commits, idle] at one
      simp [weigh, Point.commits, Place.go, Memory.commits, running]
  | beginCount | writeHead | commitReset | clearHead =>
      intro after there effect
      cases effect
      simp [weigh, Point.commits, Place.go, Memory.commits]
  | logWritePanicked | endOpPanicked => trivial
  | _ => simp [Instr.Balances, process, weigh, Point.commits, Place.go]

/-- A process in a commit tells that `committing` is set. -/
theorem committing_of_commits (reached : Run (process layout) (start disk calls) allowed history config) {t : T}
    (commits : (config.places t).point.commits = true) : config.memory.committing = true := by
  have count := commits_eq reached
  have one : 0 < config.number fun _ place => place.point.commits := number_pos commits
  by_contra idle
  simp only [Memory.commits, idle, ↓reduceIte] at count
  omega

/-- At most one process is in a commit. -/
theorem commits_unique (reached : Run (process layout) (start disk calls) allowed history config)
    {first second : T}
    (firstCommits : (config.places first).point.commits = true)
    (secondCommits : (config.places second).point.commits = true) : first = second := by
  have atMostOne : tally (indicator fun place : Place => place.point.commits) config ≤ 1 := by
    have count := commits_eq reached
    rw [← tally_weigh] at count
    refine le_of_eq_of_le count.symm ?_
    unfold Memory.commits
    split <;> decide
  exact tally_indicator_unique atMostOne firstCommits secondCommits

/-- While `committing` is set, some process is in a commit. -/
theorem exists_of_committing (reached : Run (process layout) (start disk calls) allowed history config)
    (committing : config.memory.committing = true) : ∃ t, (config.places t).point.commits = true := by
  have count := commits_eq reached
  simp only [Memory.commits, committing, ↓reduceIte] at count
  have one : 0 < config.number fun _ place => place.point.commits := by omega
  exact exists_of_number_pos one

/-- No system call is open while a commit runs. -/
theorem outstanding_eq_zero (reached : Run (process layout) (start disk calls) allowed history config) :
    config.memory.committing = true → config.memory.outstanding = 0 := by
  refine reached.stored (fun memory => memory.committing = true →
    memory.outstanding = 0) (fun running => by cases running) ?_
  intro history config t place update after next before none _ here instr effect
  have guard := guarded before t
  rw [here] at guard
  obtain ⟨point, op, rest⟩ := place
  cases point with
  | idle => cases rest <;> cases instr; cases effect; exact none
  | writeAppend => cases op <;> cases instr <;> cases effect <;> exact none
  | beginCount =>
      cases instr
      cases effect
      intro running
      rw [show config.memory.committing = false from guard.1] at running
      cases running
  | endCount =>
      cases instr
      simp only at effect
      split at effect
      · next running =>
          have open' : 0 < config.number fun _ place => place.point.isOpen :=
            number_pos (show (config.status t).place.point.isOpen = true by rw [here]; rfl)
          have count := outstanding_eq before
          have zero := none running
          omega
      · next idle =>
          split at effect
          · next last =>
              cases effect
              exact fun _ => last
          · cases effect
            exact fun running => absurd running idle
  | finishCommit =>
      cases instr
      cases effect
      exact fun running => by cases running
  | writeLog tail | installTrans tail =>
      cases instr
      simp only at effect
      split at effect <;> cases effect <;> exact none
  | beginTest | inOp | writePanics | commitTest | writeHead | commitReset | clearHead =>
      cases instr
      cases effect
      exact none
  | _ => cases instr

/-- A process with an open system call tells that no commit runs. -/
theorem committing_eq_false (reached : Run (process layout) (start disk calls) allowed history config) {t : T}
    (isOpen : (config.places t).point.isOpen = true) : config.memory.committing = false := by
  have count := outstanding_eq reached
  have one : 0 < config.number fun _ place => place.point.isOpen := number_pos isOpen
  by_contra running
  have zero := outstanding_eq_zero reached (by simpa using running)
  omega

/-- While a system call is open, no process is in a commit. -/
theorem not_commits (reached : Run (process layout) (start disk calls) allowed history config) {t : T}
    (isOpen : (config.places t).point.isOpen = true) (other : T) :
    (config.places other).point.commits = false := by
  by_contra commits
  have running := committing_of_commits reached (t := other) (by simpa using commits)
  rw [committing_eq_false reached isOpen] at running
  cases running

/-- While a process is in a commit, no system call is open. -/
theorem not_isOpen (reached : Run (process layout) (start disk calls) allowed history config) {t : T}
    (commits : (config.places t).point.commits = true) (other : T) :
    (config.places other).point.isOpen = false := by
  by_contra isOpen
  rw [not_commits reached (t := other) (by simpa using isOpen) t] at commits
  cases commits

end

end OSLabs.Xv6.Log
