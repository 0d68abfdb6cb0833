import OSLabs.Construction.ReaderWriter
import OSLabs.Proof.Pthread.Local
import OSLabs.Proof.Pthread.Tally

namespace OSLabs.ReaderWriter
open Pthread

namespace Place

/-- The thread is inside a section of `lock`. -/
def locked : Place → Bool
  | .reader .lockEntry | .reader .read | .reader .lockExit | .writer .lockEntry => false
  | _ => true

/-- The thread is a writer that has set `writer_active` and not yet reset it. -/
def activated : Place → Bool
  | .writer .startWrite | .writer .write | .writer .finishWrite | .writer .deactivate => true
  | _ => false

/-- The condition variable of a wait that continues at this place. -/
def waitsOn : Place → Option Cond
  | .reader .entryTest => some .timeToRead
  | .writer .entryTest => some .timeToWrite
  | _ => none

end Place

/-- The three counters that the lock protects. -/
inductive Counter where
  | writersWaiting
  | readersActive
  | writerActive

/-- The value of the counter. -/
def Counter.value : Counter → Memory → Int
  | .writersWaiting => Memory.writersWaiting
  | .readersActive => Memory.readersActive
  | .writerActive => Memory.writerActive

/-- The places between the two updates of the counter. -/
def Counter.counts : Counter → Place → Bool
  | .writersWaiting => Place.waiting
  | .readersActive => Place.active
  | .writerActive => Place.activated

/-- These places hold these mutexes. -/
def held (place : Place) (_ : Mutex) : Bool := place.locked

/-- Each wait continues at its test, and a thread that has passed its test finds nobody in its way. -/
def Guard {T : Type} (_ : T) (status : Status Place Mutex Cond) (memory : Memory) : Prop :=
  match status with
  | .ready (.reader .enter) => memory.writerActive = 0 ∧ memory.writersWaiting = 0
  | .ready (.writer .stopWaiting) | .ready (.writer .activate) =>
      memory.readersActive = 0 ∧ memory.writerActive = 0
  | .ready (.writer .startWrite) | .ready (.writer .write) | .ready (.writer .finishWrite)
  | .ready (.writer .deactivate) => memory.readersActive = 0 ∧ memory.writerActive = 1
  | .ready (.writer .wakeReaders) => memory.writersWaiting = 0
  | .ready _ => True
  | .blocked cond _ place => place.waitsOn = some cond
  | .woken _ place => place.waitsOn.isSome = true

section
variable {T : Type} {kind : T → Kind}

theorem code_respects (t : T) (place : Place) : (code t place).Respects held place := by
  cases place with
  | reader place =>
      cases place with
      | lockEntry | unlockEntry | lockExit | unlockExit =>
          funext mutex
          cases mutex
          rfl
      | entryTest | lastTest =>
          intro before after next effect
          cases effect
          simp only
          split <;> rfl
      | enter | read | leave =>
          intro before after next effect
          cases effect
          rfl
      | condWait => exact ⟨rfl, rfl⟩
      | signalWriter => rfl
  | writer place =>
      cases place with
      | lockEntry | unlockExit =>
          funext mutex
          cases mutex
          rfl
      | entryTest | waitingTest =>
          intro before after next effect
          cases effect
          simp only
          split <;> rfl
      | arrive | stopWaiting | activate | startWrite | write | finishWrite | deactivate =>
          intro before after next effect
          cases effect
          rfl
      | condWait => exact ⟨rfl, rfl⟩
      | signalWriter | wakeReaders => rfl

theorem start_place (kind : T → Kind) (t : T) :
    (start kind).status t = .ready (.reader .lockEntry) ∨ (start kind).status t = .ready (.writer .lockEntry) := by
  cases same : kind t with
  | reader => exact .inl (by simp [start, same])
  | writer => exact .inr (by simp [start, same])

theorem start_owned : Owned (fun _ => held) (start kind) := by
  refine ⟨fun mutex t => ?_, fun t => ?_⟩
  · rcases start_place kind t with here | here <;> rw [here] <;>
      simp [start, Status.holds, held, Place.locked]
  · rcases start_place kind t with here | here <;> rw [here] <;> trivial

/-- Only the owner of `lock` can lose its guard. -/
theorem guard_stable (t : T) (status : Status Place Mutex Cond) (memory memory' : Memory)
    (free : status.holds held .lock = false) (guard : Guard t status memory) : Guard t status memory' := by
  cases status with
  | ready place =>
      cases place with
      | reader place => cases place <;> trivial
      | writer place => cases place <;> trivial
  | blocked cond mutex place => exact guard
  | woken mutex place => exact guard

variable [DecidableEq T] [Fintype T] {allowed : History T Memory Place Mutex Cond → State T → T → Prop}
  {history : History T Memory Place Mutex Cond} {config : State T}

theorem owned (reached : Run code (start kind) allowed history config) : Owned (fun _ => held) config := by
  refine reached.owned code_respects start_owned ?_
  intro _ _ t place mutex next _ _ _ unlocks unheld
  cases place with
  | reader place => cases place <;> cases unlocks <;> cases unheld
  | writer place => cases place <;> cases unlocks; cases unheld

theorem guarded (reached : Run code (start kind) allowed history config) : Everywhere Guard config := by
  refine Run.everywhere Guard ?_ ?_ ?_ ?_ reached
  · intro t
    rcases start_place kind t with here | here <;> rw [here] <;> trivial
  · intro t cond mutex place memory guard
    simp only [Guard] at guard ⊢
    rw [guard]
    rfl
  · intro t mutex place memory guard
    cases place with
    | reader place => cases place <;> trivial
    | writer place => cases place <;> trivial
  · intro history config t place before all _ here
    have guard := all t
    rw [here] at guard
    have others : place.locked = true → ∀ memory other, other ≠ t → Guard other (config.status other) memory :=
      fun locked memory other different =>
        all.undisturbed (owned before) guard_stable here (locked : held place .lock = true) memory different
    cases place with
    | reader place =>
        cases place with
        | lockEntry | lockExit => exact fun _ => trivial
        | unlockEntry | signalWriter | unlockExit => trivial
        | condWait => rfl
        | entryTest =>
            intro after next effect
            cases effect
            refine ⟨?_, others rfl _⟩
            simp only
            split
            · trivial
            · next free => exact ⟨by omega, by omega⟩
        | lastTest =>
            intro after next effect
            cases effect
            refine ⟨?_, others rfl _⟩
            simp only
            split <;> trivial
        | enter | leave =>
            intro after next effect
            cases effect
            exact ⟨trivial, others rfl _⟩
        | read =>
            intro after next effect
            cases effect
            exact ⟨trivial, fun other _ => all other⟩
    | writer place =>
        cases place with
        | lockEntry => exact fun _ => trivial
        | signalWriter | wakeReaders | unlockExit => trivial
        | condWait => rfl
        | entryTest =>
            intro after next effect
            cases effect
            refine ⟨?_, others rfl _⟩
            simp only
            split
            · trivial
            · next free => exact ⟨by omega, by omega⟩
        | waitingTest =>
            intro after next effect
            cases effect
            refine ⟨?_, others rfl _⟩
            simp only
            split
            · trivial
            · next none => exact not_not.mp none
        | arrive | deactivate =>
            intro after next effect
            cases effect
            exact ⟨trivial, others rfl _⟩
        | activate =>
            intro after next effect
            cases effect
            exact ⟨⟨guard.1, rfl⟩, others rfl _⟩
        | stopWaiting | startWrite | write | finishWrite =>
            intro after next effect
            cases effect
            exact ⟨guard, others rfl _⟩

/-- Each counter counts the threads between its two updates. -/
theorem counter_eq (reached : Run code (start kind) allowed history config) (counter : Counter) :
    counter.value config.memory = config.number fun _ => counter.counts := by
  rw [← tally_weigh]
  refine reached.balanced counter.value _ ?_ ?_
  · rw [tally_eq_zero fun t => ?_]
    · cases counter <;> rfl
    · rcases start_place kind t with here | here <;> rw [here] <;> cases counter <;> rfl
  intro _ config t place before _ _ here
  have guard := guarded before t
  rw [here] at guard
  cases place with
  | reader place =>
      cases place with
      | entryTest | lastTest =>
          intro after next effect
          cases effect
          simp only
          split <;> cases counter <;> simp [weigh, Counter.counts, Place.waiting, Place.active, Place.activated]
      | enter | read | leave =>
          intro after next effect
          cases effect
          cases counter <;>
            simp [weigh, Counter.counts, Counter.value, Place.waiting, Place.active, Place.activated]
      | _ => cases counter <;> rfl
  | writer place =>
      cases place with
      | entryTest | waitingTest =>
          intro after next effect
          cases effect
          simp only
          split <;> cases counter <;> simp [weigh, Counter.counts, Place.waiting, Place.active, Place.activated]
      | activate | deactivate =>
          intro after next effect
          cases effect
          cases counter <;>
            simp [weigh, Counter.counts, Counter.value, Place.waiting, Place.active, Place.activated, guard.2]
      | arrive | stopWaiting | startWrite | write | finishWrite =>
          intro after next effect
          cases effect
          cases counter <;>
            simp [weigh, Counter.counts, Counter.value, Place.waiting, Place.active, Place.activated]
      | _ => cases counter <;> rfl

/-- A thread in a wait continues at its test. -/
theorem waitsOn_of_not_ready (reached : Run code (start kind) allowed history config) {t : T}
    (waits : ∀ place, config.status t ≠ .ready place) : ((config.status t).place.waitsOn).isSome = true := by
  have guard := guarded reached t
  cases status : config.status t with
  | ready place => exact absurd status (waits place)
  | blocked cond mutex place =>
      rw [status] at guard
      exact Option.isSome_iff_exists.mpr ⟨cond, guard⟩
  | woken mutex place =>
      rw [status] at guard
      exact guard

/-- A thread that is not at the test of a wait runs. -/
theorem ready_of_waitsOn (reached : Run code (start kind) allowed history config) {t : T}
    (outside : (config.status t).place.waitsOn = none) : config.status t = .ready (config.status t).place := by
  by_contra waits
  have test := waitsOn_of_not_ready reached (t := t) (by
    intro place here
    apply waits
    rw [here, Status.place_ready])
  rw [outside] at test
  cases test

/-- A writer whose `writer_active` is set holds `lock`. -/
theorem holds_of_activated (reached : Run code (start kind) allowed history config) {t : T}
    (activated : (config.status t).place.activated = true) : (config.status t).holds held .lock = true := by
  have here := ready_of_waitsOn reached (t := t) (by
    cases place : (config.status t).place with
    | reader _ => rw [place] at activated; cases activated
    | writer inner => cases inner <;> first | rfl | (rw [place] at activated; cases activated))
  rw [here]
  cases place : (config.status t).place with
  | reader _ => rw [place] at activated; cases activated
  | writer inner => cases inner <;> first | rfl | (rw [place] at activated; cases activated)

/-- No writer is active while another thread holds `lock` or while nobody does. -/
theorem writerActive_eq_zero (reached : Run code (start kind) allowed history config)
    (none : ∀ t, (config.status t).holds held .lock = true → (config.status t).place.activated = false) :
    config.memory.writerActive = 0 := by
  have count : config.memory.writerActive = _ := counter_eq reached .writerActive
  have empty : (config.number fun _ => Place.activated) = 0 := by
    by_contra some
    obtain ⟨t, activated⟩ := exists_of_number_pos (Nat.pos_of_ne_zero some)
    rw [none t (holds_of_activated reached activated)] at activated
    cases activated
  rw [count]
  exact_mod_cast empty

/-- A thread that holds `lock` outside the section of an active writer sees no active writer. -/
theorem writerActive_eq_zero_of_ready (reached : Run code (start kind) allowed history config) {t : T}
    {place : Place}
    (here : config.status t = .ready place) (locked : place.locked = true) (idle : place.activated = false) :
    config.memory.writerActive = 0 := by
  apply writerActive_eq_zero reached
  intro other holds
  have same : other = t := (owned reached).unique holds (by rw [here]; exact locked)
  rw [same, here]
  exact idle

/-- `data` counts the executed instructions `data++`. -/
theorem data_eq (reached : Run code (start kind) allowed history config) :
    config.memory.data = executed Place.isWrite history := by
  refine reached.placed (fun history _ memory => memory.data = (executed Place.isWrite history : Int)) rfl ?_ ?_
  · intro history config t equal waits
    rw [executed_cons_of_not_ready waits]
    exact equal
  · intro history config t place after next _ equal _ here effect
    rw [executed_cons_of_ready here]
    cases place with
    | reader place => cases place <;> cases effect <;> simpa [Place.isWrite] using equal
    | writer place => cases place <;> cases effect <;> simpa [Place.isWrite] using equal

/-- A write section that has executed its `data++` is complete or still open. -/
theorem sections_eq (reached : Run code (start kind) allowed history config) :
    executed Place.isWrite history = executed Place.isFinishWrite history + tally
      (indicator Place.isFinishWrite) config := by
  refine reached.placed (fun history places _ => (executed Place.isWrite history : Int) =
    executed Place.isFinishWrite history + ∑ t, indicator Place.isFinishWrite t (places t)) ?_ ?_ ?_
  · have zero : tally (indicator Place.isFinishWrite) (start kind) = 0 := by
      apply tally_eq_zero
      intro t
      rcases start_place kind t with here | here <;> rw [here] <;> rfl
    simpa [executed, tally, Config.places] using zero.symm
  · intro history config t equal waits
    rw [executed_cons_of_not_ready waits, executed_cons_of_not_ready waits]
    exact equal
  · intro history config t place after next _ equal _ here effect
    rw [executed_cons_of_ready here, executed_cons_of_ready here, sum_update, Config.places_of_ready here,
      Nat.cast_add,
      equal]
    generalize ∑ t, indicator Place.isFinishWrite t (config.places t) = unfinished
    cases place with
    | reader place => cases place <;> cases effect <;> simp [Place.isWrite, Place.isFinishWrite, indicator]
    | writer place =>
        cases place with
        | entryTest | waitingTest =>
            have still : next.isFinishWrite = false := by
              cases effect
              simp only
              split <;> rfl
            simp only [indicator, still]
            simp [Place.isWrite, Place.isFinishWrite]
        | _ =>
            cases effect
            simp [Place.isWrite, Place.isFinishWrite, indicator] <;> omega

/-- While `lock` is free, `data` counts the finished write sections. -/
theorem data_eq_of_free (reached : Run code (start kind) allowed history config)
    (free : config.owner .lock = none) : config.memory.data = executed Place.isFinishWrite history := by
  have closed : tally (indicator Place.isFinishWrite) config = 0 := by
    apply (tally_indicator_eq_zero_iff _).mpr
    intro t
    by_contra open'
    have activated : (config.status t).place.activated = true := by
      cases place : (config.status t).place with
      | reader _ => rw [place] at open'; exact absurd rfl open'
      | writer inner => cases inner <;> first | rfl | (rw [place] at open'; exact absurd rfl open')
    have holds := holds_of_activated reached activated
    rw [(owned reached).free free t] at holds
    cases holds
  have written := data_eq reached
  have sections := sections_eq reached
  omega

/-- A reader in its read section is counted. -/
theorem readersActive_pos_of_reads (reached : Run code (start kind) allowed history config) {t : T}
    (reads : (config.status t).place.reads = true) : 0 < config.memory.readersActive := by
  have count : config.memory.readersActive = _ := counter_eq reached .readersActive
  have active : (config.status t).place.active = true := by
    cases place : (config.status t).place with
    | reader inner => cases inner <;> first | rfl | (rw [place] at reads; cases reads)
    | writer _ => rw [place] at reads; cases reads
  have positive : 0 < config.number fun _ => Place.active := number_pos active
  rw [count]
  exact_mod_cast positive

/-- A writer in its write section sees no active reader. -/
theorem readersActive_eq_zero_of_writes (reached : Run code (start kind) allowed history config) {t : T}
    (writes : (config.status t).place.writes = true) : config.memory.readersActive = 0 := by
  have guard := guarded reached t
  cases status : config.status t with
  | ready place =>
      rw [status] at guard writes
      cases place with
      | reader _ => cases writes
      | writer inner => cases inner <;> first | exact guard.1 | cases writes
  | blocked cond mutex place | woken mutex place =>
      rw [status] at guard writes
      cases place with
      | reader _ => cases writes
      | writer inner => cases inner <;> first | cases writes; done | cases guard

/-- Two writers are never in their write sections together. -/
theorem writer_unique (reached : Run code (start kind) allowed history config) {first second : T}
    (firstWrites : (config.status first).place.writes = true)
    (secondWrites : (config.status second).place.writes = true) : first = second := by
  have activated : ∀ place : Place, place.writes = true → place.activated = true := by
    intro place writes
    cases place with
    | reader _ => cases writes
    | writer inner => cases inner <;> first | rfl | cases writes
  exact (owned reached).unique (holds_of_activated reached (activated _ firstWrites))
    (holds_of_activated reached (activated _ secondWrites))

end

end OSLabs.ReaderWriter
