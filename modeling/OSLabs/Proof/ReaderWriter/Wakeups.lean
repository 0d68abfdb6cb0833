import OSLabs.Proof.ReaderWriter.Exclusion
import OSLabs.Proof.Pthread.Attended
import OSLabs.Proof.Pthread.Progress

namespace OSLabs.ReaderWriter
open Pthread

namespace Place

/-- The reader is about to wait. -/
def isReaderWait : Place → Bool
  | .reader .condWait => true
  | _ => false

/-- The writer is about to wait. -/
def isWriterWait : Place → Bool
  | .writer .condWait => true
  | _ => false

/-- The writer waits no more and has not yet woken the readers or another writer. -/
def wakesReaders : Place → Bool
  | .writer .activate | .writer .startWrite | .writer .write | .writer .finishWrite | .writer .deactivate
  | .writer .waitingTest | .writer .wakeReaders => true
  | _ => false

/-- The thread will let a writer in or wake one. -/
def wakesWriter : Place → Bool
  | .reader .lastTest | .reader .signalWriter | .writer .entryTest | .writer .stopWaiting | .writer .activate
  | .writer .startWrite | .writer .write | .writer .finishWrite | .writer .deactivate | .writer .waitingTest
  | .writer .signalWriter => true
  | _ => false

end Place

/-- The thread will let a writer in or wake one, and it runs or is woken. -/
def alert {T : Type} (_ : T) : Status Place Mutex Cond → Bool
  | .ready place | .woken _ place => place.wakesWriter
  | .blocked _ _ _ => false

/-- The writer waits or is about to wait. -/
def awaitsWrite {T : Type} (_ : T) (status : Status Place Mutex Cond) : Bool :=
  status.awaits .timeToWrite Place.isWriterWait

/-- No thread of the program returns. -/
theorem not_finished {T : Type} {config : State T} (t : T) : ¬ Finished code config t := by
  intro finished
  rw [Finished] at finished
  cases status : config.status t with
  | ready place =>
      rw [status] at finished
      cases place with
      | reader place => cases place <;> cases finished
      | writer place => cases place <;> cases finished
  | blocked cond mutex place | woken mutex place =>
      rw [status] at finished
      cases finished

theorem held_of_isReaderWait (place : Place) (waits : place.isReaderWait = true) : held place .lock = true := by
  cases place with
  | reader place => cases place <;> first | rfl | cases waits
  | writer place => cases waits

theorem held_of_isWriterWait (place : Place) (waits : place.isWriterWait = true) : held place .lock = true := by
  cases place with
  | writer place => cases place <;> first | rfl | cases waits
  | reader place => cases waits

section
variable {T : Type} {kind : T → Kind} [DecidableEq T] [Fintype T]
  {allowed : History T Memory Place Mutex Cond → State T → T → Prop}
  {history : History T Memory Place Mutex Cond} {config : State T}

theorem writersWaiting_nonneg (reached : Run code (start kind) allowed history config) :
    0 ≤ config.memory.writersWaiting := by
  have count : config.memory.writersWaiting = _ := counter_eq reached .writersWaiting
  omega

theorem readersActive_nonneg (reached : Run code (start kind) allowed history config) :
    0 ≤ config.memory.readersActive := by
  have count : config.memory.readersActive = _ := counter_eq reached .readersActive
  omega

/-- A reader waits only while writers wait or a writer is about to wake it. -/
theorem reader_waits (reached : Run code (start kind) allowed history config) {t : T}
    (awaits : (config.status t).awaits .timeToRead Place.isReaderWait = true) :
    0 < config.memory.writersWaiting ∨ ∃ other, (config.places other).wakesReaders = true := by
  refine reached.awaited .timeToRead Place.isReaderWait
    (fun _ places memory => 0 < memory.writersWaiting ∨ ∃ other, (places other).wakesReaders = true)
    ?_ ?_ ?_ ?_ ?_ t awaits
  · intro waiter
    rcases start_place kind waiter with here | here <;> rw [here] <;> rfl
  · intro _ config t mutex place before woken
    have guard := guarded before t
    rw [woken] at guard
    cases place with
    | reader place => cases place <;> first | rfl | cases guard
    | writer place => rfl
  · intro t place mutex next waits
    cases place with
    | reader place => cases place <;> first | rfl | cases waits
    | writer place => cases place <;> cases waits
  · intro history config t place after next before _ here effect entering
    have nonneg := writersWaiting_nonneg before
    cases place with
    | reader place =>
        cases place with
        | entryTest =>
            have idle := writerActive_eq_zero_of_ready before here rfl rfl
            cases effect
            simp only at entering
            split at entering
            · next busy => exact .inl (show 0 < config.memory.writersWaiting by omega)
            · cases entering
        | lastTest =>
            cases effect
            simp only at entering
            split at entering <;> cases entering
        | _ => cases effect; cases entering
    | writer place => cases place <;> cases effect <;> cases entering
  · intro history config t place after next waiter before _ here effect awaits woken attended
    have located := Config.places_of_ready here
    have nonneg := writersWaiting_nonneg before
    have mine : next.wakesReaders = true → 0 < after.writersWaiting ∨
        ∃ other, (Function.update config.places t next other).wakesReaders = true :=
      fun alarms => .inr ⟨t, by rwa [Function.update_self]⟩
    have kept : (0 < config.memory.writersWaiting → 0 < after.writersWaiting) → place.wakesReaders = false →
        0 < after.writersWaiting ∨ ∃ other, (Function.update config.places t next other).wakesReaders = true := by
      intro more quiet
      exact or_exists_update Place.wakesReaders attended more (by rw [located, quiet])
    cases place with
    | reader place => cases place <;> cases effect <;> exact kept id rfl
    | writer place =>
        cases place with
        | arrive =>
            cases effect
            exact kept (fun some => show 0 < config.memory.writersWaiting + 1 by omega) rfl
        | waitingTest =>
            cases effect
            by_cases none : config.memory.writersWaiting = 0
            · apply mine
              simp only [none, ne_eq, not_true_eq_false, ↓reduceIte]
              rfl
            · exact .inl (show 0 < config.memory.writersWaiting by omega)
        | wakeReaders =>
            have runs := woken (by cases effect; rfl)
            rw [(owned before).runs_eq_false here held_of_isReaderWait rfl rfl] at runs
            cases runs
        | lockEntry | entryTest | condWait | signalWriter | unlockExit =>
            cases effect
            exact kept id rfl
        | _ =>
            cases effect
            exact mine rfl

/-- A waiting writer that is not blocked is about to wait, so no other thread holds `lock`. -/
theorem not_awaits_of_locked (reached : Run code (start kind) allowed history config) {t waiter : T}
    {place : Place}
    (here : config.status t = .ready place) (locked : place.locked = true) (elsewhere : place.isWriterWait = false)
    (unblocked : (config.status waiter).blockedOn .timeToWrite = false) :
    awaitsWrite waiter (config.status waiter) = false := by
  rw [awaitsWrite, Status.awaits, unblocked, Bool.false_or]
  exact (owned reached).runs_eq_false here held_of_isWriterWait locked elsewhere

/-- A writer that waits or is about to wait is counted in `writers_waiting`. -/
theorem writersWaiting_pos (reached : Run code (start kind) allowed history config) {t : T}
    (awaits : awaitsWrite t (config.status t) = true) : 0 < config.memory.writersWaiting := by
  have count : config.memory.writersWaiting = _ := counter_eq reached .writersWaiting
  have guard := guarded reached t
  have waiting : (config.status t).place.waiting = true := by
    cases status : config.status t with
    | ready place =>
        rw [status] at awaits
        cases place with
        | reader place => cases awaits
        | writer place => cases place <;> first | rfl | cases awaits
    | woken mutex place =>
        rw [status] at awaits
        cases awaits
    | blocked cond mutex place =>
        rw [status] at awaits guard
        rw [awaitsWrite, Status.awaits_blocked] at awaits
        subst awaits
        cases place with
        | reader place => cases place <;> cases guard
        | writer place => cases place <;> first | rfl | cases guard
  have positive : 0 < config.number fun _ => Place.waiting := number_pos waiting
  rw [count]
  exact_mod_cast positive

section Moves
variable {t : T} {after : Memory} {next : Place} (before : Run code (start kind) allowed history config)
include before

/-- The signal of a thread that holds `lock` leaves no writer that waits. -/
theorem attends_of_signal {place : Place} (here : config.status t = .ready place)
    (unblocked : Unblocked awaitsWrite config t (code t place) next) (locked : place.locked = true)
    (elsewhere : place.isWriterWait = false) (signals : code t place = .signal .timeToWrite next)
    (idle : next.isWriterWait = false) :
    Attends awaitsWrite alert (fun _ memory => 0 < memory.readersActive) config t after (.ready next) := by
  refine attends_of_none (fun waiter different => ?_) (by rw [awaitsWrite, Status.awaits_ready, idle])
  by_contra waits
  have awaits : awaitsWrite waiter (config.status waiter) = true := by simpa using waits
  have free := unblocked .timeToWrite (.inl signals) waiter different awaits
  exact waits (not_awaits_of_locked before here locked elsewhere free)

variable (attended : Attended awaitsWrite alert (fun _ memory => 0 < memory.readersActive) config)
include attended

/-- A reader keeps the writers attended. -/
theorem reader_attends {place : ReaderPlace} (here : config.status t = .ready (.reader place))
    (effect : (code t (.reader place)).effect config.memory = some (after, next))
    (unblocked : Unblocked awaitsWrite config t (code t (.reader place)) next) :
    Attends awaitsWrite alert (fun _ memory => 0 < memory.readersActive) config t after
      ((code t (.reader place)).resume next) := by
  have nonneg := readersActive_nonneg before
  cases place with
  | leave =>
      cases effect
      exact attends_of_alert rfl
  | lastTest =>
      cases effect
      by_cases last : config.memory.readersActive = 0
      · apply attends_of_alert
        simp only [last, ↓reduceIte]
        rfl
      · exact attends_of_fact (show 0 < config.memory.readersActive by omega)
  | signalWriter =>
      cases effect
      exact attends_of_signal before here unblocked rfl rfl rfl rfl
  | entryTest =>
      cases effect
      refine attended.keep_ready here ?_ rfl id
      simp only [awaitsWrite, Status.awaits_ready]
      split <;> rfl
  | enter =>
      cases effect
      exact attended.keep_ready here rfl rfl fun some => show 0 < config.memory.readersActive + 1 by omega
  | _ =>
      cases effect
      exact attended.keep_ready here rfl rfl id

/-- A writer keeps the writers attended. -/
theorem writer_attends {place : WriterPlace} (here : config.status t = .ready (.writer place))
    (effect : (code t (.writer place)).effect config.memory = some (after, next))
    (unblocked : Unblocked awaitsWrite config t (code t (.writer place)) next) :
    Attends awaitsWrite alert (fun _ memory => 0 < memory.readersActive) config t after
      ((code t (.writer place)).resume next) := by
  have nonneg := readersActive_nonneg before
  cases place with
  | entryTest =>
      have idle := writerActive_eq_zero_of_ready before here rfl rfl
      cases effect
      by_cases busy : config.memory.readersActive = 0
      · apply attends_of_alert
        simp only [busy, idle, ne_eq, not_true_eq_false, or_self, ↓reduceIte]
        rfl
      · exact attends_of_fact (show 0 < config.memory.readersActive by omega)
  | waitingTest =>
      by_cases none : config.memory.writersWaiting = 0
      · refine attends_of_none (fun waiter _ => ?_) ?_
        · by_contra waits
          have some := writersWaiting_pos before (t := waiter) (by simpa using waits)
          omega
        · cases effect
          simp only [none]
          rfl
      · cases effect
        apply attends_of_alert
        simp only [ne_eq, none, not_false_eq_true, ↓reduceIte]
        rfl
  | signalWriter =>
      cases effect
      exact attends_of_signal before here unblocked rfl rfl rfl rfl
  | lockEntry | arrive | condWait | wakeReaders | unlockExit =>
      cases effect
      exact attended.keep_ready here rfl rfl id
  | _ =>
      cases effect
      exact attends_of_alert rfl

end Moves

/-- A writer waits only while readers read or some thread will let a writer in or wake one. -/
theorem writer_waits (reached : Run code (start kind) allowed history config) :
    Attended awaitsWrite alert (fun _ memory => 0 < memory.readersActive) config := by
  refine reached.attended awaitsWrite alert _ ?_ ?_ ?_ ?_ ?_ ?_ ?_ ?_
  · intro t
    rcases start_place kind t with here | here <;> rw [here] <;> rfl
  · intro _ config t cond mutex place before here awaits
    have guard := guarded before t
    rw [here] at guard
    rw [awaitsWrite, Status.awaits_blocked] at awaits
    subst awaits
    cases place with
    | reader place => cases place <;> cases guard
    | writer place => cases place <;> first | rfl | cases guard
  · intro t cond mutex place
    rfl
  · intro t mutex place alarm
    exact alarm
  · intro t other cond mutex place mutex' place' awaits
    rw [awaitsWrite, Status.awaits_blocked] at awaits ⊢
    exact awaits
  · intro t mutex place
    rfl
  · intro _ config t mutex place before here
    have guard := guarded before t
    rw [here] at guard
    cases place with
    | reader place => rfl
    | writer place => cases place <;> first | rfl | cases guard
  · intro history config t place after next before attended _ here effect unblocked
    cases place with
    | reader place => exact reader_attends before attended here effect unblocked
    | writer place => exact writer_attends before attended here effect unblocked

/-- While `lock` is free, a blocked reader sees waiting writers. -/
theorem writersWaiting_pos_of_blocked (reached : Run code (start kind) allowed history config)
    (free : config.owner .lock = none) {t : T} (blocked : (config.status t).blockedOn .timeToRead = true) :
    0 < config.memory.writersWaiting := by
  rcases reader_waits reached (t := t) (by simp [Status.awaits, blocked]) with some | ⟨other, wakes⟩
  · exact some
  · exfalso
    rw [Config.places] at wakes
    have here := ready_of_waitsOn reached (t := other) (by
      cases place : (config.status other).place with
      | reader _ => rw [place] at wakes; cases wakes
      | writer inner => cases inner <;> first | rfl | (rw [place] at wakes; cases wakes))
    have outside := (owned reached).free free other
    rw [here] at outside
    cases place : (config.status other).place with
    | reader _ => rw [place] at wakes; cases wakes
    | writer inner =>
        rw [place] at wakes outside
        cases inner <;> first | cases wakes; done | cases outside

/-- While `lock` is free, a blocked writer sees active readers, or another writer has been woken. -/
theorem woken_of_blocked (reached : Run code (start kind) allowed history config)
    (free : config.owner .lock = none) {t : T} (blocked : (config.status t).blockedOn .timeToWrite = true) :
    0 < config.memory.readersActive ∨
      ∃ other, other ≠ t ∧ config.status other = .woken .lock (.writer .entryTest) := by
  rcases writer_waits reached t (by simp [awaitsWrite, Status.awaits, blocked]) with some | ⟨other, alarm⟩
  · exact .inl some
  · right
    have outside := (owned reached).free free other
    have guard := guarded reached other
    cases status : config.status other with
    | ready place =>
        exfalso
        rw [status] at alarm outside
        cases place with
        | reader place => cases place <;> first | cases alarm; done | cases outside
        | writer place => cases place <;> first | cases alarm; done | cases outside
    | blocked cond mutex place =>
        rw [status] at alarm
        cases alarm
    | woken mutex place =>
        rw [status] at alarm guard
        refine ⟨other, ?_, ?_⟩
        · rintro rfl
          rw [status] at blocked
          cases blocked
        · cases mutex
          cases place with
          | reader place => cases place <;> first | cases alarm; done | cases guard
          | writer place => cases place <;> first | exact status | cases guard

theorem not_stalled (reached : Run code (start kind) allowed history config) : ¬ Stalled code config := by
  intro stalled
  have blocked : ∀ t, (config.status t).isBlocked = true := fun t => stalled.2 t (not_finished t)
  have tests : ∀ t, ((config.status t).place.waitsOn).isSome = true := by
    intro t
    apply waitsOn_of_not_ready reached
    intro place here
    have waits := blocked t
    rw [here] at waits
    cases waits
  have free : config.owner .lock = none := by
    cases owner : config.owner .lock with
    | none => rfl
    | some t =>
        have holds := ((owned reached).owner .lock t).mp owner
        have waits := blocked t
        cases status : config.status t with
        | blocked cond mutex place =>
            rw [status] at holds
            cases mutex
            simp [Status.holds] at holds
        | ready place | woken mutex place =>
            rw [status] at waits
            cases waits
  have unread : config.memory.readersActive = 0 := by
    have count : config.memory.readersActive = _ := counter_eq reached .readersActive
    have empty : (config.number fun _ => Place.active) = 0 := by
      by_contra some
      obtain ⟨t, active⟩ := exists_of_number_pos (Nat.pos_of_ne_zero some)
      have test := tests t
      cases place : (config.status t).place with
      | reader inner =>
          rw [place] at test active
          cases inner <;> first | cases test; done | cases active
      | writer inner => rw [place] at active; cases active
    rw [count]
    exact_mod_cast empty
  have noWriter : ∀ t, (config.status t).blockedOn .timeToWrite = false := by
    intro t
    by_contra waits
    rcases woken_of_blocked reached free (t := t) (by simpa using waits) with some | ⟨other, _, woken⟩
    · omega
    · exact stalled.not_woken woken
  have unwritten : config.memory.writersWaiting = 0 := by
    have count : config.memory.writersWaiting = _ := counter_eq reached .writersWaiting
    have empty : (config.number fun _ => Place.waiting) = 0 := by
      by_contra some
      obtain ⟨t, waiting⟩ := exists_of_number_pos (Nat.pos_of_ne_zero some)
      have waits := blocked t
      have other := noWriter t
      have guard := guarded reached t
      cases status : config.status t with
      | ready place | woken mutex place =>
          rw [status] at waits
          cases waits
      | blocked cond mutex place =>
          rw [status] at waiting guard other
          cases place with
          | reader inner => cases waiting
          | writer inner =>
              cases inner <;> first | cases waiting; done | cases guard; done | (cases guard; cases other)
    rw [count]
    exact_mod_cast empty
  obtain ⟨t, waits⟩ := stalled.exists_blocked
  cases status : config.status t with
  | ready place | woken mutex place =>
      rw [status] at waits
      cases waits
  | blocked cond mutex place =>
      have other := noWriter t
      cases cond with
      | timeToRead =>
          have some := writersWaiting_pos_of_blocked reached free (t := t) (by rw [status]; rfl)
          omega
      | timeToWrite =>
          rw [status] at other
          cases other

/-- No thread inside a section of `lock` waits for a mutex. -/
theorem not_stuck (reached : Run code (start kind) allowed history config) : ¬ Stuck code config := by
  refine (owned reached).not_stuck ?_ ?_ (not_stalled reached)
  · intro t place first second _ _
    cases first
    cases second
    rfl
  · intro t place mutex _ holds
    cases place with
    | reader place => cases place <;> first | rfl | cases holds
    | writer place => cases place <;> first | rfl | cases holds

/-- A reader that passes its entry test sees no waiting writer. -/
theorem writersWaiting_eq_zero_of_enter {next : State T} {t : T}
    (here : config.status t = .ready (.reader .entryTest)) (fired : fire code config (.run t) = some next)
    (passed : next.status t = .ready (.reader .enter)) : config.memory.writersWaiting = 0 := by
  simp only [fire, here, code, reader, Instr.relabel, perform, Option.some.injEq] at fired
  subst fired
  simp only [Config.setStatus_status, Function.update_self, Status.ready.injEq, Place.reader.injEq] at passed
  split at passed
  · cases passed
  · next none => omega

end

/-- The writer-preference lock in one configuration of a run. -/
structure WriterPreference {T : Type} [DecidableEq T] [Fintype T] (history : History T Memory Place Mutex Cond)
    (config : State T) : Prop where
  /-- No writer writes while a reader reads. -/
  exclusion : ∀ w r, (config.status w).place.writes = true → (config.status r).place.reads = false
  /-- At most one writer writes. -/
  single : ∀ first second, (config.status first).place.writes = true → (config.status second).place.writes = true →
    first = second
  /-- `data` is the number of executed write sections. -/
  data : config.memory.data = executed Place.isWrite history ∧
    (config.owner .lock = none → config.memory.data = executed Place.isFinishWrite history)
  /-- The two counters are the numbers of waiting writers and of active readers. -/
  counters : config.memory.writersWaiting = (config.number fun _ => Place.waiting) ∧
    config.memory.readersActive = config.number fun _ => Place.active
  /-- No reader passes its entry test while writers wait. -/
  preference : ∀ t next, config.status t = .ready (.reader .entryTest) → fire code config (.run t) = some next →
    next.status t = .ready (.reader .enter) → ¬ 0 < config.memory.writersWaiting
  /-- While `lock` is free, a reader is blocked only if writers wait. -/
  readerWakeup : config.owner .lock = none → ∀ t, (config.status t).blockedOn .timeToRead = true →
    0 < config.memory.writersWaiting
  /-- While `lock` is free, a writer is blocked only if readers are active or another writer has been woken. -/
  writerWakeup : config.owner .lock = none → ∀ t, (config.status t).blockedOn .timeToWrite = true →
    0 < config.memory.readersActive ∨
      ∃ other, other ≠ t ∧ config.status other = .woken .lock (.writer .entryTest)

/-- The writer-preference lock is right in every run, and the threads never wait for ever. -/
theorem writer_preference {T : Type} [DecidableEq T] [Fintype T] {kind : T → Kind}
    {history : History T Memory Place Mutex Cond} {config : State T}
    (reached : Run code (start kind) (fun _ _ _ => True) history config) :
    WriterPreference history config ∧ ¬ Stalled code config ∧ ¬ Stuck code config := by
  refine ⟨⟨fun w r writes => ?_, fun first second => writer_unique reached,
    ⟨data_eq reached, data_eq_of_free reached⟩,
      ⟨counter_eq reached .writersWaiting, counter_eq reached .readersActive⟩,
    fun t next here fired passed => ?_, fun free t => writersWaiting_pos_of_blocked reached free,
    fun free t => woken_of_blocked reached free⟩, not_stalled reached, not_stuck reached⟩
  · by_contra reads
    have some := readersActive_pos_of_reads reached (t := r) (by simpa using reads)
    have none := readersActive_eq_zero_of_writes reached writes
    omega
  · have none := writersWaiting_eq_zero_of_enter here fired passed
    omega

/-- A reader for the first thread and a writer for the second. -/
def readerThenWriter : Fin 2 → Kind
  | 0 => .reader
  | 1 => .writer

/-- A reader reads while a writer waits for it. -/
theorem writer_waits_for_reader : ∃ history config,
    Run code (start readerThenWriter) (fun _ _ _ => True) history config ∧
    (config.status 0).place.reads = true ∧ (config.status 1).blockedOn .timeToWrite = true ∧
    WriterPreference history config ∧ ¬ Stalled code config := by
  obtain ⟨history, config, reached, holds⟩ := exists_run code (start readerThenWriter) (fun _ _ _ => True)
    (turns 4 0 ++ turns 4 1)
    (fun config => (config.status 0).place.reads && (config.status 1).blockedOn .timeToWrite) (by decide)
  rw [Bool.and_eq_true] at holds
  obtain ⟨preference, alive, _⟩ := writer_preference reached
  exact ⟨history, config, reached, holds.1, holds.2, preference, alive⟩

end OSLabs.ReaderWriter
