import OSLabs.Proof.Pthread.Run

namespace OSLabs.Pthread

/-- The memory and the place after the instruction, whatever happens to the mutexes. -/
def Instr.effect {S L M C : Type} (memory : S) : Instr S L M C → Option (S × L)
  | .access update => some (update memory)
  | .lock _ next | .unlock _ next | .wait _ _ next | .signal _ next | .broadcast _ next => some (memory, next)
  | .exit => none

namespace Config
variable {T S L M C : Type}

/-- The place where each thread runs or continues after its wait. -/
def places (config : Config T S L M C) (thread : T) : L := (config.status thread).place

/-- A running thread runs at its place. -/
theorem places_of_ready {config : Config T S L M C} {thread : T} {place : L}
    (here : config.status thread = .ready place) : config.places thread = place := by
  rw [places, here, Status.place_ready]

@[simp] theorem places_setMemory (config : Config T S L M C) (memory : S) :
    (config.setMemory memory).places = config.places := rfl

@[simp] theorem places_setOwner [DecidableEq M] (config : Config T S L M C) (mutex : M) (owner : Option T) :
    (config.setOwner mutex owner).places = config.places := rfl

@[simp] theorem places_wakeAll [DecidableEq C] (config : Config T S L M C) (cond : C) :
    (config.wakeAll cond).places = config.places := by
  funext thread
  simp [places]

variable [DecidableEq T]

@[simp] theorem places_setStatus (config : Config T S L M C) (thread : T) (status : Status L M C) :
    (config.setStatus thread status).places = Function.update config.places thread status.place := by
  funext other
  by_cases same : other = thread
  · subst same
    simp [places]
  · simp [places, Function.update_of_ne same]

/-- A thread that stays at its place changes no place. -/
theorem update_places {config : Config T S L M C} {thread : T} {place : L}
    (same : (config.status thread).place = place) :
    Function.update config.places thread place = config.places := by
  rw [← same]
  exact Function.update_eq_self thread config.places

end Config

/-- A test that the move of a thread does not change has the same result everywhere. -/
theorem test_update {T L : Type} [DecidableEq T] {places : T → L} {thread : T} {next : L} (test : L → Bool)
    (same : test next = test (places thread)) (other : T) :
    test (Function.update places thread next other) = test (places other) := by
  by_cases hit : other = thread
  · subst hit
    simpa using same
  · rw [Function.update_of_ne hit]

/-- A test that the thread does not gain holds after its move only where it held before. -/
theorem of_update {T L : Type} [DecidableEq T] {places : T → L} {thread other : T} {next : L} (test : L → Bool)
    (kept : (!test next || test (places thread)) = true)
    (holds : test (Function.update places thread next other) = true) : test (places other) = true := by
  by_cases hit : other = thread
  · subst hit
    simpa [show test next = true by simpa using holds] using kept
  · simpa [Function.update_of_ne hit] using holds

/-- A test that the thread does not gain still fails where it failed before. -/
theorem update_eq_false {T L : Type} [DecidableEq T] {places : T → L} {thread other : T} {next : L}
    (test : L → Bool)
    (kept : (!test next || test (places thread)) = true) (fails : test (places other) = false) :
    test (Function.update places thread next other) = false := by
  by_contra holds
  rw [of_update test kept (by simpa using holds)] at fails
  cases fails

/-- A thread that passes a test is still there after a move that does not lose the test. -/
theorem exists_update {T L : Type} [DecidableEq T] {places : T → L} {thread : T} {next : L} (test : L → Bool)
    (kept : (!test (places thread) || test next) = true) (found : ∃ other, test (places other) = true) :
    ∃ other, test (Function.update places thread next other) = true := by
  obtain ⟨other, holds⟩ := found
  refine ⟨other, ?_⟩
  by_cases hit : other = thread
  · subst hit
    simpa [holds] using kept
  · rwa [Function.update_of_ne hit]

/-- A fact or a thread in a set of places is kept by a thread outside the set whose step keeps the fact. -/
theorem or_exists_update {T L : Type} [DecidableEq T] {places : T → L} {thread : T} {next : L}
    {before after : Prop}
    (test : L → Bool) (holds : before ∨ ∃ other, test (places other) = true) (keeps : before → after)
    (outside : test (places thread) = false) :
    after ∨ ∃ other, test (Function.update places thread next other) = true := by
  rcases holds with fact | found
  · exact .inl (keeps fact)
  · exact .inr (exists_update test (by simp [outside]) found)

/-- A thread that runs adds its place to the executed ones. -/
theorem executed_cons_of_ready {T S L M C : Type} {inSet : L → Bool} {history : History T S L M C}
    {config : Config T S L M C} {thread : T} {place : L} (here : config.status thread = .ready place) :
    executed inSet ((config, thread) :: history) = executed inSet history + if inSet place then 1 else 0 := by
  simp [executed, List.countP_cons, here]

/-- A thread that returns from a wait executes no instruction. -/
theorem executed_cons_of_not_ready {T S L M C : Type} {inSet : L → Bool} {history : History T S L M C}
    {config : Config T S L M C} {thread : T} (waits : ∀ place, config.status thread ≠ .ready place) :
    executed inSet ((config, thread) :: history) = executed inSet history := by
  have still : (config.status thread).runs inSet = false := by
    cases status : config.status thread with
    | ready place => exact absurd status (waits place)
    | blocked cond mutex place | woken mutex place => rfl
  simp [executed, still]

/-- An assertion about the history, the places and the memory holds in every run when the start meets it
and each instruction keeps it. It ignores the mutexes and the wakeups. -/
theorem Run.placed {T S L M C : Type} [DecidableEq T] [Fintype T] [DecidableEq M] [DecidableEq C]
    {code : T → L → Instr S L M C} {start : Config T S L M C}
    {allowed : History T S L M C → Config T S L M C → T → Prop}
    (assertion : History T S L M C → (T → L) → S → Prop)
    (initial : assertion [] start.places start.memory)
    (idle : ∀ history config thread, assertion history config.places config.memory →
      (∀ place, config.status thread ≠ .ready place) →
      assertion ((config, thread) :: history) config.places config.memory)
    (run : ∀ history config thread place after next, Run code start allowed history config →
      assertion history config.places config.memory → allowed history config thread →
      config.status thread = .ready place → (code thread place).effect config.memory = some (after, next) →
      assertion ((config, thread) :: history) (Function.update config.places thread next) after)
    {history : History T S L M C} {config : Config T S L M C}
    (reached : Run code start allowed history config) : assertion history config.places config.memory := by
  refine Run.induct (fun history config => assertion history config.places config.memory) initial ?_ ?_ ?_ reached
  · intro history config thread place before holds permitted here
    have moved := fun after next => run history config thread place after next before holds permitted here
    cases instr : code thread place with
    | access update =>
        simp only [instr, Instr.effect, Option.some.injEq] at moved
        intro memory next effect
        simpa using moved memory next effect
    | lock mutex next =>
        simp only [instr, Instr.effect, Option.some.injEq, Prod.mk.injEq, and_imp] at moved
        intro free
        simpa using moved _ _ rfl rfl
    | unlock mutex next | wait cond mutex next | broadcast cond next =>
        simp only [instr, Instr.effect, Option.some.injEq, Prod.mk.injEq, and_imp] at moved
        simpa [Instr.Ensures] using moved _ _ rfl rfl
    | signal cond next =>
        simp only [instr, Instr.effect, Option.some.injEq, Prod.mk.injEq, and_imp] at moved
        refine ⟨fun _ => by simpa using moved _ _ rfl rfl, fun target mutex there blocked => ?_⟩
        have other : target ≠ thread := by
          rintro rfl
          simp [here] at blocked
        have same : ((config.setStatus thread (.ready next)).status target).place = there := by
          simp [Function.update_of_ne other, blocked]
        have same := Config.update_places same
        simp only [Config.places_setStatus, Status.place_ready] at same
        simpa [same] using moved _ _ rfl rfl
    | exit => trivial
  · intro history config thread mutex place before holds _ here _
    have same : Function.update config.places thread place = config.places := Config.update_places (by simp [here])
    simpa [same] using idle history config thread holds (by simp [here])
  · intro history config thread cond mutex place before holds _ here
    have same : Function.update config.places thread place = config.places := Config.update_places (by simp [here])
    simpa [same] using idle history config thread holds (by simp [here])

/-- An assertion about the place of each thread holds in every run when the start meets it
and each instruction keeps it. -/
theorem Run.located {T S L M C : Type} [DecidableEq T] [Fintype T] [DecidableEq M] [DecidableEq C]
    {code : T → L → Instr S L M C} {start : Config T S L M C}
    {allowed : History T S L M C → Config T S L M C → T → Prop}
    (assertion : T → L → Prop) (initial : ∀ thread, assertion thread (start.places thread))
    (run : ∀ history config thread place after next, Run code start allowed history config →
      config.status thread = .ready place → assertion thread place →
      (code thread place).effect config.memory = some (after, next) → assertion thread next)
    {history : History T S L M C} {config : Config T S L M C}
    (reached : Run code start allowed history config) (thread : T) : assertion thread (config.places thread) := by
  refine reached.placed (fun _ places _ => ∀ thread, assertion thread (places thread)) initial ?_ ?_ thread
  · intro _ _ _ holds _
    exact holds
  · intro history config thread place after next before all _ here effect other
    by_cases same : other = thread
    · subst same
      have mine := all other
      rw [Config.places_of_ready here] at mine
      rw [Function.update_self]
      exact run history config other place after next before here mine effect
    · rw [Function.update_of_ne same]
      exact all other

/-- A flag of the memory that one thread sets on its way into a set of places, which it never leaves,
tells that the thread is there. -/
theorem Run.happened {T S L M C : Type} [DecidableEq T] [Fintype T] [DecidableEq M] [DecidableEq C]
    {code : T → L → Instr S L M C} {start : Config T S L M C}
    {allowed : History T S L M C → Config T S L M C → T → Prop}
    (flag : S → Prop) (doer : T) (past : L → Bool)
    (initial : ¬ flag start.memory)
    (sets : ∀ history config thread place after next, Run code start allowed history config →
      config.status thread = .ready place → (code thread place).effect config.memory = some (after, next) →
      flag after → flag config.memory ∨ thread = doer ∧ past next = true)
    (stays : ∀ place memory after next, (code doer place).effect memory = some (after, next) →
      past place = true → past next = true)
    {history : History T S L M C} {config : Config T S L M C} (reached : Run code start allowed history config)
    (flagged : flag config.memory) : past (config.places doer) = true := by
  refine reached.placed (fun _ places memory => flag memory → past (places doer) = true)
    (fun flagged => absurd flagged initial) (fun _ _ _ holds _ => holds) ?_ flagged
  intro history config thread place after next before holds _ here effect flagged
  by_cases mine : thread = doer
  · subst mine
    rw [Function.update_self]
    rcases sets history config thread place after next before here effect flagged with earlier | now
    · have located := holds earlier
      rw [Config.places_of_ready here] at located
      exact stays place config.memory after next effect located
    · exact now.2
  · rw [Function.update_of_ne (Ne.symm mine)]
    rcases sets history config thread place after next before here effect flagged with earlier | now
    · exact holds earlier
    · exact absurd now.1 mine

/-- The thread waits on the condition variable or is about to wait on it. -/
def Status.awaits {L M C : Type} [DecidableEq C] (cond : C) (about : L → Bool) (status : Status L M C) : Bool :=
  status.blockedOn cond || status.runs about

namespace Status
variable {L M C : Type} [DecidableEq C] {cond : C} {about : L → Bool}

@[simp] theorem awaits_ready (place : L) : (ready place : Status L M C).awaits cond about = about place := rfl

@[simp] theorem awaits_woken (mutex : M) (place : L) :
    (woken mutex place : Status L M C).awaits cond about = false := rfl

theorem awaits_blocked (here : C) (mutex : M) (place : L) :
    (blocked here mutex place : Status L M C).awaits cond about = true ↔ here = cond := by
  simp [awaits, blockedOn]

/-- A thread that awaits after a wakeup awaited before it. -/
theorem awaits_of_wake {alarm : C} {status : Status L M C} (after : (status.wake alarm).awaits cond about = true) :
    status.awaits cond about = true := by
  rw [awaits, Bool.or_eq_true] at after ⊢
  rcases after with blocked | about
  · exact .inl (blockedOn_of_wake blocked)
  · exact .inr (by simpa using about)

/-- A thread that awaits after a wakeup on its own condition variable is only about to wait. -/
theorem runs_of_awaits_wake {status : Status L M C} (after : (status.wake cond).awaits cond about = true) :
    status.runs about = true := by
  simpa [awaits] using after

end Status

/-- A fact about the places and the memory holds for every thread that awaits a condition variable when each thread
meets it before its wait and when every instruction keeps it for the threads that it does not wake. -/
theorem Run.awaited {T S L M C : Type} [DecidableEq T] [Fintype T] [DecidableEq M] [DecidableEq C]
    {code : T → L → Instr S L M C} {start : Config T S L M C}
    {allowed : History T S L M C → Config T S L M C → T → Prop}
    (cond : C) (about : L → Bool) (fact : T → (T → L) → S → Prop)
    (initial : ∀ waiter, (start.status waiter).awaits cond about = false)
    (resumed : ∀ history config thread mutex place, Run code start allowed history config →
      config.status thread = .woken mutex place → about place = false)
    (waits : ∀ thread place mutex next, code thread place = .wait cond mutex next → about place = true)
    (enters : ∀ history config thread place after next, Run code start allowed history config →
      allowed history config thread → config.status thread = .ready place →
      (code thread place).effect config.memory = some (after, next) → about next = true →
      fact thread (Function.update config.places thread next) after)
    (keeps : ∀ history config thread place after next waiter, Run code start allowed history config →
      allowed history config thread → config.status thread = .ready place →
      (code thread place).effect config.memory = some (after, next) →
      (config.status waiter).awaits cond about = true →
      (code thread place = .broadcast cond next → (config.status waiter).runs about = true) →
      fact waiter config.places config.memory → fact waiter (Function.update config.places thread next) after)
    {history : History T S L M C} {config : Config T S L M C} (reached : Run code start allowed history config)
    (waiter : T) (awaits : (config.status waiter).awaits cond about = true) :
    fact waiter config.places config.memory := by
  revert waiter
  refine Run.invariant (fun config => ∀ waiter, (config.status waiter).awaits cond about = true →
    fact waiter config.places config.memory) ?_ ?_ ?_ ?_ reached
  · intro waiter awaits
    rw [initial waiter] at awaits
    cases awaits
  · intro history config thread place before facts permitted here
    have entered := fun after next => enters history config thread place after next before permitted here
    have kept := fun after next waiter effect awaits still =>
      keeps history config thread place after next waiter before permitted here effect awaits still
        (facts waiter awaits)
    cases instr : code thread place with
    | access update =>
        simp only [instr, Instr.effect, Option.some.injEq] at entered kept
        intro memory next effect waiter awaits
        by_cases hit : waiter = thread
        · subst hit
          simpa using entered memory next effect (by simpa using awaits)
        · simpa using kept memory next waiter effect (by simpa [Function.update_of_ne hit] using awaits) nofun
    | lock mutex next =>
        simp only [instr, Instr.effect, Option.some.injEq] at entered kept
        intro free waiter awaits
        by_cases hit : waiter = thread
        · subst hit
          simpa using entered _ _ rfl (by simpa using awaits)
        · simpa using kept _ _ waiter rfl (by simpa [Function.update_of_ne hit] using awaits) nofun
    | unlock mutex next =>
        simp only [instr, Instr.effect, Option.some.injEq] at entered kept
        intro waiter awaits
        by_cases hit : waiter = thread
        · subst hit
          simpa using entered _ _ rfl (by simpa using awaits)
        · simpa using kept _ _ waiter rfl (by simpa [Function.update_of_ne hit] using awaits) nofun
    | wait other mutex next =>
        simp only [instr, Instr.effect, Option.some.injEq] at kept
        intro waiter awaits
        by_cases hit : waiter = thread
        · subst hit
          rw [Config.setStatus_status, Function.update_self, Status.awaits_blocked] at awaits
          subst awaits
          simpa using kept _ _ waiter rfl (by simpa [here] using waits _ _ _ _ instr) nofun
        · simpa using kept _ _ waiter rfl (by simpa [Function.update_of_ne hit] using awaits) nofun
    | signal other next =>
        simp only [instr, Instr.effect, Option.some.injEq] at entered kept
        refine ⟨fun _ waiter awaits => ?_, fun target mutex there blocked waiter awaits => ?_⟩
        · by_cases hit : waiter = thread
          · subst hit
            simpa using entered _ _ rfl (by simpa using awaits)
          · simpa using kept _ _ waiter rfl (by simpa [Function.update_of_ne hit] using awaits) nofun
        · have different : target ≠ thread := by
            rintro rfl
            simp [here] at blocked
          have same : ((config.setStatus thread (.ready next)).status target).place = there := by
            simp [Function.update_of_ne different, blocked]
          have same := Config.update_places same
          simp only [Config.places_setStatus, Status.place_ready] at same
          by_cases woke : waiter = target
          · subst woke
            simp at awaits
          · rw [Config.setStatus_status, Function.update_of_ne woke] at awaits
            by_cases hit : waiter = thread
            · subst hit
              simpa [same] using entered _ _ rfl (by simpa using awaits)
            · simpa [same] using kept _ _ waiter rfl (by simpa [Function.update_of_ne hit] using awaits) nofun
    | broadcast alarm next =>
        simp only [instr, Instr.effect, Option.some.injEq] at entered kept
        intro waiter awaits
        by_cases hit : waiter = thread
        · subst hit
          simpa using entered _ _ rfl (by simpa using awaits)
        · rw [Config.setStatus_status, Function.update_of_ne hit, Config.wakeAll_status] at awaits
          have still : (Instr.broadcast alarm next : Instr S L M C) = .broadcast cond next →
              (config.status waiter).runs about = true := by
            intro same
            cases same
            exact Status.runs_of_awaits_wake awaits
          simpa using kept _ _ waiter rfl (Status.awaits_of_wake awaits) still
    | exit => trivial
  · intro history config thread mutex place before facts here _ waiter awaits
    have same : Function.update config.places thread place = config.places := Config.update_places (by simp [here])
    by_cases hit : waiter = thread
    · subst hit
      simp [resumed _ _ _ _ _ before here] at awaits
    · simpa [same] using facts waiter (by simpa [Function.update_of_ne hit] using awaits)
  · intro history config thread other mutex place before facts here waiter awaits
    have same : Function.update config.places thread place = config.places := Config.update_places (by simp [here])
    by_cases hit : waiter = thread
    · subst hit
      simp at awaits
    · simpa [same] using facts waiter (by simpa [Function.update_of_ne hit] using awaits)

end OSLabs.Pthread
