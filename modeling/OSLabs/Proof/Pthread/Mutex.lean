import OSLabs.Proof.Pthread.Run

namespace OSLabs.Pthread

/-- A thread in a wait has released the mutex that it will lock again. -/
def Status.holds {L M C : Type} [DecidableEq M] (held : L → M → Bool) : Status L M C → M → Bool
  | .ready place => held place
  | .blocked _ released place => Function.update (held place) released false
  | .woken released place => Function.update (held place) released false

/-- A thread in a wait continues at a place that holds the mutex of the wait. -/
def Status.Relocks {L M C : Type} (held : L → M → Bool) : Status L M C → Prop
  | .ready _ => True
  | .blocked _ released place => held place released = true
  | .woken released place => held place released = true

/-- A wakeup gives no mutex and takes none. -/
@[simp] theorem Status.holds_wake {L M C : Type} [DecidableEq M] [DecidableEq C] (held : L → M → Bool)
    (cond : C) (status : Status L M C) : (status.wake cond).holds held = status.holds held := by
  cases status with
  | blocked here released place =>
      simp only [wake]
      split <;> rfl
  | ready place => rfl
  | woken released place => rfl

/-- A thread that holds a mutex holds it at its place. -/
theorem Status.held_of_holds {L M C : Type} [DecidableEq M] {held : L → M → Bool} {status : Status L M C}
    {mutex : M}
    (holds : status.holds held mutex = true) : held status.place mutex = true := by
  cases status with
  | ready place => exact holds
  | blocked cond released place | woken released place =>
      by_cases same : mutex = released
      · subst same
        simp [Status.holds] at holds
      · simpa [Status.holds, Function.update_of_ne same] using holds

@[simp] theorem Status.relocks_wake {L M C : Type} [DecidableEq C] (held : L → M → Bool)
    (cond : C) (status : Status L M C) : (status.wake cond).Relocks held ↔ status.Relocks held := by
  cases status with
  | blocked here released place =>
      simp only [wake]
      split <;> rfl
  | ready place => rfl
  | woken released place => rfl

/-- The instruction changes the held mutexes exactly as its lock operations do. -/
def Instr.Respects {S L M C : Type} [DecidableEq M] (held : L → M → Bool) (place : L) : Instr S L M C → Prop
  | .access update => ∀ before after next, update before = (after, next) → held next = held place
  | .lock mutex next => held next = Function.update (held place) mutex true
  | .unlock mutex next => held next = Function.update (held place) mutex false
  | .wait _ mutex next => held place mutex = true ∧ held next = held place
  | .signal _ next => held next = held place
  | .broadcast _ next => held next = held place
  | .exit => True

/-- Each mutex is owned by exactly the thread whose place holds it. -/
structure Owned {T S L M C : Type} [DecidableEq M] (held : T → L → M → Bool) (config : Config T S L M C) :
    Prop where
  owner : ∀ mutex thread,
    config.owner mutex = some thread ↔ (config.status thread).holds (held thread) mutex = true
  relocks : ∀ thread, (config.status thread).Relocks (held thread)

namespace Owned
variable {T S L M C : Type} [DecidableEq M] {held : T → L → M → Bool} {config : Config T S L M C}

/-- Two threads that hold one mutex are the same thread. -/
theorem unique (owned : Owned held config) {mutex : M} {first second : T}
    (firstHolds : (config.status first).holds (held first) mutex = true)
    (secondHolds : (config.status second).holds (held second) mutex = true) : first = second := by
  have firstOwner := (owned.owner mutex first).mpr firstHolds
  have secondOwner := (owned.owner mutex second).mpr secondHolds
  exact Option.some.inj (firstOwner.symm.trans secondOwner)

/-- A free mutex is held by no thread. -/
theorem free (owned : Owned held config) {mutex : M} (free : config.owner mutex = none) (thread : T) :
    (config.status thread).holds (held thread) mutex = false := by
  by_contra taken
  have owner := (owned.owner mutex thread).mpr (by simpa using taken)
  rw [free] at owner
  cases owner

/-- No other thread runs at a place that holds the mutex of the running thread. -/
theorem outside (owned : Owned held config) {mutex : M} {thread other : T} {place there : L}
    (here : config.status thread = .ready place) (holds : held thread place mutex = true)
    (different : other ≠ thread) (otherHere : config.status other = .ready there) :
    held other there mutex = false := by
  by_contra taken
  apply different
  exact owned.unique (by simpa [Status.holds, otherHere] using taken)
    (by simpa [Status.holds, here] using holds)

/-- While a thread runs under a mutex, no other thread runs in a set of places under this mutex. -/
theorem runs_eq_false_of_ne (owned : Owned held config) {mutex : M} {thread other : T} {place : L}
    {inSet : L → Bool}
    (here : config.status thread = .ready place) (inside : ∀ there, inSet there = true →
      held other there mutex = true)
    (holds : held thread place mutex = true) (different : other ≠ thread) :
    (config.status other).runs inSet = false := by
  by_contra runs
  obtain ⟨there, otherHere, member⟩ := (Status.runs_iff _ _).mp (by simpa using runs)
  have outside := owned.outside here holds different otherHere
  rw [inside there member] at outside
  cases outside

/-- While a thread runs under a mutex outside a set of places under this mutex, nobody runs in the set. -/
theorem runs_eq_false (owned : Owned held config) {mutex : M} {thread other : T} {place : L} {inSet : L → Bool}
    (here : config.status thread = .ready place) (inside : ∀ there, inSet there = true →
      held other there mutex = true)
    (holds : held thread place mutex = true) (elsewhere : inSet place = false) :
    (config.status other).runs inSet = false := by
  by_cases same : other = thread
  · subst same
    rw [here]
    exact elsewhere
  · exact owned.runs_eq_false_of_ne here inside holds same

/-- A broadcast changes no owner. -/
theorem wakeAll [DecidableEq C] (owned : Owned held config) (cond : C) : Owned held (config.wakeAll cond) where
  owner mutex thread := by simpa using owned.owner mutex thread
  relocks thread := by simpa using owned.relocks thread

variable [DecidableEq T] {thread : T} {status : Status L M C}

/-- A thread that moves without a lock operation keeps every owner. -/
theorem setStatus (owned : Owned held config) (relocks : status.Relocks (held thread))
    (same : status.holds (held thread) = (config.status thread).holds (held thread)) :
    Owned held (config.setStatus thread status) := by
  refine ⟨fun mutex other => ?_, fun other => ?_⟩
  · by_cases moved : other = thread
    · subst moved
      simpa [same] using owned.owner mutex other
    · simpa [Function.update_of_ne moved] using owned.owner mutex other
  · by_cases moved : other = thread
    · subst moved
      simpa using relocks
    · simpa [Function.update_of_ne moved] using owned.relocks other

/-- A thread that locks a free mutex becomes its owner. -/
theorem take (owned : Owned held config) {mutex : M} (free : config.owner mutex = none)
    (relocks : status.Relocks (held thread))
    (gained : status.holds (held thread) =
      Function.update ((config.status thread).holds (held thread)) mutex true) :
    Owned held ((config.setOwner mutex (some thread)).setStatus thread status) := by
  have unheld := owned.free free
  refine ⟨fun other someone => ?_, fun someone => ?_⟩
  · by_cases sameMutex : other = mutex
    · subst sameMutex
      by_cases moved : someone = thread
      · subst moved
        simp [gained]
      · simp [Function.update_of_ne moved, unheld someone, Ne.symm moved]
    · by_cases moved : someone = thread
      · subst moved
        simpa [gained, Function.update_of_ne sameMutex] using owned.owner other someone
      · simpa [Function.update_of_ne moved, Function.update_of_ne sameMutex] using owned.owner other someone
  · by_cases moved : someone = thread
    · subst moved
      simpa using relocks
    · simpa [Function.update_of_ne moved] using owned.relocks someone

/-- A thread that frees a mutex which no other thread owns leaves it without an owner. -/
theorem release (owned : Owned held config) {mutex : M}
    (mine : config.owner mutex = some thread ∨ config.owner mutex = none)
    (relocks : status.Relocks (held thread))
    (lost : status.holds (held thread) =
      Function.update ((config.status thread).holds (held thread)) mutex false) :
    Owned held ((config.setOwner mutex none).setStatus thread status) := by
  refine ⟨fun other someone => ?_, fun someone => ?_⟩
  · by_cases sameMutex : other = mutex
    · subst sameMutex
      by_cases moved : someone = thread
      · subst moved
        simp [lost]
      · have unheld : (config.status someone).holds (held someone) other = false := by
          by_contra taken
          have owner := (owned.owner other someone).mpr (by simpa using taken)
          rcases mine with mine | mine
          · rw [mine] at owner
            exact moved (Option.some.inj owner).symm
          · rw [mine] at owner
            cases owner
        simp [Function.update_of_ne moved, unheld]
    · by_cases moved : someone = thread
      · subst moved
        simpa [lost, Function.update_of_ne sameMutex] using owned.owner other someone
      · simpa [Function.update_of_ne moved, Function.update_of_ne sameMutex] using owned.owner other someone
  · by_cases moved : someone = thread
    · subst moved
      simpa using relocks
    · simpa [Function.update_of_ne moved] using owned.relocks someone

end Owned

section
variable {T S L M C : Type} [DecidableEq M]

/-- An owner after a release owned another mutex before it. -/
theorem owner_of_free {owners : M → Option T} {mutex other : M} {someone : T}
    (owner : Function.update owners mutex none other = some someone) :
    other ≠ mutex ∧ owners other = some someone := by
  by_cases same : other = mutex
  · rw [same, Function.update_self] at owner
    cases owner
  · rw [Function.update_of_ne same] at owner
    exact ⟨same, owner⟩

/-- An owner other than the thread that takes a mutex was an owner before. -/
theorem owner_of_taken {owners : M → Option T} {mutex other : M} {thread someone : T}
    (different : someone ≠ thread)
    (owner : Function.update owners mutex (some thread) other = some someone) : owners other = some someone := by
  by_cases same : other = mutex
  · rw [same, Function.update_self] at owner
    exact absurd (Option.some.inj owner).symm different
  · rwa [Function.update_of_ne same] at owner

/-- The owner of each mutex holds it, and a thread in a wait will hold its mutex again. -/
structure Kept (held : T → L → M → Bool) (config : Config T S L M C) : Prop where
  owner : ∀ mutex thread, config.owner mutex = some thread →
    (config.status thread).holds (held thread) mutex = true
  relocks : ∀ thread, (config.status thread).Relocks (held thread)

/-- A thread that keeps what it owns, while the other threads only lose mutexes, keeps the owners. -/
theorem Kept.move [DecidableEq T] {held : T → L → M → Bool} {config next : Config T S L M C}
    (kept : Kept held config) {thread : T}
    {status : Status L M C} (moved : next.status = Function.update config.status thread status)
    (relocks : status.Relocks (held thread))
    (mine : ∀ mutex, next.owner mutex = some thread → status.holds (held thread) mutex = true)
    (others : ∀ mutex other, other ≠ thread → next.owner mutex = some other → config.owner mutex = some other) :
    Kept held next := by
  refine ⟨fun mutex other owner => ?_, fun other => ?_⟩
  · rw [moved]
    by_cases same : other = thread
    · subst same
      rw [Function.update_self]
      exact mine mutex owner
    · rw [Function.update_of_ne same]
      exact kept.owner mutex other (others mutex other same owner)
  · rw [moved]
    by_cases same : other = thread
    · subst same
      rwa [Function.update_self]
    · rw [Function.update_of_ne same]
      exact kept.relocks other

/-- A broadcast changes no owner. -/
theorem Kept.wakeAll [DecidableEq C] {held : T → L → M → Bool} {config : Config T S L M C}
    (kept : Kept held config) (cond : C) :
    Kept held (config.wakeAll cond) where
  owner mutex thread owner := by simpa using kept.owner mutex thread owner
  relocks thread := by simpa using kept.relocks thread

end

section
variable {T S L M C : Type} [DecidableEq T] [Fintype T] [DecidableEq M] [DecidableEq C]

/-- A program whose places respect the lock operations keeps the exact owners in every run,
provided that a thread unlocks a mutex which it does not hold only while the mutex is free. -/
theorem Run.owned {code : T → L → Instr S L M C} {start : Config T S L M C}
    {allowed : History T S L M C → Config T S L M C → T → Prop} {held : T → L → M → Bool}
    (respects : ∀ thread place, (code thread place).Respects (held thread) place)
    (initial : Owned held start)
    (stray : ∀ history config thread place mutex next, Run code start allowed history config →
      allowed history config thread → config.status thread = .ready place →
      code thread place = .unlock mutex next → held thread place mutex = false → config.owner mutex = none)
    {history : History T S L M C} {config : Config T S L M C}
    (reached : Run code start allowed history config) : Owned held config := by
  refine Run.invariant (Owned held) initial ?_ ?_ ?_ reached
  · intro history config thread place before owned permitted here
    have respect := respects thread place
    cases instr : code thread place with
    | access update =>
        simp only [instr, Instr.Respects] at respect
        intro memory next effect
        have kept : Owned held (config.setMemory memory) := ⟨owned.owner, owned.relocks⟩
        exact kept.setStatus trivial (by simp [Status.holds, here, respect _ _ _ effect])
    | lock mutex next =>
        simp only [instr, Instr.Respects] at respect
        intro free
        exact owned.take free trivial (by simp [Status.holds, here, respect])
    | unlock mutex next =>
        simp only [instr, Instr.Respects] at respect
        refine owned.release ?_ trivial (by simp [Status.holds, here, respect])
        cases mine : held thread place mutex with
        | true => exact .inl ((owned.owner mutex thread).mpr (by simpa [Status.holds, here] using mine))
        | false => exact .inr (stray history config thread place mutex next before permitted here instr mine)
    | wait cond mutex next =>
        simp only [instr, Instr.Respects] at respect
        refine owned.release (.inl ((owned.owner mutex thread).mpr
          (by simpa [Status.holds, here] using respect.1)))
          ?_ (by simp [Status.holds, here, respect.2])
        simpa [Status.Relocks, respect.2] using respect.1
    | signal cond next =>
        simp only [instr, Instr.Respects] at respect
        have moved : Owned held (config.setStatus thread (.ready next)) :=
          owned.setStatus trivial (by simp [Status.holds, here, respect])
        refine ⟨fun _ => moved, ?_⟩
        intro target mutex there blocked
        have other : target ≠ thread := by
          rintro rfl
          simp [here] at blocked
        have relock := owned.relocks target
        rw [blocked] at relock
        exact moved.setStatus relock (by simp [Function.update_of_ne other, blocked, Status.holds])
    | broadcast cond next =>
        simp only [instr, Instr.Respects] at respect
        exact (owned.wakeAll cond).setStatus trivial (by simp [Status.holds, here, respect])
    | exit => trivial
  · intro _ config thread mutex place _ owned here free
    have relock := owned.relocks thread
    rw [here] at relock
    refine owned.take free trivial ?_
    rw [here]
    simp only [Status.holds, Function.update_idem]
    exact (Function.update_eq_self_iff.mpr (Eq.symm relock)).symm
  · intro _ config thread cond mutex place _ owned here
    have relock := owned.relocks thread
    rw [here] at relock
    exact owned.setStatus relock (by simp [here, Status.holds])

/-- The owner of a mutex holds it in every run of a program whose places respect the lock operations,
whoever else unlocks the mutex. -/
theorem Run.kept {code : T → L → Instr S L M C} {start : Config T S L M C}
    {allowed : History T S L M C → Config T S L M C → T → Prop} {held : T → L → M → Bool}
    (respects : ∀ thread place, (code thread place).Respects (held thread) place)
    (initial : Kept held start)
    {history : History T S L M C} {config : Config T S L M C} (reached : Run code start allowed history config) :
    Kept held config := by
  refine Run.invariant (Kept held) initial ?_ ?_ ?_ reached
  · intro history config thread place _ kept _ here
    have respect := respects thread place
    have before : ∀ mutex, config.owner mutex = some thread → held thread place mutex = true := by
      intro mutex owner
      simpa [here, Status.holds] using kept.owner mutex thread owner
    have unchanged : ∀ next, held thread next = held thread place → ∀ mutex, config.owner mutex = some thread →
        (Status.ready next : Status L M C).holds (held thread) mutex = true := by
      intro next same mutex owner
      rw [Status.holds, same]
      exact before mutex owner
    cases instr : code thread place with
    | access update =>
        simp only [instr, Instr.Respects] at respect
        intro memory next effect
        exact kept.move rfl trivial (unchanged next (respect _ _ _ effect)) fun _ _ _ owner => owner
    | lock mutex next =>
        simp only [instr, Instr.Respects] at respect
        intro free
        refine kept.move rfl trivial (fun other owner => ?_) fun _ _ different owner =>
          owner_of_taken different owner
        rw [Status.holds, respect]
        by_cases same : other = mutex
        · rw [same, Function.update_self]
        · rw [Config.setStatus_owner, Config.setOwner_owner, Function.update_of_ne same] at owner
          rw [Function.update_of_ne same]
          exact before other owner
    | unlock mutex next =>
        simp only [instr, Instr.Respects] at respect
        refine kept.move rfl trivial (fun other owner => ?_) fun _ _ _ owner => (owner_of_free owner).2
        obtain ⟨different, owner⟩ := owner_of_free owner
        rw [Status.holds, respect, Function.update_of_ne different]
        exact before other owner
    | wait cond mutex next =>
        simp only [instr, Instr.Respects] at respect
        refine kept.move rfl ?_ (fun other owner => ?_) fun _ _ _ owner => (owner_of_free owner).2
        · rw [Status.Relocks, respect.2]
          exact respect.1
        · obtain ⟨different, owner⟩ := owner_of_free owner
          rw [Status.holds, Function.update_of_ne different, respect.2]
          exact before other owner
    | signal cond next =>
        simp only [instr, Instr.Respects] at respect
        have moved : Kept held (config.setStatus thread (.ready next)) :=
          kept.move rfl trivial (unchanged next respect) fun _ _ _ owner => owner
        refine ⟨fun _ => moved, fun target mutex there blocked => ?_⟩
        have different : target ≠ thread := by
          rintro rfl
          simp [here] at blocked
        have relock := kept.relocks target
        rw [blocked] at relock
        refine moved.move rfl relock (fun other owner => ?_) fun _ _ _ owner => owner
        have holds := kept.owner other target owner
        rw [blocked] at holds
        exact holds
    | broadcast cond next =>
        simp only [instr, Instr.Respects] at respect
        exact (kept.wakeAll cond).move rfl trivial (unchanged next respect) fun _ _ _ owner => owner
    | exit => trivial
  · intro history config thread mutex place _ kept here free
    have relock := kept.relocks thread
    rw [here] at relock
    refine kept.move rfl trivial (fun other owner => ?_) fun _ _ different owner => owner_of_taken different owner
    rw [Status.holds]
    by_cases same : other = mutex
    · rw [same]
      exact relock
    · rw [Config.setStatus_owner, Config.setOwner_owner, Function.update_of_ne same] at owner
      have holds := kept.owner other thread owner
      rw [here] at holds
      exact Status.held_of_holds holds
  · intro history config thread cond mutex place _ kept here
    have relock := kept.relocks thread
    rw [here] at relock
    refine kept.move rfl relock (fun other owner => ?_) fun _ _ _ owner => owner
    have holds := kept.owner other thread owner
    rw [here] at holds
    exact holds

end

end OSLabs.Pthread
