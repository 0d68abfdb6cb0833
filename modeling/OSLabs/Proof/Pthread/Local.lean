import OSLabs.Proof.Pthread.Mutex

namespace OSLabs.Pthread

variable {T S L M C : Type}

/-- Every thread meets its own assertion about its status and the shared memory. -/
def Everywhere (assertion : T → Status L M C → S → Prop) (config : Config T S L M C) : Prop :=
  ∀ thread, assertion thread (config.status thread) config.memory

/-- A thread that holds a mutex does not disturb an assertion that only the holder can lose. -/
theorem Everywhere.undisturbed [DecidableEq M] {held : T → L → M → Bool} {config : Config T S L M C}
    {assertion : T → Status L M C → S → Prop} (all : Everywhere assertion config)
    (owned : Owned held config) {mutex : M} {thread : T} {place : L}
    (stable : ∀ other status memory memory', status.holds (held other) mutex = false →
      assertion other status memory → assertion other status memory')
    (here : config.status thread = .ready place) (holds : held thread place mutex = true)
    (memory : S) {other : T} (different : other ≠ thread) : assertion other (config.status other) memory := by
  apply stable other _ config.memory _ _ (all other)
  by_contra taken
  apply different
  exact owned.unique (by simpa using taken) (by simpa [Status.holds, here] using holds)

/-- The instruction of one thread keeps the assertion of this thread and of every other thread. -/
def Instr.Keeps (assertion : T → Status L M C → S → Prop) (config : Config T S L M C) (thread : T) :
    Instr S L M C → Prop
  | .access update => ∀ memory next, update config.memory = (memory, next) →
      assertion thread (.ready next) memory ∧
        ∀ other, other ≠ thread → assertion other (config.status other) memory
  | .lock mutex next => config.owner mutex = none → assertion thread (.ready next) config.memory
  | .unlock _ next => assertion thread (.ready next) config.memory
  | .wait cond mutex next => assertion thread (.blocked cond mutex next) config.memory
  | .signal _ next => assertion thread (.ready next) config.memory
  | .broadcast _ next => assertion thread (.ready next) config.memory
  | .exit => True

theorem Everywhere.setStatus [DecidableEq T] {assertion : T → Status L M C → S → Prop} {config : Config T S L M C}
    (all : Everywhere assertion config) {thread : T} {status : Status L M C}
    (moved : assertion thread status config.memory) : Everywhere assertion (config.setStatus thread status) := by
  intro other
  by_cases same : other = thread
  · subst same
    simpa using moved
  · simpa [Function.update_of_ne same] using all other

/-- Assertions that hold at the start, that survive every wakeup, and that each instruction keeps
hold in every configuration of a run. -/
theorem Run.everywhere [DecidableEq T] [Fintype T] [DecidableEq M] [DecidableEq C]
    {code : T → L → Instr S L M C} {start : Config T S L M C}
    {allowed : History T S L M C → Config T S L M C → T → Prop}
    (assertion : T → Status L M C → S → Prop)
    (initial : Everywhere assertion start)
    (woken : ∀ thread cond mutex place memory, assertion thread (.blocked cond mutex place) memory →
      assertion thread (.woken mutex place) memory)
    (relocked : ∀ thread mutex place memory, assertion thread (.woken mutex place) memory →
      assertion thread (.ready place) memory)
    (run : ∀ history config thread place, Run code start allowed history config →
      Everywhere assertion config → allowed history config thread → config.status thread = .ready place →
      (code thread place).Keeps assertion config thread)
    {history : History T S L M C} {config : Config T S L M C}
    (reached : Run code start allowed history config) : Everywhere assertion config := by
  refine Run.invariant (Everywhere assertion) initial ?_ ?_ ?_ reached
  · intro history config thread place before all permitted here
    have keeps := run history config thread place before all permitted here
    cases instr : code thread place with
    | access update =>
        simp only [instr, Instr.Keeps] at keeps
        intro memory next effect other
        obtain ⟨mine, others⟩ := keeps memory next effect
        by_cases same : other = thread
        · subst same
          simpa using mine
        · simpa [Function.update_of_ne same] using others other same
    | lock mutex next =>
        simp only [instr, Instr.Keeps] at keeps
        intro free
        have kept : Everywhere assertion (config.setOwner mutex (some thread)) := all
        exact kept.setStatus (keeps free)
    | unlock mutex next =>
        simp only [instr, Instr.Keeps] at keeps
        have kept : Everywhere assertion (config.setOwner mutex none) := all
        exact kept.setStatus keeps
    | wait cond mutex next =>
        simp only [instr, Instr.Keeps] at keeps
        have kept : Everywhere assertion (config.setOwner mutex none) := all
        exact kept.setStatus keeps
    | signal cond next =>
        simp only [instr, Instr.Keeps] at keeps
        have moved : Everywhere assertion (config.setStatus thread (.ready next)) := all.setStatus keeps
        refine ⟨fun _ => moved, ?_⟩
        intro target mutex there blocked
        have before := all target
        rw [blocked] at before
        exact moved.setStatus (woken target cond mutex there _ before)
    | broadcast cond next =>
        simp only [instr, Instr.Keeps] at keeps
        have alerted : Everywhere assertion (config.wakeAll cond) := by
          intro other
          have before := all other
          cases status : config.status other with
          | ready there => simpa [status] using before
          | woken mutex there => simpa [status] using before
          | blocked other' mutex there =>
              rw [status] at before
              simp only [Config.wakeAll_status, Config.wakeAll_memory, status, Status.wake]
              split
              · exact woken other other' mutex there _ before
              · exact before
        exact alerted.setStatus keeps
    | exit => trivial
  · intro _ config thread mutex place _ all here free
    have before := all thread
    rw [here] at before
    have kept : Everywhere assertion (config.setOwner mutex (some thread)) := all
    exact kept.setStatus (relocked thread mutex place _ before)
  · intro _ config thread cond mutex place _ all here
    have before := all thread
    rw [here] at before
    exact all.setStatus (woken thread cond mutex place _ before)

/-- A thread that is in a wait continues at the place after a wait of its code. -/
def Status.Resumes {S L M C : Type} (code : L → Instr S L M C) : Status L M C → Prop
  | .ready _ => True
  | .blocked cond mutex place => ∃ there, code there = .wait cond mutex place
  | .woken mutex place => ∃ there cond, code there = .wait cond mutex place

/-- In every run from running threads, each wait continues at a place after a wait of the code. -/
theorem Run.resumes {T S L M C : Type} [DecidableEq T] [Fintype T] [DecidableEq M] [DecidableEq C]
    {code : T → L → Instr S L M C} {start : Config T S L M C}
    {allowed : History T S L M C → Config T S L M C → T → Prop}
    (initial : ∀ thread, ∃ place, start.status thread = .ready place)
    {history : History T S L M C} {config : Config T S L M C}
    (reached : Run code start allowed history config) (thread : T) :
    (config.status thread).Resumes (code thread) := by
  refine Run.everywhere (fun thread status _ => status.Resumes (code thread)) ?_ ?_ ?_ ?_ reached thread
  · intro thread
    obtain ⟨place, here⟩ := initial thread
    rw [here]
    trivial
  · intro thread cond mutex place _ waits
    obtain ⟨there, waits⟩ := waits
    exact ⟨there, cond, waits⟩
  · intro thread mutex place _ _
    trivial
  · intro _ config thread place _ all _ here
    cases instr : code thread place with
    | access update => exact fun _ _ _ => ⟨trivial, fun other _ => all other⟩
    | lock mutex next => exact fun _ => trivial
    | wait cond mutex next => exact ⟨place, instr⟩
    | unlock mutex next | signal cond next | broadcast cond next | exit => trivial

/-- A thread that is at no place after a wait runs. -/
theorem Run.ready_of_not_resumed {T S L M C : Type} [DecidableEq T] [Fintype T] [DecidableEq M] [DecidableEq C]
    {code : T → L → Instr S L M C} {start : Config T S L M C}
    {allowed : History T S L M C → Config T S L M C → T → Prop}
    (initial : ∀ thread, ∃ place, start.status thread = .ready place) (test : L → Bool)
    (waits : ∀ thread there cond mutex next, code thread there = .wait cond mutex next → test next = true)
    {history : History T S L M C} {config : Config T S L M C}
    (reached : Run code start allowed history config) {thread : T}
    (elsewhere : test (config.status thread).place = false) :
    config.status thread = .ready (config.status thread).place := by
  have resumes := reached.resumes initial thread
  cases status : config.status thread with
  | ready place => rfl
  | blocked cond mutex place =>
      rw [status] at resumes elsewhere
      obtain ⟨there, instr⟩ := resumes
      rw [Status.place_blocked, waits thread there cond mutex place instr] at elsewhere
      cases elsewhere
  | woken mutex place =>
      rw [status] at resumes elsewhere
      obtain ⟨there, cond, instr⟩ := resumes
      rw [Status.place_woken, waits thread there cond mutex place instr] at elsewhere
      cases elsewhere

end OSLabs.Pthread
