import OSLabs.Construction.Pthread

namespace OSLabs.Pthread

namespace Config
variable {T S L M C : Type}

@[simp] theorem setMemory_memory (config : Config T S L M C) (memory : S) :
    (config.setMemory memory).memory = memory := rfl

@[simp] theorem setMemory_owner (config : Config T S L M C) (memory : S) :
    (config.setMemory memory).owner = config.owner := rfl

@[simp] theorem setMemory_status (config : Config T S L M C) (memory : S) :
    (config.setMemory memory).status = config.status := rfl

@[simp] theorem setOwner_memory [DecidableEq M] (config : Config T S L M C) (mutex : M) (owner : Option T) :
    (config.setOwner mutex owner).memory = config.memory := rfl

@[simp] theorem setOwner_owner [DecidableEq M] (config : Config T S L M C) (mutex : M) (owner : Option T) :
    (config.setOwner mutex owner).owner = Function.update config.owner mutex owner := rfl

@[simp] theorem setOwner_status [DecidableEq M] (config : Config T S L M C) (mutex : M) (owner : Option T) :
    (config.setOwner mutex owner).status = config.status := rfl

@[simp] theorem setStatus_memory [DecidableEq T] (config : Config T S L M C) (thread : T) (status : Status L M C) :
    (config.setStatus thread status).memory = config.memory := rfl

@[simp] theorem setStatus_owner [DecidableEq T] (config : Config T S L M C) (thread : T) (status : Status L M C) :
    (config.setStatus thread status).owner = config.owner := rfl

@[simp] theorem setStatus_status [DecidableEq T] (config : Config T S L M C) (thread : T) (status : Status L M C) :
    (config.setStatus thread status).status = Function.update config.status thread status := rfl

@[simp] theorem wakeAll_memory [DecidableEq C] (config : Config T S L M C) (cond : C) :
    (config.wakeAll cond).memory = config.memory := rfl

@[simp] theorem wakeAll_owner [DecidableEq C] (config : Config T S L M C) (cond : C) :
    (config.wakeAll cond).owner = config.owner := rfl

@[simp] theorem wakeAll_status [DecidableEq C] (config : Config T S L M C) (cond : C) (thread : T) :
    (config.wakeAll cond).status thread = (config.status thread).wake cond := rfl

@[simp] theorem initial_memory (memory : S) (first : T → L) :
    (initial memory first : Config T S L M C).memory = memory := rfl

@[simp] theorem initial_owner (memory : S) (first : T → L) (mutex : M) :
    (initial memory first : Config T S L M C).owner mutex = none := rfl

@[simp] theorem initial_status (memory : S) (first : T → L) (thread : T) :
    (initial memory first : Config T S L M C).status thread = .ready (first thread) := rfl

end Config

namespace Status
variable {L M C : Type}

@[simp] theorem place_ready (place : L) : (ready place : Status L M C).place = place := rfl

@[simp] theorem place_blocked (cond : C) (mutex : M) (place : L) :
    (blocked cond mutex place).place = place := rfl

@[simp] theorem place_woken (mutex : M) (place : L) :
    (woken mutex place : Status L M C).place = place := rfl

@[simp] theorem isBlocked_ready (place : L) : (ready place : Status L M C).isBlocked = false := rfl

@[simp] theorem isBlocked_blocked (cond : C) (mutex : M) (place : L) :
    (blocked cond mutex place).isBlocked = true := rfl

@[simp] theorem isBlocked_woken (mutex : M) (place : L) :
    (woken mutex place : Status L M C).isBlocked = false := rfl

@[simp] theorem runs_ready (inSet : L → Bool) (place : L) :
    (ready place : Status L M C).runs inSet = inSet place := rfl

@[simp] theorem runs_blocked (inSet : L → Bool) (cond : C) (mutex : M) (place : L) :
    (blocked cond mutex place).runs inSet = false := rfl

@[simp] theorem runs_woken (inSet : L → Bool) (mutex : M) (place : L) :
    (woken mutex place : Status L M C).runs inSet = false := rfl

/-- A thread that runs in a set runs at one place of it. -/
theorem runs_iff (inSet : L → Bool) (status : Status L M C) :
    status.runs inSet = true ↔ ∃ place, status = ready place ∧ inSet place = true := by
  cases status <;> simp

variable [DecidableEq C]

/-- A wakeup keeps the place where the thread continues. -/
@[simp] theorem wake_place (cond : C) (status : Status L M C) :
    (status.wake cond).place = status.place := by
  cases status with
  | blocked here mutex place =>
      simp only [wake]
      split <;> rfl
  | ready place => rfl
  | woken mutex place => rfl

@[simp] theorem wake_ready (cond : C) (place : L) :
    (ready place : Status L M C).wake cond = ready place := rfl

@[simp] theorem wake_woken (cond : C) (mutex : M) (place : L) :
    (woken mutex place : Status L M C).wake cond = woken mutex place := rfl

@[simp] theorem wake_blocked_self (cond : C) (mutex : M) (place : L) :
    (blocked cond mutex place : Status L M C).wake cond = woken mutex place := by
  simp [wake]

/-- A thread that runs after a wakeup ran before it. -/
@[simp] theorem wake_eq_ready (cond : C) (status : Status L M C) (place : L) :
    status.wake cond = ready place ↔ status = ready place := by
  cases status with
  | blocked here mutex place =>
      simp only [wake]
      split <;> simp
  | ready place => simp
  | woken mutex place => simp

/-- A thread that stays blocked was blocked on another condition variable. -/
theorem wake_eq_blocked (cond here : C) (status : Status L M C) (mutex : M) (place : L) :
    status.wake cond = blocked here mutex place ↔ status = blocked here mutex place ∧ here ≠ cond := by
  cases status with
  | blocked there mutex' place' =>
      simp only [wake]
      split
      · simp_all
      · simp only [blocked.injEq]
        constructor
        · rintro ⟨rfl, rfl, rfl⟩
          exact ⟨⟨rfl, rfl, rfl⟩, by assumption⟩
        · rintro ⟨same, _⟩
          exact same
  | ready place => simp
  | woken mutex place => simp

/-- The Boolean test names the exact blocked status. -/
theorem blockedOn_iff (cond : C) (status : Status L M C) :
    status.blockedOn cond = true ↔ ∃ mutex place, status = blocked cond mutex place := by
  cases status <;> simp [blockedOn]

/-- A status that is blocked on no condition variable of this name is not blocked there. -/
theorem blockedOn_eq_false_iff (cond : C) (status : Status L M C) :
    status.blockedOn cond = false ↔ ∀ mutex place, status ≠ blocked cond mutex place := by
  cases status <;> simp [blockedOn]

/-- A wakeup moves no running thread. -/
@[simp] theorem runs_wake (inSet : L → Bool) (cond : C) (status : Status L M C) :
    (status.wake cond).runs inSet = status.runs inSet := by
  cases status with
  | blocked here mutex place =>
      simp only [wake]
      split <;> rfl
  | ready place => rfl
  | woken mutex place => rfl

/-- A thread that is blocked after a wakeup was blocked before it. -/
theorem blockedOn_of_wake {cond here : C} {status : Status L M C}
    (blocked : (status.wake cond).blockedOn here = true) : status.blockedOn here = true := by
  obtain ⟨mutex, place, after⟩ := (blockedOn_iff _ _).mp blocked
  exact (blockedOn_iff _ _).mpr ⟨mutex, place, ((wake_eq_blocked _ _ _ _ _).mp after).1⟩

/-- A wakeup leaves no thread blocked on its own condition variable. -/
@[simp] theorem blockedOn_wake_self (cond : C) (status : Status L M C) :
    (status.wake cond).blockedOn cond = false := by
  rw [blockedOn_eq_false_iff]
  intro mutex place after
  exact ((wake_eq_blocked _ _ _ _ _).mp after).2 rfl

theorem isBlocked_of_wake {cond : C} {status : Status L M C}
    (blocked : (status.wake cond).isBlocked = true) : status.isBlocked = true := by
  cases status with
  | blocked here mutex place => rfl
  | ready place => cases blocked
  | woken mutex place => cases blocked

end Status

namespace Stalled
variable {T S L M C : Type} {code : T → L → Instr S L M C} {config : Config T S L M C}

/-- A thread that runs in a stalled configuration is at its exit. -/
theorem exits (stalled : Stalled code config) {thread : T} {place : L}
    (here : config.status thread = .ready place) : (code thread place).isExit = true := by
  by_contra continues
  have blocked := stalled.2 thread (by simpa [Finished, here] using continues)
  rw [here] at blocked
  cases blocked

/-- No wakeup is pending in a stalled configuration. -/
theorem not_woken (stalled : Stalled code config) {thread : T} {mutex : M} {place : L} :
    config.status thread ≠ .woken mutex place := by
  intro here
  have blocked := stalled.2 thread (by simp [Finished, here])
  rw [here] at blocked
  cases blocked

/-- A stalled configuration has a blocked thread. -/
theorem exists_blocked (stalled : Stalled code config) :
    ∃ thread, (config.status thread).isBlocked = true := by
  obtain ⟨thread, unfinished⟩ := stalled.1
  exact ⟨thread, stalled.2 thread unfinished⟩

end Stalled

section
variable {T S L M C : Type} [DecidableEq T] [Fintype T] [DecidableEq M] [DecidableEq C]

/-- Every outcome of the instruction meets the postcondition. -/
def Instr.Ensures (config : Config T S L M C) (thread : T) (post : Config T S L M C → Prop) :
    Instr S L M C → Prop
  | .access update => ∀ memory next, update config.memory = (memory, next) →
      post ((config.setMemory memory).setStatus thread (.ready next))
  | .lock mutex next =>
      config.owner mutex = none →
        post ((config.setOwner mutex (some thread)).setStatus thread (.ready next))
  | .unlock mutex next => post ((config.setOwner mutex none).setStatus thread (.ready next))
  | .wait cond mutex next =>
      post ((config.setOwner mutex none).setStatus thread (.blocked cond mutex next))
  | .signal cond next =>
      ((∀ target, (config.status target).blockedOn cond = false) →
        post (config.setStatus thread (.ready next))) ∧
      ∀ target mutex place, config.status target = .blocked cond mutex place →
        post ((config.setStatus thread (.ready next)).setStatus target (.woken mutex place))
  | .broadcast cond next => post ((config.wakeAll cond).setStatus thread (.ready next))
  | .exit => True

/-- The rule for one move: it covers each instruction, each return from a wait,
and each spurious wakeup. -/
theorem fire_ensures {code : T → L → Instr S L M C} {config next : Config T S L M C} {move : Move T}
    {post : Config T S L M C → Prop} (fired : fire code config move = some next)
    (run : ∀ place, config.status move.thread = .ready place →
      (code move.thread place).Ensures config move.thread post)
    (relock : ∀ mutex place, config.status move.thread = .woken mutex place →
      (Instr.lock mutex place : Instr S L M C).Ensures config move.thread post)
    (spurious : ∀ cond mutex place, config.status move.thread = .blocked cond mutex place →
      post (config.setStatus move.thread (.woken mutex place))) :
    post next := by
  have performed {thread : T} {instr : Instr S L M C}
      (ensures : instr.Ensures config thread post) (done : perform config thread instr = some next) :
      post next := by
    cases instr with
    | access update => cases done; exact ensures _ _ rfl
    | lock mutex place =>
        simp only [perform] at done
        split at done
        · next free => cases done; exact ensures free
        · cases done
    | unlock mutex place => cases done; exact ensures
    | wait cond mutex place => cases done; exact ensures
    | signal cond place =>
        simp only [perform] at done
        split at done
        · next idle => cases done; exact ensures.1 idle
        · cases done
    | broadcast cond place => cases done; exact ensures
    | exit => cases done
  cases move with
  | run thread =>
      simp only [fire] at fired
      cases here : config.status thread with
      | ready place => rw [here] at fired; exact performed (run place here) fired
      | woken mutex place => rw [here] at fired; exact performed (relock mutex place here) fired
      | blocked cond mutex place => rw [here] at fired; cases fired
  | signal thread target =>
      simp only [fire] at fired
      cases here : config.status thread with
      | ready place =>
          have ensures := run place here
          simp only [here] at fired
          simp only [Move.thread] at ensures
          split at fired
          · next cond next' instr =>
              rw [instr] at ensures
              split at fired
              · next waits =>
                  obtain ⟨mutex, there, blocked⟩ := (Status.blockedOn_iff _ _).mp waits
                  cases fired
                  have post := ensures.2 target mutex there blocked
                  rwa [blocked, Status.wake_blocked_self]
              · cases fired
          · cases fired
      | woken mutex place => simp [here] at fired
      | blocked cond mutex place => simp [here] at fired
  | spurious thread =>
      simp only [fire] at fired
      cases here : config.status thread with
      | ready place => simp [here] at fired
      | woken mutex place => simp [here] at fired
      | blocked cond mutex place =>
          simp only [here] at fired
          cases fired
          exact spurious cond mutex place here

/-- An assertion about the history and the configuration holds in every run when the start
meets it and each kind of step keeps it. -/
theorem Run.induct {code : T → L → Instr S L M C} {start : Config T S L M C}
    {allowed : History T S L M C → Config T S L M C → T → Prop}
    (invariant : History T S L M C → Config T S L M C → Prop)
    (initial : invariant [] start)
    (run : ∀ history config thread place, Run code start allowed history config →
      invariant history config → allowed history config thread → config.status thread = .ready place →
      (code thread place).Ensures config thread (invariant ((config, thread) :: history)))
    (relock : ∀ history config thread mutex place, Run code start allowed history config →
      invariant history config → allowed history config thread →
      config.status thread = .woken mutex place → config.owner mutex = none →
      invariant ((config, thread) :: history)
        ((config.setOwner mutex (some thread)).setStatus thread (.ready place)))
    (spurious : ∀ history config thread cond mutex place, Run code start allowed history config →
      invariant history config → allowed history config thread →
      config.status thread = .blocked cond mutex place →
      invariant ((config, thread) :: history) (config.setStatus thread (.woken mutex place)))
    {history : History T S L M C} {config : Config T S L M C}
    (reached : Run code start allowed history config) : invariant history config := by
  induction reached with
  | start => exact initial
  | @step history config next move before permitted fired ih =>
      exact fire_ensures fired
        (fun place here => run history config move.thread place before ih permitted here)
        (fun mutex place here free => relock history config move.thread mutex place before ih permitted here free)
        (fun cond mutex place here => spurious history config move.thread cond mutex place
          before ih permitted here)

/-- The same rule for an assertion about the configuration alone. -/
theorem Run.invariant {code : T → L → Instr S L M C} {start : Config T S L M C}
    {allowed : History T S L M C → Config T S L M C → T → Prop}
    (assertion : Config T S L M C → Prop)
    (initial : assertion start)
    (run : ∀ history config thread place, Run code start allowed history config →
      assertion config → allowed history config thread → config.status thread = .ready place →
      (code thread place).Ensures config thread assertion)
    (relock : ∀ history config thread mutex place, Run code start allowed history config →
      assertion config → config.status thread = .woken mutex place → config.owner mutex = none →
      assertion ((config.setOwner mutex (some thread)).setStatus thread (.ready place)))
    (spurious : ∀ history config thread cond mutex place, Run code start allowed history config →
      assertion config → config.status thread = .blocked cond mutex place →
      assertion (config.setStatus thread (.woken mutex place)))
    {history : History T S L M C} {config : Config T S L M C}
    (reached : Run code start allowed history config) : assertion config :=
  Run.induct (fun _ config => assertion config) initial run
    (fun history config thread mutex place before holds _ =>
      relock history config thread mutex place before holds)
    (fun history config thread cond mutex place before holds _ =>
      spurious history config thread cond mutex place before holds)
    reached

/-- The same rule for an assertion about the memory alone: only an access can lose it. -/
theorem Run.stored {code : T → L → Instr S L M C} {start : Config T S L M C}
    {allowed : History T S L M C → Config T S L M C → T → Prop}
    (assertion : S → Prop)
    (initial : assertion start.memory)
    (access : ∀ history config thread place update memory next, Run code start allowed history config →
      assertion config.memory → allowed history config thread → config.status thread = .ready place →
      code thread place = .access update → update config.memory = (memory, next) → assertion memory)
    {history : History T S L M C} {config : Config T S L M C}
    (reached : Run code start allowed history config) : assertion config.memory := by
  refine Run.invariant (fun config => assertion config.memory) initial ?_ ?_ ?_ reached
  · intro history config thread place before holds permitted here
    cases instr : code thread place with
    | access update =>
        intro memory next effect
        exact access history config thread place update memory next before holds permitted here instr effect
    | signal cond next => exact ⟨fun _ => holds, fun _ _ _ _ => holds⟩
    | lock mutex next => exact fun _ => holds
    | unlock mutex next | wait cond mutex next | broadcast cond next => exact holds
    | exit => trivial
  · intro _ config thread mutex place _ holds _ _
    exact holds
  · intro _ config thread cond mutex place _ holds _
    exact holds

/-- A side condition that follows in every run permits every run of the first one. -/
theorem Run.mono {code : T → L → Instr S L M C} {start : Config T S L M C}
    {strong weak : History T S L M C → Config T S L M C → T → Prop}
    (weaker : ∀ history config thread, Run code start strong history config → Run code start weak history config →
      strong history config thread → weak history config thread)
    {history : History T S L M C} {config : Config T S L M C}
    (reached : Run code start strong history config) : Run code start weak history config := by
  induction reached with
  | start => exact .start
  | step move before permitted fired ih => exact .step move ih (weaker _ _ _ before ih permitted) fired

/-- Two runs with a condition on the configuration alone compose. -/
theorem Run.append {code : T → L → Instr S L M C} {start middle : Config T S L M C}
    {condition : Config T S L M C → T → Prop}
    {allowed : History T S L M C → Config T S L M C → T → Prop}
    {earlier history : History T S L M C} {config : Config T S L M C}
    (first : Run code start (fun _ => condition) earlier middle)
    (conditioned : ∀ history config thread, allowed history config thread → condition config thread)
    (second : Run code middle allowed history config) :
    Run code start (fun _ => condition) (history ++ earlier) config := by
  induction second with
  | start => exact first
  | step move before permitted fired ih => exact .step move ih (conditioned _ _ _ permitted) fired

/-- A schedule that passes the side condition continues a run. -/
theorem Run.of_drive {code : T → L → Instr S L M C} {start : Config T S L M C}
    {allowed : History T S L M C → Config T S L M C → T → Prop}
    [∀ history config thread, Decidable (allowed history config thread)]
    {history : History T S L M C} {config : Config T S L M C} {final : History T S L M C × Config T S L M C}
    (reached : Run code start allowed history config) {moves : List (Move T)}
    (driven : drive code allowed history config moves = some final) :
    Run code start allowed final.1 final.2 := by
  induction moves generalizing history config with
  | nil =>
      cases driven
      exact reached
  | cons move rest ih =>
      simp only [drive] at driven
      split at driven
      · next permitted =>
          obtain ⟨next, fired, tail⟩ := Option.bind_eq_some_iff.mp driven
          exact ih (.step move reached permitted fired) tail
      · cases driven

theorem Reachable.refl (code : T → L → Instr S L M C) (start : Config T S L M C) : Reachable code start start :=
  ⟨[], .start⟩

/-- A schedule from a reachable configuration reaches its last configuration. -/
theorem Reachable.follow {code : T → L → Instr S L M C} {start config next : Config T S L M C}
    {moves : List (Move T)}
    (reachable : Reachable code start config) (followed : Pthread.follow code config moves = some next) :
    Reachable code start next := by
  induction moves generalizing config with
  | nil =>
      cases followed
      exact reachable
  | cons move rest ih =>
      obtain ⟨middle, fired, tail⟩ := Option.bind_eq_some_iff.mp followed
      obtain ⟨history, reached⟩ := reachable
      exact ih ⟨_, .step move reached trivial fired⟩ tail

theorem Reachable.trans {code : T → L → Instr S L M C} {start config next : Config T S L M C}
    (first : Reachable code start config) (second : Reachable code config next) : Reachable code start next := by
  obtain ⟨earlier, before⟩ := first
  obtain ⟨later, after⟩ := second
  exact ⟨later ++ earlier, before.append (fun _ _ _ _ => trivial) after⟩

/-- Every step of a history was permitted where it was taken. -/
theorem Run.of_append {code : T → L → Instr S L M C} {start : Config T S L M C}
    {allowed : History T S L M C → Config T S L M C → T → Prop}
    {later earlier : History T S L M C} {config : Config T S L M C} {entry : Config T S L M C × T}
    (reached : Run code start allowed (later ++ entry :: earlier) config) :
    Run code start allowed earlier entry.1 ∧ allowed earlier entry.1 entry.2 := by
  induction later generalizing config with
  | nil =>
      cases reached with
      | step move before permitted fired => exact ⟨before, permitted⟩
  | cons newest later ih =>
      cases reached with
      | step move before permitted fired => exact ih before

/-- Every configuration of a history was reached by an earlier run. -/
theorem Run.of_mem {code : T → L → Instr S L M C} {start : Config T S L M C}
    {allowed : History T S L M C → Config T S L M C → T → Prop}
    {history : History T S L M C} {config : Config T S L M C} (reached : Run code start allowed history config)
    {entry : Config T S L M C × T} (member : entry ∈ history) :
    ∃ earlier, Run code start allowed earlier entry.1 := by
  obtain ⟨later, earlier, rfl⟩ := List.append_of_mem member
  exact ⟨earlier, reached.of_append.1⟩

/-- A schedule whose history and last configuration pass a test gives such a run. -/
theorem exists_run_history (code : T → L → Instr S L M C) (start : Config T S L M C)
    (allowed : History T S L M C → Config T S L M C → T → Prop)
    [∀ history config thread, Decidable (allowed history config thread)]
    (moves : List (Move T)) (test : History T S L M C → Config T S L M C → Bool)
    (passed : (drive code allowed [] start moves).any (fun final => test final.1 final.2) = true) :
    ∃ history config, Run code start allowed history config ∧ test history config = true := by
  cases driven : drive code allowed [] start moves with
  | none => simp [driven] at passed
  | some final =>
      exact ⟨final.1, final.2, Run.of_drive .start driven, by simpa [driven] using passed⟩

/-- A schedule whose last configuration passes a test gives a run to such a configuration. -/
theorem exists_run (code : T → L → Instr S L M C) (start : Config T S L M C)
    (allowed : History T S L M C → Config T S L M C → T → Prop)
    [∀ history config thread, Decidable (allowed history config thread)]
    (moves : List (Move T)) (test : Config T S L M C → Bool)
    (passed : (drive code allowed [] start moves).any (fun final => test final.2) = true) :
    ∃ history config, Run code start allowed history config ∧ test config = true :=
  exists_run_history code start allowed moves (fun _ => test) passed

/-- A schedule without a side condition reaches its last configuration. -/
theorem exists_reachable (code : T → L → Instr S L M C) (start : Config T S L M C)
    (moves : List (Move T)) (test : Config T S L M C → Bool)
    (passed : (drive code (fun _ _ _ => True) [] start moves).any (fun final => test final.2) = true) :
    ∃ config, Reachable code start config ∧ test config = true := by
  obtain ⟨history, config, reached, holds⟩ := exists_run code start _ moves test passed
  exact ⟨config, ⟨history, reached⟩, holds⟩

end

end OSLabs.Pthread
