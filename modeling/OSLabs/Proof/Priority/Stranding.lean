import OSLabs.Proof.Priority.HandOff

namespace OSLabs.Priority
open Pthread

/-- The side condition of the stranding law: the last thread in the section leaves it only while
at most one thread is counted as waiting or the thread that set `highestPriority` still waits. -/
def LeavesWaker {T : Type} (num : T → Int) (config : State T) (t : T) : Prop :=
  config.status t = .ready .leave → config.memory.inCrit = 1 →
    config.memory.waiting ≤ 1 ∨ ∃ other, Waits config other ∧ num other = config.memory.highestPriority

/-- A thread that is about to wait has seen an occupied section or a higher number. -/
def Refused {T : Type} (num : T → Int) (t : T) (status : Status Place Mutex Cond) (memory : Memory) : Prop :=
  match status with
  | .ready .condWait => memory.inCrit ≠ 0 ∨ (num t ≠ memory.highestPriority ∧ memory.waiting > 1)
  | .ready _ => True
  | .blocked _ _ place | .woken _ place => place = .innerTest

theorem refused_stable {T : Type} (num : T → Int) (t : T) (status : Status Place Mutex Cond)
    (memory memory' : Memory) (free : status.holds held .lock = false) (refused : Refused num t status memory) :
    Refused num t status memory' := by
  cases status with
  | ready place => cases place <;> trivial
  | blocked cond mutex place => exact refused
  | woken mutex place => exact refused

/-- Some thread will let the waiters of an empty section go on. -/
def Alert {T : Type} (num : T → Int) (config : State T) : Prop :=
  (∃ t, config.status t = .ready .wakeWaiters ∧ (config.memory.waiting ≤ 1 ∨
    ∃ other, (config.status other).place.inBody = true ∧ num other = config.memory.highestPriority)) ∨
  (∃ t, config.status t = .ready .enter) ∨
  (config.memory.waiting ≤ 1 ∧ ∀ t, (config.status t).isBlocked = false) ∨
  ∃ t, (config.status t).place.inBody = true ∧ (config.status t).isBlocked = false ∧
    num t = config.memory.highestPriority

/-- A thread that is neither waker nor about to enter keeps the alert when the memory stays,
the thread stays in the loop body if its number is the highest, and the thread does not block
unless the loop refused it. -/
theorem Alert.move {T : Type} {num : T → Int} {config after : State T} (alert : Alert num config) (t : T)
    (memory : after.memory = config.memory)
    (others : ∀ other, other ≠ t → after.status other = config.status other)
    (notWaker : config.status t ≠ .ready .wakeWaiters) (notEnter : config.status t ≠ .ready .enter)
    (keeps : (config.status t).place.inBody = true → num t = config.memory.highestPriority →
      (after.status t).place.inBody = true)
    (blocks : (after.status t).isBlocked = true →
      num t ≠ config.memory.highestPriority ∧ config.memory.waiting > 1) : Alert num after := by
  have stays {place : Place} {other : T} (there : config.status other = .ready place)
      (different : config.status t ≠ .ready place) : after.status other = .ready place := by
    rw [others other (by rintro rfl; exact different there)]
    exact there
  have inBody {other : T} (body : (config.status other).place.inBody = true)
      (highest : num other = config.memory.highestPriority) : (after.status other).place.inBody = true := by
    by_cases same : other = t
    · subst same
      exact keeps body highest
    · rwa [others other same]
  unfold Alert
  rw [memory]
  rcases alert with ⟨waker, there, few⟩ | ⟨entering, there⟩ | ⟨few, awake⟩ | ⟨other, body, awake, highest⟩
  · left
    refine ⟨waker, stays there notWaker, ?_⟩
    rcases few with few | ⟨other, body, highest⟩
    · exact .inl few
    · exact .inr ⟨other, inBody body highest, highest⟩
  · right; left
    exact ⟨entering, stays there notEnter⟩
  · right; right; left
    refine ⟨few, fun other => ?_⟩
    by_cases same : other = t
    · subst same
      by_contra blocked
      have := blocks (by simpa using blocked)
      omega
    · rw [others other same]
      exact awake other
  · right; right; right
    refine ⟨other, inBody body highest, ?_, highest⟩
    by_cases same : other = t
    · subst same
      by_contra blocked
      exact (blocks (by simpa using blocked)).1 highest
    · rwa [others other same]

/-- This is `Alert.move` for a step that changes the status of one thread and no memory. -/
theorem Alert.setStatus {T : Type} [DecidableEq T] {num : T → Int} {config base : State T} {t : T}
    {status : Status Place Mutex Cond} (alert : Alert num config) (memory : base.memory = config.memory)
    (same : base.status = config.status) (notWaker : config.status t ≠ .ready .wakeWaiters)
    (notEnter : config.status t ≠ .ready .enter)
    (keeps : (config.status t).place.inBody = true → num t = config.memory.highestPriority →
      status.place.inBody = true)
    (blocks : status.isBlocked = true → num t ≠ config.memory.highestPriority ∧ config.memory.waiting > 1) :
    Alert num (base.setStatus t status) := by
  refine alert.move t memory (fun other different => ?_) notWaker notEnter ?_ ?_
  · rw [Config.setStatus_status, Function.update_of_ne different, same]
  · rwa [Config.setStatus_status, Function.update_self]
  · rwa [Config.setStatus_status, Function.update_self]

/-- This is `Alert.setStatus` for a running thread that is not in the loop body. -/
theorem Alert.ready {T : Type} [DecidableEq T] {num : T → Int} {config base : State T} {t : T} {place next : Place}
    (alert : Alert num config) (memory : base.memory = config.memory) (same : base.status = config.status)
    (here : config.status t = .ready place) (notWaker : place ≠ .wakeWaiters) (notEnter : place ≠ .enter)
    (outside : place.inBody = false) : Alert num (base.setStatus t (.ready next)) := by
  refine alert.setStatus memory same ?_ ?_ ?_ nofun
  · rw [here]
    exact fun waker => notWaker (Status.ready.inj waker)
  · rw [here]
    exact fun entering => notEnter (Status.ready.inj entering)
  · intro body _
    rw [here, Status.place_ready, outside] at body
    cases body

/-- After a broadcast every waiter of the empty section is awake. -/
theorem Alert.wakeAll {T : Type} [DecidableEq T] {num : T → Int} {config : State T} {t : T}
    (here : config.status t = .ready .wakeWaiters) (next : Place)
    (few : config.memory.waiting ≤ 1 ∨ ∃ other, (config.status other).place.inBody = true ∧
      num other = config.memory.highestPriority) :
    Alert num ((config.wakeAll .priority).setStatus t (.ready next)) := by
  have awake (other : T) :
      (((config.wakeAll .priority).setStatus t (.ready next)).status other).isBlocked = false := by
    by_cases same : other = t
    · subst same
      simp
    · simp only [Config.setStatus_status, Function.update_of_ne same, Config.wakeAll_status]
      cases config.status other with
      | blocked cond mutex place => cases cond; simp
      | ready place => rfl
      | woken mutex place => rfl
  rcases few with few | ⟨other, body, highest⟩
  · right; right; left
    exact ⟨few, awake⟩
  · right; right; right
    have different : other ≠ t := by
      rintro rfl
      simp [here, Place.inBody] at body
    exact ⟨other, by simpa [Function.update_of_ne different] using body, awake other, highest⟩

section
variable {T : Type} [DecidableEq T] [Fintype T] {num : T → Int}
  {allowed : History T Memory Place Mutex Cond → State T → T → Prop}
  {history : History T Memory Place Mutex Cond} {config : State T}

theorem refused (reached : Run (code num) start allowed history config) : Everywhere (Refused num) config := by
  refine Run.everywhere (Refused num) ?_ ?_ ?_ ?_ reached
  · intro t
    trivial
  · intro t cond mutex place memory refused
    exact refused
  · rintro t mutex place memory rfl
    trivial
  · intro history config t place before all _ here
    have others := fun holds memory other (different : other ≠ t) =>
      all.undisturbed (owned before) (refused_stable num) here holds memory different
    cases place with
    | innerTest =>
        intro after next effect
        refine ⟨?_, others rfl after⟩
        simp only at effect
        split at effect <;> cases effect
        · next refuses =>
            simp only [Refused]
            tauto
        · trivial
    | arrive | outerTest | breakTest | enter | leave =>
        intro after next effect
        refine ⟨?_, others rfl after⟩
        simp only at effect
        repeat' split at effect
        all_goals cases effect; trivial
    | lockEntry | lockExit => intro _; trivial
    | condWait => rfl
    | wakeWaiters | unlockEntry | unlockExit | done => trivial

/-- While another thread holds `lock`, a thread that waits is in the loop body. -/
theorem inBody_of_waits (reached : Run (code num) start allowed history config) {t other : T} {place : Place}
    (here : config.status t = .ready place) (holds : held place .lock = true) (different : other ≠ t)
    (waits : Waits config other) : (config.status other).place.inBody = true := by
  have body := refused reached other
  simp only [Waits] at waits
  cases status : config.status other with
  | ready place =>
      have unheld : held place .lock = false := (owned reached).outside here holds different status
      rw [status] at waits
      cases place <;> first | (cases unheld; done) | cases waits
  | blocked cond mutex place =>
      rw [status] at body
      cases body
      rfl
  | woken mutex place =>
      rw [status] at body
      cases body
      rfl

/-- The thread that leaves the section is the waker. -/
theorem alert_of_leave (reached : Run (code num) start allowed history config) {t : T}
    (here : config.status t = .ready .leave) (leaves : LeavesWaker num config t) {memory : Memory}
    (left : memory = { config.memory with inCrit := config.memory.inCrit - 1 }) (empty : memory.inCrit = 0) :
    Alert num ((config.setMemory memory).setStatus t (.ready .wakeWaiters)) := by
  subst left
  left
  refine ⟨t, by simp, ?_⟩
  simp only at empty
  rcases leaves here (by omega) with few | ⟨other, waits, highest⟩
  · exact .inl few
  · right
    have different : other ≠ t := by
      rintro rfl
      simp [Waits, here, Place.inLoop] at waits
    refine ⟨other, ?_, highest⟩
    simpa [Function.update_of_ne different] using inBody_of_waits reached here rfl different waits

/-- In every run that meets the side condition an empty section is alert. -/
theorem alert (reached : Run (code num) start (fun _ => LeavesWaker num) history config)
    (empty : config.memory.inCrit = 0) : Alert num config := by
  refine Run.invariant (fun config => config.memory.inCrit = 0 → Alert num config) ?_ ?_ ?_ ?_ reached empty
  · intro _
    exact .inr (.inr (.inl ⟨Int.one_nonneg, fun t => rfl⟩))
  · intro history config t place before alert leaves here
    have own := owned before
    have mine := refused before t
    rw [here] at mine
    have waker := fun (different : place ≠ .wakeWaiters) (there : config.status t = .ready .wakeWaiters) =>
      different (Status.ready.inj (here.symm.trans there))
    have entering := fun (different : place ≠ .enter) (there : config.status t = .ready .enter) =>
      different (Status.ready.inj (here.symm.trans there))
    cases place with
    | lockEntry | lockExit =>
        intro free empty
        exact (alert empty).ready rfl rfl here (by simp) (by simp) rfl
    | arrive =>
        intro after next effect
        simp only at effect
        split at effect <;> cases effect
        · next occupied =>
            intro empty
            exact absurd empty occupied
        · intro empty
          exact (alert empty).ready rfl rfl here (by simp) (by simp) rfl
    | outerTest =>
        intro after next effect
        simp only at effect
        split at effect <;> cases effect
        · split
          · intro _
            right; right; right
            exact ⟨t, by simp [Place.inBody], by simp, by simp⟩
          · intro empty
            exact (alert empty).ready rfl rfl here (by simp) (by simp) rfl
        · intro _
          right; left
          exact ⟨t, by simp⟩
    | innerTest =>
        intro after next effect
        cases effect
        intro empty
        refine (alert empty).setStatus rfl rfl (waker (by simp)) (entering (by simp)) ?_ (by simp)
        intro _ _
        simp only [Status.place_ready]
        split <;> rfl
    | condWait =>
        intro empty
        refine (alert empty).setStatus rfl rfl (waker (by simp)) (entering (by simp)) (by simp [Place.inBody]) ?_
        intro _
        exact mine.resolve_left fun occupied => occupied empty
    | breakTest =>
        intro after next effect
        simp only at effect
        split at effect <;> cases effect
        · intro _
          right; left
          exact ⟨t, by simp⟩
        · next fails =>
            intro empty
            refine (alert empty).setStatus rfl rfl (waker (by simp)) (entering (by simp)) ?_ (by simp)
            intro _ highest
            exact absurd (.inl highest) fails
    | enter =>
        intro after next effect
        cases effect
        intro empty
        have positive : 0 ≤ tally (indicator Place.inside) config := tally_nonneg (indicator_nonneg _)
        rw [← inCrit_eq before] at positive
        simp only [Config.setStatus_memory, Config.setMemory_memory] at empty
        omega
    | leave =>
        intro after next effect
        cases effect
        exact alert_of_leave before here leaves rfl
    | wakeWaiters =>
        intro empty
        apply Alert.wakeAll here
        rcases alert empty with ⟨_, _, few⟩ | ⟨other, there⟩ | ⟨few, _⟩ | ⟨other, body, _, highest⟩
        · exact few
        · have different : other ≠ t := by
            rintro rfl
            exact entering (by simp) there
          have unheld : held .enter .lock = false := own.outside here rfl different there
          cases unheld
        · exact .inl few
        · exact .inr ⟨other, body, highest⟩
    | unlockEntry | unlockExit =>
        intro empty
        exact (alert empty).ready rfl rfl here (by simp) (by simp) rfl
    | done => trivial
  · intro _ config t mutex place _ alert here free empty
    refine (alert empty).setStatus rfl rfl (by simp [here]) (by simp [here]) ?_ (by simp)
    intro body _
    simpa [here] using body
  · intro _ config t cond mutex place _ alert here empty
    refine (alert empty).setStatus rfl rfl (by simp [here]) (by simp [here]) ?_ (by simp)
    intro body _
    simpa [here] using body

/-- No configuration is stalled in a run in which the last thread leaves the section only while
at most one thread is counted as waiting or the thread that set `highestPriority` still waits. -/
theorem not_stalled_of_leavesWaker (num : T → Int) {history : History T Memory Place Mutex Cond}
    {config : State T} (reached : Run (code num) start (fun _ => LeavesWaker num) history config) :
    ¬ Stalled (code num) config := by
  intro stalled
  have only (t : T) :
      config.status t = .ready .done ∨ ∃ cond mutex, config.status t = .blocked cond mutex .innerTest := by
    have waits := refused reached t
    cases status : config.status t with
    | ready place =>
        have exits := stalled.exits status
        cases place with
        | done => exact .inl rfl
        | _ => cases exits
    | blocked cond mutex place =>
        rw [status] at waits
        cases waits
        exact .inr ⟨cond, mutex, rfl⟩
    | woken mutex place => exact absurd status stalled.not_woken
  have empty : config.memory.inCrit = 0 := by
    rw [inCrit_eq reached, tally_indicator_eq_zero_iff]
    intro t
    rcases only t with here | ⟨cond, mutex, here⟩ <;> rw [here] <;> rfl
  rcases alert reached empty with ⟨t, here, _⟩ | ⟨t, here⟩ | ⟨_, awake⟩ | ⟨t, body, awake, _⟩
  · cases stalled.exits here
  · cases stalled.exits here
  · obtain ⟨t, blocked⟩ := stalled.exists_blocked
    rw [awake t] at blocked
    cases blocked
  · rcases only t with here | ⟨cond, mutex, here⟩
    · rw [here] at body
      cases body
    · rw [here] at awake
      cases awake

end

instance {T : Type} (num : T → Int) (config : State T) (t : T) [DecidableEq T] [Fintype T] :
    Decidable (LeavesWaker num config t) :=
  inferInstanceAs (Decidable (_ → _ → _ ∨ ∃ other, (config.status other).place.inLoop = true ∧ _ = _))

/-- The highest waiter takes over from thread 0 while thread 2 still waits. -/
theorem not_stalled_after_handOff : ∃ history config,
    Run (code fourNumbers) start (fun _ => LeavesWaker fourNumbers) history config ∧
      Inside config 1 ∧ (config.status 2).isBlocked = true ∧ ¬ Stalled (code fourNumbers) config := by
  obtain ⟨history, config, reached, holds⟩ := exists_run (code fourNumbers) start
    (fun _ => LeavesWaker fourNumbers)
    (turns 5 0 ++ turns 5 1 ++ turns 5 2 ++ turns 4 0 ++ turns 5 1 ++ turns 3 2)
    (fun config => (config.status 1).place.inside && (config.status 2).isBlocked) (by decide)
  rw [Bool.and_eq_true] at holds
  exact ⟨history, config, reached, holds.1, holds.2, not_stalled_of_leavesWaker fourNumbers reached⟩

/-- Thread 3 leaves `highestPriority` at its own number, which no waiter can match any more. -/
theorem priority_stalls : Function.Injective fourNumbers ∧ (∀ t, 0 < fourNumbers t) ∧
    ∃ config, Reachable (code fourNumbers) start config ∧ Stalled (code fourNumbers) config := by
  refine ⟨by decide, by decide, ?_⟩
  obtain ⟨config, reached, stalled⟩ := exists_reachable (code fourNumbers) start
    (turns 5 0 ++ turns 5 1 ++ turns 5 2 ++ turns 5 3 ++ turns 4 0 ++ turns 9 3 ++ turns 3 1 ++ turns 3 2)
    (fun config => Stalled (code fourNumbers) config) (by decide)
  exact ⟨config, reached, by simpa using stalled⟩

end OSLabs.Priority
