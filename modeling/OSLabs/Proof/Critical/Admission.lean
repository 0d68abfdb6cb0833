import OSLabs.Construction.Critical
import OSLabs.Proof.Pthread.Local
import OSLabs.Proof.Pthread.Tally
import OSLabs.Proof.Pthread.Progress

namespace OSLabs.Critical
open Pthread

@[simp] theorem Memory.setOwn_own (memory : Memory) (kind : Kind) (value : Int) :
    (memory.setOwn kind value).own kind = value := by
  cases kind <;> rfl

@[simp] theorem Memory.setOwn_numThreadsIn (memory : Memory) (kind : Kind) (value : Int) :
    (memory.setOwn kind value).numThreadsIn = memory.numThreadsIn := by
  cases kind <;> rfl

theorem Memory.setOwn_own_of_ne (memory : Memory) {kind member : Kind} (value : Int) (different : member ≠ kind) :
    (memory.setOwn kind value).own member = memory.own member := by
  cases kind <;> cases member <;> first | rfl | exact absurd rfl different

namespace Place

/-- The thread is inside a section of `lock`. -/
def locked : Place → Bool
  | .lockEntry | .critical | .lockExit | .done => false
  | _ => true

/-- The thread is about to wait. -/
def isCondWait : Place → Bool
  | .condWait => true
  | _ => false

/-- The thread has changed a counter and not yet woken the waiting threads. -/
def alarms : Place → Bool
  | .uncountOwn | .wakeThreads => true
  | _ => false

end Place

/-- These places hold these mutexes. -/
def held (place : Place) (_ : Mutex) : Bool := place.locked

/-- Each wait continues at the entry test, and a thread that has passed the test still finds room. -/
def Guard {T : Type} (kind : T → Kind) (t : T) (status : Status Place Mutex Cond) (memory : Memory) : Prop :=
  match status with
  | .ready .countThread => memory.numThreadsIn < 3 ∧ memory.own (kind t) < 2
  | .ready .countOwn => memory.own (kind t) < 2
  | .ready _ => True
  | .blocked _ _ place | .woken _ place => place = .entryTest

theorem held_of_isCondWait (place : Place) (waits : place.isCondWait = true) : held place .lock = true := by
  cases place <;> first | rfl | cases waits

section
variable {T : Type} {kind : T → Kind}

theorem code_eq (t : T) : code kind t = thread (kind t) := by
  unfold code
  cases kind t <;> rfl

theorem code_respects (t : T) (place : Place) : (code kind t place).Respects held place := by
  rw [code_eq]
  cases place with
  | lockEntry | unlockEntry | lockExit | unlockExit =>
      funext mutex
      cases mutex
      rfl
  | entryTest =>
      intro before after next effect
      cases effect
      split <;> rfl
  | countThread | countOwn | critical | uncountThread | uncountOwn =>
      intro before after next effect
      cases effect
      rfl
  | condWait => exact ⟨rfl, rfl⟩
  | wakeThreads => rfl
  | done => trivial

theorem start_owned : Owned (fun _ => held) (start : State T) := by
  refine ⟨fun mutex t => ?_, fun t => trivial⟩
  simp [start, Status.holds, held, Place.locked]

/-- Only the owner of `lock` can lose its guard. -/
theorem guard_stable (t : T) (status : Status Place Mutex Cond) (memory memory' : Memory)
    (free : status.holds held .lock = false) (guard : Guard kind t status memory) :
    Guard kind t status memory' := by
  cases status with
  | ready place => cases place <;> trivial
  | blocked cond mutex place => exact guard
  | woken mutex place => exact guard

variable [DecidableEq T] [Fintype T] {allowed : History T Memory Place Mutex Cond → State T → T → Prop}
  {history : History T Memory Place Mutex Cond} {config : State T}

theorem owned (reached : Run (code kind) start allowed history config) : Owned (fun _ => held) config := by
  refine reached.owned code_respects start_owned ?_
  intro _ _ t place mutex next _ _ _ unlocks unheld
  rw [code_eq] at unlocks
  cases place <;> cases unlocks <;> cases unheld

theorem guarded (reached : Run (code kind) start allowed history config) : Everywhere (Guard kind) config := by
  refine Run.everywhere (Guard kind) ?_ ?_ ?_ ?_ reached
  · intro t
    trivial
  · intro t cond mutex place memory guard
    exact guard
  · intro t mutex place memory guard
    cases guard
    trivial
  · intro history config t place before all _ here
    have guard := all t
    rw [here] at guard
    have others : place.locked = true → ∀ memory other, other ≠ t →
        Guard kind other (config.status other) memory :=
      fun locked memory other different =>
        all.undisturbed (owned before) guard_stable here (locked : held place .lock = true) memory different
    rw [code_eq]
    cases place with
    | lockEntry | lockExit => exact fun _ => trivial
    | unlockEntry | wakeThreads | unlockExit => trivial
    | condWait => rfl
    | entryTest =>
        intro after next effect
        cases effect
        refine ⟨?_, others rfl _⟩
        split
        · trivial
        · next room => exact ⟨by omega, by omega⟩
    | countThread =>
        intro after next effect
        cases effect
        exact ⟨guard.2, others rfl _⟩
    | countOwn | uncountThread | uncountOwn =>
        intro after next effect
        cases effect
        exact ⟨trivial, others rfl _⟩
    | critical =>
        intro after next effect
        cases effect
        exact ⟨trivial, fun other _ => all other⟩
    | done => trivial

/-- The variable `num_threads_in` counts the threads between its updates. -/
theorem numThreadsIn_eq (reached : Run (code kind) start allowed history config) :
    config.memory.numThreadsIn = config.number fun _ => Place.countedThread := by
  rw [← tally_weigh]
  refine reached.balanced Memory.numThreadsIn _ (tally_eq_zero fun t => rfl).symm ?_
  intro _ config t place _ _ _ _
  rw [code_eq]
  cases place with
  | lockEntry | unlockEntry | lockExit | wakeThreads | unlockExit | condWait => rfl
  | entryTest =>
      intro after next effect
      cases effect
      split <;> simp [weigh, Place.countedThread]
  | countThread | countOwn | critical | uncountThread | uncountOwn =>
      intro after next effect
      cases effect
      simp [weigh, Place.countedThread]
  | done => trivial

/-- The counter of a kind counts the threads of this kind between its updates. -/
theorem own_eq (reached : Run (code kind) start allowed history config) (member : Kind) :
    config.memory.own member = config.number (ofKind kind member Place.countedOwn) := by
  rw [← tally_weigh]
  refine reached.balanced (fun memory => memory.own member) _ ?_ ?_
  · rw [tally_eq_zero fun t => by simp [weigh, ofKind, start, Place.countedOwn]]
    cases member <;> rfl
  intro _ config t place _ _ _ _
  rw [code_eq]
  cases place with
  | lockEntry | unlockEntry | lockExit | wakeThreads | unlockExit | condWait => rfl
  | entryTest =>
      intro after next effect
      cases effect
      split <;> simp [weigh, ofKind, Place.countedOwn]
  | countThread | critical | uncountThread =>
      intro after next effect
      cases effect
      cases member <;> simp [weigh, ofKind, Place.countedOwn, Memory.own]
  | countOwn | uncountOwn =>
      intro after next effect
      cases effect
      by_cases same : member = kind t
      · subst same
        simp [weigh, ofKind, Place.countedOwn]
      · simp [weigh, ofKind, Memory.setOwn_own_of_ne _ _ same, Ne.symm same]
  | done => trivial

/-- At most three threads are counted, and at most two of each kind. -/
theorem counters_le (reached : Run (code kind) start allowed history config) :
    config.memory.numThreadsIn ≤ 3 ∧ ∀ member, config.memory.own member ≤ 2 := by
  refine reached.stored (fun memory => memory.numThreadsIn ≤ 3 ∧ ∀ member, memory.own member ≤ 2)
    ⟨show (0 : Int) ≤ 3 by decide, fun member => by cases member <;> exact show (0 : Int) ≤ 2 by decide⟩ ?_
  intro history config t place update after next before limits _ here instr effect
  have guard := guarded before t
  rw [here] at guard
  rw [code_eq] at instr
  have written : ∀ value : Int, value ≤ 2 → (config.memory.setOwn (kind t) value).numThreadsIn ≤ 3 ∧
      ∀ member, (config.memory.setOwn (kind t) value).own member ≤ 2 := by
    intro value small
    refine ⟨by simpa using limits.1, fun member => ?_⟩
    by_cases same : member = kind t
    · subst same
      simpa using small
    · rw [Memory.setOwn_own_of_ne _ _ same]
      exact limits.2 member
  cases place with
  | entryTest | critical =>
      cases instr
      cases effect
      exact limits
  | countThread =>
      cases instr
      cases effect
      have room := guard.1
      exact ⟨by simp only; omega, fun member => limits.2 member⟩
  | uncountThread =>
      cases instr
      cases effect
      have room := limits.1
      exact ⟨by simp only; omega, fun member => limits.2 member⟩
  | countOwn =>
      cases instr
      cases effect
      have room : config.memory.own (kind t) < 2 := guard
      exact written _ (by omega)
  | uncountOwn =>
      cases instr
      cases effect
      have room := limits.2 (kind t)
      exact written _ (by omega)
  | _ => cases instr

/-- A thread waits only while its kind is not admitted or another thread is about to wake it. -/
theorem refused (reached : Run (code kind) start allowed history config) {t : T}
    (awaits : (config.status t).awaits .cv Place.isCondWait = true) :
    ¬ config.memory.Admits (kind t) ∨ ∃ other, (config.places other).alarms = true := by
  refine reached.awaited .cv Place.isCondWait
    (fun waiter places memory => ¬ memory.Admits (kind waiter) ∨ ∃ other, (places other).alarms = true)
    (fun _ => rfl) ?_ ?_ ?_ ?_ t awaits
  · intro _ config t mutex place before woken
    have guard := guarded before t
    rw [woken] at guard
    cases guard
    rfl
  · intro t place mutex next waits
    rw [code_eq] at waits
    cases place <;> cases waits
    rfl
  · intro _ config t place after next _ _ _ effect entering
    rw [code_eq] at effect
    cases place with
    | entryTest =>
        cases effect
        split at entering
        · next full => exact .inl fun room => room full
        · cases entering
    | done => cases effect
    | _ => cases effect; cases entering
  · intro _ config t place after next waiter before _ here effect awaits woken attended
    rw [code_eq] at effect woken
    have located := Config.places_of_ready here
    have mine : next.alarms = true →
        ¬ after.Admits (kind waiter) ∨ ∃ other, (Function.update config.places t next other).alarms = true :=
      fun alarms => .inr ⟨t, by rwa [Function.update_self]⟩
    have kept : (after.Admits (kind waiter) → config.memory.Admits (kind waiter)) → place.alarms = false →
        ¬ after.Admits (kind waiter) ∨ ∃ other, (Function.update config.places t next other).alarms = true := by
      intro fewer quiet
      exact or_exists_update Place.alarms attended (fun full room => full (fewer room)) (by rw [located, quiet])
    cases place with
    | countThread =>
        cases effect
        refine kept (fun room => ?_) rfl
        cases member : kind waiter <;> simp only [Memory.Admits, Memory.own, member] at room ⊢ <;> omega
    | countOwn =>
        cases effect
        refine kept (fun room => ?_) rfl
        by_cases same : kind waiter = kind t
        · simp only [Memory.Admits, same, Memory.setOwn_own, Memory.setOwn_numThreadsIn] at room ⊢
          omega
        · simpa [Memory.Admits, Memory.setOwn_own_of_ne _ _ same] using room
    | uncountThread | uncountOwn =>
        cases effect
        exact mine rfl
    | wakeThreads =>
        have runs := woken (by cases effect; rfl)
        rw [(owned before).runs_eq_false here held_of_isCondWait rfl rfl] at runs
        cases runs
    | done => cases effect
    | _ =>
        cases effect
        exact kept id rfl

/-- Every wait is on `cv`, and its thread continues at the entry test. -/
theorem blocked_entryTest (reached : Run (code kind) start allowed history config) {t : T}
    (blocked : (config.status t).isBlocked = true) :
    ∃ mutex, config.status t = .blocked .cv mutex .entryTest := by
  have guard := guarded reached t
  cases status : config.status t with
  | ready place => simp [status] at blocked
  | woken mutex place => simp [status] at blocked
  | blocked cond mutex place =>
      rw [status] at guard
      cases guard
      cases cond
      exact ⟨mutex, rfl⟩

/-- While `lock` is free, nobody waits whose kind is admitted. -/
theorem not_admits_of_blocked (reached : Run (code kind) start allowed history config)
    (free : config.owner .lock = none) {t : T} (blocked : (config.status t).isBlocked = true) :
    ¬ config.memory.Admits (kind t) := by
  obtain ⟨mutex, here⟩ := blocked_entryTest reached blocked
  rcases refused reached (t := t) (by simp [here, Status.awaits, Status.blockedOn]) with full | ⟨other, alarms⟩
  · exact full
  · exfalso
    have outside := (owned reached).free free other
    have guard := guarded reached other
    rw [Config.places] at alarms
    cases status : config.status other with
    | ready place =>
        simp only [status, Status.place_ready] at alarms
        simp only [status, Status.holds, held] at outside
        cases place <;> first | cases alarms; done | cases outside
    | blocked cond mutex place | woken mutex place =>
        rw [status] at guard alarms
        cases guard
        cases alarms

/-- While `lock` is free, the three notions of a counted thread agree. -/
theorem counted_eq_inside (reached : Run (code kind) start allowed history config)
    (free : config.owner .lock = none) (t : T) :
    (config.status t).place.countedThread = (config.status t).place.inside ∧
      (config.status t).place.countedOwn = (config.status t).place.inside := by
  have outside := (owned reached).free free t
  have guard := guarded reached t
  cases status : config.status t with
  | ready place =>
      simp only [status, Status.holds, held] at outside
      cases place <;> first | cases outside; done | exact ⟨rfl, rfl⟩
  | blocked cond mutex place | woken mutex place =>
      rw [status] at guard
      cases guard
      exact ⟨rfl, rfl⟩

/-- In a stalled configuration every thread has returned or waits at the entry test. -/
theorem place_of_stalled (reached : Run (code kind) start allowed history config)
    (stalled : Stalled (code kind) config) (t : T) :
    config.status t = .ready .done ∨ ∃ mutex, config.status t = .blocked .cv mutex .entryTest := by
  cases status : config.status t with
  | ready place =>
      have exits := stalled.exits status
      rw [code_eq] at exits
      cases place <;> first | exact .inl rfl | cases exits
  | woken mutex place => exact absurd status stalled.not_woken
  | blocked cond mutex place =>
      right
      rw [← status]
      exact blocked_entryTest reached (by rw [status]; rfl)

theorem not_stalled (reached : Run (code kind) start allowed history config) : ¬ Stalled (code kind) config := by
  intro stalled
  have idle : ∀ t, (config.status t).place.alarms = false ∧ (config.status t).place.countedThread = false ∧
      (config.status t).place.countedOwn = false := by
    intro t
    rcases place_of_stalled reached stalled t with here | ⟨mutex, here⟩ <;> rw [here] <;> exact ⟨rfl, rfl, rfl⟩
  obtain ⟨t, blocked⟩ := stalled.exists_blocked
  obtain ⟨mutex, here⟩ := blocked_entryTest reached blocked
  rcases refused reached (t := t) (by simp [here, Status.awaits, Status.blockedOn]) with full | ⟨other, alarms⟩
  · have threads := numThreadsIn_eq reached
    have own := own_eq reached (kind t)
    have empty : (config.number fun _ => Place.countedThread) = 0 := by
      simp [Config.number, idle]
    have emptyOwn : config.number (ofKind kind (kind t) Place.countedOwn) = 0 := by
      simp [Config.number, ofKind, idle]
    apply full
    rw [Memory.Admits, threads, own, empty, emptyOwn]
    decide
  · rw [Config.places, (idle other).1] at alarms
    cases alarms

/-- No thread inside a section of `lock` waits for a mutex. -/
theorem not_stuck (reached : Run (code kind) start allowed history config) : ¬ Stuck (code kind) config := by
  refine (owned reached).not_stuck ?_ ?_ (not_stalled reached)
  · intro t place first second _ _
    cases first
    cases second
    rfl
  · intro t place mutex _ holds
    rw [code_eq]
    cases place <;> first | rfl | cases holds

end

/-- The admission of red and blue threads in one configuration. -/
structure MixedAdmission {T : Type} [Fintype T] (kind : T → Kind) (config : State T) : Prop where
  /-- Each counter equals the number of threads between its two updates. -/
  counters : config.memory.numThreadsIn = config.number (fun _ => Place.countedThread) ∧
    config.memory.numRedIn = config.number (ofKind kind .red Place.countedOwn) ∧
    config.memory.numBlueIn = config.number (ofKind kind .blue Place.countedOwn)
  /-- Outside the sections of `lock` each counter equals the number of threads that have entered and not left. -/
  entered : config.owner .lock = none →
    config.memory.numThreadsIn = config.number (fun _ => Place.inside) ∧
    config.memory.numRedIn = config.number (ofKind kind .red Place.inside) ∧
    config.memory.numBlueIn = config.number (ofKind kind .blue Place.inside)
  /-- At most three threads, two red ones and two blue ones are inside. -/
  limits : config.number (fun _ => Place.inside) ≤ 3 ∧ config.number (ofKind kind .red Place.inside) ≤ 2 ∧
    config.number (ofKind kind .blue Place.inside) ≤ 2
  /-- While `lock` is free, no thread waits without a pending wakeup although its own entry condition holds. -/
  awake : config.owner .lock = none → ∀ t, (config.status t).isBlocked = true → ¬ config.memory.Admits (kind t)

section
variable {T : Type} {kind : T → Kind} [DecidableEq T] [Fintype T] {config : State T}

/-- In every reachable configuration the admission is right, and the threads never wait for ever. -/
theorem mixed_admission (reachable : Reachable (code kind) start config) :
    MixedAdmission kind config ∧ ¬ Stalled (code kind) config ∧ ¬ Stuck (code kind) config := by
  obtain ⟨history, reached⟩ := reachable
  have threads := numThreadsIn_eq reached
  have red : config.memory.numRedIn = _ := own_eq reached .red
  have blue : config.memory.numBlueIn = _ := own_eq reached .blue
  obtain ⟨few, fewOwn⟩ := counters_le reached
  have fewRed : config.memory.numRedIn ≤ 2 := fewOwn .red
  have fewBlue : config.memory.numBlueIn ≤ 2 := fewOwn .blue
  have counted : ∀ place : Place, place.inside = true → place.countedThread = true ∧ place.countedOwn = true := by
    intro place inside
    cases place <;> first | exact ⟨rfl, rfl⟩ | cases inside
  have insideOwn : ∀ member, config.number (ofKind kind member Place.inside) ≤
      config.number (ofKind kind member Place.countedOwn) := by
    intro member
    refine number_le_number fun t inside => ?_
    simp only [ofKind, Bool.and_eq_true] at inside ⊢
    exact ⟨inside.1, (counted _ inside.2).2⟩
  refine ⟨⟨⟨threads, red, blue⟩, fun free => ?_, ⟨?_, ?_, ?_⟩, fun free t => not_admits_of_blocked reached free⟩,
    not_stalled reached, not_stuck reached⟩
  · have same := counted_eq_inside reached free
    have sameOwn : ∀ member, config.number (ofKind kind member Place.countedOwn) =
        config.number (ofKind kind member Place.inside) :=
      fun member => number_congr fun t => by rw [ofKind, ofKind, (same t).2]
    rw [threads, red, blue, sameOwn, sameOwn, number_congr fun t => (same t).1]
    exact ⟨rfl, rfl, rfl⟩
  · have inside : config.number (fun _ => Place.inside) ≤ config.number fun _ => Place.countedThread :=
      number_le_number fun t inside => (counted _ inside).1
    omega
  · have inside := insideOwn .red
    omega
  · have inside := insideOwn .blue
    omega

end

/-- Two red threads are inside, and the third one waits. -/
theorem third_red_waits : ∃ config, Reachable (code fun _ : Fin 3 => Kind.red) start config ∧
    config.memory.numRedIn = 2 ∧ (config.status 2).isBlocked = true ∧
    MixedAdmission (fun _ => .red) config ∧ ¬ Stalled (code fun _ => .red) config := by
  obtain ⟨config, reached, holds⟩ := exists_reachable (code fun _ : Fin 3 => Kind.red) start
    (turns 6 0 ++ turns 6 1 ++ turns 3 2)
    (fun config => config.memory.numRedIn == 2 && (config.status 2).isBlocked) (by decide)
  rw [Bool.and_eq_true, beq_iff_eq] at holds
  obtain ⟨admission, alive, _⟩ := mixed_admission reached
  exact ⟨config, reached, holds.1, holds.2, admission, alive⟩

end OSLabs.Critical
