import OSLabs.Construction.Priority
import OSLabs.Proof.Pthread.Local
import OSLabs.Proof.Pthread.Tally
import Mathlib.Data.Fin.VecNotation

namespace OSLabs.Priority
open Pthread

/-- These places hold `lock`. -/
def held (place : Place) (mutex : Mutex) : Bool :=
  match mutex, place with
  | .lock, .lockEntry | .lock, .lockExit | .lock, .done => false
  | .lock, _ => true

theorem thread_respects (num : Int) (place : Place) : (thread num place).Respects held place := by
  cases place with
  | arrive | enter | leave =>
      intro before after next effect
      cases effect
      rfl
  | outerTest | innerTest | breakTest =>
      intro before after next effect
      simp only at effect
      split at effect <;> cases effect <;> rfl
  | condWait => exact ⟨rfl, rfl⟩
  | wakeWaiters => rfl
  | lockEntry | unlockEntry | lockExit | unlockExit =>
      funext mutex
      cases mutex
      rfl
  | done => trivial

theorem start_owned {T : Type} : Owned (fun _ => held) (start : State T) := by
  refine ⟨fun mutex t => ?_, fun t => trivial⟩
  cases mutex
  simp [start, Status.holds, held]

/-- The holder of `lock` knows that the section is empty when it is about to enter. -/
def Guard {T : Type} (_ : T) (status : Status Place Mutex Cond) (memory : Memory) : Prop :=
  match status with
  | .ready .arrive => memory.inCrit = 0 ∨ memory.waiting ≠ -1
  | .ready .outerTest => memory.inCrit = 0 ∨ memory.waiting ≠ 0
  | .ready .breakTest => memory.inCrit = 0
  | .ready .enter => memory.inCrit = 0
  | .ready _ => True
  | .blocked _ _ place | .woken _ place => place = .innerTest

theorem guard_stable {T : Type} (t : T) (status : Status Place Mutex Cond) (memory memory' : Memory)
    (free : status.holds held .lock = false) (guard : Guard t status memory) : Guard t status memory' := by
  cases status with
  | ready place => cases place <;> trivial
  | blocked cond mutex place => exact guard
  | woken mutex place => exact guard

section
variable {T : Type} [DecidableEq T] [Fintype T] {num : T → Int}
  {allowed : History T Memory Place Mutex Cond → State T → T → Prop}
  {history : History T Memory Place Mutex Cond} {config : State T}

/-- The owner of `lock` is the thread inside a section that `lock` protects. -/
theorem owned (reached : Run (code num) start allowed history config) : Owned (fun _ => held) config := by
  refine reached.owned (fun t place => thread_respects (num t) place) start_owned ?_
  intro _ _ t place mutex next _ _ _ unlocks unheld
  cases mutex
  cases place <;> cases unlocks <;> simp [held] at unheld

/-- The counter `inCrit` is the number of threads in the critical section. -/
theorem inCrit_eq (reached : Run (code num) start allowed history config) :
    config.memory.inCrit = tally (indicator Place.inside) config := by
  refine reached.balanced Memory.inCrit (indicator Place.inside) (tally_eq_zero fun t => rfl).symm ?_
  intro _ config t place _ _ _ _
  cases place with
  | arrive | outerTest | innerTest | breakTest =>
      intro after next effect
      simp only at effect
      repeat' split at effect
      all_goals cases effect; simp [indicator, Place.inside]
  | enter | leave =>
      intro after next effect
      cases effect
      simp [indicator, Place.inside]
  | lockEntry | lockExit | unlockEntry | unlockExit | condWait | wakeWaiters => rfl
  | done => trivial

/-- The side condition of the exclusion law: no thread takes `lock` for the first time
while the section is occupied and `waiting` is -1. -/
def ArrivesCounted (config : State T) (t : T) : Prop :=
  config.status t = .ready .lockEntry → ¬ (config.memory.inCrit ≠ 0 ∧ config.memory.waiting = -1)

/-- Every configuration of a run that meets the side condition satisfies the guard. -/
theorem guarded (reached : Run (code num) start (fun _ => ArrivesCounted) history config) :
    Everywhere Guard config := by
  refine Run.everywhere Guard ?_ ?_ ?_ ?_ reached
  · intro t
    trivial
  · intro t cond mutex place memory guard
    exact guard
  · rintro t mutex place memory rfl
    trivial
  · intro history config t place before all counted here
    have mine := all t
    rw [here] at mine
    have others := fun holds memory other (different : other ≠ t) =>
      all.undisturbed (owned before) guard_stable here holds memory different
    cases place with
    | lockEntry =>
        intro _
        have := counted here
        simp only [Guard]
        tauto
    | arrive =>
        intro after next effect
        refine ⟨?_, others rfl after⟩
        simp only [Guard] at mine
        cases effect
        simp only [Guard]
        split
        · right
          dsimp only
          omega
        · left
          tauto
    | outerTest =>
        intro after next effect
        refine ⟨?_, others rfl after⟩
        simp only [Guard] at mine
        simp only at effect
        split at effect <;> cases effect
        · trivial
        · simp only [Guard]
          tauto
    | innerTest =>
        intro after next effect
        refine ⟨?_, others rfl after⟩
        simp only at effect
        split at effect <;> cases effect
        · trivial
        · simp only [Guard]
          tauto
    | breakTest =>
        intro after next effect
        refine ⟨?_, others rfl after⟩
        simp only at effect
        split at effect <;> cases effect
        · exact mine
        · exact .inl mine
    | enter | leave =>
        intro after next effect
        cases effect
        exact ⟨trivial, others rfl _⟩
    | lockExit => intro _; trivial
    | condWait => rfl
    | wakeWaiters | unlockEntry | unlockExit | done => trivial

/-- A run that meets the side condition has at most one thread in the section. -/
theorem inCrit_le_one (reached : Run (code num) start (fun _ => ArrivesCounted) history config) :
    config.memory.inCrit ≤ 1 := by
  refine Run.invariant (fun config => config.memory.inCrit ≤ 1) Int.one_nonneg ?_ ?_ ?_ reached
  · intro history config t place before small counted here
    have mine := guarded before t
    rw [here] at mine
    cases place with
    | arrive | outerTest | innerTest | breakTest =>
        intro after next effect
        simp only at effect
        repeat' split at effect
        all_goals cases effect; exact small
    | enter =>
        intro after next effect
        cases effect
        simp only [Guard] at mine
        simp [mine]
    | leave =>
        intro after next effect
        cases effect
        simp only [Config.setStatus_memory, Config.setMemory_memory]
        omega
    | lockEntry | lockExit =>
        intro _
        exact small
    | unlockEntry | unlockExit | condWait | wakeWaiters => exact small
    | done => trivial
  · intro _ config t mutex place _ small _ _
    exact small
  · intro _ config t cond mutex place _ small _
    exact small

/-- Mutual exclusion holds in every run in which no thread takes `lock` for the first time while
the section is occupied and `waiting` is -1. Each such arrival in a reachable state leads to a
state with two threads in the section. -/
theorem exclusive_iff_arrivals_counted (num : T → Int) :
    (∀ history config, Run (code num) start (fun _ => ArrivesCounted) history config → Exclusive config) ∧
    ∀ config t, Reachable (code num) start config → config.status t = .ready .lockEntry →
      config.owner .lock = none → config.memory.inCrit ≠ 0 → config.memory.waiting = -1 →
      ∃ final, follow (code num) config [.run t, .run t, .run t, .run t] = some final ∧ ¬ Exclusive final := by
  constructor
  · intro history config reached first second firstIn secondIn
    have atMostOne := inCrit_le_one reached
    rw [inCrit_eq reached] at atMostOne
    exact tally_indicator_unique atMostOne firstIn secondIn
  · rintro config t ⟨history, reached⟩ here free busy negative
    refine ⟨_, by simp [follow, fire, here, code, thread, perform, free, busy, negative]; rfl, ?_⟩
    obtain ⟨other, inside⟩ : ∃ other, Inside config other := by
      rw [inCrit_eq reached] at busy
      obtain ⟨other, weight⟩ := exists_of_tally_ne_zero busy
      exact ⟨other, by simpa [indicator, Inside] using weight⟩
    have different : other ≠ t := by
      rintro rfl
      simp [Inside, here, Place.inside] at inside
    intro exclusive
    apply different
    apply exclusive other t
    · simpa [Inside, Function.update_of_ne different] using inside
    · simp [Inside, Place.inside]

end

instance {T : Type} (config : State T) (t : T) [DecidableEq T] : Decidable (ArrivesCounted config t) :=
  inferInstanceAs (Decidable (_ → _))

/-- Four threads carry these numbers. -/
def fourNumbers : Fin 4 → Int := ![1, 3, 2, 4]

/-- The side condition permits a run in which thread 0 is in the section while thread 1 waits. -/
theorem exclusive_while_waiting : ∃ history config,
    Run (code fourNumbers) start (fun _ => ArrivesCounted) history config ∧
      Inside config 0 ∧ Waits config 1 ∧ Exclusive config := by
  obtain ⟨history, config, reached, holds⟩ := exists_run (code fourNumbers) start (fun _ => ArrivesCounted)
    (turns 5 0 ++ turns 5 1)
    (fun config => (config.status 0).place.inside && (config.status 1).place.inLoop) (by decide)
  rw [Bool.and_eq_true] at holds
  exact ⟨history, config, reached, holds.1, holds.2,
    (exclusive_iff_arrivals_counted fourNumbers).1 history config reached⟩

/-- Thread 2 takes the place of the waiting thread 1, which later lowers `waiting` below zero.
Thread 3 then enters beside thread 1. -/
theorem exclusion_fails : Function.Injective fourNumbers ∧ (∀ t, 0 < fourNumbers t) ∧
    ∃ config, Reachable (code fourNumbers) start config ∧ ¬ Exclusive config := by
  refine ⟨by decide, by decide, ?_⟩
  obtain ⟨config, reached, inside⟩ := exists_reachable (code fourNumbers) start
    (turns 5 0 ++ turns 5 1 ++ turns 4 0 ++ turns 11 2 ++ turns 5 1 ++ turns 4 3)
    (fun config => (config.status 1).place.inside && (config.status 3).place.inside) (by decide)
  rw [Bool.and_eq_true] at inside
  refine ⟨config, reached, fun exclusive => ?_⟩
  exact absurd (exclusive 1 3 inside.1 inside.2) (by decide)

end OSLabs.Priority
