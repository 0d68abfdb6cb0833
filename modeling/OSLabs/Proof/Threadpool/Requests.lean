import OSLabs.Construction.Threadpool
import OSLabs.Proof.Pthread.Local
import OSLabs.Proof.Pthread.Tally

namespace OSLabs.Threadpool

open Pthread

namespace Place

/-- The worker owns the mutex at these places. -/
def inside : Place → Bool
  | .emptyTest | .overflowTest | .overflow | .popRead | .popWrite _ | .unlockRequest _ | .unlockLast => true
  | _ => false

/-- The worker has taken the request at this position and has not processed it yet. -/
def holds (position : Nat) : Place → Bool
  | .unlockRequest c | .process c => c.position = some position
  | _ => false

end Place

def held (place : Place) (_ : Mutex) : Bool := place.inside

/-- The request is the one at a position of the string. -/
def Request.isOf (stack : List UInt8) (c : Request) : Prop :=
  ∃ position, ∃ inRange : position < stack.length, c = ⟨some position, stack[position]⟩

/-- What each place of a worker says about `stackptr`. -/
def Guard {workers : Nat} (stack : List UInt8) (_ : Fin workers) (status : Status Place Mutex Empty)
    (memory : Memory workers) : Prop :=
  match status with
  | .ready .overflowTest | .ready .popRead => memory.stackptr < stack.length
  | .ready .overflow => False
  | .ready (.popWrite value) => value = memory.stackptr ∧ memory.stackptr < stack.length
  | .ready (.unlockRequest c) | .ready (.process c) => c.isOf stack
  | .ready .unlockLast | .ready .done => stack.length ≤ memory.stackptr
  | .ready _ => True
  | .blocked _ _ _ | .woken _ _ => False

/-- A worker outside its section keeps what it knows while `stackptr` grows. -/
theorem Guard.mono {workers : Nat} {stack : List UInt8} {t : Fin workers} {status : Status Place Mutex Empty}
    {memory after : Memory workers} (guard : Guard stack t status memory) (free : status.holds held .lock = false)
    (grows : memory.stackptr ≤ after.stackptr) : Guard stack t status after := by
  cases status with
  | ready place =>
      cases place with
      | done => exact Nat.le_trans guard grows
      | printStarted | lockFirst | sleep | lockAgain => trivial
      | process c => exact guard
      | _ => cases free
  | blocked cond mutex place | woken mutex place => exact guard

section
variable {workers : Nat} {stack : List UInt8}
  {allowed : History (Fin workers) (Memory workers) Place Mutex Empty → State workers → Fin workers → Prop}
  {history : History (Fin workers) (Memory workers) Place Mutex Empty} {config : State workers}

theorem worker_respects (tid : Fin workers) (place : Place) :
    (workerThread stack tid place).Respects held place := by
  cases place with
  | emptyTest | overflowTest =>
      intro before after next effect
      cases effect
      split <;> rfl
  | printStarted | overflow | popRead | popWrite value | process c | sleep =>
      intro before after next effect
      cases effect
      rfl
  | lockFirst | lockAgain | unlockRequest c | unlockLast =>
      funext mutex
      cases mutex
      simp [held, Place.inside]
  | done => trivial

theorem start_owned : Owned (fun _ => held) (start : State workers) := by
  refine ⟨fun mutex t => ?_, fun t => trivial⟩
  cases mutex
  simp [start, Status.holds, held, Place.inside]

theorem owned (reached : Run (workerThread stack) start allowed history config) :
    Owned (fun _ => held) config := by
  refine reached.owned worker_respects start_owned ?_
  intro _ _ t place mutex next _ _ _ unlocks unheld
  cases place with
  | unlockRequest c | unlockLast => cases unheld
  | _ => cases unlocks

theorem guarded (reached : Run (workerThread stack) start allowed history config) :
    Everywhere (Guard stack) config := by
  refine Run.everywhere (Guard stack) ?_ ?_ ?_ ?_ reached
  · intro t
    trivial
  · intro t cond mutex place memory guard
    exact guard.elim
  · intro t mutex place memory guard
    exact guard.elim
  · intro history config t place before all _ here
    have mine := all t
    rw [here] at mine
    cases place with
    | printStarted | process c | sleep =>
        intro memory next effect
        cases effect
        exact ⟨trivial, fun other _ => all other⟩
    | emptyTest =>
        intro memory next effect
        cases effect
        refine ⟨?_, fun other _ => all other⟩
        split
        · next empty =>
            have isEmpty : stack.length ≤ config.memory.stackptr := of_decide_eq_true empty
            exact isEmpty
        · next full =>
            have notEmpty : ¬ stack.length ≤ config.memory.stackptr := fun empty => full (decide_eq_true empty)
            exact not_le.mp notEmpty
    | overflowTest =>
        intro memory next effect
        cases effect
        refine ⟨?_, fun other _ => all other⟩
        split
        · next full => exact absurd mine (not_lt.mpr full)
        · exact mine
    | overflow => exact False.elim mine
    | popRead =>
        intro memory next effect
        cases effect
        exact ⟨⟨rfl, mine⟩, fun other _ => all other⟩
    | popWrite value =>
        obtain ⟨rfl, inRange⟩ : value = config.memory.stackptr ∧ config.memory.stackptr < stack.length := mine
        intro memory next effect
        cases effect
        refine ⟨⟨config.memory.stackptr, inRange, ?_⟩, fun other different => (all other).mono ?_ (Nat.le_succ _)⟩
        · simp [List.getD, inRange]
        · by_contra taken
          refine different ((owned before).unique (by simpa using taken) ?_)
          rw [here]
          rfl
    | lockFirst | lockAgain => exact fun _ => trivial
    | unlockRequest c | unlockLast => exact mine
    | done => trivial

/-- The overflow branch of `pop` is never taken. -/
theorem no_overflow (reached : Run (workerThread stack) start allowed history config) :
    config.memory.overflows = 0 := by
  refine Run.stored (fun memory => memory.overflows = 0) rfl ?_ reached
  intro history config t place update memory next before none _ here access effect
  cases place with
  | overflow =>
      have mine := guarded before t
      rw [here] at mine
      exact False.elim mine
  | printStarted | emptyTest | overflowTest | popRead | popWrite value | process c | sleep =>
      cases access
      cases effect
      exact none
  | _ => cases access

/-- The workers process only requests of the string. -/
theorem processed_isOf (reached : Run (workerThread stack) start allowed history config) :
    ∀ entry ∈ config.memory.processed, entry.2.isOf stack := by
  refine Run.stored (fun memory => ∀ entry ∈ memory.processed, entry.2.isOf stack)
    (fun _ member => by cases member) ?_ reached
  intro history config t place update memory next before processed _ here access effect
  cases place with
  | process c =>
      have mine := guarded before t
      rw [here] at mine
      cases access
      cases effect
      intro entry member
      rcases List.mem_append.mp member with earlier | last
      · exact processed entry earlier
      · rw [List.mem_singleton.mp last]
        exact mine
  | printStarted | emptyTest | overflowTest | overflow | popRead | popWrite value | sleep =>
      cases access
      cases effect
      exact processed
  | _ => cases access

/-- One for a position before `stackptr` that has not been processed. -/
def unprocessed (position : Nat) (memory : Memory workers) : Int :=
  (if position < memory.stackptr then 1 else 0) - memory.positions.count position

/-- A position before `stackptr` is processed or taken by a worker. -/
theorem taken (reached : Run (workerThread stack) start allowed history config) (position : Nat) :
    unprocessed position config.memory = tally (indicator (Place.holds position)) config := by
  refine Run.balanced (unprocessed position) (indicator (Place.holds position)) ?_ ?_ reached
  · symm
    exact tally_eq_zero fun t => rfl
  · intro history config t place before _ _ here
    have mine := guarded before t
    rw [here] at mine
    cases place with
    | printStarted | popRead | sleep =>
        intro after next effect
        cases effect
        simp [indicator, Place.holds]
    | emptyTest | overflowTest =>
        intro after next effect
        cases effect
        split <;> simp [indicator, Place.holds]
    | overflow => exact False.elim mine
    | popWrite value =>
        obtain ⟨rfl, _⟩ : value = config.memory.stackptr ∧ config.memory.stackptr < stack.length := mine
        intro after next effect
        cases effect
        by_cases same : config.memory.stackptr = position
        · simp [unprocessed, Memory.positions, indicator, Place.holds, same]
          omega
        · have unchanged : position < config.memory.stackptr + 1 ↔ position < config.memory.stackptr := by omega
          simp [unprocessed, Memory.positions, indicator, Place.holds, same, unchanged]
    | process c =>
        obtain ⟨mine, inRange, rfl⟩ : c.isOf stack := mine
        intro after next effect
        cases effect
        simp only [unprocessed, Memory.positions, indicator, Place.holds, List.filterMap_append, List.count_append]
        by_cases same : mine = position <;> simp [same]
        omega
    | lockFirst | lockAgain => simp [workerThread, Instr.Balances, indicator, Place.holds]
    | unlockRequest c | unlockLast => simp [workerThread, Instr.Balances, indicator, Place.holds]
    | done => trivial

/-- No position is processed twice. -/
theorem positions_nodup (reached : Run (workerThread stack) start allowed history config) :
    config.memory.positions.Nodup := by
  refine List.nodup_iff_count_le_one.mpr fun position => ?_
  have balance := taken reached position
  have nonneg : 0 ≤ tally (indicator (Place.holds position)) config := tally_nonneg (indicator_nonneg _)
  rw [← balance, unprocessed] at nonneg
  split at nonneg <;> omega

theorem place_of_finished {t : Fin workers} (finished : Finished (workerThread stack) config t) :
    config.status t = .ready .done := by
  unfold Finished at finished
  cases status : config.status t with
  | ready place =>
      rw [status] at finished
      cases place with
      | done => rfl
      | _ => cases finished
  | blocked cond mutex place | woken mutex place =>
      rw [status] at finished
      cases finished

/-- When all workers have returned, each position of the string has been processed. -/
theorem positions_perm (reached : Run (workerThread stack) start allowed history config) (some : 0 < workers)
    (finished : ∀ t, Finished (workerThread stack) config t) :
    config.memory.positions.Perm (List.range stack.length) := by
  have beyond : stack.length ≤ config.memory.stackptr := by
    have mine := guarded reached ⟨0, some⟩
    rw [place_of_finished (finished ⟨0, some⟩)] at mine
    exact mine
  refine (List.perm_ext_iff_of_nodup (positions_nodup reached) List.nodup_range).mpr fun position => ?_
  rw [List.mem_range]
  constructor
  · intro member
    obtain ⟨entry, isEntry, isPosition⟩ := List.mem_filterMap.mp member
    obtain ⟨place, inRange, same⟩ := processed_isOf reached entry isEntry
    rw [same] at isPosition
    rwa [← Option.some.inj isPosition]
  · intro inRange
    have balance := taken reached position
    have none : tally (indicator (Place.holds position)) config = 0 := by
      refine (tally_indicator_eq_zero_iff _).mpr fun t => ?_
      rw [place_of_finished (finished t)]
      rfl
    rw [none, unprocessed, if_pos (by omega)] at balance
    exact List.count_pos_iff.mp (by omega)

/-- No position is processed twice, `pop` never overflows, and when all workers have returned
each position of the string has been processed by one worker. -/
theorem processed_exactly_once (stack : List UInt8) (config : State workers) (some : 1 ≤ workers)
    (reachable : Reachable (workerThread stack) start config) :
    config.memory.positions.Nodup ∧ config.memory.overflows = 0 ∧
      (∀ entry ∈ config.memory.processed, entry.2.isOf stack) ∧
      ((∀ t, Finished (workerThread stack) config t) →
        config.memory.positions.Perm (List.range stack.length)) := by
  obtain ⟨history, reached⟩ := reachable
  exact ⟨positions_nodup reached, no_overflow reached, processed_isOf reached, positions_perm reached some⟩

end

/-- Two workers process the string `a` and return. -/
theorem one_request_processed : ∃ config : State 2, Reachable (workerThread [97]) start config ∧
    (∀ t, Finished (workerThread [97]) config t) ∧ config.memory.overflows = 0 ∧
      config.memory.positions.Perm (List.range 1) := by
  -- The second worker finds the string empty while the first one still processes its request.
  obtain ⟨config, reachable, finished⟩ := exists_reachable (workerThread [97]) (start : State 2)
    (turns 7 0 ++ turns 4 1 ++ turns 5 0)
    (fun config => decide (∀ t, Finished (workerThread [97]) config t)) (by decide)
  have all := of_decide_eq_true finished
  have processed := processed_exactly_once [97] config (by decide) reachable
  exact ⟨config, reachable, all, processed.2.1, processed.2.2.2 all⟩

end OSLabs.Threadpool
