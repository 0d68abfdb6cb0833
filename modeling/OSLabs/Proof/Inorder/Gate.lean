import OSLabs.Construction.Inorder
import OSLabs.Proof.Pthread.Local

namespace OSLabs.Inorder

open Pthread

namespace Place

/-- The thread owns the mutex at these places. -/
def inside : Place → Bool
  | .printWants | .lockGate | .printFinished | .done => false
  | _ => true

/-- The thread has woken the waiting threads and has not advanced yet. -/
def hasWoken : Place → Bool
  | .advanceRead | .advanceWrite _ => true
  | _ => false

theorem inside_of_hasWoken {place : Place} (woken : place.hasWoken = true) : place.inside = true := by
  cases place <;> first | rfl | cases woken

end Place

def held (place : Place) (_ : Mutex) : Bool := place.inside

/-- What each place of the thread with this number says about the next number. -/
def Turn (num : Int) (threadNext : Int) : Place → Prop
  | .printWants | .lockGate | .turnTest => threadNext ≤ num
  | .condWait => threadNext < num
  | .broadcast | .advanceRead => threadNext = num
  | .advanceWrite value => threadNext = num ∧ value = num
  | .unlockGate | .printFinished | .done => num < threadNext

/-- A thread that returns from its wait goes to the test. -/
def Turned {n : Nat} (order : Equiv.Perm (Fin n)) (t : Fin n) (status : Status Place Mutex Cond)
    (memory : Memory) : Prop :=
  match status with
  | .ready place => Turn (nums order t) memory.threadNext place
  | .blocked _ _ place | .woken _ place => place = .turnTest ∧ Turn (nums order t) memory.threadNext place

/-- An advance of the thread whose turn it is keeps the turns of the threads outside. -/
theorem Turned.advance {n : Nat} {order : Equiv.Perm (Fin n)} {t : Fin n} {status : Status Place Mutex Cond}
    {memory after : Memory} (turned : Turned order t status memory) (outside : status.holds held .lock = false)
    (other : nums order t ≠ memory.threadNext) (next : after.threadNext = memory.threadNext + 1) :
    Turned order t status after := by
  cases status with
  | ready place =>
      cases place with
      | printWants | lockGate | printFinished | done =>
          simp only [Turned, Turn] at turned ⊢
          omega
      | _ => cases outside
  | blocked cond mutex place | woken mutex place =>
      obtain ⟨rfl, turn⟩ := turned
      simp only [Turned, Turn, true_and] at turn ⊢
      omega

/-- The next number is behind the numbers of the threads that have advanced. -/
structure Counted (n : Nat) (memory : Memory) : Prop where
  inOrder : memory.advanced = upTo memory.advanced.length
  threadNext : memory.threadNext = memory.advanced.length + 1
  few : memory.advanced.length ≤ n

theorem upTo_succ (count : Nat) : upTo (count + 1) = upTo count ++ [(count : Int) + 1] := by
  simp [upTo, List.range_succ]

theorem mem_upTo {count : Nat} {num : Int} : num ∈ upTo count ↔ 1 ≤ num ∧ num ≤ count := by
  simp only [upTo, List.mem_map, List.mem_range]
  constructor
  · rintro ⟨k, less, rfl⟩
    omega
  · rintro ⟨lower, upper⟩
    exact ⟨(num - 1).toNat, by omega, by omega⟩

section
variable {n : Nat} {order : Equiv.Perm (Fin n)}
  {allowed : History (Fin n) Memory Place Mutex Cond → State n → Fin n → Prop}
  {history : History (Fin n) Memory Place Mutex Cond} {config : State n}

theorem nums_injective (order : Equiv.Perm (Fin n)) : Function.Injective (nums order) := by
  intro first second same
  refine order.injective (Fin.ext ?_)
  simp only [nums] at same
  omega

theorem nums_bounds (order : Equiv.Perm (Fin n)) (t : Fin n) : 1 ≤ nums order t ∧ nums order t ≤ n := by
  simp only [nums]
  omega

/-- Every number up to the number of threads is carried by a thread. -/
theorem exists_nums (order : Equiv.Perm (Fin n)) (num : Int) (lower : 1 ≤ num) (upper : num ≤ n) :
    ∃ t, nums order t = num := by
  refine ⟨order.symm ⟨(num - 1).toNat, by omega⟩, ?_⟩
  simp only [nums, Equiv.apply_symm_apply]
  omega

theorem code_respects (order : Equiv.Perm (Fin n)) (t : Fin n) (place : Place) :
    (code order t place).Respects held place := by
  cases place with
  | turnTest =>
      intro before after next effect
      cases effect
      split <;> rfl
  | printWants | advanceRead | advanceWrite value | printFinished =>
      intro before after next effect
      cases effect
      rfl
  | lockGate | unlockGate =>
      funext mutex
      cases mutex
      simp [held, Place.inside]
  | condWait => exact ⟨rfl, rfl⟩
  | broadcast => rfl
  | done => trivial

theorem start_owned : Owned (fun _ => held) (start : State n) := by
  refine ⟨fun mutex t => ?_, fun t => trivial⟩
  cases mutex
  simp [start, Status.holds, held, Place.inside]

theorem owned (reached : Run (code order) start allowed history config) : Owned (fun _ => held) config := by
  refine reached.owned (code_respects order) start_owned ?_
  intro _ _ t place mutex next _ _ _ unlocks unheld
  cases place with
  | unlockGate => cases unheld
  | _ => cases unlocks

theorem turned (reached : Run (code order) start allowed history config) : Everywhere (Turned order) config := by
  refine Run.everywhere (Turned order) ?_ ?_ ?_ ?_ reached
  · intro t
    exact (nums_bounds order t).1
  · intro t cond mutex place memory turned
    exact turned
  · intro t mutex place memory turned
    exact turned.2
  · intro history config t place before all _ here
    have mine := all t
    rw [here] at mine
    have untouched (memory : Memory) (same : memory.threadNext = config.memory.threadNext) (other : Fin n) :
        Turned order other (config.status other) memory := by
      have theirs := all other
      unfold Turned at theirs ⊢
      rwa [same]
    cases place with
    | printWants | printFinished =>
        intro memory next effect
        cases effect
        exact ⟨mine, fun other _ => untouched _ rfl other⟩
    | turnTest =>
        intro memory next effect
        cases effect
        refine ⟨?_, fun other _ => untouched _ rfl other⟩
        simp only [Turned, Turn] at mine
        dsimp only [Turned]
        split
        · next notMine =>
            simp only [Turn]
            omega
        · next isMine =>
            simp only [Turn]
            omega
    | advanceRead =>
        intro memory next effect
        cases effect
        exact ⟨⟨mine, mine⟩, fun other _ => untouched _ rfl other⟩
    | advanceWrite value =>
        obtain ⟨isNext, rfl⟩ : config.memory.threadNext = nums order t ∧ value = nums order t := mine
        intro memory next effect
        cases effect
        refine ⟨Int.lt_succ _, fun other different => (all other).advance ?_ ?_ (by rw [isNext])⟩
        · by_contra taken
          refine different ((owned before).unique (by simpa using taken) ?_)
          rw [here]
          rfl
        · rw [isNext]
          exact fun same => different (nums_injective order same)
    | lockGate => exact fun _ => mine
    | condWait => exact ⟨rfl, Int.le_of_lt mine⟩
    | broadcast | unlockGate => exact mine
    | done => trivial

theorem counted (reached : Run (code order) start allowed history config) : Counted n config.memory := by
  have initial : Counted n Memory.start := ⟨rfl, rfl, Nat.zero_le n⟩
  refine Run.stored (Counted n) initial ?_ reached
  intro history config t place update memory next before counted _ here access effect
  cases place with
  | advanceWrite value =>
      obtain ⟨isNext, rfl⟩ : config.memory.threadNext = nums order t ∧ value = nums order t := by
        have mine := turned before t
        rw [here] at mine
        exact mine
      cases access
      cases effect
      have next := counted.threadNext
      have upper := (nums_bounds order t).2
      refine ⟨?_, ?_, ?_⟩
      · rw [List.length_append, List.length_singleton, upTo_succ, ← counted.inOrder]
        simp only [List.append_cancel_left_eq, List.cons.injEq, and_true]
        omega
      all_goals
        simp only [List.length_append, List.length_singleton]
        omega
  | printWants | turnTest | advanceRead | printFinished =>
      cases access
      cases effect
      exact ⟨counted.inOrder, counted.threadNext, counted.few⟩
  | _ => cases access

/-- No thread waits for its turn while a thread that has woken the waiting threads has not advanced yet,
and the turn of a thread that waits has not come. -/
def Heard {n : Nat} (order : Equiv.Perm (Fin n)) (config : State n) : Prop :=
  ∀ t, (config.status t).isBlocked = true →
    config.memory.threadNext < nums order t ∧ ∀ other, (config.status other).runs Place.hasWoken = false

/-- A step keeps the waiting threads waiting when it does not advance and its thread has woken nobody. -/
theorem Heard.step (heard : Heard order config) {t : Fin n} {next : Place} (memory : Memory)
    (same : memory.threadNext = config.memory.threadNext) (silent : next.hasWoken = false) :
    Heard order ((config.setMemory memory).setStatus t (.ready next)) := by
  intro other blocked
  by_cases moved : other = t
  · subst moved
    simp at blocked
  · obtain ⟨waits, none⟩ := heard other (by simpa [Function.update_of_ne moved] using blocked)
    refine ⟨by simpa [same] using waits, fun someone => ?_⟩
    by_cases hit : someone = t
    · subst hit
      simpa using silent
    · simpa [Function.update_of_ne hit] using none someone

/-- While a thread that has woken the others has not advanced, no thread waits. -/
theorem Heard.awake (heard : Heard order config) {t : Fin n} {place : Place}
    (here : config.status t = .ready place)
    (woken : place.hasWoken = true) (other : Fin n) : (config.status other).isBlocked = false := by
  by_contra blocked
  have none := (heard other (by simpa using blocked)).2 t
  rw [here, Status.runs_ready, woken] at none
  cases none

/-- A configuration without waiting threads is heard. -/
theorem heard_of_awake (awake : ∀ other, (config.status other).isBlocked = false) : Heard order config := by
  intro t blocked
  rw [awake t] at blocked
  cases blocked

theorem awake_setStatus (awake : ∀ other, (config.status other).isBlocked = false) (t : Fin n) (next : Place)
    (memory : Memory) (other : Fin n) :
    (((config.setMemory memory).setStatus t (.ready next)).status other).isBlocked = false := by
  by_cases moved : other = t
  · subst moved
    simp
  · simpa [Function.update_of_ne moved] using awake other

theorem heard (reached : Run (code order) start allowed history config) : Heard order config := by
  refine Run.invariant (Heard order) ?_ ?_ ?_ ?_ reached
  · exact heard_of_awake fun _ => rfl
  · intro history config t place before heard _ here
    cases place with
    | printWants | printFinished =>
        intro memory next effect
        cases effect
        exact heard.step _ rfl rfl
    | turnTest =>
        intro memory next effect
        cases effect
        refine heard.step _ rfl ?_
        split <;> rfl
    | advanceRead | advanceWrite value =>
        intro memory next effect
        cases effect
        exact heard_of_awake (awake_setStatus (heard.awake here rfl) t _ _)
    | lockGate => exact fun _ => heard.step config.memory rfl rfl
    | unlockGate => exact heard.step config.memory rfl rfl
    | condWait =>
        have mine := turned before t
        rw [here] at mine
        have alone : ∀ other, (config.status other).runs Place.hasWoken = false := fun other =>
          (owned before).runs_eq_false here (fun there woken => show held there .lock =
            true from Place.inside_of_hasWoken woken)
            rfl rfl
        intro other blocked
        refine ⟨?_, fun someone => ?_⟩
        · by_cases moved : other = t
          · subst moved
            exact mine
          · exact (heard other (by simpa [Function.update_of_ne moved] using blocked)).1
        · by_cases hit : someone = t
          · subst hit
            simp
          · simpa [Function.update_of_ne hit] using alone someone
    | broadcast =>
        refine heard_of_awake fun other => ?_
        by_cases moved : other = t
        · subst moved
          simp
        · cases status : config.status other <;> simp [Function.update_of_ne moved, status, Status.wake]
    | done => trivial
  · intro history config t mutex place before heard here _
    have mine := turned before t
    rw [here] at mine
    obtain ⟨rfl, _⟩ := mine
    exact heard.step config.memory rfl rfl
  · intro history config t cond mutex place _ heard here other blocked
    by_cases moved : other = t
    · subst moved
      simp at blocked
    · obtain ⟨waits, none⟩ := heard other (by simpa [Function.update_of_ne moved] using blocked)
      refine ⟨waits, fun someone => ?_⟩
      by_cases hit : someone = t
      · subst hit
        simp
      · simpa [Function.update_of_ne hit] using none someone

/-- A thread that has returned has had its turn. -/
theorem lt_of_finished (reached : Run (code order) start allowed history config) {t : Fin n}
    (finished : Finished (code order) config t) : nums order t < config.memory.threadNext := by
  have mine := turned reached t
  unfold Finished at finished
  cases status : config.status t with
  | ready place =>
      rw [status] at mine finished
      cases place with
      | done => exact mine
      | _ => cases finished
  | blocked cond mutex place | woken mutex place =>
      rw [status] at finished
      cases finished

/-- The number of the next turn is carried by a thread while some thread is unfinished,
and this thread is not blocked. -/
theorem not_stalled (reached : Run (code order) start allowed history config) : ¬ Stalled (code order) config := by
  intro stalled
  obtain ⟨t, blocked⟩ := stalled.exists_blocked
  have waits := (heard reached t blocked).1
  have bounds := nums_bounds order t
  have next := (counted reached).threadNext
  obtain ⟨first, isFirst⟩ := exists_nums order config.memory.threadNext (by omega) (by omega)
  by_cases finished : Finished (code order) config first
  · have passed := lt_of_finished reached finished
    omega
  · have waitsFirst := (heard reached first (stalled.2 first finished)).1
    omega

/-- The threads advance in the order of their numbers, all of them have advanced when all have returned,
and the gate never stalls. -/
theorem gate_inOrder (order : Equiv.Perm (Fin n)) (config : State n)
    (reachable : Reachable (code order) start config) :
    config.memory.advanced = upTo config.memory.advanced.length ∧ config.memory.advanced.length ≤ n ∧
      ((∀ t, Finished (code order) config t) → config.memory.advanced = upTo n) ∧
      ¬ Stalled (code order) config := by
  obtain ⟨history, reached⟩ := reachable
  have counted := counted reached
  have next := counted.threadNext
  have few := counted.few
  refine ⟨counted.inOrder, few, fun finished => ?_, not_stalled reached⟩
  rcases Nat.eq_or_lt_of_le few with all | fewer
  · rw [counted.inOrder, all]
  · obtain ⟨t, isNext⟩ := exists_nums order config.memory.threadNext (by omega) (by omega)
    have passed := lt_of_finished reached (finished t)
    omega

end

/-- Both threads advance in the order of their numbers, although the second one has come first. -/
theorem gate_inOrder_lateFirst : ∃ config : State 2, Reachable (code (Equiv.swap 0 1)) start config ∧
    (∀ t, Finished (code (Equiv.swap 0 1)) config t) ∧ config.memory.advanced = [1, 2] ∧
      ¬ Stalled (code (Equiv.swap 0 1)) config := by
  -- The thread with number 2 comes first and waits. Then the thread with number 1 passes the gate.
  obtain ⟨config, reachable, finished⟩ := exists_reachable (code (Equiv.swap 0 1)) (start : State 2)
    (turns 4 0 ++ turns 8 1 ++ turns 7 0)
    (fun config => decide (∀ t, Finished (code (Equiv.swap 0 1)) config t)) (by decide)
  have inOrder := gate_inOrder (Equiv.swap 0 1) config reachable
  have all := of_decide_eq_true finished
  exact ⟨config, reachable, all, inOrder.2.2.1 all, inOrder.2.2.2⟩

end OSLabs.Inorder
