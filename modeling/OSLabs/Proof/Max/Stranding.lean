import OSLabs.Proof.Max.Capacity
import OSLabs.Proof.Pthread.Frame
import OSLabs.Proof.Pthread.Attended
import OSLabs.Proof.Pthread.Counter

namespace OSLabs.Max
open Pthread

namespace Place

/-- The thread has written its increment and not yet signalled in `freeThread`. -/
def stays : Place → Bool
  | .wall .wallTest | .wall .condWait | .wall .unlockWall | .critical | .free .lockFree | .free .signalWall => true
  | _ => false

/-- The thread has passed the test of the wall. -/
def beyond : Place → Bool
  | .wall .unlockWall | .critical | .free _ | .done => true
  | _ => false

/-- The value that the thread has read for its write of the counter. -/
def pending : Place → Option Int
  | .wall (.enterWrite value) | .free (.leaveWrite value) => some value
  | _ => none

/-- The thread is about to wait. -/
def isCondWait : Place → Bool
  | .wall .condWait => true
  | _ => false

/-- The thread will test the wall or signal another thread. -/
def alarms : Place → Bool
  | .wall .wallTest | .wall .unlockWall | .critical | .free .lockFree | .free .signalWall => true
  | _ => false

end Place

/-- The thread will test the wall or signal another thread, and it runs or is woken. -/
def alert {T : Type} (_ : T) : Status Place Mutex Cond → Bool
  | .ready place | .woken _ place => place.alarms
  | .blocked _ _ _ => false

/-- The thread waits or is about to wait. -/
def awaitsWall {T : Type} (_ : T) (status : Status Place Mutex Cond) : Bool :=
  status.awaits .bullDoze Place.isCondWait

/-- The thread is in a wait or about to wait. -/
def lingers : Status Place Mutex Cond → Bool
  | .ready place => place.isCondWait
  | .blocked _ _ _ | .woken _ _ => true

section
variable {T : Type} [DecidableEq T] [Fintype T] {history : History T Memory Place Mutex Cond} {config : State T}

/-- While a thread moves, no other thread runs inside a body. -/
theorem inBody_eq_false (reached : Run code start (fun _ => AtomicBodies) history config) {t other : T}
    (permitted : AtomicBodies config t) (different : other ≠ t)
    (elsewhere : (config.places other).isWallTest = false) : (config.places other).inBody = false := by
  have quiet := permitted other different
  rw [ready_of_not_isWallTest reached elsewhere] at quiet
  exact quiet

/-- With atomic bodies the counter is the number of counted threads. -/
theorem exact_counter (reached : Run code start (fun _ => AtomicBodies) history config) :
    config.memory.numberAtWall = ∑ t, indicator Place.counted t (config.places t) := by
  refine (reached.exact Memory.numberAtWall Place.pending
    (fun _ places => ∑ t, indicator Place.counted t (places t)) ?_ (fun _ => rfl) (fun _ _ _ _ => rfl) ?_ ?_ ?_).1
  · exact (tally_eq_zero fun _ => rfl).symm
  · intro _ config t place value before permitted here reads other different
    cases there : config.places other with
    | wall inner =>
        cases inner with
        | enterWrite value =>
            have quiet := inBody_eq_false before permitted different (by rw [there]; rfl)
            rw [there] at quiet
            cases quiet
        | _ => rfl
    | free inner =>
        cases inner with
        | leaveWrite value =>
            have quiet := inBody_eq_false before permitted different (by rw [there]; rfl)
            rw [there] at quiet
            cases quiet
        | _ => rfl
    | critical | done => rfl
  · intro _ config t place after next here effect settled
    have located := Config.places_of_ready here
    have total : next.counted = place.counted →
        ∑ other, indicator Place.counted other (Function.update config.places t next other) =
          ∑ other, indicator Place.counted other (config.places other) := by
      intro same
      rw [sum_update, located]
      simp only [indicator, same, sub_add_cancel]
    cases place with
    | wall place =>
        cases place with
        | enterRead =>
            cases effect
            exact ⟨rfl, total rfl, fun value reads => (Option.some.inj reads).symm⟩
        | enterWrite value => cases settled
        | wallTest =>
            cases effect
            by_cases full : config.memory.numberAtWall > 3 <;> simp only [full, ↓reduceIte] at total ⊢ <;>
              exact ⟨trivial, total rfl, by simp [Place.pending]⟩
        | lockWall | condWait | unlockWall =>
            cases effect
            exact ⟨rfl, total rfl, by simp [Place.pending]⟩
    | free place =>
        cases place with
        | leaveRead =>
            cases effect
            exact ⟨rfl, total rfl, fun value reads => (Option.some.inj reads).symm⟩
        | leaveWrite value => cases settled
        | lockFree | signalWall | unlockFree =>
            cases effect
            exact ⟨rfl, total rfl, by simp [Place.pending]⟩
    | critical =>
        cases effect
        exact ⟨rfl, total rfl, by simp [Place.pending]⟩
    | done => cases effect
  · intro _ config t place after next value here effect reads
    rw [sum_update, Config.places_of_ready here]
    cases place with
    | wall place =>
        cases place with
        | enterWrite value =>
            cases effect
            cases reads
            simp [indicator, Place.counted, Place.pending]
        | _ => cases reads
    | free place =>
        cases place with
        | leaveWrite value =>
            cases effect
            cases reads
            simp [indicator, Place.counted, Place.pending]
        | _ => cases reads
    | critical | done => cases reads

section Moves
variable {t : T} {after : Memory} {next : Place}

/-- A step that stops no alarm and keeps the thread where it stays keeps the threads attended. -/
theorem attends_of_stays {place : Place} {status : Status Place Mutex Cond}
    (attended : Attended awaitsWall alert (fun places _ => 3 < ∑ t, indicator Place.stays t (places t)) config)
    (here : config.status t = .ready place) (same : awaitsWall t status = awaitsWall t (.ready place))
    (quiet : place.alarms = false) (stays : status.place.stays = place.stays) :
    Attends awaitsWall alert (fun places _ => 3 < ∑ t, indicator Place.stays t (places t)) config
      t after status := by
  refine attended.keep_ready here same quiet fun many => ?_
  rw [sum_update, Config.places_of_ready here]
  simpa only [indicator, stays, sub_add_cancel] using many

variable (permitted : AtomicBodies config t)
include permitted

/-- A thread that frees a slot keeps the threads attended. -/
theorem free_attends {place : FreePlace}
    (attended : Attended awaitsWall alert (fun places _ => 3 < ∑ t, indicator Place.stays t (places t)) config)
    (here : config.status t = .ready (.free place))
    (effect : (code t (.free place)).effect config.memory = some (after, next))
    (unblocked : Unblocked awaitsWall config t (code t (.free place)) next) :
    Attends awaitsWall alert (fun places _ => 3 < ∑ t, indicator Place.stays t (places t)) config t after
      ((code t (.free place)).resume next) := by
  cases place with
  | lockFree =>
      cases effect
      exact attends_of_alert rfl
  | signalWall =>
      cases effect
      refine attends_of_none (fun waiter different => ?_) rfl
      by_contra waits
      have awaits : awaitsWall waiter (config.status waiter) = true := by simpa using waits
      have free := unblocked .bullDoze (.inl rfl) waiter different awaits
      rw [awaitsWall, Status.awaits, free, Bool.false_or] at awaits
      obtain ⟨there, otherHere, about⟩ := (Status.runs_iff _ _).mp awaits
      have quiet := permitted waiter different
      rw [otherHere] at quiet
      cases there with
      | wall inner => cases inner <;> first | cases about; done | cases quiet
      | _ => cases about
  | leaveRead | leaveWrite value | unlockFree =>
      cases effect
      exact attends_of_stays attended here rfl rfl rfl

variable (before : Run code start (fun _ => AtomicBodies) history config)
include before

/-- The threads that stay when a thread is about to wait are those that are counted. -/
theorem sum_update_condWait (here : config.status t = .ready (.wall .wallTest)) :
    ∑ other, indicator Place.stays other (Function.update config.places t (.wall .condWait) other) =
      ∑ other, indicator Place.counted other (config.places other) := by
  refine Finset.sum_congr rfl fun other _ => ?_
  by_cases hit : other = t
  · subst hit
    rw [Function.update_self, Config.places_of_ready here]
    rfl
  · rw [Function.update_of_ne hit]
    cases there : config.places other with
    | wall inner => cases inner <;> rfl
    | critical | done => rfl
    | free inner =>
        have quiet := inBody_eq_false before permitted hit (by rw [there]; rfl)
        rw [there] at quiet
        cases inner <;> first | rfl | cases quiet

variable (attended : Attended awaitsWall alert (fun places _ =>
  3 < ∑ t, indicator Place.stays t (places t)) config)
include attended

/-- A thread at the wall keeps the threads attended. -/
theorem wall_attends {place : WallPlace} (here : config.status t = .ready (.wall place))
    (effect : (code t (.wall place)).effect config.memory = some (after, next)) :
    Attends awaitsWall alert (fun places _ => 3 < ∑ t, indicator Place.stays t (places t)) config t after
      ((code t (.wall place)).resume next) := by
  cases place with
  | enterWrite value | unlockWall =>
      cases effect
      exact attends_of_alert rfl
  | wallTest =>
      cases effect
      by_cases full : config.memory.numberAtWall > 3
      · simp only [full, ↓reduceIte]
        apply attends_of_fact
        change 3 < ∑ other, indicator Place.stays other (Function.update config.places t (.wall .condWait) other)
        rw [sum_update_condWait permitted before here, ← exact_counter before]
        exact full
      · simp only [full, ↓reduceIte]
        exact attends_of_alert rfl
  | lockWall | enterRead | condWait =>
      cases effect
      exact attends_of_stays attended here rfl rfl rfl

end Moves

/-- A thread waits only while many threads stay or a thread will test the wall or signal. -/
theorem wall_waits (reached : Run code start (fun _ => AtomicBodies) history config) :
    Attended awaitsWall alert (fun places _ => 3 < ∑ t, indicator Place.stays t (places t)) config := by
  refine reached.attended awaitsWall alert _ ?_ ?_ ?_ ?_ ?_ ?_ ?_ ?_
  · intro t
    rfl
  · intro _ config t cond mutex place before here _
    have test := tests before t
    rw [here] at test
    cases test
    rfl
  · intro t cond mutex place
    rfl
  · intro t mutex place alarm
    exact alarm
  · intro t other cond mutex place mutex' place' _
    cases cond
    rfl
  · intro t mutex place
    rfl
  · intro _ config t mutex place before here
    have test := tests before t
    rw [here] at test
    cases test
    rfl
  · intro _ config t place after next before attended permitted here effect unblocked
    cases place with
    | wall place => exact wall_attends permitted before attended here effect
    | free place => exact free_attends permitted attended here effect unblocked
    | critical =>
        cases effect
        exact attends_of_alert rfl
    | done => cases effect

/-- At least three threads have passed the test of the wall. -/
def ThreePassed (config : State T) : Prop := 3 ≤ ∑ t, indicator Place.beyond t (config.places t)

/-- While a thread lingers, three threads have passed. -/
def Passed (config : State T) : Prop := ∀ t, lingers (config.status t) = true → ThreePassed config

/-- A thread that moves on and begins to linger only after three threads have passed keeps this. -/
theorem Passed.step {next : State T} (passed : Passed config) {t : T} {status : Status Place Mutex Cond}
    (moved : next.status = Function.update config.status t status)
    (onward : (config.status t).place.beyond = true → status.place.beyond = true)
    (begins : lingers status = true → ThreePassed config) : Passed next := by
  have places : next.places = (config.setStatus t status).places := by
    funext other
    rw [Config.places, moved]
    rfl
  have more : ThreePassed config → ThreePassed next := by
    intro three
    rw [ThreePassed, places, Config.places_setStatus, sum_update]
    have kept : indicator Place.beyond t (config.places t) ≤ indicator Place.beyond t status.place := by
      cases before : (config.places t).beyond with
      | true => simp [indicator, before, onward before]
      | false =>
          rw [show indicator Place.beyond t (config.places t) = 0 by simp [indicator, before]]
          exact indicator_nonneg _ _ _
    rw [ThreePassed] at three
    omega
  intro other holds
  apply more
  rw [moved] at holds
  by_cases hit : other = t
  · subst hit
    rw [Function.update_self] at holds
    exact begins holds
  · rw [Function.update_of_ne hit] at holds
    exact passed other holds

/-- A thread begins to wait only when three threads have passed. -/
theorem threePassed_of_full (reached : Run code start (fun _ => AtomicBodies) history config)
    (passed : Passed config) {t : T} (permitted : AtomicBodies config t)
    (here : config.status t = .ready (.wall .wallTest)) (full : config.memory.numberAtWall > 3) :
    ThreePassed config := by
  by_cases lingering : ∃ other, lingers (config.status other) = true
  · obtain ⟨other, waits⟩ := lingering
    exact passed other waits
  · have located := Config.places_of_ready here
    have total := exact_counter reached
    have others :
      ∑ other, indicator Place.counted other (Function.update config.places t (.wall .lockWall) other) ≤
        ∑ other, indicator Place.beyond other (Function.update config.places t (.wall .lockWall) other) := by
      refine Finset.sum_le_sum fun other _ => ?_
      by_cases hit : other = t
      · subst hit
        rw [Function.update_self]
        exact le_rfl
      · rw [Function.update_of_ne hit]
        have quiet := permitted other hit
        rw [Config.places]
        cases there : config.status other with
        | ready place =>
            rw [there] at quiet
            cases place with
            | wall inner => cases inner <;> first | exact le_rfl | cases quiet
            | critical | done => simp [indicator, Place.counted, Place.beyond]
            | free inner => cases inner <;> simp [indicator, Place.counted, Place.beyond]
        | blocked cond mutex place | woken mutex place =>
            exact absurd ⟨other, by rw [there]; rfl⟩ lingering
    have without : indicator Place.counted t (.wall .wallTest) = 1 ∧
      indicator Place.counted t (.wall .lockWall) = 0 ∧
        indicator Place.beyond t (.wall .wallTest) = 0 ∧ indicator Place.beyond t (.wall .lockWall) = 0 :=
      ⟨rfl, rfl, rfl, rfl⟩
    rw [sum_update, sum_update, located] at others
    rw [ThreePassed]
    omega

/-- While a thread is in a wait or about to wait, three threads have passed the test of the wall. -/
theorem passed (reached : Run code start (fun _ => AtomicBodies) history config) : Passed config := by
  refine Run.invariant Passed ?_ ?_ ?_ ?_ reached
  · intro t waits
    cases waits
  · intro history config t place before passed permitted here
    have step : ∀ {next : State T} {status : Status Place Mutex Cond},
        next.status = Function.update config.status t status → (place.beyond = true → status.place.beyond = true) →
        (lingers status = true → ThreePassed config) → Passed next :=
      fun moved onward begins => passed.step moved (by rw [here]; exact onward) begins
    cases place with
    | wall place =>
        cases place with
        | lockWall => exact fun _ => step rfl nofun nofun
        | enterRead | enterWrite value =>
            intro memory next effect
            cases effect
            exact step rfl nofun nofun
        | wallTest =>
            intro memory next effect
            cases effect
            refine step rfl nofun fun waits => ?_
            by_cases full : config.memory.numberAtWall > 3
            · exact threePassed_of_full before passed permitted here full
            · simp only [full, ↓reduceIte] at waits
              cases waits
        | condWait => exact step rfl nofun fun _ => passed t (by rw [here]; rfl)
        | unlockWall => exact step rfl (fun _ => rfl) nofun
    | free place =>
        cases place with
        | lockFree => exact fun _ => step rfl (fun _ => rfl) nofun
        | signalWall =>
            have moved : Passed (config.setStatus t (.ready (.free .leaveRead))) := step rfl (fun _ => rfl) nofun
            refine ⟨fun _ => moved, fun target mutex there blocked => ?_⟩
            have different : target ≠ t := by
              rintro rfl
              rw [here] at blocked
              cases blocked
            have waiting : (config.setStatus t (.ready (.free .leaveRead))).status target =
                .blocked .bullDoze mutex there := by
              rw [Config.setStatus_status, Function.update_of_ne different, blocked]
            refine moved.step rfl ?_ fun _ => moved target (by rw [waiting]; rfl)
            rw [waiting]
            exact id
        | leaveRead | leaveWrite value =>
            intro memory next effect
            cases effect
            exact step rfl (fun _ => rfl) nofun
        | unlockFree => exact step rfl (fun _ => rfl) nofun
    | critical =>
        intro memory next effect
        cases effect
        exact step rfl (fun _ => rfl) nofun
    | done => trivial
  · intro _ config t mutex place before passed here _
    have test := tests before t
    rw [here] at test
    cases test
    exact passed.step rfl (by rw [here]; exact id) nofun
  · intro _ config t cond mutex place _ passed here
    exact passed.step rfl (by rw [here]; exact id) fun _ => passed t (by rw [here]; rfl)

/-- In a stalled configuration four threads wait and three threads have returned. -/
theorem seven_of_stalled (reached : Run code start (fun _ => AtomicBodies) history config)
    (stalled : Stalled code config) : 7 ≤ Fintype.card T := by
  have resting : ∀ t, config.status t = .ready .done ∨
      ∃ mutex, config.status t = .blocked .bullDoze mutex (.wall .wallTest) := by
    intro t
    have test := tests reached t
    cases status : config.status t with
    | ready place =>
        have exits := stalled.exits status
        cases place with
        | wall inner => cases inner <;> cases exits
        | free inner => cases inner <;> cases exits
        | critical => cases exits
        | done => exact .inl rfl
    | woken mutex place => exact absurd status stalled.not_woken
    | blocked cond mutex place =>
        rw [status] at test
        cases test
        cases cond
        exact .inr ⟨mutex, rfl⟩
  obtain ⟨t, blocked⟩ := stalled.exists_blocked
  have waits : lingers (config.status t) = true ∧ awaitsWall t (config.status t) = true := by
    rcases resting t with here | ⟨mutex, here⟩
    · rw [here] at blocked
      cases blocked
    · rw [here]
      exact ⟨rfl, rfl⟩
  have three : ThreePassed config := passed reached t waits.1
  have four : 3 < ∑ t, indicator Place.stays t (config.places t) := by
    rcases wall_waits reached t waits.2 with many | ⟨other, alarm⟩
    · exact many
    · rcases resting other with here | ⟨mutex, here⟩ <;> rw [here] at alarm <;> cases alarm
  have apart : ∑ t, (indicator Place.stays t (config.places t) + indicator Place.beyond t (config.places t)) ≤
      ∑ _t : T, (1 : Int) := by
    refine Finset.sum_le_sum fun t _ => ?_
    rw [Config.places]
    rcases resting t with here | ⟨mutex, here⟩ <;> rw [here] <;> exact le_rfl
  simp only [Finset.sum_add_distrib, Finset.sum_const, Finset.card_univ, nsmul_eq_mul, mul_one] at apart
  rw [ThreePassed] at three
  omega

end

/-- A thread that runs alone passes the wall and returns. -/
theorem solo : Reachable code (Config.initial ⟨0⟩ (fun _ => .wall .lockWall) : State Unit)
    (Config.initial ⟨0⟩ fun _ => .done) := by
  have followed : follow code (Config.initial ⟨0⟩ fun _ => .wall .lockWall) (turns 11 ()) =
      some (Config.initial ⟨0⟩ fun _ => .done : State Unit) := by
    refine congrArg some (Config.eq_initial rfl (fun which => ?_) fun _ => rfl)
    cases which <;> rfl
  exact (Reachable.refl _ _).follow followed

/-- The schedule of a thread that calls `brickWall`. -/
def arrive (t : Fin 7) : List (Move (Fin 7)) := turns 5 t

/-- The schedule of a thread that leaves and wakes another thread, which tests the wall and waits again. -/
def wakeInVain (t target : Fin 7) : List (Move (Fin 7)) :=
  turns 2 t ++ [Move.signal t target] ++ turns 3 t ++ turns 3 target

/-- Of seven threads, four wait for ever. -/
theorem exists_stalled_of_seven : ∃ history config,
    Run code (start : State (Fin 7)) (fun _ => AtomicBodies) history config ∧ Stalled code config := by
  obtain ⟨history, config, reached, passed⟩ := exists_run code (start : State (Fin 7)) (fun _ => AtomicBodies)
    ((List.finRange 7).flatMap arrive ++ wakeInVain 0 3 ++ wakeInVain 1 3 ++ wakeInVain 2 3)
    (fun config => decide (Stalled code config)) (by decide)
  exact ⟨history, config, reached, of_decide_eq_true passed⟩

/-- With seven threads or more, some wait for ever. -/
theorem exists_stalled {T : Type} [DecidableEq T] [Fintype T] (many : 7 ≤ Fintype.card T) : ∃ history config,
    Run code (start : State T) (fun _ => AtomicBodies) history config ∧ Stalled code config := by
  obtain ⟨embed⟩ : Nonempty (Fin 7 ↪ T) := Function.Embedding.nonempty_of_card_le (by simpa using many)
  refine exists_stalled_of_small thread embed (fun _ => (⟨0⟩ : Memory)) rfl (fun _ => solo) ?_ ?_
    fun _ => exists_stalled_of_seven
  · intro config t calm other different
    rcases calm other different with here | here <;> rw [here] <;> rfl
  · intro small config t frames atomic other different
    by_cases inside : ∃ inner, embed inner = other
    · obtain ⟨inner, rfl⟩ := inside
      rw [frames.status]
      exact atomic inner fun same => different (congrArg embed same)
    · rw [frames.others other fun inner same => inside ⟨inner, same⟩]
      rfl

/-- With atomic bodies no run strands a thread in its wait exactly when there are at most six threads. -/
theorem stranding_iff {T : Type} [DecidableEq T] [Fintype T] :
    (∀ history config, Run code (start : State T) (fun _ => AtomicBodies) history config → ¬ Stalled code config) ↔
      Fintype.card T ≤ 6 := by
  constructor
  · intro never
    by_contra many
    obtain ⟨history, config, reached, stalled⟩ := exists_stalled (by omega : 7 ≤ Fintype.card T)
    exact never history config reached stalled
  · intro few history config reached stalled
    have many := seven_of_stalled reached stalled
    omega

/-- Of seven threads, three return and four wait for ever. -/
theorem stranding_fails : ∃ history config,
    Run code (start : State (Fin 7)) (fun _ => AtomicBodies) history config ∧ Stalled code config :=
  exists_stalled_of_seven

end OSLabs.Max
