import OSLabs.Proof.BigLittleCar.Load
import OSLabs.Proof.Pthread.Progress

namespace OSLabs.BigLittleCar
open Pthread

namespace Place

/-- The car is about to subtract its weight. -/
def subtracts : Place → Bool
  | .subtractWrite _ => true
  | _ => false

/-- The car is about to wake the waiting cars. -/
def wakes : Place → Bool
  | .wakeCars => true
  | _ => false

/-- The car has failed its test and is about to wait. -/
def refused : Place → Bool
  | .condWait => true
  | _ => false

end Place

/-- The side condition of the waiting cars: no car subtracts its weight while a car of the other kind is between
the read and the write of an update, and no car wakes the waiting cars while a car of the other kind
is between its failed test and its wait. -/
def Noticed {T : Type} (kind : T → Kind) (config : State T) (t : T) : Prop :=
  Undisturbed kind Place.subtracts Place.writes config t ∧ Undisturbed kind Place.wakes Place.refused config t

instance {T : Type} [Fintype T] (kind : T → Kind) (config : State T) (t : T) : Decidable (Noticed kind config t) :=
  inferInstanceAs (Decidable (_ ∧ _))

/-- The value of `currentWeight` that the car has read for its update. -/
def Place.read : Place → Option Int
  | .addWrite value | .subtractWrite value => some value
  | _ => none

/-- The values of `currentWeight` that a car has read or can read are at most the weight of the counted cars. -/
structure Covered {T : Type} [Fintype T] (kind : T → Kind) (config : State T) : Prop where
  current : config.memory.currentWeight ≤ tally (countedWeight kind) config
  pending : ∀ t value, (config.status t).place.read = some value → value ≤ tally (countedWeight kind) config

/-- A car waits or is about to wait. -/
def Held {T : Type} (config : State T) (t : T) : Prop :=
  (config.status t).isBlocked = true ∨ (config.status t).runs Place.refused = true

/-- Unless a car is about to wake the waiting cars, no waiting car fits beside the counted cars. -/
def Heard {T : Type} [Fintype T] (kind : T → Kind) (config : State T) : Prop :=
  (∃ t, config.status t = .ready .wakeCars) ∨
    ∀ t, Held config t → maxWeight < (kind t).weight + tally (countedWeight kind) config

section
variable {T : Type} {kind : T → Kind} [DecidableEq T] [Fintype T] {config : State T}

/-- A car that keeps its weight and reads at most the current value keeps the bound. -/
theorem Covered.setStatus (covered : Covered kind config) {t : T} {status : Status Place Mutex Cond}
    (same : countedWeight kind t status.place = countedWeight kind t (config.status t).place)
    (read : ∀ value, status.place.read = some value → value ≤ config.memory.currentWeight) :
    Covered kind (config.setStatus t status) := by
  have total : tally (countedWeight kind) (config.setStatus t status) = tally (countedWeight kind) config := by
    rw [tally_setStatus, same]
    omega
  refine ⟨by simpa [total] using covered.current, fun other value pending => ?_⟩
  rw [total]
  by_cases moved : other = t
  · subst moved
    exact (read value (by simpa using pending)).trans covered.current
  · exact covered.pending other value (by simpa [Function.update_of_ne moved] using pending)

/-- A car that adds its weight to a covered value keeps the bound. -/
theorem Covered.add (covered : Covered kind config) {t : T} {value : Int}
    (here : config.status t = .ready (.addWrite value)) :
    Covered kind ((config.setMemory ⟨value + (kind t).weight⟩).setStatus t (.ready .printStarting)) := by
  have mine := covered.pending t value (by simp [here, Place.read])
  have nonneg := (kind t).weight_nonneg
  have total : tally (countedWeight kind)
      ((config.setMemory ⟨value + (kind t).weight⟩).setStatus t (.ready .printStarting)) =
        tally (countedWeight kind) config + (kind t).weight := by
    simp [here, countedWeight, Place.counted]
  refine ⟨?_, fun other value' pending => ?_⟩
  · rw [total]
    simp only [Config.setStatus_memory, Config.setMemory_memory]
    omega
  · rw [total]
    by_cases moved : other = t
    · subst moved
      simp [Place.read] at pending
    · have bound := covered.pending other value' (by simpa [Function.update_of_ne moved] using pending)
      omega

/-- A car that subtracts its weight from a covered value keeps the bound when no other update is pending. -/
theorem Covered.subtract (covered : Covered kind config) {t : T} {value : Int}
    (here : config.status t = .ready (.subtractWrite value))
    (alone : ∀ other, other ≠ t → (config.status other).place.read = none) :
    Covered kind ((config.setMemory ⟨value - (kind t).weight⟩).setStatus t (.ready .wakeCars)) := by
  have mine := covered.pending t value (by simp [here, Place.read])
  refine ⟨?_, fun other value' pending => ?_⟩
  · simp only [tally_setStatus, tally_setMemory, Config.setMemory_status, here, Status.place_ready, countedWeight,
      Place.counted, Config.setStatus_memory, Config.setMemory_memory, ↓reduceIte, Bool.false_eq_true]
    omega
  · by_cases moved : other = t
    · subst moved
      simp [Place.read] at pending
    · simp [Function.update_of_ne moved, alone other moved] at pending

/-- A step of a car that is not about to wake the others keeps the waiting cars out
when no counted car leaves and the car itself does not fit if it begins to wait. -/
theorem Heard.setStatus (heard : Heard kind config) {t : T} {status : Status Place Mutex Cond}
    (silent : config.status t ≠ .ready .wakeCars)
    (grows : countedWeight kind t (config.status t).place ≤ countedWeight kind t status.place)
    (mine : status.isBlocked = true ∨ status.runs Place.refused = true →
      Held config t ∨ maxWeight < (kind t).weight + tally (countedWeight kind) config) :
    Heard kind (config.setStatus t status) := by
  have total := tally_setStatus (countedWeight kind) config t status
  rcases heard with ⟨waker, wakes⟩ | kept
  · left
    have different : waker ≠ t := by
      rintro rfl
      exact silent wakes
    exact ⟨waker, by simpa [Function.update_of_ne different] using wakes⟩
  · right
    intro other waiting
    by_cases moved : other = t
    · subst moved
      rcases mine (by simpa [Held] using waiting) with before | large
      · have := kept other before
        omega
      · omega
    · have := kept other (by simpa [Held, Function.update_of_ne moved] using waiting)
      omega

variable {history : History T Memory Place Mutex Cond}

/-- The variable `currentWeight` never exceeds the weight of the counted cars. -/
theorem covered (reached : Run (code kind) start (fun _ => Noticed kind) history config) :
    Covered kind config := by
  refine Run.invariant (Covered kind) ?_ ?_ ?_ ?_ reached
  · exact ⟨(tally_eq_zero fun t => rfl).ge, fun t value pending => by cases pending⟩
  · intro history config t place before covered noticed here
    have stored : ∀ mutex owner, Covered kind (config.setOwner mutex owner) := fun _ _ => ⟨covered.1, covered.2⟩
    rw [code_eq]
    cases place with
    | lockEntry | lockExit =>
        intro _
        exact (stored _ _).setStatus (by simp [here, countedWeight, Place.counted]) (by simp [Place.read])
    | unlockEntry | unlockExit | condWait =>
        exact (stored _ _).setStatus (by simp [here, countedWeight, Place.counted]) (by simp [Place.read])
    | firstTest | waitTest =>
        intro after next effect
        cases effect
        split <;> exact covered.setStatus (by simp [here, countedWeight, Place.counted]) (by simp [Place.read])
    | addRead | printStarting | subtractRead =>
        intro after next effect
        cases effect
        exact covered.setStatus (by simp [here, countedWeight, Place.counted]) (by simp [Place.read])
    | addWrite value =>
        intro after next effect
        cases effect
        exact covered.add here
    | subtractWrite value =>
        intro after next effect
        cases effect
        refine covered.subtract here fun other different => ?_
        have located := waits before other
        cases status : config.status other with
        | ready there =>
            have idle := noticed.1.window_false before here rfl rfl
              (fun there writes => by cases there <;> first | rfl | cases writes) different status
            cases there <;> first | rfl | cases idle
        | blocked cond mutex there | woken mutex there =>
            rw [status] at located
            cases located
            rfl
    | wakeCars =>
        have woken : Covered kind (config.wakeAll .waitYOURTURN) :=
          ⟨by simpa using covered.1, by simpa using covered.2⟩
        exact woken.setStatus (by simp [here, countedWeight, Place.counted]) (by simp [Place.read])
    | done => trivial
  · intro _ config t mutex place before covered here _
    have located := waits before t
    rw [here] at located
    cases located
    have stored : Covered kind (config.setOwner mutex (some t)) := ⟨covered.1, covered.2⟩
    exact stored.setStatus (by simp [here]) (by simp [Place.read])
  · intro _ config t cond mutex place before covered here
    have located := waits before t
    rw [here] at located
    cases located
    exact covered.setStatus (by simp [here]) (by simp [Place.read])

/-- Every waiting car is too heavy for the bridge, unless a broadcast is due. -/
theorem heard (reached : Run (code kind) start (fun _ => Noticed kind) history config) : Heard kind config := by
  refine Run.invariant (Heard kind) ?_ ?_ ?_ ?_ reached
  · exact .inr fun t waiting => by rcases waiting with waiting | waiting <;> cases waiting
  · intro history config t place before heard noticed here
    have bound := (covered before).current
    rw [code_eq]
    cases place with
    | lockEntry | lockExit =>
        intro _
        exact Heard.setStatus (show Heard kind (config.setOwner _ _) from heard) (by simp [here])
          (by simp [here, countedWeight, Place.counted]) (by simp [Place.refused])
    | unlockEntry | unlockExit =>
        exact Heard.setStatus (show Heard kind (config.setOwner _ _) from heard) (by simp [here])
          (by simp [here, countedWeight, Place.counted]) (by simp [Place.refused])
    | condWait =>
        exact Heard.setStatus (show Heard kind (config.setOwner _ _) from heard) (by simp [here])
          (by simp [here, countedWeight, Place.counted]) (by simp [Held, here, Place.refused])
    | firstTest =>
        intro after next effect
        cases effect
        split <;> exact heard.setStatus (by simp [here]) (by simp [here, countedWeight, Place.counted])
          (by simp [Place.refused])
    | waitTest =>
        intro after next effect
        cases effect
        split
        · next heavy =>
            exact heard.setStatus (by simp [here]) (by simp [here, countedWeight, Place.counted])
              (fun _ => .inr (by omega))
        · exact heard.setStatus (by simp [here]) (by simp [here, countedWeight, Place.counted])
            (by simp [Place.refused])
    | addRead | printStarting | subtractRead =>
        intro after next effect
        cases effect
        exact heard.setStatus (by simp [here]) (by simp [here, countedWeight, Place.counted])
          (by simp [Place.refused])
    | addWrite value =>
        intro after next effect
        cases effect
        exact Heard.setStatus (show Heard kind (config.setMemory _) from heard) (by simp [here])
          (by simp [here, countedWeight, Place.counted, Kind.weight_nonneg]) (by simp [Place.refused])
    | subtractWrite value =>
        intro after next effect
        cases effect
        exact .inl ⟨t, by simp⟩
    | wakeCars =>
        refine .inr fun other waiting => absurd waiting ?_
        by_cases moved : other = t
        · subst moved
          simp [Held, Place.refused]
        · simp only [Held, Config.setStatus_status, Function.update_of_ne moved, Config.wakeAll_status]
          cases status : config.status other with
          | ready there =>
              have idle := noticed.2.window_false before here rfl rfl
                (fun there refused => by cases there <;> first | rfl | cases refused) moved status
              simp [idle]
          | blocked cond mutex there =>
              cases cond
              simp
          | woken mutex there => simp
    | done => trivial
  · intro _ config t mutex place before heard here _
    have located := waits before t
    rw [here] at located
    cases located
    exact Heard.setStatus (show Heard kind (config.setOwner _ _) from heard) (by simp [here])
      (by simp [here]) (by simp [Place.refused])
  · intro _ config t cond mutex place before heard here
    exact heard.setStatus (by simp [here]) (by simp [here]) (by simp)

/-- In every run in which each departure is noticed, no car waits in vain:
once no car is inside a protected section, a blocked car does not fit on the bridge, and the cars never stall. -/
theorem not_in_vain_of_noticed (reached : Run (code kind) start (fun _ => Noticed kind) history config) :
    (Unlocked config → (∀ t mutex place, config.status t ≠ .woken mutex place) →
      ∀ t, (config.status t).isBlocked = true → maxWeight < (kind t).weight + load kind config) ∧
    ¬ Stalled (code kind) config := by
  have heavy : Unlocked config →
      ∀ t, (config.status t).isBlocked = true → maxWeight < (kind t).weight + load kind config := by
    intro unlocked t blocked
    rw [load_eq reached unlocked]
    rcases heard reached with ⟨waker, wakes⟩ | kept
    · have outside := (owned reached).free (unlocked (kind waker).mutex) waker
      simp [wakes, Status.holds, held, Place.inside] at outside
    · exact kept t (.inl blocked)
  refine ⟨fun unlocked _ => heavy unlocked, fun stalled => ?_⟩
  have finished : ∀ t place, config.status t = .ready place → place = .done := by
    intro t place here
    have exits := stalled.exits here
    rw [code_eq] at exits
    cases place <;> first | rfl | cases exits
  have unlocked : Unlocked config := by
    intro mutex
    cases owner : config.owner mutex with
    | none => rfl
    | some holder =>
        obtain ⟨place, here, holds⟩ := (owned reached).ready_of_holds held_single
          (((owned reached).owner mutex holder).mp owner)
        rw [finished holder place here] at holds
        simp [held, Place.inside] at holds
  have empty : load kind config = 0 := by
    refine Finset.sum_eq_zero fun t _ => ?_
    have located := waits reached t
    cases status : config.status t with
    | ready place => simp [finished t place status, Place.onBridge]
    | blocked cond mutex place | woken mutex place =>
        rw [status] at located
        cases located
        simp [Place.onBridge]
  obtain ⟨t, blocked⟩ := stalled.exists_blocked
  have large := heavy unlocked t blocked
  have limit := (kind t).weight_le
  omega

end

instance {T : Type} (config : State T) : Decidable (Unlocked config) :=
  decidable_of_iff (config.owner .lock = none ∧ config.owner .lock2 = none)
    ⟨fun both mutex => by cases mutex <;> simp [both], fun all => ⟨all .lock, all .lock2⟩⟩

/-- The little car waits while the big car is on the bridge. -/
theorem little_car_noticed : ∃ history config,
    Run (code twoCars) start (fun _ => Noticed twoCars) history config ∧
      (config.status 1).isBlocked = true ∧ ¬ Stalled (code twoCars) config := by
  obtain ⟨history, config, reached, holds⟩ := exists_run (code twoCars) start (fun _ => Noticed twoCars)
    (turns 6 0 ++ turns 4 1) (fun config => (config.status 1).isBlocked) (by decide)
  exact ⟨history, config, reached, holds, (not_in_vain_of_noticed reached).2⟩

/-- The big car leaves the bridge and wakes the waiting cars between the test and the wait of the little car. -/
theorem little_car_waits_in_vain : ∃ config, Reachable (code twoCars) start config ∧
    Stalled (code twoCars) config ∧ Unlocked config ∧ (∀ t mutex place, config.status t ≠ .woken mutex place) ∧
      (config.status 1).isBlocked = true ∧ (twoCars 1).weight + load twoCars config ≤ maxWeight := by
  obtain ⟨config, reached, holds⟩ := exists_reachable (code twoCars) start
    (turns 6 0 ++ turns 3 1 ++ turns 5 0 ++ turns 1 1)
    (fun config => decide (Stalled (code twoCars) config ∧ Unlocked config ∧
      (config.status 1).isBlocked = true ∧ (twoCars 1).weight + load twoCars config ≤ maxWeight)) (by decide)
  obtain ⟨stalled, unlocked, blocked, light⟩ := of_decide_eq_true holds
  exact ⟨config, reached, stalled, unlocked, fun _ _ _ => stalled.not_woken, blocked, light⟩

end OSLabs.BigLittleCar
