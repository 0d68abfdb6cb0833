import OSLabs.Construction.BigLittleCar
import OSLabs.Proof.Pthread.Local
import OSLabs.Proof.Pthread.Tally

namespace OSLabs.BigLittleCar
open Pthread

namespace Kind

/-- The mutex that a car of this kind locks. -/
def mutex : Kind → Mutex
  | .big => .lock
  | .little => .lock2

/-- The first test of a car of this kind. -/
def first : Kind → Int → Bool
  | .big => fun currentWeight => currentWeight = 0
  | .little => fun currentWeight => currentWeight < maxWeight

/-- A car that passes its first test fits on the bridge. -/
theorem fits_of_first {kind : Kind} {currentWeight : Int} (passed : kind.first currentWeight = true) :
    currentWeight + kind.weight ≤ maxWeight := by
  cases kind with
  | big =>
      have empty : currentWeight = 0 := by simpa [first] using passed
      simp [empty, weight, bigCar, maxWeight]
  | little =>
      have room : currentWeight < maxWeight := of_decide_eq_true passed
      simp only [weight, smallCar]
      omega

/-- A big car and a little car are together too heavy. -/
theorem weight_add_weight {one two : Kind} (different : one ≠ two) : maxWeight < one.weight + two.weight := by
  cases one <;> cases two <;> first | decide | cases different rfl

theorem weight_nonneg (kind : Kind) : 0 ≤ kind.weight := by
  cases kind <;> decide

theorem weight_le (kind : Kind) : kind.weight ≤ maxWeight := by
  cases kind <;> decide

end Kind

theorem code_eq {T : Type} (kind : T → Kind) (t : T) :
    code kind t = car (kind t).mutex (kind t).first (kind t).weight := by
  unfold code
  cases kind t <;> rfl

namespace Place

/-- These places are inside a section that the mutex of the car protects. -/
def inside : Place → Bool
  | .lockEntry | .lockExit | .done => false
  | _ => true

/-- The car has added its weight and has not yet subtracted it. -/
def counted : Place → Bool
  | .printStarting | .unlockEntry | .lockExit | .subtractRead | .subtractWrite _ => true
  | _ => false

/-- The car is about to write `currentWeight`. -/
def writes : Place → Bool
  | .addWrite _ | .subtractWrite _ => true
  | _ => false

/-- The car is about to add its weight. -/
def adds : Place → Bool
  | .addWrite _ => true
  | _ => false

/-- The car has passed its admission test and has not yet added its weight. -/
def admitted : Place → Bool
  | .addRead | .addWrite _ => true
  | _ => false

/-- The car has passed its admission test or has read the weight for its departure,
and has not yet written `currentWeight`. -/
def committed : Place → Bool
  | .addRead | .addWrite _ | .subtractWrite _ => true
  | _ => false

end Place

/-- A car holds only the mutex of its kind. -/
def held {T : Type} (kind : T → Kind) (t : T) (place : Place) (mutex : Mutex) : Bool :=
  mutex = (kind t).mutex && place.inside

/-- A car performs none of these actions while a car of the other kind is in the window. -/
def Undisturbed {T : Type} (kind : T → Kind) (acts window : Place → Bool) (config : State T) (t : T) : Prop :=
  (config.status t).runs acts = true → ∀ other, kind other ≠ kind t → (config.status other).runs window = false

instance {T : Type} [Fintype T] (kind : T → Kind) (acts window : Place → Bool) (config : State T) (t : T) :
    Decidable (Undisturbed kind acts window config t) :=
  inferInstanceAs (Decidable (_ → ∀ _, _ → _))

/-- The holder of a mutex that is about to write knows the value that it will replace. -/
def Fresh {T : Type} (_ : T) (status : Status Place Mutex Cond) (memory : Memory) : Prop :=
  match status with
  | .ready (.addWrite value) => value = memory.currentWeight
  | .ready (.subtractWrite value) => value = memory.currentWeight
  | .ready _ => True
  | .blocked _ _ place | .woken _ place => place = .waitTest

/-- An admitted car fits on the bridge. -/
def Fits {T : Type} (kind : T → Kind) (t : T) (status : Status Place Mutex Cond) (memory : Memory) : Prop :=
  match status with
  | .ready .addRead => memory.currentWeight + (kind t).weight ≤ maxWeight
  | .ready (.addWrite _) => memory.currentWeight + (kind t).weight ≤ maxWeight
  | .ready _ => True
  | .blocked _ _ place | .woken _ place => place = .waitTest

section
variable {T : Type} {kind : T → Kind}

/-- The weight of the counted cars. -/
def countedWeight (kind : T → Kind) (t : T) (place : Place) : Int := if place.counted then (kind t).weight else 0

theorem countedWeight_nonneg (kind : T → Kind) (t : T) (place : Place) : 0 ≤ countedWeight kind t place := by
  unfold countedWeight
  split
  · exact (kind t).weight_nonneg
  · exact le_rfl

/-- The counted cars include the cars on the bridge. -/
theorem load_le [Fintype T] (config : State T) : load kind config ≤ tally (countedWeight kind) config := by
  refine Finset.sum_le_sum fun t _ => ?_
  have nonneg := (kind t).weight_nonneg
  cases (config.status t).place <;> simp [countedWeight, Place.counted, Place.onBridge, nonneg]

/-- Two cars of different kinds on the bridge exceed the limit. -/
theorem maxWeight_lt_load [Fintype T] {config : State T} {first second : T} (different : kind second ≠ kind first)
    (firstOn : (config.status first).place.onBridge = true)
    (secondOn : (config.status second).place.onBridge = true) : maxWeight < load kind config := by
  have distinct : second ≠ first := fun same => different (by rw [same])
  have nonneg : ∀ t (place : Place), 0 ≤ if place.onBridge then (kind t).weight else 0 := by
    intro t place
    split
    · exact (kind t).weight_nonneg
    · exact le_rfl
  have pair : _ + _ ≤ load kind config := add_le_tally nonneg distinct
  simp only [firstOn, secondOn, ↓reduceIte] at pair
  have both := Kind.weight_add_weight different
  omega

theorem code_respects (t : T) (place : Place) : (code kind t place).Respects (held kind t) place := by
  rw [code_eq]
  cases place with
  | firstTest | waitTest =>
      intro before after next effect
      cases effect
      split <;> rfl
  | addRead | addWrite value | printStarting | subtractRead | subtractWrite value =>
      intro before after next effect
      cases effect
      rfl
  | condWait => exact ⟨by simp [held, Place.inside], rfl⟩
  | wakeCars => rfl
  | lockEntry | lockExit | unlockEntry | unlockExit =>
      funext mutex
      by_cases own : mutex = (kind t).mutex
      · subst own
        simp [held, Place.inside]
      · simp [held, Place.inside, own]
  | done => trivial

theorem held_single (t : T) (place : Place) (first second : Mutex) (firstHeld : held kind t place first = true)
    (secondHeld : held kind t place second = true) : first = second := by
  simp only [held, Bool.and_eq_true, decide_eq_true_eq] at firstHeld secondHeld
  rw [firstHeld.1, secondHeld.1]

theorem start_owned : Owned (held kind) (start : State T) := by
  refine ⟨fun mutex t => ?_, fun t => trivial⟩
  simp [start, Status.holds, held, Place.inside]

variable [DecidableEq T] [Fintype T] {allowed : History T Memory Place Mutex Cond → State T → T → Prop}
  {history : History T Memory Place Mutex Cond} {config : State T}

theorem owned (reached : Run (code kind) start allowed history config) : Owned (held kind) config := by
  refine reached.owned code_respects start_owned ?_
  intro _ _ t place mutex next _ _ _ unlocks unheld
  rw [code_eq] at unlocks
  cases place <;> cases unlocks <;> simp [held, Place.inside] at unheld

/-- While a car writes, no other car is in the window. -/
theorem Undisturbed.window_false (reached : Run (code kind) start allowed history config) {t : T}
    {acts window : Place → Bool} {place : Place} (undisturbed : Undisturbed kind acts window config t)
    (here : config.status t = .ready place) (acting : acts place = true) (protected' : place.inside = true)
    (within : ∀ there, window there = true → there.inside = true) {other : T} {there : Place}
    (different : other ≠ t) (otherHere : config.status other = .ready there) : window there = false := by
  by_cases same : kind other = kind t
  · by_contra inWindow
    have outside : held kind other there (kind t).mutex = false :=
      (owned reached).outside here (by simp [held, protected']) different otherHere
    simp [held, same, within there (by simpa using inWindow)] at outside
  · simpa [otherHere] using undisturbed (by simpa [here] using acting) other same

/-- A car in a wait returns to its test. -/
def Waits (_ : T) (status : Status Place Mutex Cond) (_ : Memory) : Prop :=
  match status with
  | .ready _ => True
  | .blocked _ _ place | .woken _ place => place = .waitTest

theorem waits (reached : Run (code kind) start allowed history config) : Everywhere Waits config := by
  refine Run.everywhere Waits ?_ ?_ ?_ ?_ reached
  · intro t
    trivial
  · intro t cond mutex place memory waits
    exact waits
  · intro t mutex place memory _
    trivial
  · intro history config t place _ all _ _
    rw [code_eq]
    cases place with
    | firstTest | waitTest | addRead | addWrite value | printStarting | subtractRead | subtractWrite value =>
        exact fun after next _ => ⟨trivial, fun other _ => all other⟩
    | lockEntry | lockExit => exact fun _ => trivial
    | condWait => rfl
    | unlockEntry | unlockExit | wakeCars | done => trivial

/-- When no car is inside a protected section, exactly the counted cars are on the bridge. -/
theorem load_eq (reached : Run (code kind) start allowed history config) (unlocked : Unlocked config) :
    load kind config = tally (countedWeight kind) config := by
  refine Finset.sum_congr rfl fun t _ => ?_
  have outside := (owned reached).free (unlocked (kind t).mutex) t
  have located := waits reached t
  cases status : config.status t with
  | ready place =>
      rw [status] at outside
      cases place <;> simp_all [Status.holds, held, Place.inside, countedWeight, Place.counted, Place.onBridge]
  | blocked cond mutex place | woken mutex place =>
      rw [status] at located
      cases located
      rfl

/-- Without a lost update every writer knows the current value. -/
theorem fresh (reached : Run (code kind) start (fun _ => Undisturbed kind Place.writes Place.writes) history
    config) :
    Everywhere Fresh config := by
  refine Run.everywhere Fresh ?_ ?_ ?_ ?_ reached
  · intro t
    trivial
  · intro t cond mutex place memory fresh
    exact fresh
  · rintro t mutex place memory rfl
    trivial
  · intro history config t place before all undisturbed here
    have others : place.writes = true → ∀ memory other, other ≠ t → Fresh other (config.status other) memory := by
      intro writing memory other different
      have mine := all other
      cases status : config.status other with
      | ready there =>
          have idle :=
            undisturbed.window_false before here writing (by cases place <;> first | rfl | cases writing)
            (fun there inWindow => by cases there <;> first | rfl | cases inWindow) different status
          cases there <;> trivial
      | blocked cond mutex there | woken mutex there =>
          rw [status] at mine
          exact mine
    rw [code_eq]
    cases place with
    | firstTest | waitTest =>
        intro after next effect
        cases effect
        refine ⟨?_, fun other _ => all other⟩
        split <;> trivial
    | addRead | printStarting | subtractRead =>
        intro after next effect
        cases effect
        exact ⟨by trivial, fun other _ => all other⟩
    | addWrite value | subtractWrite value =>
        intro after next effect
        cases effect
        exact ⟨trivial, others rfl _⟩
    | lockEntry | lockExit => exact fun _ => trivial
    | condWait => rfl
    | unlockEntry | unlockExit | wakeCars => trivial
    | done => trivial

/-- Without a lost update the variable `currentWeight` is the weight of the counted cars. -/
theorem currentWeight_eq
    (reached : Run (code kind) start (fun _ => Undisturbed kind Place.writes Place.writes) history config) :
    config.memory.currentWeight = tally (countedWeight kind) config := by
  refine reached.balanced Memory.currentWeight (countedWeight kind) (tally_eq_zero fun t => rfl).symm ?_
  intro _ config t place before _ _ here
  have value := fresh before t
  rw [here] at value
  rw [code_eq]
  cases place with
  | firstTest | waitTest =>
      intro after next effect
      cases effect
      split <;> simp [countedWeight, Place.counted]
  | addRead | printStarting | subtractRead =>
      intro after next effect
      cases effect
      simp [countedWeight, Place.counted]
  | addWrite value | subtractWrite value =>
      intro after next effect
      cases effect
      simp only [Fresh] at value
      simp [countedWeight, Place.counted, value]
  | lockEntry | lockExit | unlockEntry | unlockExit | condWait | wakeCars => rfl
  | done => trivial

/-- A car writes only while no car of the other kind is committed to a write. -/
def Isolated (kind : T → Kind) : State T → T → Prop := Undisturbed kind Place.writes Place.committed

theorem Isolated.run (reached : Run (code kind) start (fun _ => Isolated kind) history config) :
    Run (code kind) start (fun _ => Undisturbed kind Place.writes Place.writes) history config := by
  refine reached.mono ?_
  intro _ config t _ _ isolated writing other different
  have idle := isolated writing other different
  cases status : config.status other with
  | ready there =>
      rw [status] at idle
      cases there <;> first | rfl | cases idle
  | blocked cond mutex there | woken mutex there => rfl

/-- Every admitted car fits on the bridge. -/
theorem fits (reached : Run (code kind) start (fun _ => Isolated kind) history config) :
    Everywhere (Fits kind) config := by
  refine Run.everywhere (Fits kind) ?_ ?_ ?_ ?_ reached
  · intro t
    trivial
  · intro t cond mutex place memory waits
    exact waits
  · rintro t mutex place memory rfl
    trivial
  · intro history config t place before all isolated here
    have others : place.writes = true → ∀ memory other, other ≠ t →
        Fits kind other (config.status other) memory := by
      intro writing memory other different
      have mine := all other
      cases status : config.status other with
      | ready there =>
          have idle := isolated.window_false before here writing (by cases place <;> first | rfl | cases writing)
            (fun there inWindow => by cases there <;> first | rfl | cases inWindow) different status
          cases there <;> trivial
      | blocked cond mutex there | woken mutex there =>
          rw [status] at mine
          exact mine
    have mine := all t
    rw [here] at mine
    rw [code_eq]
    cases place with
    | firstTest =>
        intro after next effect
        cases effect
        refine ⟨?_, fun other _ => all other⟩
        split
        · next passed => exact Kind.fits_of_first passed
        · trivial
    | waitTest =>
        intro after next effect
        cases effect
        refine ⟨?_, fun other _ => all other⟩
        split
        · trivial
        · next room => exact Int.not_lt.mp room
    | addRead =>
        intro after next effect
        cases effect
        exact ⟨mine, fun other _ => all other⟩
    | printStarting | subtractRead =>
        intro after next effect
        cases effect
        exact ⟨trivial, fun other _ => all other⟩
    | addWrite value | subtractWrite value =>
        intro after next effect
        cases effect
        exact ⟨trivial, others rfl _⟩
    | lockEntry | lockExit => exact fun _ => trivial
    | condWait => rfl
    | unlockEntry | unlockExit | wakeCars => trivial
    | done => trivial

theorem currentWeight_le (reached : Run (code kind) start (fun _ => Isolated kind) history config) :
    config.memory.currentWeight ≤ maxWeight := by
  refine reached.stored (fun memory => memory.currentWeight ≤ maxWeight) (show (0 : Int) ≤ 2 by decide) ?_
  intro history config t place update after next before limited _ here instr effect
  have value := fresh (Isolated.run before) t
  have room := fits before t
  rw [here] at value room
  rw [code_eq] at instr
  cases place with
  | addWrite value' =>
      cases instr
      cases effect
      simp only [Fresh, Fits] at value room
      simpa [value] using room
  | subtractWrite value' =>
      cases instr
      cases effect
      simp only [Fresh] at value
      have nonneg := (kind t).weight_nonneg
      simp only [value]
      omega
  | firstTest | waitTest | addRead | printStarting | subtractRead =>
      cases instr
      cases effect
      exact limited
  | _ => cases instr

/-- The side condition of the weight limit: no car adds its weight while a car of the other kind
has passed its admission test and has not yet added its own weight. -/
def Separate (kind : T → Kind) : State T → T → Prop := Undisturbed kind Place.adds Place.admitted

theorem weight_le_currentWeight (reached : Run (code kind) start (fun _ => Isolated kind) history config) {t : T}
    (counted : (config.status t).place.counted = true) : (kind t).weight ≤ config.memory.currentWeight := by
  rw [currentWeight_eq (Isolated.run reached)]
  have summand : countedWeight kind t (config.status t).place ≤ tally (countedWeight kind) config :=
    le_tally (countedWeight_nonneg kind) t
  simpa [countedWeight, counted] using summand

theorem add_weight_le_currentWeight (reached : Run (code kind) start (fun _ => Isolated kind) history config)
    {first second : T} (distinct : first ≠ second) (firstCounted : (config.status first).place.counted = true)
    (secondCounted : (config.status second).place.counted = true) :
    (kind first).weight + (kind second).weight ≤ config.memory.currentWeight := by
  rw [currentWeight_eq (Isolated.run reached)]
  have pair : countedWeight kind first _ + countedWeight kind second _ ≤ tally (countedWeight kind) config :=
    add_le_tally (countedWeight_nonneg kind) distinct
  simpa [countedWeight, firstCounted, secondCounted] using pair

/-- The limit leaves no room for two kinds at once, so only two admissions can overlap. -/
theorem Separate.run (reached : Run (code kind) start (fun _ => Separate kind) history config) :
    Run (code kind) start (fun _ => Isolated kind) history config := by
  refine reached.mono ?_
  intro _ config t _ before separate writing other different
  obtain ⟨place, here, writes⟩ := (Status.runs_iff _ _).mp writing
  by_contra overlap
  obtain ⟨there, otherHere, committed⟩ := (Status.runs_iff _ _).mp (by simpa using overlap)
  have both := Kind.weight_add_weight different
  have limit := currentWeight_le before
  have room := fits before t
  have otherRoom := fits before other
  have counted := weight_le_currentWeight (t := t) before
  have otherCounted := weight_le_currentWeight (t := other) before
  rw [here] at room counted
  rw [otherHere] at otherRoom otherCounted
  cases place with
  | addWrite value =>
      cases there with
      | addRead | addWrite value' =>
          simpa [otherHere, Place.admitted] using separate (by simp [here, Place.adds]) other different
      | subtractWrite value' =>
          have present := otherCounted rfl
          simp only [Fits] at room
          omega
      | _ => cases committed
  | subtractWrite value =>
      cases there with
      | addRead | addWrite value' =>
          have present := counted rfl
          simp only [Fits] at otherRoom
          omega
      | subtractWrite value' =>
          have pair := add_weight_le_currentWeight before (fun same => different (by rw [same]) : other ≠ t)
            (by simp [otherHere, Place.counted]) (by simp [here, Place.counted])
          omega
      | _ => cases committed
  | _ => cases writes

/-- Two cars of different kinds that have both been admitted both start the bridge. -/
theorem exists_overload {t other : T} {value : Int} {there : Place}
    (here : config.status t = .ready (.addWrite value))
    (otherHere : config.status other = .ready there) (different : kind other ≠ kind t)
    (admitted : there.admitted = true) :
    ∃ moves final, follow (code kind) config moves = some final ∧ maxWeight < load kind final := by
  have distinct : other ≠ t := fun same => different (by rw [same])
  cases there with
  | addRead =>
      refine ⟨turns 2 t ++ turns 3 other, _, by
        simp [follow, turns, List.replicate, fire, here, otherHere, code_eq, car, perform, distinct]; rfl, ?_⟩
      exact maxWeight_lt_load different (by simp [distinct.symm, Place.onBridge]) (by simp [Place.onBridge])
  | addWrite value' =>
      refine ⟨turns 2 t ++ turns 2 other, _, by
        simp [follow, turns, List.replicate, fire, here, otherHere, code_eq, car, perform, distinct]; rfl, ?_⟩
      exact maxWeight_lt_load different (by simp [distinct.symm, Place.onBridge]) (by simp [Place.onBridge])
  | _ => cases admitted

/-- In every run in which the admissions of the two kinds do not overlap, the load respects the limit
and equals `currentWeight` whenever no car is inside a protected section.
Each overlap leads to a load over the limit. -/
theorem load_le_maxWeight_iff_separate (kind : T → Kind) :
    (∀ history config, Run (code kind) start (fun _ => Separate kind) history config →
      load kind config ≤ maxWeight ∧ (Unlocked config → load kind config = config.memory.currentWeight)) ∧
    (∀ history config t, Run (code kind) start (fun _ => Separate kind) history config →
      ¬ Separate kind config t → ∃ moves final, follow (code kind) config moves = some final ∧
        maxWeight < load kind final) := by
  constructor
  · intro history config reached
    have isolated := Separate.run reached
    have counted := currentWeight_eq (Isolated.run isolated)
    constructor
    · calc load kind config ≤ tally (countedWeight kind) config := load_le config
        _ = config.memory.currentWeight := counted.symm
        _ ≤ maxWeight := currentWeight_le isolated
    · intro unlocked
      exact (load_eq reached unlocked).trans counted.symm
  · intro history config t _ overlap
    simp only [Separate, Undisturbed, not_forall, Bool.not_eq_false] at overlap
    obtain ⟨adding, other, different, admitted⟩ := overlap
    obtain ⟨place, here, adds⟩ := (Status.runs_iff _ _).mp adding
    obtain ⟨there, otherHere, present⟩ := (Status.runs_iff _ _).mp admitted
    cases place with
    | addWrite value => exact exists_overload here otherHere different present
    | _ => cases adds

end

/-- Car 0 is big and car 1 is little. -/
def twoCars : Fin 2 → Kind
  | 0 => .big
  | 1 => .little

instance {T : Type} [Fintype T] (kind : T → Kind) (config : State T) (t : T) :
    Decidable (Separate kind config t) :=
  inferInstanceAs (Decidable (Undisturbed _ _ _ _ _))

/-- The little car waits while the big car is on the bridge. -/
theorem load_of_big_car : ∃ history config,
    Run (code twoCars) start (fun _ => Separate twoCars) history config ∧
      (config.status 1).isBlocked = true ∧ load twoCars config = 2 ∧ load twoCars config ≤ maxWeight := by
  obtain ⟨history, config, reached, holds⟩ := exists_run (code twoCars) start (fun _ => Separate twoCars)
    (turns 6 0 ++ turns 4 1)
    (fun config => (config.status 1).isBlocked && decide (load twoCars config = 2)) (by decide)
  rw [Bool.and_eq_true, decide_eq_true_eq] at holds
  exact ⟨history, config, reached, holds.1, holds.2,
    ((load_le_maxWeight_iff_separate twoCars).1 history config reached).1⟩

/-- Both cars pass their first test on the empty bridge, and both start the bridge. -/
theorem load_limit_fails : ∃ config, Reachable (code twoCars) start config ∧ maxWeight < load twoCars config := by
  obtain ⟨config, reached, overload⟩ := exists_reachable (code twoCars) start
    (turns 2 0 ++ turns 2 1 ++ turns 3 0 ++ turns 3 1)
    (fun config => decide (maxWeight < load twoCars config)) (by decide)
  exact ⟨config, reached, of_decide_eq_true overload⟩

end OSLabs.BigLittleCar
