import OSLabs.Construction.LittleRedHen
import OSLabs.Proof.Pthread.Local
import OSLabs.Proof.Pthread.Tally

namespace OSLabs.LittleRedHen
open Pthread

/-- The hen holds `lock` here. -/
def HenPlace.inside : HenPlace → Bool
  | .lockHen | .done _ => false
  | _ => true

namespace AnimalPlace

/-- The animal holds `lock2` here. -/
def inside : AnimalPlace → Bool
  | .eatTest _ | .lockKitchen _ | .lockEnd _ | .done _ => false
  | _ => true

/-- The animal is between `animalInKitchen++` and `animalInKitchen--`. -/
def inKitchen : AnimalPlace → Bool
  | .crowdTest _ | .stayTest _ | .condStay _ | .startEating _ | .hungryTest _ | .signalBaking _ | .breadTest _
  | .condBread _ | .takeRead _ | .takeWrite _ _ | .leave _ => true
  | _ => false

end AnimalPlace

namespace Place

def isHen : Place → Bool
  | .hen _ => true
  | .animal _ => false

def inKitchen : Place → Bool
  | .hen _ => false
  | .animal place => place.inKitchen

/-- The condition variable of a wait that continues at this place. -/
def waitsOn : Place → Option Cond
  | .hen (.waitTest _) => some .bakingBread
  | .animal (.stayTest _) => some .stayOut
  | .animal (.breadTest _) => some .eatingBread
  | _ => none

end Place

/-- The local variable `batch` at a place of the hen. -/
def HenPlace.Within (batches : Nat) : HenPlace → Prop
  | .lockHen => True
  | .loopTest batch => 1 ≤ batch ∧ batch ≤ batches + 1
  | .bakeRead batch | .bakeWrite batch _ | .signalEating batch | .lastTest batch => 1 ≤ batch ∧ batch ≤ batches
  | .waitTest batch | .condWait batch => 1 ≤ batch ∧ batch < batches
  | .unlockHen batch | .done batch => batch = batches

/-- The local variable `numLoavesEaten` at a place of an animal. -/
def AnimalPlace.Within (loavesToEat : Nat) : AnimalPlace → Prop
  | .eatTest eaten | .leave eaten | .stopEating eaten | .signalStay eaten | .unlockKitchen eaten =>
      eaten ≤ loavesToEat
  | .lockEnd eaten | .wakeAll eaten | .unlockEnd eaten | .done eaten => eaten = loavesToEat
  | place => place.eaten < loavesToEat

def Place.Within (recipe : Recipe) : Place → Prop
  | .hen place => place.Within recipe.batches
  | .animal place => place.Within recipe.loavesToEat

/-- These places hold these mutexes. -/
def held : Place → Mutex → Bool
  | .hen place => fun mutex => mutex = .lock && place.inside
  | .animal place => fun mutex => mutex = .lock2 && place.inside

/-- The hen stays in her function, the animals stay in theirs, and each wait continues at its test. -/
def Located {A : Type} (t : Option A) (status : Status Place Mutex Cond) (_ : Memory) : Prop :=
  status.place.isHen = t.isNone ∧
    match status with
    | .ready _ => True
    | .blocked cond _ place => place.waitsOn = some cond
    | .woken _ place => place.waitsOn.isSome = true

/-- An animal that is about to start eating finds no other animal that eats,
and an animal that is about to stay out finds one. -/
def Entry {A : Type} (_ : Option A) (status : Status Place Mutex Cond) (memory : Memory) : Prop :=
  match status with
  | .ready (.animal (.startEating _)) => memory.eating = 0
  | .ready (.animal (.condStay _)) => memory.eating = 1
  | .ready _ => True
  | .blocked _ _ place | .woken _ place => place.waitsOn.isSome = true

/-- At most one animal eats, and the next one enters only when none does. -/
def Alone {A : Type} (t : Option A) (status : Status Place Mutex Cond) (memory : Memory) : Prop :=
  memory.eating ≤ 1 ∧ Entry t status memory

section
variable {A : Type} {recipe : Recipe}

theorem code_respects (t : Option A) (place : Place) : (code recipe t place).Respects held place := by
  cases place with
  | hen place =>
      cases place with
      | lockHen | unlockHen batch =>
          funext mutex
          cases mutex <;> rfl
      | loopTest batch | lastTest batch | waitTest batch =>
          intro before after next effect
          cases effect
          simp only
          split <;> rfl
      | bakeRead batch | bakeWrite batch value =>
          intro before after next effect
          cases effect
          rfl
      | condWait batch => exact ⟨rfl, rfl⟩
      | signalEating batch => rfl
      | done batch => trivial
  | animal place =>
      cases place with
      | lockKitchen eaten | unlockKitchen eaten | lockEnd eaten | unlockEnd eaten =>
          funext mutex
          cases mutex <;> rfl
      | eatTest eaten | crowdTest eaten | stayTest eaten | hungryTest eaten | breadTest eaten =>
          intro before after next effect
          cases effect
          simp only
          split <;> rfl
      | enter eaten | startEating eaten | takeRead eaten | takeWrite eaten value | leave eaten | stopEating eaten =>
          intro before after next effect
          cases effect
          rfl
      | condStay eaten | condBread eaten => exact ⟨rfl, rfl⟩
      | signalBaking eaten | signalStay eaten | wakeAll eaten => rfl
      | done eaten => trivial

theorem Alone.congr {t : Option A} {status : Status Place Mutex Cond} {memory after : Memory}
    (alone : Alone t status memory) (same : after.eating = memory.eating) : Alone t status after := by
  unfold Alone Entry at alone ⊢
  rwa [same]

theorem entry_stable (t : Option A) (status : Status Place Mutex Cond) (memory memory' : Memory)
    (free : status.holds held .lock2 = false) (entry : Entry t status memory) : Entry t status memory' := by
  cases status with
  | ready place =>
      cases place with
      | hen place => trivial
      | animal place => cases place <;> trivial
  | blocked cond mutex place => exact entry
  | woken mutex place => exact entry

/-- Each instruction changes the two counters of the kitchen as it moves its animal. -/
theorem step_balances {t : Option A} {place next : Place} {memory after : Memory}
    (effect : (code recipe t place).effect memory = some (after, next)) :
    after.animalInKitchen + indicator Place.inKitchen t place =
        memory.animalInKitchen + indicator Place.inKitchen t next ∧
      after.eating + indicator Place.eats t place = memory.eating + indicator Place.eats t next := by
  cases place with
  | hen place => cases place <;> cases effect <;> exact ⟨rfl, rfl⟩
  | animal place =>
      cases place with
      | eatTest eaten | crowdTest eaten | stayTest eaten | hungryTest eaten | breadTest eaten =>
          cases effect
          simp only
          split <;> exact ⟨rfl, rfl⟩
      | enter eaten | startEating eaten | leave eaten | stopEating eaten =>
          cases effect
          simp [indicator, Place.inKitchen, AnimalPlace.inKitchen, Place.eats, AnimalPlace.eats]
      | done eaten => cases effect
      | _ =>
          cases effect
          exact ⟨rfl, rfl⟩

theorem start_owned : Owned (fun _ => held) (start : State A) := by
  refine ⟨fun mutex t => ?_, fun t => trivial⟩
  cases mutex <;> cases t <;> simp [start, Status.holds, held, HenPlace.inside, AnimalPlace.inside]

variable [DecidableEq A] [Fintype A]
  {allowed : History (Option A) Memory Place Mutex Cond → State A → Option A → Prop}
  {history : History (Option A) Memory Place Mutex Cond} {config : State A}

theorem owned (reached : Run (code recipe) start allowed history config) : Owned (fun _ => held) config := by
  refine reached.owned code_respects start_owned ?_
  intro _ _ t place mutex next _ _ _ unlocks unheld
  cases place with
  | hen place => cases place <;> cases unlocks; cases unheld
  | animal place => cases place <;> cases unlocks <;> cases unheld

theorem located (reached : Run (code recipe) start allowed history config) : Everywhere Located config := by
  refine Run.everywhere Located ?_ ?_ ?_ ?_ reached
  · intro t
    cases t <;> exact ⟨rfl, trivial⟩
  · intro t cond mutex place memory located
    exact ⟨located.1, by simp only [located.2, Option.isSome_some]⟩
  · intro t mutex place memory located
    exact ⟨located.1, trivial⟩
  · intro history config t place _ all _ here
    have mine := (all t).1
    rw [here] at mine
    cases place with
    | hen place =>
        cases place with
        | lockHen => exact fun _ => ⟨mine, trivial⟩
        | condWait batch => exact ⟨mine, rfl⟩
        | signalEating batch | unlockHen batch => exact ⟨mine, trivial⟩
        | done batch => trivial
        | _ => exact fun after next effect => ⟨⟨by cases effect; exact mine, trivial⟩, fun other _ => all other⟩
    | animal place =>
        cases place with
        | lockKitchen eaten | lockEnd eaten => exact fun _ => ⟨mine, trivial⟩
        | condStay eaten | condBread eaten => exact ⟨mine, rfl⟩
        | signalBaking eaten | signalStay eaten | wakeAll eaten | unlockKitchen eaten | unlockEnd eaten =>
            exact ⟨mine, trivial⟩
        | done eaten => trivial
        | _ => exact fun after next effect => ⟨⟨by cases effect; exact mine, trivial⟩, fun other _ => all other⟩

/-- Only the hen runs the function of the hen. -/
theorem eq_none_of_hen (reached : Run (code recipe) start allowed history config) {t : Option A} {place : HenPlace}
    (here : config.status t = .ready (.hen place)) : t = none := by
  have isHen := (located reached t).1
  rw [here] at isHen
  exact Option.isNone_iff_eq_none.mp isHen.symm

theorem ne_none_of_animal (reached : Run (code recipe) start allowed history config) {t : Option A}
    {place : AnimalPlace} (here : config.status t = .ready (.animal place)) : t ≠ none := by
  rintro rfl
  have isHen := (located reached none).1
  rw [here] at isHen
  cases isHen

/-- Only the hen waits for `bakingBread`. -/
theorem eq_none_of_bakingBread (reached : Run (code recipe) start allowed history config) {t : Option A}
    {mutex : Mutex} {place : Place} (here : config.status t = .blocked .bakingBread mutex place) : t = none := by
  have position := located reached t
  rw [here] at position
  obtain ⟨isHen, waits⟩ := position
  cases place with
  | hen place => exact Option.isNone_iff_eq_none.mp isHen.symm
  | animal place => cases place <;> cases waits

/-- The hen waits for nothing else. -/
theorem bakingBread_of_blocked (reached : Run (code recipe) start allowed history config) {cond : Cond}
    {mutex : Mutex} {place : Place} (here : config.status none = .blocked cond mutex place) :
    cond = .bakingBread := by
  have position := located reached none
  rw [here] at position
  obtain ⟨isHen, waits⟩ := position
  cases place with
  | hen place =>
      cases place <;> cases waits
      rfl
  | animal place => cases isHen

/-- The local counters stay within the limits of the loops. -/
theorem within (reached : Run (code recipe) start allowed history config) :
    Everywhere (fun _ status _ => status.place.Within recipe) config := by
  refine Run.everywhere (fun (_ : Option A) status _ => status.place.Within recipe) ?_ ?_ ?_ ?_ reached
  · intro t
    cases t with
    | none => trivial
    | some animal => exact Nat.zero_le _
  · intro t cond mutex place memory within
    exact within
  · intro t mutex place memory within
    exact within
  · intro history config t place _ all _ here
    have mine := all t
    simp only [here, Status.place_ready] at mine
    cases place with
    | hen place =>
        cases place with
        | lockHen => exact fun _ => ⟨le_rfl, by omega⟩
        | condWait batch | signalEating batch | unlockHen batch => exact mine
        | done batch => trivial
        | loopTest batch =>
            intro after next effect
            cases effect
            refine ⟨?_, fun other _ => all other⟩
            obtain ⟨first, last⟩ := mine
            simp only [Status.place_ready]
            split
            · next more => exact ⟨first, more⟩
            · next past => exact show batch - 1 = recipe.batches by omega
        | bakeRead batch | bakeWrite batch value =>
            intro after next effect
            cases effect
            exact ⟨mine, fun other _ => all other⟩
        | lastTest batch =>
            intro after next effect
            cases effect
            refine ⟨?_, fun other _ => all other⟩
            obtain ⟨first, last⟩ := mine
            simp only [Status.place_ready]
            split
            · next final => exact final
            · next more => exact ⟨first, lt_of_le_of_ne last more⟩
        | waitTest batch =>
            intro after next effect
            cases effect
            refine ⟨?_, fun other _ => all other⟩
            simp only [Status.place_ready]
            split
            · exact mine
            · obtain ⟨first, last⟩ := mine
              exact show 1 ≤ batch + 1 ∧ batch + 1 ≤ recipe.batches + 1 by omega
    | animal place =>
        cases place with
        | lockKitchen eaten | lockEnd eaten => exact fun _ => mine
        | condStay eaten | condBread eaten | signalBaking eaten | signalStay eaten | wakeAll eaten
        | unlockKitchen eaten | unlockEnd eaten => exact mine
        | done eaten => trivial
        | eatTest eaten =>
            intro after next effect
            cases effect
            refine ⟨?_, fun other _ => all other⟩
            simp only [Status.place_ready]
            split
            · next more => exact more
            · next fed => exact le_antisymm mine (not_lt.mp fed)
        | crowdTest eaten | stayTest eaten | hungryTest eaten | breadTest eaten =>
            intro after next effect
            cases effect
            refine ⟨?_, fun other _ => all other⟩
            simp only [Status.place_ready]
            split <;> exact mine
        | enter eaten | startEating eaten | takeRead eaten | takeWrite eaten value | leave eaten | stopEating eaten =>
            intro after next effect
            cases effect
            exact ⟨mine, fun other _ => all other⟩

/-- The variable `animalInKitchen` counts the animals in the kitchen. -/
theorem animalInKitchen_eq (reached : Run (code recipe) start allowed history config) :
    config.memory.animalInKitchen = tally (indicator Place.inKitchen) config :=
  reached.counted Memory.animalInKitchen (indicator Place.inKitchen)
    (tally_eq_zero fun t => by cases t <;> rfl).symm
    fun _ _ _ _ _ effect => (step_balances effect).1

/-- The variable `eating` counts the animals that eat. -/
theorem eating_eq (reached : Run (code recipe) start allowed history config) :
    config.memory.eating = tally (indicator Place.eats) config :=
  reached.counted Memory.eating (indicator Place.eats) (tally_eq_zero fun t => by cases t <;> rfl).symm
    fun _ _ _ _ _ effect => (step_balances effect).2

/-- A single animal in the kitchen finds no animal that eats. -/
theorem eating_eq_zero_of_crowdTest (reached : Run (code recipe) start allowed history config) {t : Option A}
    {eaten : Nat} (here : config.status t = .ready (.animal (.crowdTest eaten)))
    (few : config.memory.animalInKitchen ≤ 1) : config.memory.eating = 0 := by
  rw [animalInKitchen_eq reached] at few
  rw [eating_eq reached, tally_indicator_eq_zero_iff]
  intro other
  by_cases same : other = t
  · subst same
    simp [here, Place.eats, AnimalPlace.eats]
  · by_contra eats
    have outside : (config.status other).place.inKitchen ≠ true := fun inside =>
      same (tally_indicator_unique few inside (by simp [here, Place.inKitchen, AnimalPlace.inKitchen]))
    have position := located reached other
    cases status : config.status other with
    | ready place =>
        rw [status] at eats outside
        have unlocked : held place .lock2 = false := (owned reached).outside here rfl same status
        cases place with
        | hen place => exact eats rfl
        | animal place =>
            cases place <;> simp_all [Place.eats, AnimalPlace.eats, Place.inKitchen, AnimalPlace.inKitchen, held,
              AnimalPlace.inside]
    | blocked cond mutex place | woken mutex place =>
        rw [status] at eats outside position
        cases place with
        | hen place => exact eats rfl
        | animal place =>
            cases place <;> simp_all [Located, Place.inKitchen, AnimalPlace.inKitchen, Place.waitsOn]

theorem alone (reached : Run (code recipe) start allowed history config) : Everywhere Alone config := by
  refine Run.everywhere Alone ?_ ?_ ?_ ?_ reached
  · intro t
    cases t <;> exact ⟨by simp [start], trivial⟩
  · intro t cond mutex place memory waits
    exact waits
  · intro t mutex place memory waits
    refine ⟨waits.1, ?_⟩
    have continues := waits.2
    cases place with
    | hen place => cases place <;> trivial
    | animal place => cases place <;> trivial
  · intro history config t place before all _ here
    have bound := (all t).1
    have mine := (all t).2
    rw [here] at mine
    have same : ∀ {after : Memory}, after.eating = config.memory.eating →
        ∀ other, other ≠ t → Alone other (config.status other) after :=
      fun same other _ => (all other).congr same
    have entries : Everywhere Entry config := fun other => (all other).2
    have others : held place .lock2 = true → ∀ {after : Memory}, after.eating ≤ 1 →
        ∀ other, other ≠ t → Alone other (config.status other) after :=
      fun holds after limit other different =>
        ⟨limit, entries.undisturbed (owned before) entry_stable here holds after different⟩
    cases place with
    | hen place =>
        cases place with
        | lockHen => exact fun _ => ⟨bound, trivial⟩
        | condWait batch => exact ⟨bound, rfl⟩
        | signalEating batch | unlockHen batch => exact ⟨bound, trivial⟩
        | done batch => trivial
        | _ =>
            intro after next effect
            cases effect
            exact ⟨⟨bound, trivial⟩, same rfl⟩
    | animal place =>
        cases place with
        | lockKitchen eaten | lockEnd eaten => exact fun _ => ⟨bound, trivial⟩
        | condStay eaten | condBread eaten => exact ⟨bound, rfl⟩
        | signalBaking eaten | signalStay eaten | wakeAll eaten | unlockKitchen eaten | unlockEnd eaten =>
            exact ⟨bound, trivial⟩
        | done eaten => trivial
        | startEating eaten =>
            intro after next effect
            cases effect
            simp only [Entry] at mine
            have limit : config.memory.eating + 1 ≤ 1 := by omega
            exact ⟨⟨limit, trivial⟩, others rfl limit⟩
        | stopEating eaten =>
            intro after next effect
            cases effect
            have limit : config.memory.eating - 1 ≤ 1 := by omega
            exact ⟨⟨limit, trivial⟩, others rfl limit⟩
        | crowdTest eaten =>
            intro after next effect
            cases effect
            refine ⟨⟨bound, ?_⟩, same rfl⟩
            simp only
            split
            · trivial
            · next few => exact eating_eq_zero_of_crowdTest before here (Int.not_lt.mp few)
        | stayTest eaten =>
            intro after next effect
            cases effect
            refine ⟨⟨bound, ?_⟩, same rfl⟩
            simp only
            split
            · assumption
            · next free =>
                have nonneg : 0 ≤ config.memory.eating := by
                  rw [eating_eq before]
                  exact tally_nonneg (indicator_nonneg _)
                simp only [Entry]
                omega
        | eatTest eaten | hungryTest eaten | breadTest eaten =>
            intro after next effect
            cases effect
            refine ⟨⟨bound, ?_⟩, same rfl⟩
            simp only
            split <;> trivial
        | _ =>
            intro after next effect
            cases effect
            exact ⟨⟨bound, trivial⟩, same rfl⟩

/-- Two animals that eat are the same animal. -/
theorem eats_unique (reached : Run (code recipe) start allowed history config) {first second : Option A}
    (firstEats : (config.status first).place.eats = true) (secondEats : (config.status second).place.eats = true) :
    first = second := by
  have bound := (alone reached none).1
  rw [eating_eq reached] at bound
  exact tally_indicator_unique bound firstEats secondEats

end

end OSLabs.LittleRedHen
