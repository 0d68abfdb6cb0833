import OSLabs.Proof.LittleRedHen.Kitchen
import Mathlib.Data.Fintype.BigOperators

namespace OSLabs.LittleRedHen
open Pthread

/-- The hen bakes only without bread, and an animal takes a loaf only with bread. -/
def Claim {A : Type} (_ : Option A) (status : Status Place Mutex Cond) (memory : Memory) : Prop :=
  match status with
  | .ready (.hen .lockHen) => memory.numLoaves = 0
  | .ready (.hen (.loopTest _)) => memory.numLoaves = 0
  | .ready (.hen (.bakeRead _)) => memory.numLoaves = 0
  | .ready (.hen (.bakeWrite _ value)) => memory.numLoaves = 0 ∧ value = 0
  | .ready (.animal (.takeRead _)) => 0 < memory.numLoaves
  | .ready (.animal (.takeWrite _ value)) => 0 < memory.numLoaves ∧ value = memory.numLoaves
  | .ready _ => True
  | .blocked _ _ place | .woken _ place => place.waitsOn.isSome = true

/-- There is never a negative number of loaves, and each thread keeps its claim to the bread. -/
def Supplied {A : Type} (t : Option A) (status : Status Place Mutex Cond) (memory : Memory) : Prop :=
  0 ≤ memory.numLoaves ∧ Claim t status memory

/-- The hen is about to bake. -/
def HenPlace.bakes : HenPlace → Bool
  | .lockHen | .loopTest _ | .bakeRead _ | .bakeWrite _ _ => true
  | _ => false

/-- The animal is about to take a loaf. -/
def AnimalPlace.takes : AnimalPlace → Bool
  | .takeRead _ | .takeWrite _ _ => true
  | _ => false

section
variable {A : Type}

theorem Supplied.congr {t : Option A} {status : Status Place Mutex Cond} {memory after : Memory}
    (supplied : Supplied t status memory) (same : after.numLoaves = memory.numLoaves) :
    Supplied t status after := by
  unfold Supplied Claim at supplied ⊢
  rwa [same]

/-- A thread without a claim to the bread does not notice a change. -/
theorem Supplied.change {t : Option A} {status : Status Place Mutex Cond} {memory after : Memory}
    (supplied : Supplied t status memory)
    (notBakes : ∀ place, status = .ready (.hen place) → place.bakes = false)
    (notTakes : ∀ place, status = .ready (.animal place) → place.takes = false)
    (nonneg : 0 ≤ after.numLoaves) : Supplied t status after := by
  refine ⟨nonneg, ?_⟩
  have claim := supplied.2
  cases status with
  | ready place =>
      cases place with
      | hen place =>
          have idle := notBakes place rfl
          cases place <;> trivial
      | animal place =>
          have idle := notTakes place rfl
          cases place <;> trivial
  | blocked cond mutex place => exact claim
  | woken mutex place => exact claim

/-- While an animal is about to take a loaf, there is bread. -/
theorem pos_of_takes {config : State A} (all : Everywhere Supplied config) {t : Option A} {place : AnimalPlace}
    (here : config.status t = .ready (.animal place)) (takes : place.takes = true) :
    0 < config.memory.numLoaves := by
  have claim := (all t).2
  rw [here] at claim
  cases place <;> first | exact claim | exact claim.1 | cases takes

/-- While the hen is about to bake, there is no bread. -/
theorem eq_zero_of_bakes {config : State A} (all : Everywhere Supplied config) {t : Option A} {place : HenPlace}
    (here : config.status t = .ready (.hen place)) (bakes : place.bakes = true) : config.memory.numLoaves = 0 := by
  have claim := (all t).2
  rw [here] at claim
  cases place <;> first | exact claim | exact claim.1 | cases bakes

variable {recipe : Recipe} [DecidableEq A] [Fintype A]
  {allowed : History (Option A) Memory Place Mutex Cond → State A → Option A → Prop}
  {history : History (Option A) Memory Place Mutex Cond} {config : State A}

/-- The hen keeps the kitchen supplied. -/
theorem hen_supplied (before : Run (code recipe) start allowed history config) (all : Everywhere Supplied config)
    {t : Option A} {place : HenPlace} (here : config.status t = .ready (.hen place)) :
    (code recipe t (.hen place)).Keeps Supplied config t := by
  have bound := (all t).1
  have mine := (all t).2
  rw [here] at mine
  have same : ∀ {after : Memory}, after.numLoaves = config.memory.numLoaves →
      ∀ other, other ≠ t → Supplied other (config.status other) after :=
    fun same other _ => (all other).congr same
  cases place with
  | lockHen => exact fun _ => ⟨bound, mine⟩
  | condWait batch => exact ⟨bound, rfl⟩
  | signalEating batch | unlockHen batch => exact ⟨bound, trivial⟩
  | done batch => trivial
  | loopTest batch =>
      intro after next effect
      cases effect
      refine ⟨⟨bound, ?_⟩, same rfl⟩
      simp only
      split
      · exact mine
      · trivial
  | bakeRead batch =>
      intro after next effect
      cases effect
      exact ⟨⟨bound, mine, mine⟩, same rfl⟩
  | bakeWrite batch value =>
      intro after next effect
      cases effect
      have empty := eq_zero_of_bakes all here rfl
      have nonneg : 0 ≤ value + (recipe.loaves : Int) := by
        rw [mine.2]
        omega
      refine ⟨⟨nonneg, trivial⟩, fun other different => (all other).change ?_ ?_ nonneg⟩
      · intro there otherHere
        exact absurd ((eq_none_of_hen before otherHere).trans (eq_none_of_hen before here).symm) different
      · intro there otherHere
        by_contra takes
        have bread := pos_of_takes all otherHere (by simpa using takes)
        omega
  | lastTest batch =>
      intro after next effect
      cases effect
      refine ⟨⟨bound, ?_⟩, same rfl⟩
      simp only
      split <;> trivial
  | waitTest batch =>
      intro after next effect
      cases effect
      refine ⟨⟨bound, ?_⟩, same rfl⟩
      simp only
      split
      · trivial
      · next empty => exact le_antisymm (Int.not_lt.mp empty) bound

/-- An animal keeps the kitchen supplied. -/
theorem animal_supplied (before : Run (code recipe) start allowed history config)
    (all : Everywhere Supplied config)
    {t : Option A} {place : AnimalPlace} (here : config.status t = .ready (.animal place)) :
    (code recipe t (.animal place)).Keeps Supplied config t := by
  have bound := (all t).1
  have mine := (all t).2
  rw [here] at mine
  have same : ∀ {after : Memory}, after.numLoaves = config.memory.numLoaves →
      ∀ other, other ≠ t → Supplied other (config.status other) after :=
    fun same other _ => (all other).congr same
  cases place with
  | lockKitchen eaten | lockEnd eaten => exact fun _ => ⟨bound, trivial⟩
  | condStay eaten | condBread eaten => exact ⟨bound, rfl⟩
  | signalBaking eaten | signalStay eaten | wakeAll eaten | unlockKitchen eaten | unlockEnd eaten =>
      exact ⟨bound, trivial⟩
  | done eaten => trivial
  | hungryTest eaten | breadTest eaten =>
      intro after next effect
      cases effect
      refine ⟨⟨bound, ?_⟩, same rfl⟩
      simp only
      split
      · trivial
      · next bread => exact Int.not_le.mp bread
  | takeRead eaten =>
      intro after next effect
      cases effect
      exact ⟨⟨bound, mine, rfl⟩, same rfl⟩
  | takeWrite eaten value =>
      intro after next effect
      cases effect
      have bread := pos_of_takes all here rfl
      have nonneg : 0 ≤ value - 1 := by
        rw [mine.2]
        omega
      refine ⟨⟨nonneg, trivial⟩, fun other different => (all other).change ?_ ?_ nonneg⟩
      · intro there otherHere
        by_contra bakes
        have empty := eq_zero_of_bakes all otherHere (by simpa using bakes)
        omega
      · intro there otherHere
        by_contra takes
        refine different (eats_unique before ?_ (by simp [here, Place.eats, AnimalPlace.eats]))
        rw [otherHere]
        cases there <;> simp_all [AnimalPlace.takes, Place.eats, AnimalPlace.eats]
  | eatTest eaten | crowdTest eaten | stayTest eaten =>
      intro after next effect
      cases effect
      refine ⟨⟨bound, ?_⟩, same rfl⟩
      simp only
      split <;> trivial
  | _ =>
      intro after next effect
      cases effect
      exact ⟨⟨bound, trivial⟩, same rfl⟩

theorem supplied (reached : Run (code recipe) start allowed history config) : Everywhere Supplied config := by
  refine Run.everywhere Supplied ?_ ?_ ?_ ?_ reached
  · intro t
    cases t <;> exact ⟨by simp [start], by trivial⟩
  · intro t cond mutex place memory waits
    exact waits
  · intro t mutex place memory waits
    refine ⟨waits.1, ?_⟩
    have continues := waits.2
    cases place with
    | hen place => cases place <;> trivial
    | animal place => cases place <;> trivial
  · intro history config t place before all _ here
    cases place with
    | hen place => exact hen_supplied before all here
    | animal place => exact animal_supplied before all here

/-- The bread that a thread has added to or taken from the kitchen. -/
def supply (recipe : Recipe) (_ : Option A) (place : Place) : Int := recipe.loaves * place.baked - place.eaten

/-- The variable `numLoaves` is the baked bread less the bread that the animals have taken. -/
theorem numLoaves_eq (reached : Run (code recipe) start allowed history config) :
    config.memory.numLoaves = tally (supply recipe) config := by
  refine reached.balanced Memory.numLoaves (supply recipe)
    (tally_eq_zero fun t => by
      cases t <;> simp [supply, start, Place.baked, Place.eaten, HenPlace.baked, AnimalPlace.eaten]).symm ?_
  intro _ config t place before _ _ here
  have mine := (supplied before t).2
  have bounds := within before t
  simp only [here, Status.place_ready] at mine bounds
  cases place with
  | hen place =>
      cases place with
      | lockHen | condWait batch | signalEating batch | unlockHen batch => rfl
      | done batch => trivial
      | loopTest batch | lastTest batch | waitTest batch =>
          intro after next effect
          cases effect
          simp only
          split <;> simp [supply, Place.baked, Place.eaten, HenPlace.baked]
      | bakeRead batch =>
          intro after next effect
          cases effect
          simp [supply, Place.baked, Place.eaten, HenPlace.baked]
      | bakeWrite batch value =>
          intro after next effect
          cases effect
          obtain ⟨first, _⟩ := bounds
          obtain ⟨empty, rfl⟩ := mine
          simp only [supply, Place.baked, Place.eaten, HenPlace.baked, empty, Nat.cast_sub first]
          ring
  | animal place =>
      cases place with
      | lockKitchen eaten | lockEnd eaten | condStay eaten | condBread eaten | signalBaking eaten | signalStay eaten
      | wakeAll eaten | unlockKitchen eaten | unlockEnd eaten => rfl
      | done eaten => trivial
      | eatTest eaten | crowdTest eaten | stayTest eaten | hungryTest eaten | breadTest eaten =>
          intro after next effect
          cases effect
          simp only
          split <;> simp [supply, Place.baked, Place.eaten, AnimalPlace.eaten]
      | takeWrite eaten value =>
          intro after next effect
          cases effect
          obtain ⟨_, rfl⟩ := mine
          simp only [supply, Place.baked, Place.eaten, AnimalPlace.eaten, Nat.cast_add]
          ring
      | _ =>
          intro after next effect
          cases effect
          simp [supply, Place.baked, Place.eaten, AnimalPlace.eaten]

/-- The animals have taken the baked bread less the bread that is left. -/
theorem taken_add_numLoaves (reached : Run (code recipe) start allowed history config) :
    (taken config : Int) + config.memory.numLoaves = recipe.loaves * baked config := by
  have henEaten : (config.status none).place.eaten = 0 := by
    have isHen := (located reached none).1
    cases place : (config.status none).place with
    | hen there => rfl
    | animal there =>
        rw [place] at isHen
        cases isHen
  have animalBaked : ∀ animal, (config.status (some animal)).place.baked = 0 := by
    intro animal
    have isHen := (located reached (some animal)).1
    cases place : (config.status (some animal)).place with
    | hen there =>
        rw [place] at isHen
        cases isHen
    | animal there => rfl
  rw [numLoaves_eq reached, tally, Fintype.sum_option]
  simp only [supply, henEaten, animalBaked, taken, baked]
  push_cast
  simp

/-- In every run there is never a negative number of loaves, the bread is conserved,
the hen bakes only when no bread is left, and at most one animal eats. -/
theorem bread_conserved (reached : Run (code recipe) start allowed history config) :
    0 ≤ config.memory.numLoaves ∧
    (taken config : Int) + config.memory.numLoaves = recipe.loaves * baked config ∧
    (∀ batch, config.status none = .ready (.hen (.bakeRead batch)) → config.memory.numLoaves = 0) ∧
    (∀ batch value, config.status none = .ready (.hen (.bakeWrite batch value)) →
      config.memory.numLoaves = 0 ∧ value = 0) ∧
    (∀ first second : A, (config.status (some first)).place.eats = true →
      (config.status (some second)).place.eats = true → first = second) := by
  refine ⟨(supplied reached none).1, taken_add_numLoaves reached, ?_, ?_, ?_⟩
  · intro batch here
    exact eq_zero_of_bakes (supplied reached) here rfl
  · intro batch value here
    have claim := (supplied reached none).2
    rw [here] at claim
    exact claim
  · intro first second firstEats secondEats
    exact Option.some.inj (eats_unique reached firstEats secondEats)

end

/-- With the constants of the source, the hen has baked one batch and one animal has taken a loaf. -/
theorem first_loaf_taken : ∃ history config,
    Run (code Recipe.source) (start : State (Fin 3)) (fun _ _ _ => True) history config ∧
      baked config = 1 ∧ taken config = 1 ∧ config.memory.numLoaves = 6 ∧
      (taken config : Int) + config.memory.numLoaves = Recipe.source.loaves * baked config := by
  obtain ⟨history, config, reached, holds⟩ := exists_run (code Recipe.source) (start : State (Fin 3))
    (fun _ _ _ => True) (turns 5 none ++ turns 9 (some 0))
    (fun config => decide (baked config = 1 ∧ taken config = 1 ∧ config.memory.numLoaves = 6)) (by decide)
  obtain ⟨one, loaf, left⟩ := of_decide_eq_true holds
  exact ⟨history, config, reached, one, loaf, left, (bread_conserved reached).2.1⟩

end OSLabs.LittleRedHen
