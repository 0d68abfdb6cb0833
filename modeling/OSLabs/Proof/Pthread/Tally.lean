import OSLabs.Proof.Pthread.Placed
import Mathlib.Algebra.BigOperators.Group.Finset.Piecewise
import Mathlib.Algebra.BigOperators.Ring.Finset
import Mathlib.Algebra.Order.BigOperators.Group.Finset
import Mathlib.Data.Fintype.Card
import Mathlib.Tactic.Linarith
import Mathlib.Tactic.Ring

namespace OSLabs.Pthread

/-- The indicator of a set of places has weight one there and weight zero elsewhere. -/
def indicator {T L : Type} (inSet : L → Bool) (_ : T) (place : L) : Int := if inSet place then 1 else 0

theorem indicator_nonneg {T L : Type} (inSet : L → Bool) (thread : T) (place : L) :
    0 ≤ indicator inSet thread place := by
  unfold indicator
  split <;> decide

section
variable {T S L M C : Type} [Fintype T]

/-- The tally adds one integer weight for the place of each thread. -/
def tally (weight : T → L → Int) (config : Config T S L M C) : Int :=
  ∑ thread, weight thread (config.status thread).place

@[simp] theorem tally_setMemory (weight : T → L → Int) (config : Config T S L M C) (memory : S) :
    tally weight (config.setMemory memory) = tally weight config := rfl

@[simp] theorem tally_setOwner [DecidableEq M] (weight : T → L → Int) (config : Config T S L M C)
    (mutex : M) (owner : Option T) : tally weight (config.setOwner mutex owner) = tally weight config := rfl

/-- A wakeup moves no thread to another place. -/
@[simp] theorem tally_wakeAll [DecidableEq C] (weight : T → L → Int) (config : Config T S L M C) (cond : C) :
    tally weight (config.wakeAll cond) = tally weight config := by
  simp [tally]

/-- A thread that moves changes only its own summand. -/
theorem sum_update [DecidableEq T] (weight : T → L → Int) (places : T → L) (thread : T) (next : L) :
    ∑ other, weight other (Function.update places thread next other) =
      ∑ other, weight other (places other) - weight thread (places thread) + weight thread next := by
  have others : ∀ other ∈ Finset.univ.erase thread,
      weight other (Function.update places thread next other) = weight other (places other) := by
    intro other member
    rw [Function.update_of_ne (Finset.ne_of_mem_erase member)]
  rw [← Finset.add_sum_erase _ _ (Finset.mem_univ thread), Finset.sum_congr rfl others,
    ← Finset.add_sum_erase Finset.univ (fun other => weight other (places other)) (Finset.mem_univ thread)]
  simp only [Function.update_self]
  ring

/-- A thread that moves while no other summand grows adds at most the change of its own summand. -/
theorem sum_update_le [DecidableEq T] {weight after : T → L → Int} {places : T → L} {thread : T}
    (less : ∀ other, other ≠ thread → after other (places other) ≤ weight other (places other)) (next : L) :
    ∑ other, after other (Function.update places thread next other) ≤
      ∑ other, weight other (places other) - weight thread (places thread) + after thread next := by
  have others : ∑ other ∈ Finset.univ.erase thread, after other (places other) ≤
      ∑ other ∈ Finset.univ.erase thread, weight other (places other) :=
    Finset.sum_le_sum fun other member => less other (Finset.ne_of_mem_erase member)
  rw [sum_update, ← Finset.add_sum_erase _ _ (Finset.mem_univ thread),
    ← Finset.add_sum_erase Finset.univ (fun other => weight other (places other)) (Finset.mem_univ thread)]
  linarith only [others]

/-- A larger set of places has a larger sum of indicators. -/
theorem sum_indicator_le {inner outer : L → Bool} (implies : ∀ place, inner place = true → outer place = true)
    (places : T → L) :
    ∑ thread, indicator inner thread (places thread) ≤ ∑ thread, indicator outer thread (places thread) := by
  apply Finset.sum_le_sum
  intro thread _
  cases member : inner (places thread) with
  | true => simp [indicator, member, implies _ member]
  | false =>
      have zero : indicator inner thread (places thread) = 0 := by simp [indicator, member]
      rw [zero]
      exact indicator_nonneg outer thread _

@[simp] theorem tally_setStatus [DecidableEq T] (weight : T → L → Int) (config : Config T S L M C)
    (thread : T) (status : Status L M C) :
    tally weight (config.setStatus thread status) =
      tally weight config - weight thread (config.status thread).place + weight thread status.place := by
  have moved : tally weight (config.setStatus thread status) =
      ∑ other, weight other ((config.setStatus thread status).places other) := rfl
  rw [moved, Config.places_setStatus, sum_update]
  rfl

variable {weight : T → L → Int} {config : Config T S L M C}

theorem tally_nonneg (nonneg : ∀ thread place, 0 ≤ weight thread place) : 0 ≤ tally weight config :=
  Finset.sum_nonneg fun thread _ => nonneg thread _

/-- One summand is at most the tally of nonnegative weights. -/
theorem le_tally (nonneg : ∀ thread place, 0 ≤ weight thread place) (thread : T) :
    weight thread (config.status thread).place ≤ tally weight config :=
  Finset.single_le_sum (fun other _ => nonneg other (config.status other).place) (Finset.mem_univ thread)

/-- Two different summands are together at most the tally of nonnegative weights. -/
theorem add_le_tally (nonneg : ∀ thread place, 0 ≤ weight thread place) {first second : T}
    (distinct : first ≠ second) :
    weight first (config.status first).place + weight second (config.status second).place ≤
      tally weight config := by
  classical
  have pair : ∑ thread ∈ {first, second}, weight thread (config.status thread).place ≤ tally weight config :=
    Finset.sum_le_sum_of_subset_of_nonneg (Finset.subset_univ _) fun other _ _ => nonneg other _
  rwa [Finset.sum_pair distinct] at pair

/-- A tally of zero weights is zero. -/
theorem tally_eq_zero (zero : ∀ thread, weight thread (config.status thread).place = 0) :
    tally weight config = 0 :=
  Finset.sum_eq_zero fun thread _ => zero thread

/-- A nonzero tally has a thread with a nonzero weight. -/
theorem exists_of_tally_ne_zero (nonzero : tally weight config ≠ 0) :
    ∃ thread, weight thread (config.status thread).place ≠ 0 := by
  obtain ⟨thread, _, different⟩ := Finset.exists_ne_zero_of_sum_ne_zero nonzero
  exact ⟨thread, different⟩

/-- A tally of an indicator is zero exactly when no thread is in the set. -/
theorem tally_indicator_eq_zero_iff (inSet : L → Bool) :
    tally (indicator inSet) config = 0 ↔ ∀ thread, inSet (config.status thread).place = false := by
  constructor
  · intro zero thread
    by_contra member
    have one : indicator inSet thread _ ≤ tally (indicator inSet) config :=
      le_tally (indicator_nonneg inSet) thread
    simp only [indicator, show inSet (config.status thread).place = true by simpa using member, ↓reduceIte] at one
    omega
  · intro empty
    exact tally_eq_zero fun thread => by simp [indicator, empty thread]

/-- Two threads in a set whose tally is at most one are the same thread. -/
theorem tally_indicator_unique {inSet : L → Bool} (atMostOne : tally (indicator inSet) config ≤ 1)
    {first second : T} (firstIn : inSet (config.status first).place = true)
    (secondIn : inSet (config.status second).place = true) : first = second := by
  by_contra distinct
  have pair : indicator inSet first _ + indicator inSet second _ ≤ tally (indicator inSet) config :=
    add_le_tally (indicator_nonneg inSet) distinct
  simp only [indicator, firstIn, secondIn, ↓reduceIte] at pair
  omega

/-- The tally of a set that holds at most one thread is at most one. -/
theorem tally_indicator_le_one {inSet : L → Bool}
    (unique : ∀ first second, inSet (config.status first).place = true →
      inSet (config.status second).place = true →
      first = second) : tally (indicator inSet) config ≤ 1 := by
  have few : (Finset.univ.filter fun thread => inSet (config.status thread).place = true).card ≤ 1 := by
    apply Finset.card_le_one.mpr
    intro first firstIn second secondIn
    simp only [Finset.mem_filter, Finset.mem_univ, true_and] at firstIn secondIn
    exact unique first second firstIn secondIn
  simp only [tally, indicator, Finset.sum_boole]
  exact_mod_cast few

/-- The tally of an indicator is the number of threads in the set. -/
theorem tally_indicator_eq_card (inSet : L → Bool) (config : Config T S L M C) :
    tally (indicator inSet) config =
      ((Finset.univ.filter fun thread => inSet (config.status thread).place = true).card : Int) := by
  simp [tally, indicator]

/-- A thread that passes a test has weight one. -/
def weigh {T L : Type} (test : T → L → Bool) (thread : T) (place : L) : Int := if test thread place then 1 else 0

/-- The tally of a test is the number of threads that pass it. -/
theorem tally_weigh (test : T → L → Bool) (config : Config T S L M C) :
    tally (weigh test) config = config.number test := by
  simp [tally, weigh, Config.number]

/-- A test that implies another one is passed by fewer threads. -/
theorem number_le_number {test other : T → L → Bool} {config : Config T S L M C}
    (implies : ∀ thread, test thread (config.status thread).place = true →
      other thread (config.status thread).place = true) : config.number test ≤ config.number other :=
  Finset.card_le_card fun thread member => by
    simp only [Finset.mem_filter, Finset.mem_univ, true_and] at member ⊢
    exact implies thread member

/-- Two tests with the same results at the places of the threads have the same number. -/
theorem number_congr {test other : T → L → Bool} {config : Config T S L M C}
    (same : ∀ thread, test thread (config.status thread).place = other thread (config.status thread).place) :
    config.number test = config.number other :=
  le_antisymm (number_le_number fun thread passes => by rwa [← same thread])
    (number_le_number fun thread passes => by rwa [same thread])

/-- A test that some thread passes has a positive number. -/
theorem number_pos {test : T → L → Bool} {config : Config T S L M C} {thread : T}
    (passes : test thread (config.status thread).place = true) : 0 < config.number test :=
  Finset.card_pos.mpr ⟨thread, by simpa using passes⟩

/-- A positive number names a thread. -/
theorem exists_of_number_pos {test : T → L → Bool} {config : Config T S L M C}
    (positive : 0 < config.number test) :
    ∃ thread, test thread (config.status thread).place = true := by
  obtain ⟨thread, member⟩ := Finset.card_pos.mp positive
  exact ⟨thread, by simpa using member⟩

/-- A tally of two names its two threads. -/
theorem exists_pair_of_tally_eq_two {inSet : L → Bool} (two : tally (indicator inSet) config = 2) :
    ∃ first second, first ≠ second ∧
      ∀ thread, inSet (config.status thread).place = true ↔ thread = first ∨ thread = second := by
  classical
  rw [tally_indicator_eq_card] at two
  obtain ⟨first, second, distinct, pair⟩ := Finset.card_eq_two.mp (by exact_mod_cast two)
  refine ⟨first, second, distinct, fun thread => ?_⟩
  simpa using Finset.ext_iff.mp pair thread

/-- The tally of an indicator is the number of all threads exactly when each thread is in the set. -/
theorem tally_indicator_eq_univ_iff (inSet : L → Bool) :
    tally (indicator inSet) config = Fintype.card T ↔ ∀ thread, inSet (config.status thread).place = true := by
  rw [tally_indicator_eq_card, Nat.cast_inj, Finset.card_eq_iff_eq_univ, Finset.filter_eq_self]
  simp

end

/-- The instruction changes the measure of the memory as it changes the weight of the thread. -/
def Instr.Balances {S L M C : Type} (measure : S → Int) (weight : L → Int) (memory : S) (place : L) :
    Instr S L M C → Prop
  | .access update => ∀ after next, update memory = (after, next) →
      measure after = measure memory - weight place + weight next
  | .lock _ next => weight next = weight place
  | .unlock _ next => weight next = weight place
  | .wait _ _ next => weight next = weight place
  | .signal _ next => weight next = weight place
  | .broadcast _ next => weight next = weight place
  | .exit => True

/-- A measure of the memory equals a tally in every run when every instruction balances them. -/
theorem Run.balanced {T S L M C : Type} [DecidableEq T] [Fintype T] [DecidableEq M] [DecidableEq C]
    {code : T → L → Instr S L M C} {start : Config T S L M C}
    {allowed : History T S L M C → Config T S L M C → T → Prop}
    (measure : S → Int) (weight : T → L → Int)
    (initial : measure start.memory = tally weight start)
    (balances : ∀ history config thread place, Run code start allowed history config →
      measure config.memory = tally weight config → allowed history config thread →
      config.status thread = .ready place →
      (code thread place).Balances measure (weight thread) config.memory place)
    {history : History T S L M C} {config : Config T S L M C}
    (reached : Run code start allowed history config) : measure config.memory = tally weight config := by
  refine Run.invariant (fun config => measure config.memory = tally weight config) initial ?_ ?_ ?_ reached
  · intro history config thread place before equal permitted here
    have balance := balances history config thread place before equal permitted here
    cases instr : code thread place with
    | access update =>
        simp only [instr, Instr.Balances] at balance
        intro memory next effect
        simp [here, balance memory next effect, equal]
    | lock mutex next =>
        simp only [instr, Instr.Balances] at balance
        intro free
        simp [here, balance, equal]
    | unlock mutex next | broadcast cond next | wait cond mutex next =>
        simp only [instr, Instr.Balances] at balance
        simp [Instr.Ensures, here, balance, equal]
    | signal cond next =>
        simp only [instr, Instr.Balances] at balance
        refine ⟨fun _ => by simp [here, balance, equal], ?_⟩
        intro target mutex there blocked
        have other : target ≠ thread := by
          rintro rfl
          simp [here] at blocked
        simp [Function.update_of_ne other, here, blocked, balance, equal]
    | exit => trivial
  · intro _ config thread mutex place _ equal here free
    simp [here, equal]
  · intro _ config thread cond mutex place _ equal here
    simp [here, equal]

/-- A measure of the memory equals a tally in every run when each effect changes both by the same amount. -/
theorem Run.counted {T S L M C : Type} [DecidableEq T] [Fintype T] [DecidableEq M] [DecidableEq C]
    {code : T → L → Instr S L M C} {start : Config T S L M C}
    {allowed : History T S L M C → Config T S L M C → T → Prop}
    (measure : S → Int) (weight : T → L → Int)
    (initial : measure start.memory = tally weight start)
    (balances : ∀ thread place memory after next, (code thread place).effect memory = some (after, next) →
      measure after + weight thread place = measure memory + weight thread next)
    {history : History T S L M C} {config : Config T S L M C}
    (reached : Run code start allowed history config) : measure config.memory = tally weight config := by
  refine reached.placed (fun _ places memory => measure memory = ∑ thread, weight thread (places thread))
    initial ?_ ?_
  · intro _ _ _ equal _
    exact equal
  · intro _ config thread place after next _ equal _ here effect
    have balance := balances thread place config.memory after next effect
    rw [sum_update, Config.places_of_ready here]
    omega

end OSLabs.Pthread
