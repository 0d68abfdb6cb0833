import OSLabs.Proof.Pthread.Tally

namespace OSLabs.Pthread

/-- A thread that runs adds its place to the executed ones. -/
theorem cast_executed_cons {T S L M C : Type} {inSet : L → Bool} {history : History T S L M C}
    {config : Config T S L M C} {thread : T} {place : L} (here : config.status thread = .ready place) :
    (executed inSet ((config, thread) :: history) : Int) =
      executed inSet history + indicator inSet thread place := by
  rw [executed_cons_of_ready here, indicator]
  push_cast
  rfl

section
variable {T S L M C : Type} [DecidableEq T] [Fintype T] [DecidableEq M] [DecidableEq C]
  {code : T → L → Instr S L M C} {start : Config T S L M C}
  {allowed : History T S L M C → Config T S L M C → T → Prop}
  {history : History T S L M C} {config : Config T S L M C}

/-- A set of places that threads enter and leave by certain instructions has as many threads
as enterings without a leaving. -/
theorem Run.executed_between (enters leaves between : L → Bool)
    (initial : ∀ thread, between (start.places thread) = false)
    (balanced : ∀ thread place memory after next, (code thread place).effect memory = some (after, next) →
      (indicator enters thread place : Int) + indicator between thread place =
        indicator leaves thread place + indicator between thread next)
    (reached : Run code start allowed history config) :
    (executed enters history : Int) =
      executed leaves history + ∑ thread, indicator between thread (config.places thread) := by
  refine reached.placed (fun history places _ => (executed enters history : Int) =
    executed leaves history + ∑ thread, indicator between thread (places thread)) ?_ ?_ ?_
  · simp [executed, indicator, initial]
  · intro history config thread equal waits
    rw [executed_cons_of_not_ready waits, executed_cons_of_not_ready waits]
    exact equal
  · intro history config thread place after next _ equal _ here effect
    have step := balanced thread place config.memory after next effect
    rw [cast_executed_cons here, cast_executed_cons here, sum_update, Config.places_of_ready here]
    omega

/-- A counter that is read and written in two steps equals a total when each write changes both by the same amount
and nobody else has a read pending at a write. Then every pending read has the value of the counter. -/
theorem Run.exact (measure : S → Int) (pending : L → Option Int) (total : History T S L M C → (T → L) → Int)
    (initial : measure start.memory = total [] start.places)
    (settled : ∀ thread, pending (start.places thread) = none)
    (idle : ∀ history config thread, (∀ place, config.status thread ≠ .ready place) →
      total ((config, thread) :: history) config.places = total history config.places)
    (alone : ∀ history config thread place value, Run code start allowed history config →
      allowed history config thread → config.status thread = .ready place → pending place = some value →
      ∀ other, other ≠ thread → pending (config.places other) = none)
    (plain : ∀ history config thread place after next, config.status thread = .ready place →
      (code thread place).effect config.memory = some (after, next) → pending place = none →
      measure after = measure config.memory ∧
        total ((config, thread) :: history) (Function.update config.places thread next) =
          total history config.places ∧
        ∀ value, pending next = some value → value = measure config.memory)
    (writes : ∀ history config thread place after next value, config.status thread = .ready place →
      (code thread place).effect config.memory = some (after, next) → pending place = some value →
      pending next = none ∧ measure after - value =
        total ((config, thread) :: history) (Function.update config.places thread next) - total
          history config.places)
    (reached : Run code start allowed history config) :
    measure config.memory = total history config.places ∧
      ∀ thread value, pending (config.places thread) = some value → value = measure config.memory := by
  refine reached.placed (fun history places memory => measure memory = total history places ∧
    (∀ thread value, pending (places thread) = some value → value = measure memory)) ?_ ?_ ?_
  · refine ⟨initial, fun thread value reads => ?_⟩
    rw [settled thread] at reads
    cases reads
  · intro history config thread exact waits
    rw [idle history config thread waits]
    exact exact
  · intro history config thread place after next before exact permitted here effect
    cases reading : pending place with
    | none =>
        obtain ⟨same, still, reads⟩ := plain history config thread place after next here effect reading
        rw [same, still]
        refine ⟨exact.1, fun other value waits => ?_⟩
        by_cases hit : other = thread
        · subst hit
          rw [Function.update_self] at waits
          exact reads value waits
        · rw [Function.update_of_ne hit] at waits
          exact exact.2 other value waits
    | some value =>
        obtain ⟨settled, changed⟩ := writes history config thread place after next value here effect reading
        have current := exact.2 thread value (by rw [Config.places_of_ready here, reading])
        refine ⟨by have equal := exact.1; omega, fun other value waits => ?_⟩
        exfalso
        by_cases hit : other = thread
        · subst hit
          rw [Function.update_self, settled] at waits
          cases waits
        · have none := alone history config thread place _ before permitted here reading other hit
          rw [Function.update_of_ne hit, none] at waits
          cases waits

/-- A counter that is read and written in two steps is at most the number of threads that have incremented it. -/
theorem Run.le_passed (measure : S → Int) (pending : L → Option Int) (passed : L → Bool)
    (initial : measure start.memory ≤ 0)
    (settled : ∀ thread, pending (start.places thread) = none)
    (onward : ∀ thread place memory after next, (code thread place).effect memory = some (after, next) →
      passed place = true → passed next = true)
    (plain : ∀ thread place memory after next, (code thread place).effect memory = some (after, next) →
      pending place = none →
      measure after = measure memory ∧ ∀ value, pending next = some value → value = measure memory)
    (writes : ∀ thread place memory after next value, (code thread place).effect memory = some (after, next) →
      pending place = some value → pending next = none ∧
        (measure after ≤ value ∨ measure after = value + 1 ∧ passed place = false ∧ passed next = true))
    (reached : Run code start allowed history config) :
    measure config.memory ≤ ∑ thread, indicator passed thread (config.places thread) := by
  refine (reached.placed (fun _ places memory =>
    measure memory ≤ ∑ thread, indicator passed thread (places thread) ∧
    (∀ thread value, pending (places thread) = some value →
      value ≤ ∑ thread, indicator passed thread (places thread))) ?_ ?_ ?_).1
  · have nonneg : 0 ≤ ∑ thread, indicator passed thread (start.places thread) :=
      Finset.sum_nonneg fun thread _ => indicator_nonneg _ _ _
    refine ⟨le_trans initial nonneg, fun thread value reads => ?_⟩
    rw [settled thread] at reads
    cases reads
  · intro _ _ _ bounds _
    exact bounds
  · intro history config thread place after next _ bounds _ here effect
    have located := Config.places_of_ready here
    have total : ∑ other, indicator passed other (Function.update config.places thread next other) =
        ∑ other, indicator passed other (config.places other) - indicator passed thread place +
          indicator passed thread next := by rw [sum_update, located]
    have grows : indicator passed thread place ≤ indicator passed thread next := by
      have onward := onward thread place config.memory after next effect
      cases before : passed place with
      | true => simp [indicator, before, onward before]
      | false =>
          rw [show indicator passed thread place = 0 by simp [indicator, before]]
          exact indicator_nonneg _ _ _
    have others : ∀ other value, other ≠ thread →
      pending (Function.update config.places thread next other) = some value →
        value ≤ ∑ other, indicator passed other (config.places other) := by
      intro other value different reads
      rw [Function.update_of_ne different] at reads
      exact bounds.2 other value reads
    cases reading : pending place with
    | none =>
        obtain ⟨same, reads⟩ := plain thread place config.memory after next effect reading
        refine ⟨by have bound := bounds.1; omega, fun other value waits => ?_⟩
        by_cases hit : other = thread
        · subst hit
          rw [Function.update_self] at waits
          have current := reads value waits
          have bound := bounds.1
          omega
        · have bound := others other value hit waits
          omega
    | some value =>
        obtain ⟨settled, written⟩ := writes thread place config.memory after next value effect reading
        have bound := bounds.2 thread value (by rw [located, reading])
        refine ⟨?_, fun other value waits => ?_⟩
        · rcases written with lower | ⟨raised, fresh, past⟩
          · omega
          · have zero : indicator passed thread place = 0 := by simp [indicator, fresh]
            have one : indicator passed thread next = 1 := by simp [indicator, past]
            omega
        · by_cases hit : other = thread
          · subst hit
            rw [Function.update_self, settled] at waits
            cases waits
          · have bound := others other value hit waits
            omega

end

end OSLabs.Pthread
