import OSLabs.Construction.Factoring
import OSLabs.Proof.Spawn.Run

namespace OSLabs.Factoring

open Transition Spawn
open Stdio (toInt)

/-- A number that fits in an `int` is not changed by the conversion. -/
theorem toInt_eq {value : Nat} (fits : value < 2147483648) : toInt value = value := by
  unfold toInt
  omega

theorem mem_factors {target : Nat} {d : Int} : d ∈ factors target ↔
    ∃ i : Nat, d = i ∧ 2 ≤ i ∧ i ≤ target / 2 ∧ i ∣ target := by
  simp only [factors, List.mem_map, List.mem_filter, List.mem_range, decide_eq_true_eq]
  constructor
  · rintro ⟨i, ⟨less, lower, divides⟩, rfl⟩
    exact ⟨i, rfl, lower, by omega, divides⟩
  · rintro ⟨i, rfl, lower, upper, divides⟩
    exact ⟨i, ⟨by omega, lower, divides⟩, rfl⟩

theorem factors_nodup (target : Nat) : (factors target).Nodup := by
  refine List.Nodup.map (fun (first second : Nat) (same : (first : Int) = second) => by omega) ?_
  exact List.nodup_range.filter _

@[simp] theorem reported_testing (memory : Memory) (threadNum : Int) (i : Nat) :
    reported (memory.print (.testing threadNum i)).output = reported memory.output := by
  simp [reported, Memory.print]

@[simp] theorem reported_isFactor (memory : Memory) (i : Int) :
    reported (memory.print (.isFactor i)).output = reported memory.output ++ [i] := by
  simp [reported, Memory.print]

/-- What main knows at its places. -/
def MainPlace.Knows (target : Nat) (memory : Memory) : MainPlace → Prop
  | .checkThreads | .setTarget | .done => True
  | .forTest i _ => memory.num0 = target ∧ 2 ≤ i ∧ (i = 2 ∨ i ≤ target / 2 + 1)
  | .setCandidate i _ => memory.num0 = target ∧ 2 ≤ i ∧ i ≤ target / 2
  | .threadTest i _ | .printTesting i _ | .create i _ =>
      memory.num0 = target ∧ memory.num1 = i ∧ 2 ≤ i ∧ i ≤ target / 2

/-- Main has created the thread of this round. -/
def MainPlace.created (target : Nat) (k : Nat) : MainPlace → Prop
  | .checkThreads | .setTarget => False
  | .forTest i _ | .setCandidate i _ | .threadTest i _ | .printTesting i _ | .create i _ => 2 ≤ k ∧ k < i
  | .done => 2 ≤ k ∧ k ≤ target / 2

/-- What a thread may have read, where `chosen` says which candidates it may have read. -/
def Fits (target : Nat) (chosen : Nat → Int → Prop) (memory : Memory) (k : Nat) : FactorPlace → Prop
  | .readTarget => memory.num0 = target ∧ chosen k memory.num1
  | .readCandidate read => read = target ∧ chosen k memory.num1
  | .test read i => read = target ∧ chosen k i
  | .done => True

theorem MainPlace.Knows.of_eq {target : Nat} {place : MainPlace} {memory after : Memory}
    (knows : place.Knows target memory)
    (num0 : after.num0 = memory.num0) (num1 : after.num1 = memory.num1) : place.Knows target after := by
  unfold MainPlace.Knows at knows ⊢
  rwa [num0, num1]

theorem Fits.of_eq {target : Nat} {chosen : Nat → Int → Prop} {k : Nat} {place : FactorPlace}
    {memory after : Memory}
    (fits : Fits target chosen memory k place) (num0 : after.num0 = memory.num0)
    (num1 : after.num1 = memory.num1) :
    Fits target chosen after k place := by
  unfold Fits at fits ⊢
  rwa [num0, num1]

/-- The invariant of the threads. -/
structure Standing (target : Nat) (chosen : Nat → Int → Prop) (config : State) : Prop where
  main : ∃ place, config.place none = some (.main place) ∧ place.Knows target config.memory ∧
    ∀ k, (config.place (some k)).isSome = true ↔ place.created target k
  threads : ∀ k place, config.place (some k) = some place →
    ∃ there, place = .factor there ∧ Fits target chosen config.memory k there

/-- A step either lets no thread return and prints no divisor, or it is the test of a thread. -/
def Effect (target : Nat) (chosen : Nat → Int → Prop) (config next : State) : Prop :=
  (reported next.memory.output = reported config.memory.output ∧
    ∀ k, next.place (some k) = some (.factor .done) ↔ config.place (some k) = some (.factor .done)) ∨
  ∃ k i, chosen k i ∧ config.place (some k) = some (.factor (.test target i)) ∧
    next = (config.setMemory (if (target : Int).tmod i = 0 then config.memory.print (.isFactor i) else config.memory)).setPlace
      (some k) (.factor .done)

section
variable {target : Nat} {numThreads : Int} {chosen : Nat → Int → Prop} {config next : State}

/-- A thread that moves and leaves `num` alone keeps the invariant. -/
theorem Standing.move (standing : Standing target chosen config) {k : Nat} {there after : FactorPlace}
    {memory : Memory}
    (here : config.place (some k) = some (.factor there)) (num0 : memory.num0 = config.memory.num0)
    (num1 : memory.num1 = config.memory.num1) (fits : Fits target chosen memory k after) :
    Standing target chosen ((config.setMemory memory).setPlace (some k) (.factor after)) := by
  refine ⟨?_, fun other place isThere => ?_⟩
  · obtain ⟨place, isMain, knows, created⟩ := standing.main
    refine ⟨place, by simpa using isMain, knows.of_eq num0 num1, fun other => ?_⟩
    rw [← created other]
    by_cases same : other = k
    · subst same
      simp [here]
    · simp [Function.update_of_ne, same]
  · by_cases same : other = k
    · subst same
      obtain rfl : Place.factor after = place := by simpa using isThere
      exact ⟨after, rfl, fits⟩
    · obtain ⟨inner, rfl, before⟩ :=
        standing.threads other place (by simpa [Function.update_of_ne, same] using isThere)
      exact ⟨inner, rfl, before.of_eq num0 num1⟩

/-- Main keeps the invariant when it moves on with the same threads. -/
theorem Standing.advance (standing : Standing target chosen config) {after : MainPlace} {memory : Memory}
    (knows : after.Knows target memory) (created : ∀ k, (config.place (some k)).isSome = true ↔
      after.created target k)
    (kept : ∀ k there, config.place (some k) = some (.factor there) → Fits target chosen config.memory k there →
      Fits target chosen memory k there) :
    Standing target chosen ((config.setMemory memory).setPlace none (.main after)) := by
  refine ⟨⟨after, by simp, knows, fun k => by simpa using created k⟩, fun k place isThere => ?_⟩
  obtain ⟨there, rfl, fits⟩ := standing.threads k place (by simpa using isThere)
  exact ⟨there, rfl, kept k there (by simpa using isThere) fits⟩

/-- The same for a step of main that only prints or tests. -/
theorem Standing.advance_output (standing : Standing target chosen config) {after : MainPlace} {memory : Memory}
    (num0 : memory.num0 = config.memory.num0) (num1 : memory.num1 = config.memory.num1)
    (knows : after.Knows target memory) (created : ∀ k, (config.place (some k)).isSome = true ↔
      after.created target k) :
    Standing target chosen ((config.setMemory memory).setPlace none (.main after)) :=
  standing.advance knows created fun _ _ _ fits => fits.of_eq num0 num1

/-- A creation adds the thread of its round. -/
theorem Standing.create (standing : Standing target chosen config) {i : Nat} {threadNum : Int}
    (knows : (MainPlace.create i threadNum).Knows target config.memory)
    (created : ∀ k, (config.place (some k)).isSome = true ↔ 2 ≤ k ∧ k < i) (own : chosen i i) :
    Standing target chosen ((config.setPlace (some i) (.factor .readTarget)).setPlace none
      (.main (.forTest (i + 1) (threadNum + 1)))) := by
  obtain ⟨num0, num1, lower, upper⟩ := knows
  refine ⟨⟨.forTest (i + 1) (threadNum + 1), by simp, ⟨num0, by omega, .inr (by omega)⟩, fun k => ?_⟩,
    fun k place isThere => ?_⟩
  · simp only [MainPlace.created]
    by_cases same : k = i
    · subst same
      simpa using lower
    · simp only [Config.setPlace_place, Function.update_of_ne (Option.some_ne_none k), Function.update_of_ne
        (fun equal => same (Option.some.inj equal) : some k ≠ some i), created]
      omega
  · by_cases same : k = i
    · subst same
      obtain rfl : Place.factor .readTarget = place := by simpa using isThere
      exact ⟨.readTarget, rfl, num0, by simpa [num1] using own⟩
    · exact standing.threads k place (by simpa [Function.update_of_ne, same] using isThere)

theorem exists_of_fire {thread : Thread} (fired : fire target numThreads config thread = some next) :
    ¬ Returned config ∧ Spawn.fire (code target numThreads) config thread = some next := by
  unfold fire at fired
  split at fired
  · cases fired
  · next running => exact ⟨running, fired⟩

/-- A step of `factor` keeps the invariant. -/
theorem Standing.factor_step (standing : Standing target chosen config) {k : Nat}
    (fired : fire target numThreads config (some k) = some next) :
    Standing target chosen next ∧ Effect target chosen config next := by
  obtain ⟨_, fired⟩ := exists_of_fire fired
  obtain ⟨place, here, _⟩ := Spawn.exists_of_fire fired
  obtain ⟨there, rfl, fits⟩ := standing.threads k place here
  have unreturned {after : FactorPlace} (runs : there ≠ .done) (continues : after ≠ .done) (other : Nat) :
      Function.update config.place (some k) (some (.factor after)) (some other) = some (.factor .done) ↔
        config.place (some other) = some (.factor .done) := by
    by_cases same : other = k
    · subst same
      simp [here, runs, continues]
    · simp [Function.update_of_ne, same]
  cases there with
  | readTarget =>
      obtain rfl := eq_of_access here fired rfl
      refine ⟨standing.move here rfl rfl fits, .inl ⟨rfl, unreturned (by simp) (by simp)⟩⟩
  | readCandidate read =>
      obtain rfl := eq_of_access here fired rfl
      refine ⟨standing.move here rfl rfl fits, .inl ⟨rfl, unreturned (by simp) (by simp)⟩⟩
  | test read i =>
      obtain ⟨rfl, isChosen⟩ := fits
      obtain rfl := eq_of_access here fired rfl
      refine ⟨standing.move here ?_ ?_ trivial, .inr ⟨k, i, isChosen, here, rfl⟩⟩
      all_goals
        dsimp only
        split <;> rfl
  | done => simp [Spawn.fire, here, code, factor, perform] at fired

/-- A step of `main` keeps the invariant when each thread that has not read `num[1]` may read what main writes. -/
theorem Standing.main_step (standing : Standing target chosen config) (fits : target < 2147483648)
    (few : 1 ≤ numThreads ∧ numThreads ≤ 50)
    (own : ∀ i : Nat, 2 ≤ i → i ≤ target / 2 → chosen i i)
    (overwrites : ∀ (i : Nat) threadNum, config.place none = some (.main (.setCandidate i threadNum)) → 2 ≤ i →
      i ≤ target / 2 → ∀ k place, k < i → config.place (some k) = some place → place.unread = true → chosen k i)
    (fired : fire target numThreads config none = some next) :
    Standing target chosen next ∧ Effect target chosen config next := by
  obtain ⟨running, fired⟩ := exists_of_fire fired
  obtain ⟨place, here, knows, created⟩ := standing.main
  cases place with
  | checkThreads =>
      obtain rfl := eq_of_access here fired rfl
      have good : ¬ (numThreads > 50 ∨ numThreads < 1) := by omega
      simp only [if_neg good]
      exact ⟨standing.advance_output rfl rfl trivial created, .inl ⟨rfl, fun k => by simp⟩⟩
  | setTarget =>
      obtain rfl := eq_of_access here fired rfl
      simp only [toInt_eq fits]
      refine ⟨standing.advance ⟨rfl, le_rfl, .inl rfl⟩ (fun k => ?_) (fun k there isThere _ => ?_),
        .inl ⟨rfl, fun k => by simp⟩⟩
      · rw [created k]
        exact ⟨False.elim, fun both => absurd both.2 (not_lt.mpr both.1)⟩
      · have none : False := (created k).mp (by rw [isThere]; rfl)
        exact none.elim
  | forTest i threadNum =>
      obtain rfl := eq_of_access here fired rfl
      refine ⟨standing.advance_output rfl rfl ?_ fun k => ?_, .inl ⟨rfl, fun k => by simp⟩⟩
      · split
        · next again => exact ⟨knows.1, knows.2.1, again⟩
        · trivial
      · rw [created k]
        have upper := knows.2.2
        split
        · rfl
        · simp only [MainPlace.created]
          omega
  | setCandidate i threadNum =>
      obtain rfl := eq_of_access here fired rfl
      obtain ⟨num0, lower, upper⟩ := knows
      have same : toInt i = i := toInt_eq (by omega)
      simp only [same]
      refine ⟨standing.advance ⟨num0, rfl, lower, upper⟩ created fun k there isThere before => ?_,
        .inl ⟨rfl, fun k => by simp⟩⟩
      have inLoop := (created k).mp (by rw [isThere]; rfl)
      have allowed := overwrites i threadNum here lower upper k _ inLoop.2 isThere
      cases there with
      | readTarget => exact ⟨before.1, allowed rfl⟩
      | readCandidate read => exact ⟨before.1, allowed rfl⟩
      | test read candidate => exact before
      | done => trivial
  | threadTest i threadNum =>
      obtain rfl := eq_of_access here fired rfl
      exact ⟨standing.advance_output rfl rfl knows created, .inl ⟨rfl, fun k => by simp⟩⟩
  | printTesting i threadNum =>
      obtain rfl := eq_of_access here fired rfl
      exact ⟨standing.advance_output rfl rfl knows created, .inl ⟨by simp, fun k => by simp⟩⟩
  | create i threadNum =>
      obtain rfl := eq_of_create here fired rfl
      refine ⟨standing.create knows created (own i knows.2.2.1 knows.2.2.2), .inl ⟨rfl, fun k => ?_⟩⟩
      by_cases same : k = i
      · subst same
        have fresh : config.place (some k) = none := by
          rw [← Option.not_isSome_iff_eq_none, created k]
          exact fun both => Nat.lt_irrefl _ both.2
        simp [fresh]
      · simp [Function.update_of_ne, same]
  | done => exact absurd here running

theorem start_standing (num0 num1 : Int) : Standing target chosen (start num0 num1) := by
  refine ⟨⟨.checkThreads, rfl, trivial, fun k => ?_⟩, fun k place isThere => ?_⟩
  · simp [start, MainPlace.created]
  · simp [start] at isThere

/-- A thread may read any number that main tests. -/
def Tested (target : Nat) (_ : Nat) (candidate : Int) : Prop :=
  ∃ i : Nat, candidate = i ∧ 2 ≤ i ∧ i ≤ target / 2

/-- A thread may read only the number of its own round. -/
def Own (k : Nat) (candidate : Int) : Prop := candidate = k

theorem tmod_eq_zero_iff {target i : Nat} : (target : Int).tmod i = 0 ↔ i ∣ target := by
  rw [← Int.dvd_iff_tmod_eq_zero, Int.natCast_dvd_natCast]

section
variable {num0 num1 : Int} (fits : target < 2147483648) (few : 1 ≤ numThreads ∧ numThreads ≤ 50)
include fits few

/-- In every run the threads read only numbers that main tests, and they print only divisors. -/
theorem tested (reached : Reachable (fire target numThreads) Free (start num0 num1) config) :
    Standing target (Tested target) config ∧ ∀ d ∈ reported config.memory.output, d ∈ factors target := by
  refine reached.invariant (fun config => Standing target (Tested target) config ∧
    ∀ d ∈ reported config.memory.output, d ∈ factors target) ⟨start_standing num0 num1,
      fun d member => by cases member⟩ ?_
  intro config next thread standing _ fired
  have step : Standing target (Tested target) next ∧ Effect target (Tested target) config next := by
    cases thread with
    | none =>
        refine standing.1.main_step fits few (fun i lower upper => ⟨i, rfl, lower, upper⟩) ?_ fired
        intro i _ _ lower upper _ _ _ _ _
        exact ⟨i, rfl, lower, upper⟩
    | some k => exact standing.1.factor_step fired
  refine ⟨step.1, ?_⟩
  rcases step.2 with ⟨same, _⟩ | ⟨k, candidate, ⟨i, rfl, lower, upper⟩, _, rfl⟩
  · rw [same]
    exact standing.2
  · intro d member
    simp only [Config.setPlace_memory, Config.setMemory_memory] at member
    split at member
    · next divides =>
        rw [reported_isFactor, List.mem_append, List.mem_singleton] at member
        rcases member with earlier | rfl
        · exact standing.2 d earlier
        · exact mem_factors.mpr ⟨i, rfl, lower, upper, tmod_eq_zero_iff.mp divides⟩
    · exact standing.2 d member

end

/-- Main returns only behind its last round. -/
theorem exists_of_returned {thread : Thread} (few : 1 ≤ numThreads ∧ numThreads ≤ 50)
    (standing : Standing target chosen config)
    (fired : fire target numThreads config thread = some next) (returned : Returned next) :
    thread = none ∧ (∃ i threadNum, config.place none = some (.main (.forTest i threadNum)) ∧ target / 2 < i) ∧
      ∀ k, next.place (some k) = config.place (some k) := by
  obtain ⟨running, fired⟩ := exists_of_fire fired
  cases thread with
  | some k =>
      obtain ⟨place, here, _⟩ := Spawn.exists_of_fire fired
      obtain ⟨there, rfl, _⟩ := standing.threads k place here
      refine absurd ?_ running
      cases there with
      | done => simp [Spawn.fire, here, code, factor, perform] at fired
      | _ =>
          obtain rfl := eq_of_access here fired rfl
          simpa [Returned] using returned
  | none =>
      obtain ⟨place, here, _⟩ := standing.main
      cases place with
      | checkThreads =>
          obtain rfl := eq_of_access here fired rfl
          have good : ¬ (numThreads > 50 ∨ numThreads < 1) := by omega
          simp [Returned, good] at returned
      | forTest i threadNum =>
          obtain rfl := eq_of_access here fired rfl
          have beyond : ¬ i ≤ target / 2 := by
            intro again
            simp [Returned, again] at returned
          exact ⟨rfl, ⟨i, threadNum, here, not_le.mp beyond⟩, fun k => by simp⟩
      | create i threadNum =>
          obtain rfl := eq_of_create here fired rfl
          simp [Returned] at returned
      | done => exact absurd here running
      | _ =>
          have same := eq_of_access here fired rfl
          rw [same, Returned, Config.setPlace_place, Function.update_self] at returned
          simp at returned

/-- The lines are those of the divisors whose threads have returned. -/
structure Told (target : Nat) (config : State) : Prop where
  once : (reported config.memory.output).Nodup
  told : ∀ d, d ∈ reported config.memory.output ↔
    ∃ k : Nat, d = k ∧ k ∣ target ∧ config.place (some k) = some (.factor .done)

/-- The test of a thread prints its own number when this is a divisor. -/
theorem Told.step (told : Told target config) (effect : Effect target Own config next) : Told target next := by
  rcases effect with ⟨same, returned⟩ | ⟨k, candidate, rfl, here, rfl⟩
  · refine ⟨by rw [same]; exact told.once, fun d => ?_⟩
    rw [same, told.told]
    simp only [returned]
  · have fresh : (k : Int) ∉ reported config.memory.output := by
      intro member
      obtain ⟨other, same, _, done⟩ := (told.told k).mp member
      obtain rfl : k = other := by omega
      rw [here] at done
      cases done
    have places (other : Nat) (different : other ≠ k) :
      Function.update config.place (some k) (some (.factor .done)) (some other) =
        config.place (some other) :=
      Function.update_of_ne (fun same => different (Option.some.inj same)) _ _
    by_cases divides : k ∣ target
    · have zero : (target : Int).tmod k = 0 := tmod_eq_zero_iff.mpr divides
      refine ⟨by simpa [zero] using told.once.concat fresh, fun d => ?_⟩
      simp only [zero, if_pos, Config.setPlace_memory, Config.setMemory_memory, reported_isFactor, List.mem_append,
        List.mem_singleton, told.told, Config.setPlace_place, Config.setMemory_place]
      constructor
      · rintro (⟨other, rfl, isDivisor, done⟩ | rfl)
        · have different : other ≠ k := by
            rintro rfl
            rw [here] at done
            cases done
          exact ⟨other, rfl, isDivisor, by rw [places other different, done]⟩
        · exact ⟨k, rfl, divides, Function.update_self _ _ _⟩
      · rintro ⟨other, rfl, isDivisor, done⟩
        by_cases same : other = k
        · exact .inr (by rw [same])
        · exact .inl ⟨other, rfl, isDivisor, by rw [← places other same, done]⟩
    · have nonzero : ¬ (target : Int).tmod k = 0 := fun zero => divides (tmod_eq_zero_iff.mp zero)
      refine ⟨by simpa [nonzero] using told.once, fun d => ?_⟩
      simp only [if_neg nonzero, Config.setPlace_memory, Config.setMemory_memory, told.told, Config.setPlace_place,
        Config.setMemory_place]
      refine exists_congr fun other => and_congr_right fun _ => and_congr_right fun isDivisor => ?_
      have different : other ≠ k := by
        rintro rfl
        exact divides isDivisor
      rw [places other different]

theorem of_allCreated {test : Place → Bool} {i k : Nat} {place : Place}
    (all : allCreated test i config = true) (inLoop : k < i)
    (here : config.place (some k) = some place) : test place = true := by
  have passes := List.all_eq_true.mp all k (List.mem_range.mpr inLoop)
  rwa [here] at passes

/-- The invariant of the runs in which main waits for its threads. -/
structure Attending (target : Nat) (config : State) : Prop where
  standing : Standing target Own config
  told : Told target config
  ended : Returned config → ∀ k place, config.place (some k) = some place → place = .factor .done

theorem attending {num0 num1 : Int} (fits : target < 2147483648) (few : 1 ≤ numThreads ∧ numThreads ≤ 50)
    (reached : Reachable (fire target numThreads) (Awaited target) (start num0 num1) config) :
    Attending target config := by
  refine reached.invariant (Attending target) ?_ ?_
  · refine ⟨start_standing num0 num1, ⟨List.nodup_nil, fun d => ?_⟩, fun returned => by cases returned⟩
    simp [start, reported]
  intro config next thread attending awaited fired
  have step : Standing target Own next ∧ Effect target Own config next := by
    cases thread with
    | none =>
        refine attending.standing.main_step fits few (fun i _ _ => rfl) ?_ fired
        intro i threadNum here _ _ k place inLoop isThere unread
        simp only [Awaited, here] at awaited
        have read := of_allCreated awaited inLoop isThere
        simp [unread] at read
    | some k => exact attending.standing.factor_step fired
  refine ⟨step.1, attending.told.step step.2, fun returned k place isThere => ?_⟩
  obtain ⟨rfl, ⟨i, threadNum, here, beyond⟩, same⟩ := exists_of_returned few attending.standing fired returned
  obtain ⟨mainPlace, isMain, _, created⟩ := attending.standing.main
  rw [same k] at isThere
  have inLoop : 2 ≤ k ∧ k < i := by
    rw [isMain] at here
    obtain rfl : mainPlace = .forTest i threadNum := by simpa using here
    exact (created k).mp (by rw [isThere]; rfl)
  have notAgain : ¬ i ≤ target / 2 := not_le.mpr beyond
  simp only [Awaited, here, notAgain, decide_false, Bool.false_or] at awaited
  exact of_decide_eq_true (of_allCreated awaited inLoop.2 isThere)

/-- When main has waited for its threads, they have printed each divisor once. -/
theorem Attending.reports (attending : Attending target config) (returned : Returned config) :
    Reports target config := by
  refine (List.perm_ext_iff_of_nodup attending.told.once (factors_nodup target)).mpr fun d => ?_
  obtain ⟨place, isMain, _, created⟩ := attending.standing.main
  obtain rfl : place = .done := by simpa [isMain, Returned] using returned
  rw [attending.told.told, mem_factors]
  constructor
  · rintro ⟨k, rfl, divides, done⟩
    obtain ⟨lower, upper⟩ := (created k).mp (by rw [done]; rfl)
    exact ⟨k, rfl, lower, upper, divides⟩
  · rintro ⟨k, rfl, lower, upper, divides⟩
    obtain ⟨place, isThere⟩ := Option.isSome_iff_exists.mp ((created k).mpr ⟨lower, upper⟩)
    exact ⟨k, rfl, divides, by rw [isThere, attending.ended returned k place isThere]⟩

section Hurried
variable {num0 num1 : Int}

/-- Main makes an access in a process that has not ended. -/
theorem reachable_access {place : MainPlace} {update : Memory → Memory × Place}
    (reached : Reachable (fire target numThreads) Free (start num0 num1) config)
    (here : config.place none = some (.main place)) (instr : main target numThreads place = .access update) :
    Reachable (fire target numThreads) Free (start num0 num1)
      ((config.setMemory (update config.memory).1).setPlace none (update config.memory).2) := by
  refine reached.step none trivial ?_
  have running : ¬ Returned config := by
    intro returned
    obtain rfl : place = .done := by simpa [here, Returned] using returned
    cases instr
  rw [fire, if_neg running]
  exact fire_access _ here instr

/-- Main creates a thread in a process that has not ended. -/
theorem reachable_create {i : Nat} {threadNum : Int}
    (reached : Reachable (fire target numThreads) Free (start num0 num1) config)
    (here : config.place none = some (.main (.create i threadNum))) :
    Reachable (fire target numThreads) Free (start num0 num1)
      ((config.setPlace (some i) (.factor .readTarget)).setPlace none
        (.main (.forTest (i + 1) (threadNum + 1)))) := by
  refine reached.step none trivial ?_
  have running : ¬ Returned config := by
    intro returned
    simp [here, Returned] at returned
  rw [fire, if_neg running]
  exact fire_create _ here rfl

/-- One round of the loop of main, while no other thread moves. -/
theorem exists_round {i : Nat} {threadNum : Int} (again : i ≤ target / 2)
    (reached : Reachable (fire target numThreads) Free (start num0 num1) config)
    (here : config.place none = some (.main (.forTest i threadNum)))
    (silent : reported config.memory.output = []) :
    ∃ after threadNum', Reachable (fire target numThreads) Free (start num0 num1) after ∧
      after.place none = some (.main (.forTest (i + 1) threadNum')) ∧ reported after.memory.output = [] := by
  have tested := reachable_access reached here rfl
  rw [if_pos again] at tested
  have set := reachable_access tested (Config.place_setPlace_self _ _ _) rfl
  have chosen := reachable_access set (Config.place_setPlace_self _ _ _) rfl
  have printed := reachable_access chosen (Config.place_setPlace_self _ _ _) rfl
  have created := reachable_create printed (Config.place_setPlace_self _ _ _)
  exact ⟨_, _, created, Config.place_setPlace_self _ _ _, by simpa using silent⟩

/-- Main can reach the end of the process before any thread has printed. -/
theorem exists_silent_of_forTest {i : Nat} {threadNum : Int}
    (reached : Reachable (fire target numThreads) Free (start num0 num1) config)
    (here : config.place none = some (.main (.forTest i threadNum)))
    (silent : reported config.memory.output = []) :
    ∃ final, Reachable (fire target numThreads) Free (start num0 num1) final ∧ Returned final ∧
      reported final.memory.output = [] := by
  induction rounds : target / 2 + 1 - i generalizing i threadNum config with
  | zero =>
      have beyond : ¬ i ≤ target / 2 := by omega
      have returned := reachable_access reached here rfl
      rw [if_neg beyond] at returned
      exact ⟨_, returned, Config.place_setPlace_self _ _ _, silent⟩
  | succ rounds inductionHypothesis =>
      obtain ⟨after, threadNum', reached, here, silent⟩ := exists_round (by omega) reached here silent
      exact inductionHypothesis reached here silent (by omega)

theorem exists_silent (few : 1 ≤ numThreads ∧ numThreads ≤ 50) :
    ∃ final, Reachable (fire target numThreads) Free (start num0 num1) final ∧ Returned final ∧
      reported final.memory.output = [] := by
  have good : ¬ (numThreads > 50 ∨ numThreads < 1) := by omega
  have started : (start num0 num1).place none = some (.main .checkThreads) := rfl
  have reached : Reachable (fire target numThreads) Free (start num0 num1) (start num0 num1) := .refl
  have checked := reachable_access reached started rfl
  rw [if_neg good] at checked
  have set := reachable_access checked (Config.place_setPlace_self _ _ _) rfl
  exact exists_silent_of_forTest set (Config.place_setPlace_self _ _ _) rfl

end Hurried

end

/-- No run prints a number that is not a divisor. When main waits for its threads, the divisors are printed once
each. All runs print all divisors exactly when there are none. -/
theorem factoring_reports (target : Nat) (numThreads num0 num1 : Int) (fits : target < 2147483648)
    (few : 1 ≤ numThreads ∧ numThreads ≤ 50) :
    (∀ config, Reachable (fire target numThreads) Free (start num0 num1) config →
      ∀ d ∈ reported config.memory.output, d ∈ factors target) ∧
      (∀ config, Reachable (fire target numThreads) (Awaited target) (start num0 num1) config →
        (reported config.memory.output).Nodup ∧ (Returned config → Reports target config)) ∧
      ((∀ config, Reachable (fire target numThreads) Free (start num0 num1) config → Returned config →
        Reports target config) ↔ ∀ d, 2 ≤ d → d ≤ target / 2 → ¬ d ∣ target) := by
  refine ⟨fun config reached => (tested fits few reached).2, fun config reached => ?_,
    fun all d lower upper divides => ?_,
    fun none config reached _ => ?_⟩
  · have attending := attending fits few reached
    exact ⟨attending.told.once, attending.reports⟩
  · obtain ⟨final, reached, returned, silent⟩ := exists_silent few
    have reports := all final reached returned
    rw [Reports, silent] at reports
    have member : (d : Int) ∈ factors target := mem_factors.mpr ⟨d, rfl, lower, upper, divides⟩
    rw [reports.nil_eq.symm] at member
    cases member
  · have noFactors : factors target = [] := by
      refine List.eq_nil_iff_forall_not_mem.mpr fun d member => ?_
      obtain ⟨i, _, lower, upper, divides⟩ := mem_factors.mp member
      exact none i lower upper divides
    have silent : reported config.memory.output = [] := by
      refine List.eq_nil_iff_forall_not_mem.mpr fun d member => ?_
      have isFactor := (tested fits few reached).2 d member
      rw [noFactors] at isFactor
      cases isFactor
    rw [Reports, silent, noFactors]

/-- Main creates the thread for 2, this thread returns, and then main returns. -/
def patient : List Thread := List.replicate 7 none ++ List.replicate 3 (some 2) ++ [none]

/-- With one thread for the target 4 and a main that waits for it, the divisor 2 is printed once. -/
theorem four_reported : ∃ config, Reachable (fire 4 1) (Awaited 4) (start 0 0) config ∧ Returned config ∧
    Reports 4 config := by
  obtain ⟨config, reached, returned⟩ := exists_reachable (fire 4 1) (Awaited 4) (start 0 0) patient
    (fun config => decide (Returned config)) (by decide)
  have reports := (factoring_reports 4 1 0 0 (by decide) (by decide)).2.1 config reached
  exact ⟨config, reached, of_decide_eq_true returned, reports.2 (of_decide_eq_true returned)⟩

/-- Main returns before the thread for 2 has printed. -/
def hurried : List Thread := List.replicate 8 none

/-- Main overwrites 2 by 3 before the thread for 2 has read it. -/
def overwritten : List Thread := List.replicate 12 none ++ List.replicate 3 (some 2) ++ List.replicate 3
    (some 3) ++ [none]

/-- The divisor 2 of 4 is not printed, and for 6 the divisor 3 is printed twice and 2 is not printed. -/
theorem factors_missed :
    (∃ config, Reachable (fire 4 1) Free (start 0 0) config ∧ Returned config ∧
      reported config.memory.output = [] ∧
      ¬ Reports 4 config) ∧
      ∃ config, Reachable (fire 6 2) Free (start 0 0) config ∧ Returned config ∧
        reported config.memory.output = [3, 3] ∧ ¬ Reports 6 config := by
  obtain ⟨early, earlyReached, earlyHolds⟩ := exists_reachable (fire 4 1) Free (start 0 0) hurried
    (fun config => decide (Returned config ∧ reported config.memory.output = [] ∧ ¬ Reports 4 config)) (by decide)
  obtain ⟨late, lateReached, lateHolds⟩ := exists_reachable (fire 6 2) Free (start 0 0) overwritten
    (fun config => decide (Returned config ∧ reported config.memory.output = [3, 3] ∧ ¬ Reports 6 config))
      (by decide)
  exact ⟨⟨early, earlyReached, of_decide_eq_true earlyHolds⟩, late, lateReached, of_decide_eq_true lateHolds⟩

end OSLabs.Factoring
