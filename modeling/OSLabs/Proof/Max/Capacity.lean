import OSLabs.Construction.Max
import OSLabs.Proof.Pthread.Local
import OSLabs.Proof.Pthread.Tally
import OSLabs.Proof.Pthread.Frame

namespace OSLabs.Max
open Pthread

namespace Place

/-- The thread has written its increment and not yet its decrement. -/
def counted : Place → Bool
  | .wall .wallTest | .wall .condWait | .wall .unlockWall | .critical => true
  | .free .unlockFree => false
  | .free _ => true
  | _ => false

/-- The thread has passed its test and not yet written its decrement. -/
def passed : Place → Bool
  | .wall .unlockWall | .critical => true
  | .free .unlockFree => false
  | .free _ => true
  | _ => false

/-- The thread has not yet called `freeThread`. -/
def early : Place → Bool
  | .wall _ | .critical => true
  | _ => false

/-- The wait of a thread continues here. -/
def isWallTest : Place → Bool
  | .wall .wallTest => true
  | _ => false

end Place

/-- These places hold these mutexes. -/
def held : Place → Mutex → Bool
  | .wall .lockWall => fun _ => false
  | .wall _ => fun mutex => mutex = .lock
  | .free .lockFree => fun _ => false
  | .free _ => fun mutex => mutex = .lock2
  | .critical | .done => fun _ => false

/-- Each wait continues at the test of the wall. -/
def Tests {T : Type} (_ : T) (status : Status Place Mutex Cond) (_ : Memory) : Prop :=
  match status with
  | .ready _ => True
  | .blocked _ _ place | .woken _ place => place = .wall .wallTest

/-- The counter and the pending reads are at least the number of counted threads, and few threads have passed. -/
structure Counts {T : Type} [Fintype T] (places : T → Place) (memory : Memory) : Prop where
  counter : ∑ t, indicator Place.counted t (places t) ≤ memory.numberAtWall
  entering : ∀ t value, places t = .wall (.enterWrite value) → ∑ t, indicator Place.counted t (places t) ≤ value
  leaving : ∀ t value, places t = .free (.leaveWrite value) → ∑ t, indicator Place.counted t (places t) ≤ value
  passed : ∑ t, indicator Place.passed t (places t) ≤ 3

section
variable {T : Type}

theorem code_respects (t : T) (place : Place) : (code t place).Respects held place := by
  cases place with
  | wall place =>
      cases place with
      | lockWall | unlockWall =>
          funext mutex
          cases mutex <;> rfl
      | wallTest =>
          intro before after next effect
          cases effect
          split <;> rfl
      | enterRead | enterWrite value =>
          intro before after next effect
          cases effect
          rfl
      | condWait => exact ⟨rfl, rfl⟩
  | free place =>
      cases place with
      | lockFree | unlockFree =>
          funext mutex
          cases mutex <;> rfl
      | leaveRead | leaveWrite value =>
          intro before after next effect
          cases effect
          rfl
      | signalWall => rfl
  | critical =>
      intro before after next effect
      cases effect
      rfl
  | done => trivial

/-- A thread that has passed is counted. -/
theorem counted_of_passed (place : Place) (passed : place.passed = true) : place.counted = true := by
  cases place with
  | wall place => cases place <;> first | rfl | cases passed
  | free place => cases place <;> first | rfl | cases passed
  | critical => rfl
  | done => cases passed

theorem start_counts [Fintype T] : Counts (start : State T).places (start : State T).memory := by
  refine ⟨?_, nofun, nofun, ?_⟩ <;> simp [start, Config.places, indicator, Place.counted, Place.passed]

/-- At most three threads are inside while no increment is lost. -/
theorem inside_le_of_counts [Fintype T] {config : State T} (counts : Counts config.places config.memory) :
    config.number (fun _ => Place.inside) ≤ 3 := by
  have inside : ∑ t, indicator Place.inside t (config.places t) ≤ ∑ t, indicator Place.passed t
      (config.places t) := by
    apply sum_indicator_le
    intro place within
    cases place <;> first | rfl | cases within
  have number : ∑ t, indicator Place.inside t (config.places t) = config.number fun _ => Place.inside :=
    tally_weigh _ config
  have few := counts.passed
  omega

theorem start_owned : Owned (fun _ => held) (start : State T) :=
  ⟨fun mutex t => by simp [start, Status.holds, held], fun t => trivial⟩

variable [DecidableEq T] [Fintype T] {allowed : History T Memory Place Mutex Cond → State T → T → Prop}
  {history : History T Memory Place Mutex Cond} {config : State T}

theorem owned (reached : Run code start allowed history config) : Owned (fun _ => held) config := by
  refine reached.owned code_respects start_owned ?_
  intro _ _ t place mutex next _ _ _ unlocks unheld
  cases place with
  | wall place => cases place <;> cases unlocks; cases unheld
  | free place => cases place <;> cases unlocks; cases unheld
  | critical | done => cases unlocks

theorem tests (reached : Run code start allowed history config) : Everywhere Tests config := by
  intro t
  have resumes := reached.resumes (fun _ => ⟨_, rfl⟩) t
  have waits : ∀ there cond mutex place, code t there = .wait cond mutex place → place = .wall .wallTest := by
    intro there cond mutex place instr
    cases there with
    | wall there => cases there <;> cases instr; rfl
    | free there => cases there <;> cases instr
    | critical | done => cases instr
  cases status : config.status t with
  | ready place => trivial
  | blocked cond mutex place =>
      rw [status] at resumes
      obtain ⟨there, instr⟩ := resumes
      exact waits there cond mutex place instr
  | woken mutex place =>
      rw [status] at resumes
      obtain ⟨there, cond, instr⟩ := resumes
      exact waits there cond mutex place instr

/-- A thread that is not at the test of the wall runs. -/
theorem ready_of_not_isWallTest (reached : Run code start allowed history config) {t : T}
    (elsewhere : (config.status t).place.isWallTest = false) :
    config.status t = .ready (config.status t).place := by
  have test := tests reached t
  cases status : config.status t with
  | ready place => rfl
  | blocked cond mutex place | woken mutex place =>
      rw [status] at test elsewhere
      cases test
      cases elsewhere

/-- A thread at another write of an increment is the thread itself. -/
theorem enterWrite_unique (reached : Run code start allowed history config) {t other : T} {value read : Int}
    (here : config.status t = .ready (.wall (.enterWrite value)))
    (there : config.places other = .wall (.enterWrite read)) : other = t := by
  rw [Config.places] at there
  have ready := ready_of_not_isWallTest reached (t := other) (by rw [there]; rfl)
  rw [there] at ready
  have mine : (config.status t).holds held .lock = true := by
    rw [here]
    rfl
  have taken : (config.status other).holds held .lock = true := by
    rw [ready]
    rfl
  exact (owned reached).unique taken mine

/-- A thread that moves on without a write or a new pending read keeps the counts. -/
theorem Counts.move {places : T → Place} {memory : Memory} {t : T} {next : Place} (counts : Counts places memory)
    (counted : next.counted = (places t).counted)
    (entering : ∀ value, next = .wall (.enterWrite value) → memory.numberAtWall ≤ value)
    (leaving : ∀ value, next = .free (.leaveWrite value) → memory.numberAtWall ≤ value)
    (passed : next.passed = (places t).passed ∨ memory.numberAtWall ≤ 3) :
    Counts (Function.update places t next) memory := by
  have same : ∑ other, indicator Place.counted other (Function.update places t next other) =
      ∑ other, indicator Place.counted other (places other) := by
    rw [sum_update]
    simp [indicator, counted]
  refine ⟨?_, fun other value there => ?_, fun other value there => ?_, ?_⟩
  · rw [same]
    exact counts.counter
  · rw [same]
    by_cases hit : other = t
    · subst hit
      rw [Function.update_self] at there
      exact le_trans counts.counter (entering value there)
    · rw [Function.update_of_ne hit] at there
      exact counts.entering other value there
  · rw [same]
    by_cases hit : other = t
    · subst hit
      rw [Function.update_self] at there
      exact le_trans counts.counter (leaving value there)
    · rw [Function.update_of_ne hit] at there
      exact counts.leaving other value there
  · rcases passed with kept | few
    · rw [sum_update]
      simp only [indicator, kept, sub_add_cancel]
      exact counts.passed
    · calc ∑ other, indicator Place.passed other (Function.update places t next other)
          ≤ ∑ other, indicator Place.counted other (Function.update places t next other) :=
            sum_indicator_le counted_of_passed _
        _ = ∑ other, indicator Place.counted other (places other) := same
        _ ≤ memory.numberAtWall := counts.counter
        _ ≤ 3 := few

/-- Every step keeps the counts, provided that no increment is written while a decrement is pending. -/
theorem counts_step (reached : Run code start allowed history config) (counts : Counts config.places config.memory)
    {t : T} {place next : Place} {after : Memory} (here : config.status t = .ready place)
    (effect : (code t place).effect config.memory = some (after, next))
    (quiet : place.isEnterWrite = true → ∀ other, (config.places other).isLeaveWrite = false) :
    Counts (Function.update config.places t next) after := by
  have located := Config.places_of_ready here
  cases place with
  | wall place =>
      cases place with
      | enterRead =>
          cases effect
          refine counts.move (by rw [located]; rfl) (fun value same => ?_) (by simp) (.inl (by rw [located]; rfl))
          cases same
          exact le_rfl
      | enterWrite value =>
          cases effect
          have entered :
            ∑ other, indicator Place.counted other (Function.update config.places t (.wall .wallTest) other) =
              ∑ other, indicator Place.counted other (config.places other) + 1 := by
            rw [sum_update, located]
            simp [indicator, Place.counted]
          have waiting := counts.entering t value located
          refine ⟨?_, fun other read there => ?_, fun other read there => ?_, ?_⟩
          · rw [entered]
            show _ ≤ value + 1
            omega
          · exfalso
            by_cases hit : other = t
            · subst hit
              rw [Function.update_self] at there
              cases there
            · rw [Function.update_of_ne hit] at there
              exact hit (enterWrite_unique reached here there)
          · exfalso
            by_cases hit : other = t
            · subst hit
              rw [Function.update_self] at there
              cases there
            · rw [Function.update_of_ne hit] at there
              have none := quiet rfl other
              rw [there] at none
              cases none
          · rw [sum_update, located]
            simpa [indicator, Place.passed] using counts.passed
      | wallTest =>
          cases effect
          by_cases full : config.memory.numberAtWall > 3
          · simp only [full, ↓reduceIte]
            exact counts.move (by rw [located]; rfl) (by simp) (by simp) (.inl (by rw [located]; rfl))
          · simp only [full, ↓reduceIte]
            exact counts.move (by rw [located]; rfl) (by simp) (by simp) (.inr (by omega))
      | lockWall | condWait | unlockWall =>
          cases effect
          exact counts.move (by rw [located]; rfl) (by simp) (by simp) (.inl (by rw [located]; rfl))
  | free place =>
      cases place with
      | leaveRead =>
          cases effect
          refine counts.move (by rw [located]; rfl) (by simp) (fun value same => ?_) (.inl (by rw [located]; rfl))
          cases same
          exact le_rfl
      | leaveWrite value =>
          cases effect
          have left :
            ∑ other, indicator Place.counted other (Function.update config.places t (.free .unlockFree) other) =
              ∑ other, indicator Place.counted other (config.places other) - 1 := by
            rw [sum_update, located]
            simp [indicator, Place.counted]
          have waiting := counts.leaving t value located
          refine ⟨?_, fun other read there => ?_, fun other read there => ?_, ?_⟩
          · rw [left]
            show _ ≤ value - 1
            omega
          · rw [left]
            by_cases hit : other = t
            · subst hit
              rw [Function.update_self] at there
              cases there
            · rw [Function.update_of_ne hit] at there
              have before := counts.entering other read there
              omega
          · rw [left]
            by_cases hit : other = t
            · subst hit
              rw [Function.update_self] at there
              cases there
            · rw [Function.update_of_ne hit] at there
              have before := counts.leaving other read there
              omega
          · rw [sum_update, located]
            have before := counts.passed
            simp [indicator, Place.passed] at before ⊢
            omega
      | lockFree | signalWall | unlockFree =>
          cases effect
          exact counts.move (by rw [located]; rfl) (by simp) (by simp) (.inl (by rw [located]; rfl))
  | critical =>
      cases effect
      exact counts.move (by rw [located]; rfl) (by simp) (by simp) (.inl (by rw [located]; rfl))
  | done => cases effect

theorem counts_of_noLostIncrement (reached : Run code start (fun _ => NoLostIncrement) history config) :
    Counts config.places config.memory := by
  refine reached.placed (fun _ places memory => Counts places memory) start_counts (fun _ _ _ counts _ =>
    counts) ?_
  intro _ config t place after next before counts permitted here effect
  refine counts_step before counts here effect fun writes => ?_
  exact permitted (by rw [here]; exact writes)

/-- While no thread has called `freeThread`, no decrement is pending. -/
theorem counts_of_early (reached : Run code start allowed history config)
    (early : ∀ t, (config.places t).early = true) : Counts config.places config.memory := by
  refine reached.placed (fun _ places memory => (∀ t : T, (places t).early = true) → Counts places memory)
    ?_ ?_ ?_ early
  · intro _
    exact start_counts
  · intro _ _ _ counts _
    exact counts
  · intro _ config t place after next before counts _ here effect early
    have located := Config.places_of_ready here
    have started : ∀ other, (config.places other).early = true := by
      intro other
      have later := early other
      by_cases hit : other = t
      · subst hit
        rw [Function.update_self] at later
        rw [located]
        cases place with
        | wall place => rfl
        | critical => rfl
        | free place => cases place <;> cases effect <;> cases later
        | done => cases effect
      · rwa [Function.update_of_ne hit] at later
    refine counts_step before (counts started) here effect fun _ other => ?_
    have before := started other
    cases there : config.places other with
    | free inner =>
        rw [there] at before
        cases before
    | wall inner | critical | done => rfl

end

/-- The last of five threads overwrites the increments of two others, and four threads are inside. -/
theorem exists_four_of_five : ∃ config, Reachable code (start : State (Fin 5)) config ∧
    config.number (fun _ => Place.inside) = 4 := by
  obtain ⟨config, reached, holds⟩ := exists_reachable code (start : State (Fin 5))
    (turns 9 4 ++ turns 5 0 ++ turns 5 1 ++ turns 2 4 ++ turns 5 2 ++ turns 5 3)
    (fun config => decide (config.number (fun _ => Place.inside) = 4)) (by decide)
  exact ⟨config, reached, of_decide_eq_true holds⟩

section
variable {T : Type} [DecidableEq T] [Fintype T]

/-- Five threads of a larger system can do the same. -/
theorem exists_four_inside (many : 5 ≤ Fintype.card T) : ∃ config, Reachable code (start : State T) config ∧
    3 < config.number (fun _ => Place.inside) := by
  obtain ⟨embed⟩ : Nonempty (Fin 5 ↪ T) := Function.Embedding.nonempty_of_card_le (by simpa using many)
  obtain ⟨small, ⟨inner, run⟩, four⟩ := exists_four_of_five
  have frames : Frames embed (start : State T).status (start : State (Fin 5)) start :=
    ⟨rfl, fun _ => rfl, fun _ => rfl, fun _ _ => rfl, fun _ _ => rfl⟩
  have begun : Run code (start : State T) (fun _ _ _ => True) [] start := .start
  obtain ⟨later, config, reached, frames⟩ := frames.run embed.injective (fun _ _ _ _ _ => trivial) begun run
  have more := frames.number_le embed.injective Place.inside
  exact ⟨config, ⟨later, reached⟩, by omega⟩

/-- At most three threads are inside in every run in which no increment is lost.
With arbitrary interleavings they are inside in every reachable configuration exactly when there are at most
four threads. -/
theorem capacity_iff :
    (∀ history config, Run code (start : State T) (fun _ => NoLostIncrement) history config →
      config.number (fun _ => Place.inside) ≤ 3) ∧
    ((∀ config, Reachable code (start : State T) config → config.number (fun _ => Place.inside) ≤ 3) ↔
      Fintype.card T ≤ 4) := by
  refine ⟨fun history config reached => inside_le_of_counts (counts_of_noLostIncrement reached),
    fun limit => ?_, ?_⟩
  · by_contra many
    obtain ⟨config, reachable, crowded⟩ := exists_four_inside (by omega : 5 ≤ Fintype.card T)
    have few := limit config reachable
    omega
  · rintro few config ⟨history, reached⟩
    by_contra crowded
    have most : config.number (fun _ => Place.inside) ≤ Fintype.card T := Finset.card_le_univ _
    have all : ∀ t, (config.status t).place.inside = true := by
      apply (tally_indicator_eq_univ_iff Place.inside).mp
      have number : tally (indicator Place.inside) config = config.number fun _ => Place.inside :=
        tally_weigh _ config
      omega
    refine crowded (inside_le_of_counts (counts_of_early reached fun t => ?_))
    have inside := all t
    rw [Config.places]
    cases place : (config.status t).place with
    | critical => rfl
    | wall inner => rfl
    | free inner | done =>
        rw [place] at inside
        cases inside

end

/-- Of five threads, four are inside together. -/
theorem capacity_fails : ∃ config, Reachable code (start : State (Fin 5)) config ∧
    ¬ config.number (fun _ => Place.inside) ≤ 3 := by
  obtain ⟨config, reachable, four⟩ := exists_four_of_five
  exact ⟨config, reachable, by omega⟩

end OSLabs.Max
