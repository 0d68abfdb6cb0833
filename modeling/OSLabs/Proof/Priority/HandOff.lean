import OSLabs.Proof.Priority.Exclusion

namespace OSLabs.Priority
open Pthread

/-- The thread is in the body of the admission loop. -/
def Place.inBody : Place → Bool
  | .innerTest | .condWait | .breakTest => true
  | _ => false

/-- The holder of `lock` knows that an empty section has no counted waiter when it arrives,
and that it may enter when it leaves the inner loop. -/
def Queued {T : Type} (num : T → Int) (t : T) (status : Status Place Mutex Cond) (memory : Memory) : Prop :=
  match status with
  | .ready .arrive | .ready .outerTest => memory.inCrit = 0 → memory.waiting ≤ 0
  | .ready .breakTest => memory.inCrit = 0 ∧ (num t = memory.highestPriority ∨ memory.waiting ≤ 1)
  | .ready _ => True
  | .blocked _ _ place | .woken _ place => place = .innerTest

theorem queued_stable {T : Type} (num : T → Int) (t : T) (status : Status Place Mutex Cond)
    (memory memory' : Memory) (free : status.holds held .lock = false) (queued : Queued num t status memory) :
    Queued num t status memory' := by
  cases status with
  | ready place => cases place <;> trivial
  | blocked cond mutex place => exact queued
  | woken mutex place => exact queued

/-- The counter `waiting` is the number of threads in the loop body, and one more while an
arriving thread has been counted and is not yet in the body. -/
def Counts {T : Type} [Fintype T] (config : State T) : Prop :=
  ((∀ t, config.status t ≠ .ready .outerTest) →
    config.memory.waiting = tally (indicator Place.inBody) config) ∧
  ∀ t, config.status t = .ready .outerTest →
    (config.memory.inCrit = 0 ∧ config.memory.waiting = tally (indicator Place.inBody) config) ∨
    (config.memory.inCrit ≠ 0 ∧ config.memory.waiting = tally (indicator Place.inBody) config + 1)

theorem counts_of_none {T : Type} [Fintype T] {config : State T} (none : ∀ t, config.status t ≠ .ready .outerTest)
    (equal : config.memory.waiting = tally (indicator Place.inBody) config) : Counts config :=
  ⟨fun _ => equal, fun t here => absurd here (none t)⟩

/-- While one thread holds `lock`, no other thread is at the outer test. -/
theorem no_other_outerTest {T : Type} {config : State T} (owned : Owned (fun _ => held) config) {t : T}
    {place : Place}
    (here : config.status t = .ready place) (holds : held place .lock = true) :
    ∀ other, other ≠ t → config.status other ≠ .ready .outerTest := by
  intro other different there
  exact absurd (owned.outside here holds different there) (by decide)

theorem no_outerTest_of_free {T : Type} {config : State T} (owned : Owned (fun _ => held) config)
    (free : config.owner .lock = none) (t : T) :
    config.status t ≠ .ready .outerTest := by
  intro here
  have unheld := owned.free free t
  rw [here] at unheld
  exact absurd unheld (by decide)

/-- A thread that moves to another place leaves no thread at the outer test. -/
theorem no_outerTest_update {T : Type} [DecidableEq T] {statuses : T → Status Place Mutex Cond} {t : T}
    {status : Status Place Mutex Cond} (different : status ≠ .ready .outerTest)
    (others : ∀ other, other ≠ t → statuses other ≠ .ready .outerTest) :
    ∀ other, Function.update statuses t status other ≠ .ready .outerTest :=
  (Function.forall_update_iff statuses fun _ status => status ≠ .ready .outerTest).mpr ⟨different, others⟩

/-- The places at which a thread can be in the gap between a departure and the next entry. -/
def Place.InGap (waiter : Prop) : Place → Prop
  | .lockEntry | .wakeWaiters | .unlockExit | .done => ¬ waiter
  | .innerTest | .condWait | .breakTest => waiter
  | _ => False

/-- Between a departure and the next entry the section is empty and the loop keeps its threads. -/
def Gap {T : Type} (waiters : T → Prop) (config : State T) : Prop :=
  config.memory.inCrit = 0 ∧ ∀ t, (config.status t).place.InGap (waiters t)

/-- The waiter with the highest number is about to enter. -/
def Chosen {T : Type} (num : T → Int) (waiters : T → Prop) (config : State T) : Prop :=
  ∃ t, config.status t = .ready .enter ∧ waiters t ∧ ∀ other, waiters other → num other ≤ num t

/-- One thread that moves inside the gap keeps it. -/
theorem Gap.move {T : Type} {waiters : T → Prop} {config after : State T} (gap : Gap waiters config) (t : T)
    (empty : after.memory.inCrit = 0) (mine : (after.status t).place.InGap (waiters t))
    (others : ∀ other, other ≠ t → (after.status other).place = (config.status other).place) :
    Gap waiters after := by
  refine ⟨empty, fun other => ?_⟩
  by_cases same : other = t
  · subst same
    exact mine
  · rw [others other same]
    exact gap.2 other

/-- In the gap the waiters are in the loop body. -/
theorem Gap.inBody {T : Type} {waiters : T → Prop} {config : State T} (gap : Gap waiters config) {t : T}
    (waiter : waiters t) : (config.status t).place.inBody = true := by
  have inGap := gap.2 t
  generalize (config.status t).place = place at inGap ⊢
  cases place with
  | innerTest | condWait | breakTest => rfl
  | lockEntry | wakeWaiters | unlockExit | done => exact absurd waiter inGap
  | _ => exact inGap.elim

section
variable {T : Type} [DecidableEq T] [Fintype T] {num : T → Int}
  {allowed : History T Memory Place Mutex Cond → State T → T → Prop}
  {history : History T Memory Place Mutex Cond} {config : State T}

/-- The value of `highestPriority` bounds the number of each thread in the loop. -/
theorem num_le_highestPriority (reached : Run (code num) start allowed history config) {t : T}
    (body : (config.status t).place.inBody = true) : num t ≤ config.memory.highestPriority := by
  suffices all : Everywhere (fun t status memory =>
      status.place.inBody = true → num t ≤ memory.highestPriority) config from all t body
  refine Run.everywhere _ ?_ ?_ ?_ ?_ reached
  · exact fun t => nofun
  · intro t cond mutex place memory bound
    exact bound
  · intro t mutex place memory bound
    exact bound
  · intro history config t place before all _ here
    have mine := all t
    rw [here] at mine
    cases place with
    | arrive =>
        intro after next effect
        cases effect
        refine ⟨nofun, fun other _ body => (all other body).trans ?_⟩
        split <;> exact le_refl _
    | outerTest =>
        intro after next effect
        simp only at effect
        split at effect <;> cases effect
        · refine ⟨fun _ => ?_, fun other _ body => (all other body).trans ?_⟩
          · split
            · exact le_refl _
            · omega
          · split
            · dsimp only
              omega
            · exact le_refl _
        · exact ⟨nofun, fun other _ => all other⟩
    | innerTest =>
        intro after next effect
        cases effect
        exact ⟨fun _ => mine rfl, fun other _ => all other⟩
    | breakTest =>
        intro after next effect
        simp only at effect
        split at effect <;> cases effect
        all_goals exact ⟨nofun, fun other _ => all other⟩
    | enter | leave =>
        intro after next effect
        cases effect
        exact ⟨nofun, fun other _ => all other⟩
    | lockEntry | lockExit =>
        intro _
        exact nofun
    | condWait => exact fun _ => mine rfl
    | unlockEntry | unlockExit | wakeWaiters => exact nofun
    | done => trivial

/-- The side condition of the hand-off law: no thread takes `lock` for the first time
while the section is empty and `waiting` is not zero. -/
def NoBarging (config : State T) (t : T) : Prop :=
  config.status t = .ready .lockEntry → ¬ (config.memory.inCrit = 0 ∧ config.memory.waiting ≠ 0)

theorem queued (reached : Run (code num) start (fun _ => NoBarging) history config) :
    Everywhere (Queued num) config := by
  refine Run.everywhere (Queued num) ?_ ?_ ?_ ?_ reached
  · intro t
    trivial
  · intro t cond mutex place memory queued
    exact queued
  · rintro t mutex place memory rfl
    trivial
  · intro history config t place before all orderly here
    have mine := all t
    rw [here] at mine
    have others := fun holds memory other (different : other ≠ t) =>
      all.undisturbed (owned before) (queued_stable num) here holds memory different
    cases place with
    | lockEntry =>
        intro _
        have := orderly here
        simp only [Queued]
        omega
    | arrive =>
        intro after next effect
        refine ⟨?_, others rfl after⟩
        cases effect
        simp only [Queued] at mine ⊢
        split
        · dsimp only
          omega
        · exact mine
    | outerTest =>
        intro after next effect
        refine ⟨?_, others rfl after⟩
        simp only at effect
        split at effect <;> cases effect <;> trivial
    | innerTest =>
        intro after next effect
        refine ⟨?_, others rfl after⟩
        simp only at effect
        split at effect <;> cases effect
        · trivial
        · simp only [Queued]
          omega
    | breakTest =>
        intro after next effect
        refine ⟨?_, others rfl after⟩
        simp only [Queued] at mine
        simp only at effect
        split at effect <;> cases effect
        · trivial
        · simp only [Queued]
          omega
    | enter | leave =>
        intro after next effect
        cases effect
        exact ⟨trivial, others rfl _⟩
    | lockExit => intro _; trivial
    | condWait => rfl
    | wakeWaiters | unlockEntry | unlockExit | done => trivial

theorem counts (reached : Run (code num) start (fun _ => NoBarging) history config) : Counts config := by
  refine Run.invariant Counts ?_ ?_ ?_ ?_ reached
  · exact counts_of_none (fun t => nofun) (tally_eq_zero fun t => rfl).symm
  · intro history config t place before counts orderly here
    have own := owned before
    have mine := queued before t
    rw [here] at mine
    have positive : 0 ≤ tally (indicator Place.inBody) config := tally_nonneg (indicator_nonneg _)
    have others := no_other_outerTest own here
    have equal (locked : held place .lock = true) (different : place ≠ .outerTest) :
        config.memory.waiting = tally (indicator Place.inBody) config := by
      apply counts.1
      intro other there
      by_cases same : other = t
      · subst same
        rw [here] at there
        exact different (Status.ready.inj there)
      · exact others locked other same there
    have moved (locked : held place .lock = true) (status : Status Place Mutex Cond)
        (different : status ≠ .ready .outerTest) (other : T) :
        Function.update config.status t status other ≠ .ready .outerTest :=
      no_outerTest_update different (others locked) other
    cases place with
    | lockEntry | lockExit =>
        intro free
        have none := no_outerTest_of_free own free
        refine counts_of_none (no_outerTest_update (by simp) fun other _ => none other) ?_
        simpa [here, indicator, Place.inBody] using counts.1 none
    | arrive =>
        intro after next effect
        have same := equal rfl (by simp)
        cases effect
        refine ⟨fun none => absurd (none t) (by simp), fun other _ => ?_⟩
        by_cases occupied : config.memory.inCrit = 0
        · simp [occupied, here, indicator, Place.inBody, same]
        · simp [occupied, here, indicator, Place.inBody, same]
    | outerTest =>
        have same := counts.2 t here
        intro after next effect
        simp only [Queued] at mine
        simp only at effect
        split at effect <;> cases effect
        · have counted : config.memory.waiting = tally (indicator Place.inBody) config + 1 := by omega
          refine counts_of_none (moved rfl _ (by simp)) ?_
          split <;> simp [here, indicator, Place.inBody, counted]
        · have uncounted : config.memory.waiting = tally (indicator Place.inBody) config := by omega
          refine counts_of_none (moved rfl _ (by simp)) ?_
          simpa [here, indicator, Place.inBody] using uncounted
    | innerTest =>
        intro after next effect
        cases effect
        refine counts_of_none (moved rfl _ ?_) ?_
        · split <;> simp
        · have same := equal rfl (by simp)
          split <;> simpa [here, indicator, Place.inBody] using same
    | breakTest =>
        intro after next effect
        have same := equal rfl (by simp)
        have counted : 1 ≤ tally (indicator Place.inBody) config := by
          have one : indicator Place.inBody t _ ≤ tally (indicator Place.inBody) config :=
            le_tally (indicator_nonneg _) t
          simpa [here, indicator, Place.inBody] using one
        simp only [Queued] at mine
        simp only at effect
        split at effect <;> cases effect
        · refine counts_of_none (moved rfl _ (by simp)) ?_
          simp [here, indicator, Place.inBody, same]
        · omega
    | enter | leave =>
        intro after next effect
        cases effect
        refine counts_of_none (moved rfl _ (by simp)) ?_
        simpa [here, indicator, Place.inBody] using equal rfl (by simp)
    | condWait | unlockEntry | unlockExit =>
        refine counts_of_none (moved rfl _ (by simp)) ?_
        simpa [here, indicator, Place.inBody] using equal rfl (by simp)
    | wakeWaiters =>
        refine counts_of_none (no_outerTest_update (by simp) fun other different => ?_) ?_
        · simpa using others rfl other different
        · simpa [here, indicator, Place.inBody] using equal rfl (by simp)
    | done => trivial
  · intro _ config t mutex place before counts here free
    cases mutex
    have none := no_outerTest_of_free (owned before) free
    have mine := queued before t
    rw [here] at mine
    cases mine
    refine counts_of_none (no_outerTest_update (by simp) fun other _ => none other) ?_
    simpa [here] using counts.1 none
  · intro _ config t cond mutex place _ counts here
    have same (other : T) : Function.update config.status t (.woken mutex place) other = .ready .outerTest ↔
        config.status other = .ready .outerTest := by
      by_cases same : other = t
      · subst same
        simp [here]
      · simp [Function.update_of_ne same]
    refine ⟨fun none => ?_, fun other there => ?_⟩
    · simpa [here] using counts.1 fun other there => none other ((same other).mpr there)
    · simpa [here] using counts.2 other ((same other).mp there)

/-- The counter `waiting` is never negative without barging. -/
theorem waiting_nonneg (reached : Run (code num) start (fun _ => NoBarging) history config) :
    0 ≤ config.memory.waiting := by
  have positive : 0 ≤ tally (indicator Place.inBody) config := tally_nonneg (indicator_nonneg _)
  have counted := counts reached
  by_cases none : ∀ t, config.status t ≠ .ready .outerTest
  · have := counted.1 none
    omega
  · push Not at none
    obtain ⟨t, here⟩ := none
    have := counted.2 t here
    omega

/-- A run without barging has at most one thread in the section. -/
theorem inCrit_le_one_of_noBarging (reached : Run (code num) start (fun _ => NoBarging) history config) :
    config.memory.inCrit ≤ 1 := by
  apply inCrit_le_one (reached.mono ?_)
  rintro _ config t before _ _ _ ⟨_, negative⟩
  have := waiting_nonneg before
  omega

/-- A departure opens the gap. -/
theorem gap_of_leave (reached : Run (code num) start (fun _ => NoBarging) history config) {t : T}
    (here : config.status t = .ready .leave) {after : State T}
    (fired : fire (code num) config (.run t) = some after) : Gap (Waits config) after := by
  have own := owned reached
  have small := inCrit_le_one_of_noBarging reached
  have equal := inCrit_eq reached
  have one : indicator Place.inside t (config.status t).place ≤ tally (indicator Place.inside) config :=
    le_tally (indicator_nonneg _) t
  simp only [here, Status.place_ready, indicator, Place.inside, ↓reduceIte] at one
  simp only [fire, here, code, thread, perform, Option.some.injEq] at fired
  subst fired
  refine ⟨?_, fun other => ?_⟩
  · simp only [Config.setStatus_memory, Config.setMemory_memory]
    omega
  · by_cases same : other = t
    · subst same
      simp [Place.InGap, Waits, here, Place.inLoop]
    · have queue := queued reached other
      simp only [Config.setStatus_status, Config.setMemory_status, Function.update_of_ne same]
      cases status : config.status other with
      | ready place =>
          have unheld : held place .lock = false := own.outside here rfl same status
          cases place with
          | lockExit =>
              rw [equal] at small
              exact same (tally_indicator_unique small (by simp [status, Place.inside])
                (by simp [here, Place.inside]))
          | lockEntry | done => simp [Place.InGap, Waits, status, Place.inLoop]
          | _ => cases unheld
      | blocked cond mutex place =>
          rw [status] at queue
          cases queue
          simp [Place.InGap, Waits, status, Place.inLoop]
      | woken mutex place =>
          rw [status] at queue
          cases queue
          simp [Place.InGap, Waits, status, Place.inLoop]

/-- In the gap the counter `waiting` is the number of the waiters. -/
theorem waiting_of_gap {waiters : T → Prop}
    (reached : Run (code num) start (fun _ => NoBarging) history config) (gap : Gap waiters config) :
    config.memory.waiting = tally (indicator Place.inBody) config := by
  apply (counts reached).1
  intro t here
  have place := gap.2 t
  rw [here] at place
  exact place

/-- The waiter that passes the last test of the loop has the highest number. -/
theorem highest_of_breakTest {waiters : T → Prop}
    (reached : Run (code num) start (fun _ => NoBarging) history config) (gap : Gap waiters config) {t : T}
    (here : config.status t = .ready .breakTest)
    (passes : num t = config.memory.highestPriority ∨ config.memory.waiting = 1) {other : T}
    (waiter : waiters other) : num other ≤ num t := by
  have body := gap.inBody waiter
  rcases passes with highest | alone
  · rw [highest]
    exact num_le_highestPriority reached body
  · rw [waiting_of_gap reached gap] at alone
    have same : other = t := tally_indicator_unique (le_of_eq alone) body (by simp [here, Place.inBody])
    rw [same]

/-- Each step in the gap that enters no thread keeps the gap or chooses the highest waiter. -/
theorem gap_or_chosen {start' : State T} {waiters : T → Prop} {earlier : History T Memory Place Mutex Cond}
    (first : Run (code num) start (fun _ => NoBarging) earlier start') (gap : Gap waiters start')
    (someone : ∃ t, waiters t)
    (reached : Run (code num) start'
      (fun _ config t => NoBarging config t ∧ config.status t ≠ .ready .enter) history config) :
    Gap waiters config ∨ Chosen num waiters config := by
  refine Run.invariant (fun config => Gap waiters config ∨ Chosen num waiters config) (.inl gap) ?_ ?_ ?_ reached
  · intro history config t place before kept permitted here
    have run := first.append (fun _ _ _ permitted => permitted.1) before
    have own := owned run
    rcases kept with gap | ⟨chosen, atEnter, waiter, highest⟩
    · have mine := gap.2 t
      rw [here] at mine
      cases place with
      | lockEntry =>
          exfalso
          apply permitted.1 here
          refine ⟨gap.1, ?_⟩
          obtain ⟨other, waiter⟩ := someone
          have body := gap.inBody waiter
          rw [waiting_of_gap run gap]
          intro zero
          rw [tally_indicator_eq_zero_iff] at zero
          rw [zero other] at body
          cases body
      | innerTest =>
          intro after next effect
          cases effect
          refine .inl (gap.move t gap.1 ?_ fun other same => by simp [Function.update_of_ne same])
          simp only [Config.setStatus_status, Function.update_self, Status.place_ready]
          split <;> exact mine
      | condWait =>
          refine .inl (gap.move t gap.1 ?_ fun other same => by simp [Function.update_of_ne same])
          simpa [Place.InGap] using mine
      | breakTest =>
          intro after next effect
          have queue := queued run t
          rw [here] at queue
          simp only at effect
          split at effect <;> cases effect
          · next passes =>
              right
              refine ⟨t, by simp, mine, fun other waiter => ?_⟩
              exact highest_of_breakTest run gap here passes waiter
          · next fails =>
              exfalso
              simp only [Queued] at queue
              have one : indicator Place.inBody t (config.status t).place ≤
                tally (indicator Place.inBody) config := le_tally (indicator_nonneg _) t
              simp only [here, Status.place_ready, indicator, Place.inBody, ↓reduceIte] at one
              rw [← waiting_of_gap run gap] at one
              omega
      | wakeWaiters =>
          refine .inl (gap.move t gap.1 ?_ fun other same => by simp [Function.update_of_ne same])
          simpa [Place.InGap] using mine
      | unlockExit =>
          refine .inl (gap.move t gap.1 ?_ fun other same => by simp [Function.update_of_ne same])
          simpa [Place.InGap] using mine
      | done => trivial
      | _ => exact mine.elim
    · have different : t ≠ chosen := by
        rintro rfl
        exact permitted.2 atEnter
      have unheld : held place .lock = false := own.outside atEnter rfl different here
      have busy : config.owner .lock ≠ none := by
        rw [(own.owner .lock chosen).mpr (by simp [Status.holds, atEnter, held])]
        simp
      cases place with
      | lockEntry | lockExit =>
          intro free
          exact absurd free busy
      | done => trivial
      | _ => cases unheld
  · intro _ config t mutex place before kept here free
    cases mutex
    have own := owned (first.append (fun _ _ _ permitted => permitted.1) before)
    rcases kept with gap | ⟨chosen, atEnter, _⟩
    · refine .inl (gap.move t gap.1 ?_ fun other same => by simp [Function.update_of_ne same])
      simpa [here] using gap.2 t
    · rw [(own.owner .lock chosen).mpr (by simp [Status.holds, atEnter, held])] at free
      cases free
  · intro _ config t cond mutex place before kept here
    rcases kept with gap | ⟨chosen, atEnter, waiter, highest⟩
    · refine .inl (gap.move t gap.1 ?_ fun other same => by simp [Function.update_of_ne same])
      simpa [here] using gap.2 t
    · have different : chosen ≠ t := by
        rintro rfl
        rw [here] at atEnter
        cases atEnter
      exact .inr ⟨chosen, by simpa [Function.update_of_ne different] using atEnter, waiter, highest⟩

/-- In a run without barging the next thread to enter after a departure that leaves waiters
is the waiter with the highest number. -/
theorem handOff_of_noBarging (num : T → Int) {departure after entry : State T} {left entering : T}
    {earlier later : History T Memory Place Mutex Cond}
    (reached : Run (code num) start (fun _ => NoBarging) earlier departure)
    (leaves : departure.status left = .ready .leave)
    (fired : fire (code num) departure (.run left) = some after)
    (someone : ∃ t, Waits departure t)
    (between : Run (code num) after
      (fun _ config t => NoBarging config t ∧ config.status t ≠ .ready .enter) later entry)
    (enters : entry.status entering = .ready .enter) :
    Waits departure entering ∧ ∀ t, Waits departure t → num t ≤ num entering := by
  have orderly : NoBarging departure left := by
    intro arrives
    rw [leaves] at arrives
    cases arrives
  have first : Run (code num) start (fun _ => NoBarging) ((departure, left) :: earlier) after :=
    .step (.run left) reached orderly fired
  have gap := gap_of_leave reached leaves fired
  have own := owned (first.append (fun _ _ _ permitted => permitted.1) between)
  rcases gap_or_chosen first gap someone between with gap | ⟨chosen, atEnter, waiter, highest⟩
  · have inGap := gap.2 entering
    rw [enters] at inGap
    exact inGap.elim
  · have same : chosen = entering := own.unique
      (by simp [Status.holds, atEnter, held] : (entry.status chosen).holds held .lock = true)
      (by simp [Status.holds, enters, held])
    subst same
    exact ⟨waiter, highest⟩

end

instance {T : Type} (config : State T) (t : T) [DecidableEq T] : Decidable (NoBarging config t) :=
  inferInstanceAs (Decidable (_ → _))

/-- Thread 0 leaves while threads 1 and 2 wait, and thread 1 with the highest number enters next. -/
theorem handOff_to_highest : ∃ (earlier later : History (Fin 4) Memory Place Mutex Cond)
    (departure after entry : State (Fin 4)),
    Run (code fourNumbers) start (fun _ => NoBarging) earlier departure ∧
      departure.status 0 = .ready .leave ∧
      fire (code fourNumbers) departure (.run 0) = some after ∧
      Run (code fourNumbers) after
        (fun _ config t => NoBarging config t ∧ config.status t ≠ .ready .enter) later entry ∧
      entry.status 1 = .ready .enter ∧ Waits departure 1 ∧ Waits departure 2 ∧
      ∀ t, Waits departure t → fourNumbers t ≤ fourNumbers 1 := by
  obtain ⟨earlier, departure, reached, holds⟩ := exists_run (code fourNumbers) start (fun _ => NoBarging)
    (turns 5 0 ++ turns 5 1 ++ turns 5 2 ++ turns 1 0)
    (fun departure => departure.status 0 = .ready .leave ∧ (departure.status 2).place.inLoop = true ∧
      (fire (code fourNumbers) departure (.run 0)).any fun after =>
        (drive (code fourNumbers)
          (fun _ config t => NoBarging config t ∧ config.status t ≠ .ready .enter) [] after
          (turns 2 0 ++ turns 3 1)).any fun final => final.2.status 1 = .ready .enter) (by decide)
  simp only [decide_eq_true_eq] at holds
  obtain ⟨leaves, waits, continues⟩ := holds
  obtain ⟨after, fired, continues⟩ := (Option.any_eq_true _ _).mp continues
  obtain ⟨final, driven, enters⟩ := (Option.any_eq_true _ _).mp continues
  rw [decide_eq_true_eq] at enters
  have between := Run.of_drive .start driven
  obtain ⟨waiter, highest⟩ := handOff_of_noBarging fourNumbers reached leaves fired ⟨2, waits⟩ between enters
  exact ⟨earlier, final.1, departure, after, final.2, reached, leaves, fired, between, enters, waiter, waits,
    highest⟩

/-- Thread 2 arrives after the departure of thread 0 and enters before the waiting thread 1. -/
theorem handOff_fails : Function.Injective fourNumbers ∧ (∀ t, 0 < fourNumbers t) ∧
    ∃ (later : History (Fin 4) Memory Place Mutex Cond) (departure after entry : State (Fin 4)),
      Reachable (code fourNumbers) start departure ∧ departure.status 0 = .ready .leave ∧
      fire (code fourNumbers) departure (.run 0) = some after ∧
      Run (code fourNumbers) after (fun _ config t => config.status t ≠ .ready .enter) later entry ∧
      Waits departure 1 ∧ entry.status 2 = .ready .enter ∧
      ¬ Waits departure 2 ∧ ¬ fourNumbers 1 ≤ fourNumbers 2 := by
  refine ⟨by decide, by decide, ?_⟩
  obtain ⟨departure, reached, holds⟩ := exists_reachable (code fourNumbers) start
    (turns 5 0 ++ turns 5 1 ++ turns 1 0)
    (fun departure => departure.status 0 = .ready .leave ∧ (departure.status 1).place.inLoop = true ∧
      ¬ (departure.status 2).place.inLoop = true ∧
      (fire (code fourNumbers) departure (.run 0)).any fun after =>
        (drive (code fourNumbers) (fun _ config t => config.status t ≠ .ready .enter) [] after
          (turns 2 0 ++ turns 5 2)).any fun final => final.2.status 2 = .ready .enter) (by decide)
  simp only [decide_eq_true_eq] at holds
  obtain ⟨leaves, waits, arrives, continues⟩ := holds
  obtain ⟨after, fired, continues⟩ := (Option.any_eq_true _ _).mp continues
  obtain ⟨final, driven, enters⟩ := (Option.any_eq_true _ _).mp continues
  rw [decide_eq_true_eq] at enters
  exact ⟨final.1, departure, after, final.2, reached, leaves, fired, Run.of_drive .start driven, waits, enters,
    arrives, by decide⟩

end OSLabs.Priority
