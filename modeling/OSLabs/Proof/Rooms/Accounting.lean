import OSLabs.Proof.Rooms.Sections
import OSLabs.Proof.Rooms.Stranding

namespace OSLabs.Rooms
open Pthread

namespace Place

/-- The customer is about to raise `num_secondWaiting`. -/
def isJoinWrite : Place → Bool
  | .second (.joinWrite _) => true
  | _ => false

/-- The customer is about to raise `num_secondRoom`. -/
def isEntryWrite : Place → Bool
  | .second (.enterWrite _) | .second (.directWrite _) => true
  | _ => false

/-- The customer is about to lower `num_secondRoom`. -/
def isLeaveWrite : Place → Bool
  | .second (.leaveWrite _) => true
  | _ => false

/-- The customer has found a place in the second room and not yet taken it. -/
def enters : Place → Bool
  | .second .enterRead | .second (.enterWrite _) | .second .directRead | .second (.directWrite _) => true
  | _ => false

/-- The customer has found a place in the waiting room and not yet taken it. -/
def joins : Place → Bool
  | .second .joinRead | .second (.joinWrite _) => true
  | _ => false

/-- The customer has found the second room full and not yet joined the waiting room. -/
def foundFull : Place → Bool
  | .second .roomTest | .second .joinRead | .second (.joinWrite _) => true
  | _ => false

/-- The customer is about to test for a free place. -/
def isFreeTest : Place → Bool
  | .second .freeTest => true
  | _ => false

/-- The customer leaves unhappy. -/
def away : Place → Bool
  | .second .turnAway | .second .unlockAway | .leftUnhappy => true
  | _ => false

end Place

section
variable {T : Type}

theorem inEntry_of_enters {place : Place} (enters : place.enters = true) : place.inEntry = true := by
  cases place with
  | second place => cases place <;> first | rfl | cases enters
  | first place | leftUnhappy | done => cases enters

theorem inEntry_of_joins {place : Place} (joins : place.joins = true) : place.inEntry = true := by
  cases place with
  | second place => cases place <;> first | rfl | cases joins
  | first place | leftUnhappy | done => cases joins

/-- Each instruction changes the sets of customers by what it writes. -/
theorem step_balances {t : T} {place next : Place} {memory after : Memory}
    (effect : (code t place).effect memory = some (after, next)) :
    indicator Place.isJoinWrite t place + indicator Place.waits t place =
        indicator Place.isEnterWrite t place + indicator Place.waits t next ∧
      indicator Place.isLeaveWrite t place + indicator Place.leaves t place =
        indicator Place.isDropWrite t place + indicator Place.leaves t next ∧
      indicator Place.isEntryWrite t place + indicator Place.inRoom t place =
        indicator Place.isLeaveWrite t place + indicator Place.inRoom t next ∧
      after.numLeftCustomers + indicator Place.turnedAway t place =
        memory.numLeftCustomers + indicator Place.turnedAway t next := by
  cases place with
  | first place => cases place <;> cases effect <;> exact ⟨rfl, rfl, rfl, rfl⟩
  | second place =>
      cases place with
      | fullTest | roomTest | waitTest | freeTest =>
          cases effect
          split <;> exact ⟨rfl, rfl, rfl, rfl⟩
      | turnAway =>
          cases effect
          refine ⟨rfl, rfl, rfl, ?_⟩
          simp [indicator, Place.turnedAway]
      | _ =>
          cases effect
          exact ⟨rfl, rfl, rfl, rfl⟩
  | leftUnhappy | done => cases effect

/-- A customer outside `secondLock` moves nobody in the waiting room and enters nobody. -/
theorem outside_kept {t : T} {place next : Place} {memory after : Memory}
    (effect : (code t place).effect memory = some (after, next)) (outside : held place .secondLock = false) :
    next.waits = place.waits ∧ (after.numSecondRoom = memory.numSecondRoom ∨
      ∃ value, place.pendingRoom = some value ∧ after.numSecondRoom = value - 1) := by
  cases place with
  | first place => cases place <;> cases effect <;> exact ⟨rfl, .inl rfl⟩
  | second place =>
      cases place with
      | lockSecond | lockLeft | leaveRead | signalSecond | dropRead | dropWrite value | unlockLeft =>
          cases effect
          exact ⟨rfl, .inl rfl⟩
      | leaveWrite value =>
          cases effect
          exact ⟨rfl, .inr ⟨value, rfl, rfl⟩⟩
      | _ => cases outside
  | leftUnhappy | done => cases effect

variable [DecidableEq T] [Fintype T] {allowed : History T Memory Place Mutex Cond → State T → T → Prop}
  {history : History T Memory Place Mutex Cond} {config : State T}

/-- The customers in the waiting room are those that have joined it and not yet entered. -/
theorem joined_eq (reached : Run code start allowed history config) :
    (executed Place.isJoinWrite history : Int) =
      executed Place.isEnterWrite history + ∑ t, indicator Place.waits t (config.places t) :=
  reached.executed_between _ _ _ (fun _ => rfl) fun _ _ _ _ _ effect => (step_balances effect).1

/-- The customers that have left the second room and not yet lowered `num_secondWaiting`. -/
theorem left_eq (reached : Run code start allowed history config) :
    (executed Place.isLeaveWrite history : Int) =
      executed Place.isDropWrite history + ∑ t, indicator Place.leaves t (config.places t) :=
  reached.executed_between _ _ _ (fun _ => rfl) fun _ _ _ _ _ effect => (step_balances effect).2.1

/-- The customers in the second room are those that have entered it and not yet left. -/
theorem entered_eq (reached : Run code start allowed history config) :
    (executed Place.isEntryWrite history : Int) =
      executed Place.isLeaveWrite history + ∑ t, indicator Place.inRoom t (config.places t) :=
  reached.executed_between _ _ _ (fun _ => rfl) fun _ _ _ _ _ effect => (step_balances effect).2.2.1

/-- The counter of the unhappy customers is exact. -/
theorem numLeftCustomers_eq (reached : Run code start allowed history config) :
    config.memory.numLeftCustomers = config.number fun _ => Place.turnedAway := by
  rw [← tally_weigh]
  refine reached.counted Memory.numLeftCustomers (weigh fun _ => Place.turnedAway) ?_ ?_
  · exact (tally_eq_zero fun _ => rfl).symm
  · intro t place memory after next effect
    exact (step_balances effect).2.2.2

end

section
variable {T : Type} [DecidableEq T] [Fintype T] {history : History T Memory Place Mutex Cond} {config : State T}

/-- The counter of the second room is exact, and so is each pending read of it. -/
theorem room_exact (reached : Run code start Handover history config) :
    config.memory.numSecondRoom = ∑ t, indicator Place.inRoom t (config.places t) ∧
      ∀ t value, (config.places t).pendingRoom = some value → value = config.memory.numSecondRoom := by
  refine reached.exact Memory.numSecondRoom Place.pendingRoom
    (fun _ places => ∑ t, indicator Place.inRoom t (places t)) ?_ (fun _ => rfl) (fun _ _ _ _ => rfl) ?_ ?_ ?_
  · exact (tally_eq_zero fun _ => rfl).symm
  · intro _ config t place value _ permitted here reads other
    exact permitted.room (by rw [here, Status.runs_ready, reads]; rfl) other
  · intro _ config t place after next here effect settled
    obtain ⟨kept, reads⟩ := room_kept effect settled
    refine ⟨kept, ?_, reads⟩
    obtain ⟨_, _, balance, _⟩ := step_balances effect
    have plain : indicator Place.isEntryWrite t place = 0 ∧ indicator Place.isLeaveWrite t place = 0 := by
      cases place with
      | second place => cases place <;> first | exact ⟨rfl, rfl⟩ | cases settled
      | first place | leftUnhappy | done => exact ⟨rfl, rfl⟩
    rw [sum_update, Config.places_of_ready here]
    omega
  · intro _ config t place after next value here effect reads
    obtain ⟨settled, ⟨raised, _, _, outside, inside⟩ | ⟨lowered, inside, outside⟩⟩ := room_written effect reads
    · refine ⟨settled, ?_⟩
      rw [sum_update, Config.places_of_ready here]
      simp only [indicator, outside, inside, raised]
      simp
    · refine ⟨settled, ?_⟩
      rw [sum_update, Config.places_of_ready here]
      simp only [indicator, outside, inside, lowered]
      simp

/-- The counter of the waiting room is exact, and so is each pending read of it. -/
theorem waiting_exact (reached : Run code start Handover history config) :
    config.memory.numSecondWaiting = executed Place.isJoinWrite history - executed Place.isDropWrite history ∧
      ∀ t value, (config.places t).pendingWaiting = some value → value = config.memory.numSecondWaiting := by
  refine reached.exact Memory.numSecondWaiting Place.pendingWaiting
    (fun history _ => executed Place.isJoinWrite history - executed Place.isDropWrite history)
    rfl (fun _ => rfl) ?_ ?_ ?_ ?_
  · intro history config t waits
    rw [executed_cons_of_not_ready waits, executed_cons_of_not_ready waits]
  · intro _ config t place value _ permitted here reads other
    exact permitted.waiting (by rw [here, Status.runs_ready, reads]; rfl) other
  · intro _ config t place after next here effect settled
    obtain ⟨kept, reads⟩ := waiting_kept effect settled
    refine ⟨kept, ?_, reads⟩
    rw [cast_executed_cons here, cast_executed_cons here]
    cases place with
    | second place =>
        cases place <;> first | cases settled; done | simp [indicator, Place.isJoinWrite, Place.isDropWrite]
    | first place | leftUnhappy | done => simp [indicator, Place.isJoinWrite, Place.isDropWrite]
  · intro _ config t place after next value here effect reads
    rw [cast_executed_cons here, cast_executed_cons here]
    cases place with
    | second place =>
        cases place with
        | joinWrite value | dropWrite value =>
            cases effect
            cases reads
            refine ⟨rfl, ?_⟩
            simp [indicator, Place.isJoinWrite, Place.isDropWrite]
        | _ => cases reads
    | first place | leftUnhappy | done => cases reads

/-- At most as many customers have lowered `num_secondWaiting` as have entered from the waiting room. -/
theorem dropped_le (reached : Run code start Handover history config) :
    executed Place.isDropWrite history ≤ executed Place.isEnterWrite history := by
  refine reached.placed (fun history (_ : T → Place) (_ : Memory) =>
    executed Place.isDropWrite history ≤ executed Place.isEnterWrite history) le_rfl ?_ ?_
  · intro history config t le waits
    rw [executed_cons_of_not_ready waits, executed_cons_of_not_ready waits]
    exact le
  · intro history config t place after next _ le permitted here _
    rw [executed_cons_of_ready here, executed_cons_of_ready here]
    cases drops : place.isDropWrite with
    | false =>
        simp only [Bool.false_eq_true, ↓reduceIte]
        omega
    | true =>
        have fewer := permitted.exchange (by rw [here]; exact drops)
        simp only [↓reduceIte]
        omega

/-- The second room holds at most two customers, and a customer that enters finds a place there. -/
theorem room_bounds (reached : Run code start Handover history config) :
    config.memory.numSecondRoom ≤ 2 ∧
      ∀ t, (config.places t).enters = true → config.memory.numSecondRoom < 2 := by
  refine reached.placed (fun _ places (memory : Memory) => memory.numSecondRoom ≤ 2 ∧
    (∀ t : T, (places t).enters = true → memory.numSecondRoom < 2)) ?_ ?_ ?_
  · refine ⟨Int.zero_le_ofNat 2, fun t enters => ?_⟩
    cases enters
  · intro _ _ _ bounds _
    exact bounds
  · intro _ config t place after next before bounds _ here effect
    have located := Config.places_of_ready here
    cases reads : place.pendingRoom with
    | none =>
        obtain ⟨kept, _⟩ := room_kept effect reads
        rw [kept]
        refine ⟨bounds.1, fun other enters => ?_⟩
        by_cases hit : other = t
        · subst hit
          rw [Function.update_self] at enters
          cases place with
          | second place =>
              cases place with
              | enterRead | directRead => exact bounds.2 other (by rw [located]; rfl)
              | waitTest =>
                  cases effect
                  by_cases full : config.memory.numSecondRoom = secondRoomCapacity
                  · simp [full, Place.enters] at enters
                  · have most := bounds.1
                    simp only [secondRoomCapacity] at full
                    omega
              | freeTest =>
                  cases effect
                  by_cases free : config.memory.numSecondRoom < secondRoomCapacity
                  · exact free
                  · simp [free, Place.enters] at enters
              | fullTest | roomTest =>
                  cases effect
                  split at enters <;> cases enters
              | enterWrite value | directWrite value | leaveWrite value => cases reads
              | _ =>
                  cases effect
                  cases enters
          | first place => cases place <;> cases effect <;> cases enters
          | leftUnhappy | done => cases effect
        · rw [Function.update_of_ne hit] at enters
          exact bounds.2 other enters
    | some value =>
        have current := (room_exact before).2 t value (by rw [located, reads])
        have alone : ∀ other, place.enters = true →
            (Function.update config.places t next other).enters = true → next.enters = true := by
          intro other holds enters
          by_cases hit : other = t
          · subst hit
            rwa [Function.update_self] at enters
          · rw [Function.update_of_ne hit] at enters
            have outside := outside_of_held before here (held_of_inEntry (inEntry_of_enters holds)) hit
            rw [inEntry_of_enters enters] at outside
            cases outside
        obtain ⟨_, ⟨raised, _, _, outside, _⟩ | ⟨lowered, _⟩⟩ := room_written effect reads
        · have holds : place.enters = true := by
            cases place with
            | second place => cases place <;> first | rfl | cases reads; done | cases outside
            | first place | leftUnhappy | done => cases reads
          have free := bounds.2 t (by rw [located, holds])
          refine ⟨by omega, fun other enters => ?_⟩
          have entering := alone other holds enters
          cases place with
          | second place => cases place <;> cases effect <;> cases reads <;> cases entering
          | first place | leftUnhappy | done => cases reads
        · have most := bounds.1
          exact ⟨by omega, fun other _ => by omega⟩

/-- The waiting room holds at most two customers, and a customer that joins finds a place there. -/
theorem waiting_bounds (reached : Run code start Handover history config) :
    config.memory.numSecondWaiting ≤ 2 ∧
      ∀ t, (config.places t).joins = true → config.memory.numSecondWaiting < 2 := by
  refine reached.placed (fun _ places (memory : Memory) => memory.numSecondWaiting ≤ 2 ∧
    (∀ t : T, (places t).joins = true → memory.numSecondWaiting < 2)) ?_ ?_ ?_
  · refine ⟨Int.zero_le_ofNat 2, fun t joins => ?_⟩
    cases joins
  · intro _ _ _ bounds _
    exact bounds
  · intro _ config t place after next before bounds _ here effect
    have located := Config.places_of_ready here
    cases reads : place.pendingWaiting with
    | none =>
        obtain ⟨kept, _⟩ := waiting_kept effect reads
        rw [kept]
        refine ⟨bounds.1, fun other joins => ?_⟩
        by_cases hit : other = t
        · subst hit
          rw [Function.update_self] at joins
          cases place with
          | second place =>
              cases place with
              | joinRead => exact bounds.2 other (by rw [located]; rfl)
              | roomTest =>
                  cases effect
                  by_cases room : config.memory.numSecondWaiting < waitingRoomCapacity
                  · exact room
                  · simp [room, Place.joins] at joins
              | fullTest | waitTest | freeTest =>
                  cases effect
                  split at joins <;> cases joins
              | joinWrite value | dropWrite value => cases reads
              | _ =>
                  cases effect
                  cases joins
          | first place => cases place <;> cases effect <;> cases joins
          | leftUnhappy | done => cases effect
        · rw [Function.update_of_ne hit] at joins
          exact bounds.2 other joins
    | some value =>
        have current := (waiting_exact before).2 t value (by rw [located, reads])
        cases place with
        | second place =>
            cases place with
            | joinWrite value =>
                cases effect
                cases reads
                have room := bounds.2 t (by rw [located]; rfl)
                refine ⟨show value + 1 ≤ 2 by omega, fun other joins => ?_⟩
                by_cases hit : other = t
                · subst hit
                  rw [Function.update_self] at joins
                  cases joins
                · rw [Function.update_of_ne hit] at joins
                  have outside := outside_of_held before here rfl hit
                  rw [inEntry_of_joins joins] at outside
                  cases outside
            | dropWrite value =>
                cases effect
                cases reads
                have most := bounds.1
                exact ⟨show value - 1 ≤ 2 by omega, fun other _ => show value - 1 < 2 by omega⟩
            | _ => cases reads
        | first place | leftUnhappy | done => cases reads

/-- Once a customer has found the second room full, two customers have entered it without waiting. -/
theorem two_direct (reached : Run code start Handover history config) :
    (0 < executed Place.isJoinWrite history →
      2 + executed Place.isEnterWrite history ≤ executed Place.isEntryWrite history) ∧
    ∀ t, (config.places t).foundFull = true →
      2 + executed Place.isEnterWrite history ≤ executed Place.isEntryWrite history := by
  refine reached.placed (fun history places (_ : Memory) =>
    (0 < executed Place.isJoinWrite history →
      2 + executed Place.isEnterWrite history ≤ executed Place.isEntryWrite history) ∧
    (∀ t : T, (places t).foundFull = true →
      2 + executed Place.isEnterWrite history ≤ executed Place.isEntryWrite history)) ?_ ?_ ?_
  · refine ⟨fun some => ?_, fun t full => ?_⟩
    · cases some
    · cases full
  · intro history config t two waits
    rw [executed_cons_of_not_ready waits, executed_cons_of_not_ready waits, executed_cons_of_not_ready waits]
    exact two
  · intro history config t place after next before two _ here effect
    have located := Config.places_of_ready here
    have keep : 2 + executed Place.isEnterWrite history ≤ executed Place.isEntryWrite history →
        2 + executed Place.isEnterWrite ((config, t) :: history) ≤
          executed Place.isEntryWrite ((config, t) :: history) := by
      intro earlier
      have both : place.isEnterWrite = true → place.isEntryWrite = true := by
        intro enters
        cases place with
        | second place => cases place <;> first | rfl | cases enters
        | first place | leftUnhappy | done => cases enters
      rw [executed_cons_of_ready here, executed_cons_of_ready here]
      cases enters : place.isEnterWrite with
      | true =>
          simp only [both enters, ↓reduceIte]
          omega
      | false =>
          simp only [Bool.false_eq_true, ↓reduceIte]
          omega
    refine ⟨fun some => keep ?_, fun other full => keep ?_⟩
    · cases joins : place.isJoinWrite with
      | true =>
          apply two.2 t
          rw [located]
          cases place with
          | second place => cases place <;> first | rfl | cases joins
          | first place | leftUnhappy | done => cases joins
      | false =>
          rw [executed_cons_of_ready here, joins] at some
          exact two.1 some
    · by_cases hit : other = t
      · subst hit
        rw [Function.update_self] at full
        cases place with
        | second place =>
            cases place with
            | roomTest | joinRead => exact two.2 other (by rw [located]; rfl)
            | fullTest =>
                cases effect
                by_cases filled : config.memory.numSecondRoom = secondRoomCapacity
                · have joined := joined_eq before
                  have entered := entered_eq before
                  have room := (room_exact before).1
                  have waiting : 0 ≤ ∑ t, indicator Place.waits t (config.places t) :=
                    Finset.sum_nonneg fun t _ => indicator_nonneg _ _ _
                  simp only [secondRoomCapacity] at filled
                  by_cases some : 0 < executed Place.isJoinWrite history
                  · exact two.1 some
                  · omega
                · simp [filled, Place.foundFull] at full
            | waitTest | freeTest =>
                cases effect
                split at full <;> cases full
            | _ =>
                cases effect
                cases full
        | first place => cases place <;> cases effect <;> cases full
        | leftUnhappy | done => cases effect
      · rw [Function.update_of_ne hit] at full
        exact two.2 other full

/-- While nobody is between leaving the second room and lowering `num_secondWaiting`, that counter is the number
of waiting customers. -/
theorem waiting_eq (reached : Run code start Handover history config)
    (quiet : ∑ t, indicator Place.leaves t (config.places t) = 0) :
    config.memory.numSecondWaiting = ∑ t, indicator Place.waits t (config.places t) := by
  have joined := joined_eq reached
  have entered := entered_eq reached
  have left := left_eq reached
  have dropped := dropped_le reached
  have exact := (waiting_exact reached).1
  have room := (room_exact reached).1
  have most := (room_bounds reached).1
  have waiting : 0 ≤ ∑ t, indicator Place.waits t (config.places t) :=
    Finset.sum_nonneg fun t _ => indicator_nonneg _ _ _
  by_cases some : 0 < executed Place.isJoinWrite history
  · have two := (two_direct reached).1 some
    omega
  · omega

/-- A customer that tests for a free place finds one, or two customers wait. -/
theorem free_or_two_wait (reached : Run code start Handover history config) (t : T)
    (tests : (config.places t).isFreeTest = true) :
    config.memory.numSecondRoom < 2 ∨ ∑ t, indicator Place.waits t (config.places t) = 2 := by
  refine reached.placed (fun _ places (memory : Memory) => (∀ t : T, (places t).isFreeTest = true →
    memory.numSecondRoom < 2 ∨ ∑ t, indicator Place.waits t (places t) = 2)) ?_ ?_ ?_ t tests
  · intro t tests
    cases tests
  · intro _ _ _ free _
    exact free
  · intro history config t place after next before free permitted here effect other tests
    have located := Config.places_of_ready here
    by_cases hit : other = t
    · subst hit
      rw [Function.update_self] at tests
      cases place with
      | second place =>
          cases place with
          | fullTest =>
              cases effect
              by_cases full : config.memory.numSecondRoom = secondRoomCapacity
              · simp [full, Place.isFreeTest] at tests
              · have most := (room_bounds before).1
                simp only [secondRoomCapacity] at full
                exact .inl (by omega)
          | roomTest =>
              cases effect
              by_cases room : config.memory.numSecondWaiting < waitingRoomCapacity
              · simp [room, Place.isFreeTest] at tests
              · have none : ∑ t, indicator Place.leaves t (config.places t) = 0 :=
                  (tally_indicator_eq_zero_iff Place.leaves).mpr (permitted.test (by rw [here]; rfl))
                have equal := waiting_eq before none
                have most := (waiting_bounds before).1
                simp only [waitingRoomCapacity] at room
                refine .inr ?_
                simp only [waitingRoomCapacity, room, ↓reduceIte]
                rw [sum_update, located]
                simp only [indicator, Place.waits, Bool.false_eq_true, ↓reduceIte] at equal ⊢
                omega
          | waitTest | freeTest =>
              cases effect
              split at tests <;> cases tests
          | _ =>
              cases effect
              cases tests
      | first place => cases place <;> cases effect <;> cases tests
      | leftUnhappy | done => cases effect
    · rw [Function.update_of_ne hit] at tests
      have outside : held place .secondLock = false := by
        by_contra holds
        have outside := outside_of_held before here (by simpa using holds) hit
        cases there : config.places other with
        | second there' =>
            rw [there] at tests outside
            cases there' <;> first | cases tests; done | cases outside
        | first there' | leftUnhappy | done =>
            rw [there] at tests
            cases tests
      obtain ⟨same, room⟩ := outside_kept effect outside
      have earlier := free other tests
      rw [sum_update, located]
      simp only [indicator, same, sub_add_cancel] at earlier ⊢
      rcases earlier with free | two
      · rcases room with kept | ⟨value, reads, lowered⟩
        · exact .inl (by omega)
        · have current := (room_exact before).2 t value (by rw [located, reads])
          exact .inl (by omega)
      · exact .inr two

/-- A customer that leaves unhappy found two customers in the second room and two waiting. -/
theorem exists_test_of_away (reached : Run code start Handover history config) (t : T)
    (away : (config.places t).away = true) : ∃ test : State T, (test, t) ∈ history ∧
      test.status t = .ready (.second .freeTest) ∧ test.number (fun _ => Place.inRoom) = 2 ∧
      test.number (fun _ => Place.waits) = 2 := by
  refine reached.placed (fun history places _ => (∀ t : T, (places t).away = true →
    ∃ test : State T, (test, t) ∈ history ∧ test.status t = .ready (.second .freeTest) ∧
      test.number (fun _ => Place.inRoom) = 2 ∧ test.number (fun _ => Place.waits) = 2)) ?_ ?_ ?_ t away
  · intro t away
    cases away
  · intro history config t found _ other away
    obtain ⟨test, member, tested⟩ := found other away
    exact ⟨test, List.mem_cons_of_mem _ member, tested⟩
  · intro history config t place after next before found _ here effect other away
    have located := Config.places_of_ready here
    have earlier : (config.places other).away = true → ∃ test : State T, (test, other) ∈ (config, t) :: history ∧
        test.status other = .ready (.second .freeTest) ∧ test.number (fun _ => Place.inRoom) = 2 ∧
        test.number (fun _ => Place.waits) = 2 := by
      intro away
      obtain ⟨test, member, tested⟩ := found other away
      exact ⟨test, List.mem_cons_of_mem _ member, tested⟩
    by_cases hit : other = t
    · subst hit
      rw [Function.update_self] at away
      cases place with
      | second place =>
          cases place with
          | turnAway | unlockAway => exact earlier (by rw [located]; rfl)
          | freeTest =>
              cases effect
              by_cases free : config.memory.numSecondRoom < secondRoomCapacity
              · simp [free, Place.away] at away
              · refine ⟨config, List.mem_cons_self, here, ?_, ?_⟩
                · have room : config.memory.numSecondRoom = config.number fun _ => Place.inRoom :=
                    (room_exact before).1.trans (tally_weigh _ config)
                  have most := (room_bounds before).1
                  simp only [secondRoomCapacity] at free
                  omega
                · have waiting : ∑ t, indicator Place.waits t (config.places t) =
                      config.number fun _ => Place.waits := tally_weigh _ config
                  simp only [secondRoomCapacity] at free
                  rcases free_or_two_wait before other (by rw [located]; rfl) with found | two
                  · exact absurd found free
                  · omega
          | fullTest | roomTest | waitTest =>
              cases effect
              split at away <;> cases away
          | _ =>
              cases effect
              cases away
      | first place => cases place <;> cases effect <;> cases away
      | leftUnhappy | done => cases effect
    · rw [Function.update_of_ne hit] at away
      exact earlier away

/-- In every run with handovers the accounting holds. -/
theorem accounted_of_handover (reached : Run code start Handover history config) : Accounted history config := by
  have waits : ∑ t, indicator Place.waits t (config.places t) = config.number fun _ => Place.waits :=
    tally_weigh _ config
  have joined := joined_eq reached
  have dropped := dropped_le reached
  have exact := (waiting_exact reached).1
  have most := (waiting_bounds reached).1
  refine ⟨fun quiet => ?_, by omega, ?_, numLeftCustomers_eq reached, fun t turned => ?_⟩
  · rw [← waits]
    apply waiting_eq reached
    apply (tally_indicator_eq_zero_iff Place.leaves).mpr
    intro t
    by_contra leaves
    have runs := quiet t
    cases there : config.places t with
    | second place =>
        rw [← Config.places, there] at leaves
        rw [ready_of_not_isLoopTest reached (by rw [there]; cases place <;> first | rfl | exact absurd rfl leaves),
          there] at runs
        cases place <;> first | exact leaves rfl | cases runs
    | first place | leftUnhappy | done =>
        rw [← Config.places, there] at leaves
        exact leaves rfl
  · simp only [waitingRoomCapacity]
    omega
  · have away : (config.places t).away = true := by
      rw [Config.places]
      cases there : (config.status t).place with
      | second place =>
          rw [there] at turned
          cases place <;> first | rfl | cases turned
      | leftUnhappy => rfl
      | first place | done =>
          rw [there] at turned
          cases turned
    obtain ⟨test, member, tests, room, waiting⟩ := exists_test_of_away reached t away
    refine ⟨test, member, tests, ?_, ?_⟩
    · rw [room]
      rfl
    · rw [waiting]
      rfl

end

/-- A customer leaves, wakes a waiting customer, and lowers `num_secondWaiting` after that one has entered. -/
example : ((drive code Handover [] (start : State (Fin 3)) (turns 16 0 ++ turns 16 1 ++ turns 17 2 ++ turns 3 0 ++
    [Move.signal 0 2] ++ turns 5 2 ++ turns 3 0)).any fun final => executed Place.isDropWrite final.1 = 1) =
      true := by
  decide

/-- In every run with handovers the accounting holds. With arbitrary interleavings it holds in every run
exactly when there is no customer. -/
theorem accounting {T : Type} [DecidableEq T] [Fintype T] :
    (∀ history config, Run code (start : State T) Handover history config → Accounted history config) ∧
    ((∀ history config, Run code (start : State T) (fun _ _ _ => True) history config → Accounted history config) ↔
      IsEmpty T) := by
  refine ⟨fun _ _ reached => accounted_of_handover reached, fun always => ?_,
    fun nobody history config reached => ?_⟩
  · by_contra someone
    rw [not_isEmpty_iff] at someone
    obtain ⟨t⟩ := someone
    have alone : ∃ history, Run code (start : State T) (fun _ _ _ => True) history
        (Config.initial (afterSolos 1) fun other =>
          if other ∈ ({t} : Finset T) then .done else .first .lockFirst) :=
      exists_run_solos afterSolos solo (fun _ _ _ => trivial) {t}
    obtain ⟨history, reached⟩ := alone
    have nonneg := (always history _ reached).nonneg
    simp [afterSolos] at nonneg
  · exact accounted_of_handover (reached.mono fun _ _ t _ _ _ => nobody.elim t)

/-- A customer that enters the second room directly and leaves it lowers `num_secondWaiting` below zero. -/
theorem accounting_fails : ∃ history config, Run code (start : State Unit) (fun _ _ _ => True) history config ∧
    (∀ t, (config.status t).runs Place.inSection = false) ∧ config.memory.numSecondWaiting = -1 ∧
    ¬ Accounted history config := by
  obtain ⟨history, reached⟩ := solo 0
  refine ⟨history, _, reached, fun _ => rfl, rfl, fun accounted => ?_⟩
  have nonneg := accounted.nonneg
  simp [afterSolos] at nonneg

end OSLabs.Rooms
