import OSLabs.Proof.Rooms.Counters
import OSLabs.Proof.Pthread.Frame
import OSLabs.Proof.Pthread.Local

namespace OSLabs.Rooms
open Pthread

/-- The customer is about to wait. -/
def Place.isCond : Place → Bool
  | .first .condWait | .second .condWait => true
  | _ => false

section
variable {T : Type} [DecidableEq T] [Fintype T]
  {allowed : History T Memory Place Mutex Cond → State T → T → Prop}
  {history : History T Memory Place Mutex Cond} {config : State T}

/-- The counter of the first room is at most the number of customers that have arrived there. -/
theorem numFirstRoom_le (reached : Run code start allowed history config) :
    config.memory.numFirstRoom ≤ ∑ t, indicator Place.arrived t (config.places t) := by
  refine reached.le_passed Memory.numFirstRoom Place.pendingFirst Place.arrived le_rfl (fun _ => rfl) ?_ ?_ ?_
  · intro t place memory after next effect
    exact arrived_of_effect effect
  · intro t place memory after next effect
    exact first_kept effect
  · intro t place memory after next value effect
    exact first_written effect

/-- The counter of the second room is at most the number of customers that have entered it. -/
theorem numSecondRoom_le (reached : Run code start allowed history config) :
    config.memory.numSecondRoom ≤ ∑ t, indicator Place.entered t (config.places t) := by
  refine reached.le_passed Memory.numSecondRoom Place.pendingRoom Place.entered le_rfl (fun _ => rfl) ?_ ?_ ?_
  · intro t place memory after next effect
    exact entered_of_effect effect
  · intro t place memory after next effect
    exact room_kept effect
  · intro t place memory after next value effect reads
    obtain ⟨settled, ⟨raised, outside, inside, _⟩ | ⟨lowered, _⟩⟩ := room_written effect reads
    · exact ⟨settled, .inr ⟨raised, outside, inside⟩⟩
    · exact ⟨settled, .inl (by omega)⟩

/-- With at most two customers the first room is never full. -/
theorem numFirstRoom_le_two (few : Fintype.card T ≤ 2) (reached : Run code start allowed history config) :
    config.memory.numFirstRoom ≤ 2 := by
  have bound : config.memory.numFirstRoom ≤ tally (indicator Place.arrived) config := numFirstRoom_le reached
  have most : (Finset.univ.filter fun t => (config.status t).place.arrived = true).card ≤ Fintype.card T :=
    Finset.card_le_univ _
  rw [tally_indicator_eq_card] at bound
  omega

/-- With at most two customers a customer that has not entered the second room finds a place there. -/
theorem numSecondRoom_lt_two (few : Fintype.card T ≤ 2) (reached : Run code start allowed history config) {t : T}
    (outside : (config.places t).entered = false) : config.memory.numSecondRoom < 2 := by
  have bound : config.memory.numSecondRoom ≤ tally (indicator Place.entered) config := numSecondRoom_le reached
  have most : (Finset.univ.filter fun t => (config.status t).place.entered = true).card < Fintype.card T := by
    apply Finset.card_lt_univ_of_notMem (x := t)
    simpa [Config.places] using outside
  rw [tally_indicator_eq_card] at bound
  omega

/-- With at most two customers nobody waits. -/
theorem ready_of_few (few : Fintype.card T ≤ 2) (reached : Run code start allowed history config) (t : T) :
    (config.status t).runs (fun place => !place.isCond) = true := by
  refine Run.everywhere (fun _ status _ => status.runs (fun place => !place.isCond) = true) ?_ ?_ ?_ ?_ reached t
  · intro t
    rfl
  · intro t cond mutex place _ runs
    cases runs
  · intro t mutex place _ runs
    cases runs
  · intro history config t place before all _ here
    have located := Config.places_of_ready here
    have runs := all t
    rw [here] at runs
    cases place with
    | first place =>
        cases place with
        | fullTest =>
            intro memory next effect
            have few := numFirstRoom_le_two few before
            have room : ¬ config.memory.numFirstRoom > firstRoomCapacity := by
              simp only [firstRoomCapacity]
              omega
            cases effect
            simp only [room, ↓reduceIte]
            exact ⟨rfl, fun other _ => all other⟩
        | condWait => cases runs
        | lockFirst | lockLeft => exact fun _ => rfl
        | enterRead | enterWrite value | leaveRead | leaveWrite value =>
            intro memory next effect
            cases effect
            exact ⟨rfl, fun other _ => all other⟩
        | unlockFirst | signalFirst | unlockLeft => rfl
    | second place =>
        cases place with
        | waitTest =>
            intro memory next effect
            have few := numSecondRoom_lt_two few before (by rw [located]; rfl)
            have room : ¬ config.memory.numSecondRoom = secondRoomCapacity := by
              simp only [secondRoomCapacity]
              omega
            cases effect
            simp only [room, ↓reduceIte]
            exact ⟨rfl, fun other _ => all other⟩
        | condWait => cases runs
        | lockSecond | lockLeft => exact fun _ => rfl
        | fullTest | roomTest | freeTest =>
            intro memory next effect
            cases effect
            refine ⟨?_, fun other _ => all other⟩
            split <;> rfl
        | joinRead | joinWrite value | enterRead | enterWrite value | directRead | directWrite value | turnAway
        | leaveRead | leaveWrite value | dropRead | dropWrite value =>
            intro memory next effect
            cases effect
            exact ⟨rfl, fun other _ => all other⟩
        | unlockAway | unlockSecond | signalSecond | unlockLeft => rfl
    | leftUnhappy | done => trivial

end

/-- The memory after some customers have passed both rooms alone. -/
def afterSolos (count : Nat) : Memory := ⟨0, 0, -count, 0⟩

/-- A customer that is alone passes both rooms and lowers `num_secondWaiting`. -/
theorem solo (count : Nat) :
    Reachable code (Config.initial (afterSolos count) (fun _ => .first .lockFirst) : State Unit)
      (Config.initial (afterSolos (count + 1)) fun _ => .done) := by
  have followed : follow code (Config.initial (afterSolos count) fun _ => .first .lockFirst) (turns 23 ()) =
      some (Config.initial (afterSolos (count + 1)) fun _ => .done : State Unit) := by
    refine congrArg some (Config.eq_initial ?_ (fun which => ?_) fun _ => rfl)
    · have lowered : -(count : Int) - 1 = -((count + 1 : Nat) : Int) := by omega
      exact congrArg (fun waiting => (⟨0, 0, waiting, 0⟩ : Memory)) lowered
    · cases which <;> rfl
  exact (Reachable.refl _ _).follow followed

/-- Two customers enter the second room, a third one joins the waiting room and is about to wait, and
the two leave before it waits. -/
def missedWakeup : List (Move (Fin 3)) :=
  turns 16 0 ++ turns 16 1 ++ turns 16 2 ++ turns 7 0 ++ turns 7 1 ++ turns 1 2

/-- Of three customers, the third one waits for ever. -/
theorem exists_stalled_of_three (count : Nat) : ∃ history config,
    Run code (Config.initial (afterSolos count) (fun _ => .first .lockFirst) : State (Fin 3)) (fun _ _ _ => True)
      history config ∧ Stalled code config := by
  obtain ⟨history, config, reached, passed⟩ := exists_run code
    (Config.initial (afterSolos count) (fun _ => .first .lockFirst) : State (Fin 3))
      (fun _ _ _ => True) missedWakeup
    (fun config => decide (Stalled code config)) (by
      match count with
      | 0 => rfl
      | 1 => rfl
      | count + 2 => rfl)
  exact ⟨history, config, reached, of_decide_eq_true passed⟩

/-- No reachable configuration strands a customer exactly when there are at most two customers. -/
theorem stranding_iff_two {T : Type} [DecidableEq T] [Fintype T] :
    (∀ config, Reachable code (start : State T) config → ¬ Stalled code config) ↔ Fintype.card T ≤ 2 := by
  constructor
  · intro never
    by_contra many
    obtain ⟨embed⟩ : Nonempty (Fin 3 ↪ T) := Function.Embedding.nonempty_of_card_le (by simp; omega)
    obtain ⟨history, config, reached, stalled⟩ := exists_stalled_of_small customer embed afterSolos rfl solo
      (fun _ _ _ => trivial) (fun _ _ _ _ _ => trivial) exists_stalled_of_three
    exact never config ⟨history, reached⟩ stalled
  · rintro few config ⟨history, reached⟩ stalled
    obtain ⟨t, blocked⟩ := stalled.exists_blocked
    have runs := ready_of_few few reached t
    cases status : config.status t with
    | ready place | woken mutex place =>
        rw [status] at blocked
        cases blocked
    | blocked cond mutex place =>
        rw [status] at runs
        cases runs

/-- Of three customers, two return and the third one waits for ever. -/
theorem third_customer_stranded : ∃ config, Reachable code (start : State (Fin 3)) config ∧
    Stalled code config := by
  obtain ⟨history, config, reached, stalled⟩ := exists_stalled_of_three 0
  exact ⟨config, ⟨history, reached⟩, stalled⟩

end OSLabs.Rooms
