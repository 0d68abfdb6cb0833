import OSLabs.Construction.Game
import OSLabs.Proof.Pthread.Local
import OSLabs.Proof.Pthread.Tally

namespace OSLabs.Game
open Pthread

namespace Place

/-- The thread is inside a section of `lock`. -/
def locked : Place → Bool
  | .arrival _ .lockArrival => false
  | .arrival _ _ => true
  | .home .endInterview | .home .wakeHome | .home .interviewTest | .home .condInterview | .home .exitField
  | .home .unlockExit => true
  | .home _ | .away _ => false
  | .referee .lockStart | .referee .play | .referee .exitField | .referee .done => false
  | .referee _ => true

/-- The condition variable of a wait that continues at this place. -/
def waitsOn : Place → Option Cond
  | .arrival _ .whistleTest => some .playerWait
  | .home .interviewTest => some .interview
  | .referee .arrivedTest => some .refereeWait
  | _ => none

/-- Only the star player conducts the interview, and only the other home players wait for its end. -/
def star : HomePlace → Option Bool
  | .conductInterview | .lockInterview | .endInterview | .wakeHome => some true
  | .lockExit | .interviewTest | .condInterview => some false
  | _ => none

end Place

/-- These places hold these mutexes. -/
def held (place : Place) (_ : Mutex) : Bool := place.locked

/-- The thread runs the function of its role. -/
def Fits {P : Type} (player : P → Player) (t : Option P) : Place → Prop
  | .referee _ => t = none
  | .arrival side _ => ∃ p, t = some p ∧ (player p).side = side
  | .home place => ∃ p, t = some p ∧ (player p).side = .home ∧
      ∀ role, Place.star place = some role → role = decide ((player p).tid = 0)
  | .away _ => ∃ p, t = some p ∧ (player p).side = .away

/-- The events before the place have happened. -/
structure Met (numPlayers : Nat) (place : Place) (memory : Memory) : Prop where
  arrived : place.blows = true → numPlayers ≤ memory.numPlayersArrived
  whistle : place.blown = true ∨ place.plays = true → memory.whistleBlown ≠ 0
  interview : place.interviewed = true → memory.interviewOver ≠ 0

/-- No event is undone. -/
structure Memory.Le (before after : Memory) : Prop where
  arrived : before.numPlayersArrived ≤ after.numPlayersArrived
  whistle : before.whistleBlown ≠ 0 → after.whistleBlown ≠ 0
  interview : before.interviewOver ≠ 0 → after.interviewOver ≠ 0

theorem Memory.Le.refl (memory : Memory) : memory.Le memory := ⟨le_rfl, id, id⟩

theorem Met.mono {numPlayers : Nat} {place : Place} {before after : Memory} (met : Met numPlayers place before)
    (le : before.Le after) : Met numPlayers place after :=
  ⟨fun blows => le_trans (met.arrived blows) le.arrived, fun starts => le.whistle (met.whistle starts),
    fun ends => le.interview (met.interview ends)⟩

/-- The wait of the thread continues at its test. -/
def Tests : Status Place Mutex Cond → Prop
  | .ready _ => True
  | .blocked cond _ place => place.waitsOn = some cond
  | .woken _ place => place.waitsOn.isSome = true

/-- Each thread runs its function, each wait continues at its test,
and the events before its place have happened. -/
structure Guard {P : Type} [Fintype P] (player : P → Player) (t : Option P) (status : Status Place Mutex Cond)
    (memory : Memory) : Prop where
  fits : Fits player t status.place
  met : Met (Fintype.card P) status.place memory
  waits : Tests status

section
variable {P : Type} {player : P → Player}

theorem start_owned : Owned (fun _ => held) (start player) := by
  refine ⟨fun mutex t => ?_, fun t => trivial⟩
  cases t <;> simp [start, Status.holds, held, Place.locked]

variable [Fintype P]

theorem code_respects (t : Option P) (place : Place) : (code player t place).Respects held place := by
  cases place with
  | arrival side place =>
      cases place with
      | lockArrival =>
          funext mutex
          cases mutex
          rfl
      | unlockArrival =>
          funext mutex
          cases mutex
          cases side <;> rfl
      | lastTest | whistleTest =>
          intro before after next effect
          cases effect
          split <;> rfl
      | arrive | startPlaying =>
          intro before after next effect
          cases effect
          rfl
      | condWhistle => exact ⟨rfl, rfl⟩
      | signalReferee => rfl
  | home place =>
      cases place with
      | lockInterview | lockExit | unlockExit =>
          funext mutex
          cases mutex
          rfl
      | play | interviewTest =>
          intro before after next effect
          cases effect
          split <;> rfl
      | conductInterview | endInterview | exitField =>
          intro before after next effect
          cases effect
          rfl
      | condInterview => exact ⟨rfl, rfl⟩
      | wakeHome => rfl
      | done => trivial
  | away place =>
      cases place with
      | play | exitField =>
          intro before after next effect
          cases effect
          rfl
      | done => trivial
  | referee place =>
      cases place with
      | lockStart | unlockStart =>
          funext mutex
          cases mutex
          rfl
      | arrivedTest =>
          intro before after next effect
          cases effect
          split <;> rfl
      | blowWhistle | setWhistle | play | exitField =>
          intro before after next effect
          cases effect
          rfl
      | condReferee => exact ⟨rfl, rfl⟩
      | wakePlayers => rfl
      | done => trivial

section Moves
variable {config : State P} {t : Option P} (all : Everywhere (Guard player) config)
include all

/-- A later memory keeps the assertions of the other threads. -/
theorem others_of_le (t : Option P) {after : Memory} (le : config.memory.Le after) :
    ∀ other, other ≠ t → Guard player other (config.status other) after :=
  fun other _ => ⟨(all other).fits, (all other).met.mono le, (all other).waits⟩

/-- The arrival keeps the assertions. -/
theorem arrival_keeps {side : Side} {place : ArrivalPlace}
    (here : config.status t = .ready (.arrival side place)) :
    (code player t (.arrival side place)).Keeps (Guard player) config t := by
  obtain ⟨fits, met, _⟩ := all t
  rw [here, Status.place_ready] at fits met
  have same := others_of_le all t (Memory.Le.refl config.memory)
  have early : ∀ next : ArrivalPlace, (Place.arrival side next).plays = false →
      Met (Fintype.card P) (.arrival side next) config.memory :=
    fun next quiet => ⟨nofun, fun starts => by rcases starts with blown | plays; cases blown; simp_all, nofun⟩
  cases place with
  | lockArrival => exact fun _ => ⟨fits, early _ rfl, trivial⟩
  | signalReferee => exact ⟨fits, early _ rfl, trivial⟩
  | condWhistle => exact ⟨fits, early _ rfl, rfl⟩
  | arrive =>
      intro after next effect
      cases effect
      have le : config.memory.Le
          { config.memory with numPlayersArrived := config.memory.numPlayersArrived + 1 } :=
        ⟨show config.memory.numPlayersArrived ≤ config.memory.numPlayersArrived + 1 by omega, id, id⟩
      exact ⟨⟨fits, (early _ rfl).mono le, trivial⟩, others_of_le all t le⟩
  | lastTest =>
      intro after next effect
      cases effect
      refine ⟨⟨fits, early _ ?_, trivial⟩, same⟩
      split <;> rfl
  | whistleTest =>
      intro after next effect
      cases effect
      refine ⟨⟨fits, ?_, trivial⟩, same⟩
      simp only [Status.place_ready]
      split
      · exact early _ rfl
      · next blown => exact ⟨nofun, fun _ => blown, nofun⟩
  | startPlaying =>
      intro after next effect
      cases effect
      exact ⟨⟨fits, ⟨nofun, fun _ => met.whistle (.inr rfl), nofun⟩, trivial⟩, same⟩
  | unlockArrival =>
      obtain ⟨p, mine, team⟩ := fits
      cases side with
      | home => exact ⟨⟨p, mine, team, nofun⟩, ⟨nofun, fun _ => met.whistle (.inr rfl), nofun⟩, trivial⟩
      | away => exact ⟨⟨p, mine, team⟩, ⟨nofun, fun _ => met.whistle (.inr rfl), nofun⟩, trivial⟩

/-- A home player keeps the assertions. -/
theorem home_keeps {place : HomePlace} (here : config.status t = .ready (.home place)) :
    (code player t (.home place)).Keeps (Guard player) config t := by
  obtain ⟨fits, met, _⟩ := all t
  rw [here, Status.place_ready] at fits met
  have same := others_of_le all t (Memory.Le.refl config.memory)
  have whistle : config.memory.whistleBlown ≠ 0 := met.whistle (.inr rfl)
  obtain ⟨p, mine, team, role⟩ := fits
  cases place with
  | play =>
      intro after next effect
      cases effect
      refine ⟨⟨⟨p, mine, team, ?_⟩, ⟨nofun, fun _ => whistle, ?_⟩, trivial⟩, same⟩
      · intro role star
        subst mine
        by_cases zero : (player p).tid = 0
        · simp only [tid, zero, ↓reduceIte] at star ⊢
          cases star
          rfl
        · simp only [tid, zero, ↓reduceIte] at star ⊢
          cases star
          rfl
      · simp only [Status.place_ready]
        split <;> nofun
  | conductInterview =>
      intro after next effect
      cases effect
      exact ⟨⟨⟨p, mine, team, role⟩, ⟨nofun, fun _ => whistle, nofun⟩, trivial⟩, same⟩
  | lockInterview | lockExit => exact fun _ => ⟨⟨p, mine, team, role⟩, ⟨nofun, fun _ => whistle, nofun⟩, trivial⟩
  | endInterview =>
      intro after next effect
      cases effect
      have le : config.memory.Le { config.memory with interviewOver := 1 } := ⟨le_rfl, id, fun _ => one_ne_zero⟩
      exact ⟨⟨⟨p, mine, team, role⟩, ⟨nofun, fun _ => whistle, fun _ => one_ne_zero⟩, trivial⟩,
        others_of_le all t le⟩
  | wakeHome =>
      exact ⟨⟨p, mine, team, nofun⟩, ⟨nofun, fun _ => whistle, fun _ => met.interview rfl⟩, trivial⟩
  | condInterview => exact ⟨⟨p, mine, team, role⟩, ⟨nofun, fun _ => whistle, nofun⟩, rfl⟩
  | interviewTest =>
      intro after next effect
      cases effect
      refine ⟨⟨⟨p, mine, team, ?_⟩, ⟨nofun, fun _ => whistle, ?_⟩, trivial⟩, same⟩
      · split
        · exact role
        · nofun
      · simp only [Status.place_ready]
        split
        · nofun
        · next ended => exact fun _ => ended
  | exitField =>
      intro after next effect
      cases effect
      exact ⟨⟨⟨p, mine, team, nofun⟩, ⟨nofun, fun _ => whistle, fun _ => met.interview rfl⟩, trivial⟩, same⟩
  | unlockExit =>
      exact ⟨⟨p, mine, team, nofun⟩, ⟨nofun, fun _ => whistle, fun _ => met.interview rfl⟩, trivial⟩
  | done => trivial

/-- An away player keeps the assertions. -/
theorem away_keeps {place : AwayPlace} (here : config.status t = .ready (.away place)) :
    (code player t (.away place)).Keeps (Guard player) config t := by
  obtain ⟨fits, met, _⟩ := all t
  rw [here, Status.place_ready] at fits met
  have same := others_of_le all t (Memory.Le.refl config.memory)
  have whistle : config.memory.whistleBlown ≠ 0 := met.whistle (.inr rfl)
  cases place with
  | play | exitField =>
      intro after next effect
      cases effect
      exact ⟨⟨fits, ⟨nofun, fun _ => whistle, nofun⟩, trivial⟩, same⟩
  | done => trivial

/-- The referee keeps the assertions. -/
theorem referee_keeps {place : RefereePlace} (here : config.status t = .ready (.referee place)) :
    (code player t (.referee place)).Keeps (Guard player) config t := by
  obtain ⟨fits, met, _⟩ := all t
  rw [here, Status.place_ready] at fits met
  have same := others_of_le all t (Memory.Le.refl config.memory)
  cases place with
  | lockStart => exact fun _ => ⟨fits, ⟨nofun, nofun, nofun⟩, trivial⟩
  | condReferee => exact ⟨fits, ⟨nofun, nofun, nofun⟩, rfl⟩
  | arrivedTest =>
      intro after next effect
      cases effect
      refine ⟨⟨fits, ?_, trivial⟩, same⟩
      simp only [Status.place_ready]
      split
      · exact ⟨nofun, nofun, nofun⟩
      · next all => exact ⟨fun _ => by omega, nofun, nofun⟩
  | blowWhistle =>
      intro after next effect
      cases effect
      exact ⟨⟨fits, ⟨fun _ => met.arrived rfl, nofun, nofun⟩, trivial⟩, same⟩
  | setWhistle =>
      intro after next effect
      cases effect
      have le : config.memory.Le { config.memory with whistleBlown := 1 } := ⟨le_rfl, fun _ => one_ne_zero, id⟩
      exact ⟨⟨fits, ⟨fun _ => met.arrived rfl, fun _ => one_ne_zero, nofun⟩, trivial⟩, others_of_le all t le⟩
  | wakePlayers | unlockStart =>
      exact ⟨fits, ⟨fun _ => met.arrived rfl, fun _ => met.whistle (.inl rfl), nofun⟩, trivial⟩
  | play | exitField =>
      intro after next effect
      cases effect
      exact ⟨⟨fits, ⟨fun _ => met.arrived rfl, fun _ => met.whistle (.inl rfl), nofun⟩, trivial⟩, same⟩
  | done => trivial

end Moves

variable [DecidableEq P] {allowed : History (Option P) Memory Place Mutex Cond → State P → Option P → Prop}
  {history : History (Option P) Memory Place Mutex Cond} {config : State P}

theorem owned (reached : Run (code player) (start player) allowed history config) :
    Owned (fun _ => held) config := by
  refine reached.owned code_respects start_owned ?_
  intro _ _ t place mutex next _ _ _ unlocks unheld
  cases place with
  | arrival side place => cases place <;> cases unlocks; cases unheld
  | home place => cases place <;> cases unlocks; cases unheld
  | away place => cases place <;> cases unlocks
  | referee place => cases place <;> cases unlocks; cases unheld

theorem guarded (reached : Run (code player) (start player) allowed history config) :
    Everywhere (Guard player) config := by
  refine Run.everywhere (Guard player) ?_ ?_ ?_ ?_ reached
  · intro t
    cases t with
    | none => exact ⟨rfl, ⟨nofun, nofun, nofun⟩, trivial⟩
    | some p => exact ⟨⟨p, rfl, rfl⟩, ⟨nofun, nofun, nofun⟩, trivial⟩
  · intro t cond mutex place memory guard
    exact ⟨guard.fits, guard.met, Option.isSome_iff_exists.mpr ⟨cond, guard.waits⟩⟩
  · intro t mutex place memory guard
    exact ⟨guard.fits, guard.met, trivial⟩
  · intro history config t place _ all _ here
    cases place with
    | arrival side place => exact arrival_keeps all here
    | home place => exact home_keeps all here
    | away place => exact away_keeps all here
    | referee place => exact referee_keeps all here

/-- `num_players_arrived` counts the players that have arrived. -/
theorem numPlayersArrived_eq (reached : Run (code player) (start player) allowed history config) :
    config.memory.numPlayersArrived = config.number fun _ => Place.arrived := by
  rw [← tally_weigh]
  refine reached.balanced Memory.numPlayersArrived _ ?_ ?_
  · rw [tally_eq_zero fun t => by cases t <;> rfl]
    rfl
  intro _ config t place _ _ _ _
  cases place with
  | arrival side place =>
      cases place with
      | lockArrival | signalReferee | condWhistle => rfl
      | unlockArrival => cases side <;> rfl
      | arrive | lastTest | whistleTest | startPlaying =>
          intro after next effect
          cases effect
          simp [weigh, Place.arrived] <;> split <;> simp
  | home place =>
      cases place with
      | lockInterview | lockExit | wakeHome | condInterview | unlockExit => rfl
      | play | conductInterview | endInterview | interviewTest | exitField =>
          intro after next effect
          cases effect
          simp [weigh, Place.arrived]
      | done => trivial
  | away place =>
      cases place with
      | play | exitField =>
          intro after next effect
          cases effect
          simp [weigh, Place.arrived]
      | done => trivial
  | referee place =>
      cases place with
      | lockStart | condReferee | wakePlayers | unlockStart => rfl
      | arrivedTest | blowWhistle | setWhistle | play | exitField =>
          intro after next effect
          cases effect
          simp [weigh, Place.arrived]
      | done => trivial

/-- Only players arrive. -/
theorem arrived_subset (reached : Run (code player) (start player) allowed history config) :
    (Finset.univ.filter fun t => (config.status t).place.arrived = true) ⊆
      (Finset.univ : Finset P).map Function.Embedding.some := by
  intro t member
  simp only [Finset.mem_filter, Finset.mem_univ, true_and] at member
  cases t with
  | some p => simp
  | none =>
      have fits := (guarded reached none).fits
      cases place : (config.status none).place with
      | referee _ => rw [place] at member; cases member
      | arrival _ _ | home _ | away _ =>
          rw [place] at fits
          obtain ⟨p, impossible, _⟩ := fits
          cases impossible

/-- At most all players arrive. -/
theorem numPlayersArrived_le (reached : Run (code player) (start player) allowed history config) :
    config.memory.numPlayersArrived ≤ Fintype.card P := by
  rw [numPlayersArrived_eq reached, Config.number]
  have few := Finset.card_le_card (arrived_subset reached)
  rw [Finset.card_map, Finset.card_univ] at few
  exact_mod_cast few

/-- All players have arrived when the counter says so. -/
theorem arrived_of_le (reached : Run (code player) (start player) allowed history config)
    (all : (Fintype.card P : Int) ≤ config.memory.numPlayersArrived) (p : P) :
    (config.status (some p)).place.arrived = true := by
  have equal := Finset.eq_of_subset_of_card_le (arrived_subset reached) (by
    rw [numPlayersArrived_eq reached, Config.number] at all
    rw [Finset.card_map, Finset.card_univ]
    exact_mod_cast all)
  have member : some p ∈ Finset.univ.filter fun t => (config.status t).place.arrived = true := by
    rw [equal]
    simp
  simpa using member

/-- The referee has blown the whistle when `whistle_blown` is set. -/
theorem blown_of_whistleBlown (reached : Run (code player) (start player) allowed history config)
    (whistle : config.memory.whistleBlown ≠ 0) : (config.status none).place.blown = true := by
  refine reached.happened (fun memory => memory.whistleBlown ≠ 0) none Place.blown (fun blown =>
    blown rfl) ?_ ?_ whistle
  · intro _ config t place after next before here effect whistle
    have fits := (guarded before t).fits
    rw [here, Status.place_ready] at fits
    cases place with
    | referee place => cases place <;> cases effect <;> first | exact .inl whistle | exact .inr ⟨fits, rfl⟩
    | arrival side place => cases place <;> cases effect <;> exact .inl whistle
    | home place => cases place <;> cases effect <;> exact .inl whistle
    | away place => cases place <;> cases effect <;> exact .inl whistle
  · intro place memory after next effect past
    cases place with
    | referee place => cases place <;> first | cases past; done | (cases effect <;> rfl)
    | _ => cases past

/-- The star player has given its interview when `interview_over` is set. -/
theorem interviewed_of_interviewOver {star : P} (unique : ∀ p, player p = .star ↔ p = star)
    (reached : Run (code player) (start player) allowed history config)
    (ended : config.memory.interviewOver ≠ 0) : (config.status (some star)).place.interviewed = true := by
  refine reached.happened (fun memory => memory.interviewOver ≠ 0) (some star) Place.interviewed (fun ended =>
    ended rfl)
    ?_ ?_ ended
  · intro _ config t place after next before here effect ended
    have fits := (guarded before t).fits
    rw [here, Status.place_ready] at fits
    cases place with
    | home place =>
        cases place with
        | endInterview =>
            obtain ⟨p, mine, team, role⟩ := fits
            have zero : (player p).tid = 0 := by simpa using role true rfl
            have same : p = star := (unique p).mp (by rw [Player.star, ← team, ← zero])
            cases effect
            exact .inr ⟨by rw [mine, same], rfl⟩
        | done => cases effect
        | _ => cases effect; exact .inl ended
    | referee place => cases place <;> cases effect <;> exact .inl ended
    | arrival side place => cases place <;> cases effect <;> exact .inl ended
    | away place => cases place <;> cases effect <;> exact .inl ended
  · intro place memory after next effect past
    cases place with
    | home place => cases place <;> first | cases past; done | (cases effect <;> rfl)
    | arrival side place => cases place <;> cases past
    | _ => cases past

end

end OSLabs.Game
