import OSLabs.Proof.Game.Protocol
import OSLabs.Proof.Pthread.Attended
import OSLabs.Proof.Pthread.Progress

namespace OSLabs.Game
open Pthread

namespace Place

/-- The player is about to wait for the whistle. -/
def isWhistleWait : Place → Bool
  | .arrival _ .condWhistle => true
  | _ => false

/-- The home player is about to wait for the end of the interview. -/
def isInterviewWait : Place → Bool
  | .home .condInterview => true
  | _ => false

/-- The referee is about to wait for the players. -/
def isRefereeWait : Place → Bool
  | .referee .condReferee => true
  | _ => false

/-- The referee is about to wake the players. -/
def wakesPlayers : Place → Bool
  | .referee .wakePlayers => true
  | _ => false

/-- The star player is about to wake the home players. -/
def wakesHome : Place → Bool
  | .home .wakeHome => true
  | _ => false

/-- The thread will wake the referee, or it is the referee before its test. -/
def wakesReferee : Place → Bool
  | .arrival _ .lastTest | .arrival _ .signalReferee | .referee .arrivedTest => true
  | _ => false

end Place

/-- Some player has not arrived. -/
def Memory.Missing (numPlayers : Nat) (memory : Memory) : Prop := memory.numPlayersArrived < numPlayers

/-- The thread will wake the referee, or it is the referee before its test, and it runs or is woken. -/
def alert {T : Type} (_ : T) : Status Place Mutex Cond → Bool
  | .ready place | .woken _ place => place.wakesReferee
  | .blocked _ _ _ => false

/-- The referee waits or is about to wait. -/
def awaitsPlayers {T : Type} (_ : T) (status : Status Place Mutex Cond) : Bool :=
  status.awaits .refereeWait Place.isRefereeWait

theorem held_of_isWhistleWait (place : Place) (waits : place.isWhistleWait = true) : held place .lock = true := by
  cases place with
  | arrival side place => cases place <;> first | rfl | cases waits
  | home place | away place | referee place => cases waits

theorem held_of_isInterviewWait (place : Place) (waits : place.isInterviewWait = true) :
    held place .lock = true := by
  cases place with
  | home place => cases place <;> first | rfl | cases waits
  | arrival side place | away place | referee place => cases waits

theorem held_of_isRefereeWait (place : Place) (waits : place.isRefereeWait = true) : held place .lock = true := by
  cases place with
  | referee place => cases place <;> first | rfl | cases waits
  | arrival side place | home place | away place => cases waits

section
variable {P : Type} {player : P → Player} [Fintype P] [DecidableEq P]
  {allowed : History (Option P) Memory Place Mutex Cond → State P → Option P → Prop}
  {history : History (Option P) Memory Place Mutex Cond} {config : State P}

/-- A player waits for the whistle only while it is not blown or the referee is about to wake the players. -/
theorem whistle_waits (reached : Run (code player) (start player) allowed history config) {t : Option P}
    (awaits : (config.status t).awaits .playerWait Place.isWhistleWait = true) :
    config.memory.whistleBlown = 0 ∨ ∃ other, (config.places other).wakesPlayers = true := by
  refine reached.awaited .playerWait Place.isWhistleWait
    (fun _ places memory => memory.whistleBlown = 0 ∨ ∃ other, (places other).wakesPlayers = true)
    ?_ ?_ ?_ ?_ ?_ t awaits
  · intro waiter
    cases waiter <;> rfl
  · intro _ config t mutex place before woken
    have waits := (guarded before t).waits
    rw [woken] at waits
    cases place with
    | arrival side place => cases place <;> first | rfl | cases waits
    | _ => rfl
  · intro t place mutex next waits
    cases place with
    | arrival side place => cases place <;> first | rfl | cases waits
    | home place => cases place <;> cases waits
    | away place => cases place <;> cases waits
    | referee place => cases place <;> cases waits
  · intro _ config t place after next _ _ _ effect entering
    cases place with
    | arrival side place =>
        cases place with
        | whistleTest =>
            cases effect
            by_cases silent : config.memory.whistleBlown = 0
            · exact .inl silent
            · simp only [silent, ↓reduceIte] at entering
              cases entering
        | lastTest =>
            cases effect
            by_cases last : config.memory.numPlayersArrived = Fintype.card P <;>
              simp only [last, ↓reduceIte] at entering <;> cases entering
        | unlockArrival => cases side <;> cases effect <;> cases entering
        | _ => cases effect; cases entering
    | home place => cases place <;> cases effect <;> cases entering
    | away place => cases place <;> cases effect <;> cases entering
    | referee place => cases place <;> cases effect <;> cases entering
  · intro _ config t place after next waiter before _ here effect awaits woken attended
    have located := Config.places_of_ready here
    have kept : after.whistleBlown = config.memory.whistleBlown → place.wakesPlayers = false →
        after.whistleBlown = 0 ∨ ∃ other, (Function.update config.places t next other).wakesPlayers = true := by
      intro same quiet
      exact or_exists_update Place.wakesPlayers attended same.trans (by rw [located, quiet])
    cases place with
    | arrival side place => cases place <;> cases effect <;> exact kept rfl rfl
    | home place => cases place <;> cases effect <;> exact kept rfl rfl
    | away place => cases place <;> cases effect <;> exact kept rfl rfl
    | referee place =>
        cases place with
        | setWhistle =>
            cases effect
            exact .inr ⟨t, by rw [Function.update_self]; rfl⟩
        | wakePlayers =>
            have runs := woken (by cases effect; rfl)
            rw [(owned before).runs_eq_false here held_of_isWhistleWait rfl rfl] at runs
            cases runs
        | done => cases effect
        | _ =>
            cases effect
            exact kept rfl rfl

/-- A home player waits only while the interview is not over or the star player is about to wake the home
players. -/
theorem interview_waits (reached : Run (code player) (start player) allowed history config) {t : Option P}
    (awaits : (config.status t).awaits .interview Place.isInterviewWait = true) :
    config.memory.interviewOver = 0 ∨ ∃ other, (config.places other).wakesHome = true := by
  refine reached.awaited .interview Place.isInterviewWait
    (fun _ places memory => memory.interviewOver = 0 ∨ ∃ other, (places other).wakesHome = true)
    ?_ ?_ ?_ ?_ ?_ t awaits
  · intro waiter
    cases waiter <;> rfl
  · intro _ config t mutex place before woken
    have waits := (guarded before t).waits
    rw [woken] at waits
    cases place with
    | home place => cases place <;> first | rfl | cases waits
    | _ => rfl
  · intro t place mutex next waits
    cases place with
    | arrival side place => cases place <;> cases waits
    | home place => cases place <;> first | rfl | cases waits
    | away place => cases place <;> cases waits
    | referee place => cases place <;> cases waits
  · intro _ config t place after next _ _ _ effect entering
    cases place with
    | home place =>
        cases place with
        | interviewTest =>
            cases effect
            by_cases open' : config.memory.interviewOver = 0
            · exact .inl open'
            · simp only [open', ↓reduceIte] at entering
              cases entering
        | play =>
            cases effect
            by_cases zero : tid player t = 0 <;> simp only [zero, ↓reduceIte] at entering <;> cases entering
        | done => cases effect
        | _ => cases effect; cases entering
    | arrival side place =>
        cases place with
        | unlockArrival => cases side <;> cases effect <;> cases entering
        | _ => cases effect; cases entering
    | away place => cases place <;> cases effect <;> cases entering
    | referee place => cases place <;> cases effect <;> cases entering
  · intro _ config t place after next waiter before _ here effect awaits woken attended
    have located := Config.places_of_ready here
    have kept : after.interviewOver = config.memory.interviewOver → place.wakesHome = false →
        after.interviewOver = 0 ∨ ∃ other, (Function.update config.places t next other).wakesHome = true := by
      intro same quiet
      exact or_exists_update Place.wakesHome attended same.trans (by rw [located, quiet])
    cases place with
    | arrival side place => cases place <;> cases effect <;> exact kept rfl rfl
    | away place => cases place <;> cases effect <;> exact kept rfl rfl
    | referee place => cases place <;> cases effect <;> exact kept rfl rfl
    | home place =>
        cases place with
        | endInterview =>
            cases effect
            exact .inr ⟨t, by rw [Function.update_self]; rfl⟩
        | wakeHome =>
            have runs := woken (by cases effect; rfl)
            rw [(owned before).runs_eq_false here held_of_isInterviewWait rfl rfl] at runs
            cases runs
        | done => cases effect
        | _ =>
            cases effect
            exact kept rfl rfl

/-- Only the referee waits for the players. -/
theorem eq_none_of_awaits (reached : Run (code player) (start player) allowed history config) {t : Option P}
    (awaits : awaitsPlayers t (config.status t) = true) : t = none := by
  obtain ⟨fits, _, waits⟩ := guarded reached t
  cases status : config.status t with
  | ready place =>
      rw [status] at awaits fits
      cases place with
      | referee place => exact fits
      | arrival side place => cases place <;> cases awaits
      | home place => cases place <;> cases awaits
      | away place => cases awaits
  | woken mutex place =>
      rw [status] at awaits
      cases awaits
  | blocked cond mutex place =>
      rw [status] at awaits fits waits
      rw [awaitsPlayers, Status.awaits_blocked] at awaits
      subst awaits
      cases place with
      | referee place => exact fits
      | arrival side place => cases place <;> cases waits
      | home place => cases place <;> cases waits
      | away place => cases waits

section Moves
variable {t : Option P} {after : Memory} {next : Place}

/-- A step that wakes nobody and keeps the number of arrivals keeps the referee attended. -/
theorem attends_of_quiet {place : Place} {status : Status Place Mutex Cond}
    (attended : Attended awaitsPlayers alert (fun _ => Memory.Missing (Fintype.card P)) config)
    (here : config.status t = .ready place) (same : awaitsPlayers t status = awaitsPlayers t (.ready place))
    (quiet : place.wakesReferee = false) (unchanged : after.numPlayersArrived = config.memory.numPlayersArrived) :
    Attends awaitsPlayers alert (fun _ => Memory.Missing (Fintype.card P)) config t after status := by
  refine attended.keep_ready here same quiet fun missing => ?_
  rwa [Memory.Missing, unchanged]

variable (before : Run (code player) (start player) allowed history config)
  (attended : Attended awaitsPlayers alert (fun _ => Memory.Missing (Fintype.card P)) config)
include attended

/-- A home player keeps the referee attended. -/
theorem home_attends {place : HomePlace} (here : config.status t = .ready (.home place))
    (effect : (code player t (.home place)).effect config.memory = some (after, next)) :
    Attends awaitsPlayers alert (fun _ => Memory.Missing (Fintype.card P)) config t after
      ((code player t (.home place)).resume next) := by
  cases place with
  | play =>
      cases effect
      refine attends_of_quiet attended here ?_ rfl rfl
      by_cases zero : tid player t = 0 <;> simp only [zero, ↓reduceIte] <;> rfl
  | interviewTest =>
      cases effect
      refine attends_of_quiet attended here ?_ rfl rfl
      by_cases ended : config.memory.interviewOver = 0 <;> simp only [ended, ↓reduceIte] <;> rfl
  | done => cases effect
  | _ =>
      cases effect
      exact attends_of_quiet attended here rfl rfl rfl

/-- An away player keeps the referee attended. -/
theorem away_attends {place : AwayPlace} (here : config.status t = .ready (.away place))
    (effect : (code player t (.away place)).effect config.memory = some (after, next)) :
    Attends awaitsPlayers alert (fun _ => Memory.Missing (Fintype.card P)) config t after
      ((code player t (.away place)).resume next) := by
  cases place with
  | done => cases effect
  | _ =>
      cases effect
      exact attends_of_quiet attended here rfl rfl rfl

include before

/-- An arriving player keeps the referee attended. -/
theorem arrival_attends {side : Side} {place : ArrivalPlace}
    (here : config.status t = .ready (.arrival side place))
    (effect : (code player t (.arrival side place)).effect config.memory = some (after, next))
    (unblocked : Unblocked awaitsPlayers config t (code player t (.arrival side place)) next) :
    Attends awaitsPlayers alert (fun _ => Memory.Missing (Fintype.card P)) config t after
      ((code player t (.arrival side place)).resume next) := by
  have most := numPlayersArrived_le before
  cases place with
  | arrive =>
      cases effect
      exact attends_of_alert rfl
  | lastTest =>
      cases effect
      by_cases last : config.memory.numPlayersArrived = Fintype.card P
      · apply attends_of_alert
        simp only [last, ↓reduceIte]
        rfl
      · exact attends_of_fact (show config.memory.numPlayersArrived < Fintype.card P by omega)
  | signalReferee =>
      cases effect
      refine attends_of_none (fun waiter different => ?_) rfl
      by_contra waits
      have awaits : awaitsPlayers waiter (config.status waiter) = true := by simpa using waits
      have free := unblocked .refereeWait (.inl rfl) waiter different awaits
      rw [awaitsPlayers, Status.awaits, free, Bool.false_or,
        (owned before).runs_eq_false here held_of_isRefereeWait rfl rfl] at awaits
      cases awaits
  | whistleTest =>
      cases effect
      refine attends_of_quiet attended here ?_ rfl rfl
      by_cases silent : config.memory.whistleBlown = 0 <;> simp only [silent, ↓reduceIte] <;> rfl
  | unlockArrival =>
      cases effect
      refine attends_of_quiet attended here ?_ rfl rfl
      cases side <;> rfl
  | _ =>
      cases effect
      exact attends_of_quiet attended here rfl rfl rfl

/-- The referee waits only while a player is missing. -/
theorem referee_attends {place : RefereePlace} (here : config.status t = .ready (.referee place))
    (effect : (code player t (.referee place)).effect config.memory = some (after, next)) :
    Attends awaitsPlayers alert (fun _ => Memory.Missing (Fintype.card P)) config t after
      ((code player t (.referee place)).resume next) := by
  cases place with
  | arrivedTest =>
      by_cases missing : config.memory.numPlayersArrived < Fintype.card P
      · cases effect
        exact attends_of_fact missing
      · have fits := (guarded before t).fits
        rw [here] at fits
        refine attends_of_none (fun waiter different => ?_) ?_
        · by_contra waits
          have awaits : awaitsPlayers waiter (config.status waiter) = true := by simpa using waits
          exact different ((eq_none_of_awaits before awaits).trans fits.symm)
        · cases effect
          simp only [missing, ↓reduceIte]
          rfl
  | done => cases effect
  | _ =>
      cases effect
      exact attends_of_quiet attended here rfl rfl rfl

end Moves

/-- The referee waits only while a player is missing or a thread will wake the referee. -/
theorem referee_waits (reached : Run (code player) (start player) allowed history config) :
    Attended awaitsPlayers alert (fun _ => Memory.Missing (Fintype.card P)) config := by
  refine reached.attended awaitsPlayers alert _ ?_ ?_ ?_ ?_ ?_ ?_ ?_ ?_
  · intro t
    cases t <;> rfl
  · intro _ config t cond mutex place before here awaits
    have waits := (guarded before t).waits
    rw [here] at waits
    rw [awaitsPlayers, Status.awaits_blocked] at awaits
    subst awaits
    cases place with
    | referee place => cases place <;> first | rfl | cases waits
    | arrival side place => cases place <;> cases waits
    | home place => cases place <;> cases waits
    | away place => cases waits
  · intro t cond mutex place
    rfl
  · intro t mutex place alarm
    exact alarm
  · intro t other cond mutex place mutex' place' awaits
    rw [awaitsPlayers, Status.awaits_blocked] at awaits ⊢
    exact awaits
  · intro t mutex place
    rfl
  · intro _ config t mutex place before here
    have waits := (guarded before t).waits
    rw [here] at waits
    cases place with
    | referee place => cases place <;> first | rfl | cases waits
    | _ => rfl
  · intro _ config t place after next before attended _ here effect unblocked
    cases place with
    | arrival side place => exact arrival_attends before attended here effect unblocked
    | home place => exact home_attends attended here effect
    | away place => exact away_attends attended here effect
    | referee place => exact referee_attends before attended here effect

/-- A thread in a stalled configuration has returned or is blocked at the test of its wait. -/
theorem place_of_stalled (reached : Run (code player) (start player) allowed history config)
    (stalled : Stalled (code player) config) (t : Option P) :
    (config.status t = .ready (.home .done) ∨ config.status t = .ready (.away .done) ∨
      config.status t = .ready (.referee .done)) ∨
    (∃ side mutex, config.status t = .blocked .playerWait mutex (.arrival side .whistleTest)) ∨
    (∃ mutex, config.status t = .blocked .interview mutex (.home .interviewTest)) ∨
    ∃ mutex, config.status t = .blocked .refereeWait mutex (.referee .arrivedTest) := by
  cases status : config.status t with
  | ready place =>
      have exits := stalled.exits status
      left
      cases place with
      | arrival side place => cases place <;> cases exits
      | home place => cases place <;> first | exact .inl rfl | cases exits
      | away place => cases place <;> first | exact .inr (.inl rfl) | cases exits
      | referee place => cases place <;> first | exact .inr (.inr rfl) | cases exits
  | woken mutex place => exact absurd status stalled.not_woken
  | blocked cond mutex place =>
      have waits := (guarded reached t).waits
      rw [status] at waits
      right
      cases place with
      | arrival side place => cases place <;> cases waits; exact .inl ⟨side, mutex, rfl⟩
      | home place => cases place <;> cases waits; exact .inr (.inl ⟨mutex, rfl⟩)
      | away place => cases waits
      | referee place => cases place <;> cases waits; exact .inr (.inr ⟨mutex, rfl⟩)

/-- Nobody wakes anybody in a stalled configuration. -/
theorem quiet_of_stalled (reached : Run (code player) (start player) allowed history config)
    (stalled : Stalled (code player) config) (t : Option P) :
    (config.places t).wakesPlayers = false ∧ (config.places t).wakesHome = false ∧
      alert t (config.status t) = false := by
  rw [Config.places]
  rcases place_of_stalled reached stalled t with (here | here | here) | ⟨side, mutex, here⟩ | ⟨mutex, here⟩ |
    ⟨mutex, here⟩ <;> rw [here] <;> exact ⟨rfl, rfl, rfl⟩

/-- The referee has blown the whistle in a stalled configuration. -/
theorem whistleBlown_of_stalled (reached : Run (code player) (start player) allowed history config)
    (stalled : Stalled (code player) config) : config.memory.whistleBlown ≠ 0 := by
  obtain ⟨fits, met, _⟩ := guarded reached none
  rcases place_of_stalled reached stalled none with (here | here | here) | ⟨side, mutex, here⟩ | ⟨mutex, here⟩ |
    ⟨mutex, here⟩
  · rw [here] at met
    exact met.whistle (.inr rfl)
  · rw [here] at met
    exact met.whistle (.inr rfl)
  · rw [here] at met
    exact met.whistle (.inl rfl)
  · rw [here] at fits
    obtain ⟨p, impossible, _⟩ := fits
    cases impossible
  · rw [here] at fits
    obtain ⟨p, impossible, _⟩ := fits
    cases impossible
  · exfalso
    rcases referee_waits reached none (by rw [here]; rfl) with missing | ⟨other, alarm⟩
    · have all : ∀ p : P, (config.status (some p)).place.arrived = true := by
        intro p
        have fits' := (guarded reached (some p)).fits
        rcases place_of_stalled reached stalled (some p) with (there | there | there) | ⟨side, mutex, there⟩ |
          ⟨mutex, there⟩ | ⟨mutex, there⟩ <;> rw [there] <;> try rfl
        · rw [there] at fits'
          cases fits'
        · rw [there] at fits'
          cases fits'
      have subset : (Finset.univ : Finset P).map Function.Embedding.some ⊆
          Finset.univ.filter fun t => (config.status t).place.arrived = true := by
        intro t member
        obtain ⟨p, _, rfl⟩ := Finset.mem_map.mp member
        simpa using all p
      have many := Finset.card_le_card subset
      rw [Finset.card_map, Finset.card_univ] at many
      rw [Memory.Missing, numPlayersArrived_eq reached, Config.number] at missing
      omega
    · rw [(quiet_of_stalled reached stalled other).2.2] at alarm
      cases alarm

theorem not_stalled {star : P} (isStar : player star = .star)
    (reached : Run (code player) (start player) allowed history config) : ¬ Stalled (code player) config := by
  intro stalled
  have whistle := whistleBlown_of_stalled reached stalled
  have noWhistleWait : ∀ t side mutex, config.status t ≠ .blocked .playerWait mutex
      (.arrival side .whistleTest) := by
    intro t side mutex here
    rcases whistle_waits reached (t := t) (by rw [here]; rfl) with silent | ⟨other, wakes⟩
    · exact whistle silent
    · rw [(quiet_of_stalled reached stalled other).1] at wakes
      cases wakes
  have ended : config.memory.interviewOver ≠ 0 := by
    obtain ⟨fits, met, _⟩ := guarded reached (some star)
    rcases place_of_stalled reached stalled (some star) with (here | here | here) | ⟨side, mutex, here⟩ |
      ⟨mutex, here⟩ | ⟨mutex, here⟩
    · rw [here] at met
      exact met.interview rfl
    · rw [here] at fits
      obtain ⟨p, same, team⟩ := fits
      cases same
      rw [isStar] at team
      cases team
    · rw [here] at fits
      cases fits
    · exact absurd here (noWhistleWait _ side mutex)
    · rw [here] at fits
      obtain ⟨p, same, _, role⟩ := fits
      cases same
      have impossible := role false rfl
      rw [isStar] at impossible
      cases impossible
    · rw [here] at fits
      cases fits
  obtain ⟨t, blocked⟩ := stalled.exists_blocked
  rcases place_of_stalled reached stalled t with (here | here | here) | ⟨side, mutex, here⟩ | ⟨mutex, here⟩ |
    ⟨mutex, here⟩
  · rw [here] at blocked
    cases blocked
  · rw [here] at blocked
    cases blocked
  · rw [here] at blocked
    cases blocked
  · exact noWhistleWait t side mutex here
  · rcases interview_waits reached (t := t) (by rw [here]; rfl) with early | ⟨other, wakes⟩
    · exact ended early
    · rw [(quiet_of_stalled reached stalled other).2.1] at wakes
      cases wakes
  · have blown := blown_of_whistleBlown reached whistle
    have fits := (guarded reached t).fits
    rw [here] at fits
    cases fits
    rw [here] at blown
    cases blown

/-- No thread inside a section of `lock` waits for a mutex. -/
theorem not_stuck {star : P} (isStar : player star = .star)
    (reached : Run (code player) (start player) allowed history config) : ¬ Stuck (code player) config := by
  refine (owned reached).not_stuck ?_ ?_ (not_stalled isStar reached)
  · intro t place first second _ _
    cases first
    cases second
    rfl
  · intro t place mutex _ holds
    cases place with
    | arrival side place => cases place <;> first | rfl | cases holds
    | home place => cases place <;> first | rfl | cases holds
    | away place => cases holds
    | referee place => cases place <;> first | rfl | cases holds

end

/-- The protocol of the match in one configuration. -/
structure MatchProtocol {P : Type} (star : P) (config : State P) : Prop where
  /-- The whistle is blown only after all players have arrived. -/
  whistle : (config.status none).place.blows = true → ∀ p, (config.status (some p)).place.arrived = true
  /-- No player starts playing before the whistle. -/
  play : ∀ p, (config.status (some p)).place.plays = true → (config.status none).place.blown = true
  /-- No home player exits before the interview of the star player is over. -/
  interview : ∀ p, (config.status (some p)).place.exits = true →
    (config.status (some star)).place.interviewed = true

/-- The match follows its protocol in every reachable configuration, and the threads never wait for ever. -/
theorem match_protocol {P : Type} [Fintype P] [DecidableEq P] {player : P → Player} {star : P} {config : State P}
    (unique : ∀ p, player p = .star ↔ p = star) (reachable : Reachable (code player) (start player) config) :
    MatchProtocol star config ∧ ¬ Stalled (code player) config ∧ ¬ Stuck (code player) config := by
  obtain ⟨history, reached⟩ := reachable
  have isStar : player star = .star := (unique star).mpr rfl
  refine ⟨⟨fun blows p => ?_, fun p plays => ?_, fun p exits => ?_⟩, not_stalled isStar reached,
    not_stuck isStar reached⟩
  · exact arrived_of_le reached ((guarded reached none).met.arrived blows) p
  · exact blown_of_whistleBlown reached ((guarded reached (some p)).met.whistle (.inr plays))
  · apply interviewed_of_interviewOver unique reached
    apply (guarded reached (some p)).met.interview
    cases place : (config.status (some p)).place with
    | home inner => cases inner <;> first | rfl | (rw [place] at exits; cases exits)
    | arrival _ _ | away _ | referee _ => rw [place] at exits; cases exits

/-- The star player of the home team and one player of the away team. -/
def starAndGuest : Fin 2 → Player
  | 0 => .star
  | 1 => ⟨.away, 0⟩

/-- The referee waits for the second player, whose arrival wakes the referee,
and the star player exits at the end. -/
theorem star_exits : ∃ config, Reachable (code starAndGuest) (start starAndGuest) config ∧
    (config.status (some 0)).place.exits = true ∧ MatchProtocol 0 config ∧
      ¬ Stalled (code starAndGuest) config := by
  obtain ⟨config, reached, holds⟩ := exists_reachable (code starAndGuest) (start starAndGuest)
    (turns 3 none ++ turns 5 (some 0) ++ turns 3 (some 1) ++ [Move.signal (some 1) none] ++ turns 2 (some 1) ++
      turns 6 none ++ turns 10 (some 0))
    (fun config => (config.status (some 0)).place.exits) (by decide)
  have unique : ∀ p, starAndGuest p = .star ↔ p = 0 := by decide
  obtain ⟨protocol, alive, _⟩ := match_protocol unique reached
  exact ⟨config, reached, holds, protocol, alive⟩

end OSLabs.Game
