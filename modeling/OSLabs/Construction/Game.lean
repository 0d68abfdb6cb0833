/-
This file models the players and the referee of `makeup_solution/game.c`.
-/

import OSLabs.Construction.Pthread
import Mathlib.Data.Fintype.Option

namespace OSLabs.Game

open Pthread

inductive Mutex where
  | lock
  deriving DecidableEq

inductive Cond where
  | playerWait
  | refereeWait
  | interview
  deriving DecidableEq

/-- These are the three global variables. -/
structure Memory where
  interviewOver : Int
  numPlayersArrived : Int
  whistleBlown : Int

/-- At the start nobody has arrived. -/
def Memory.start : Memory := ⟨0, 0, 0⟩

inductive Side where
  | home
  | away
  deriving DecidableEq

/-- A player has a team and the number `tid`. -/
structure Player where
  side : Side
  tid : Nat
  deriving DecidableEq

/-- The star player conducts the interview. -/
def Player.star : Player := ⟨.home, 0⟩

/-- These are the program points up to the game, which `home_players` and `away_players` share, in source order. -/
inductive ArrivalPlace where
  | lockArrival
  | arrive
  | lastTest
  | signalReferee
  | whistleTest
  | condWhistle
  | startPlaying
  | unlockArrival
  deriving DecidableEq

/-- These are the program points of `home_players` from the game on, in source order. -/
inductive HomePlace where
  | play
  | conductInterview
  | lockInterview
  | endInterview
  | wakeHome
  | lockExit
  | interviewTest
  | condInterview
  | exitField
  | unlockExit
  | done
  deriving DecidableEq

/-- These are the program points of `away_players` from the game on, in source order. -/
inductive AwayPlace where
  | play
  | exitField
  | done
  deriving DecidableEq

/-- These are the program points of `referee`, in source order. -/
inductive RefereePlace where
  | lockStart
  | arrivedTest
  | condReferee
  | blowWhistle
  | setWhistle
  | wakePlayers
  | unlockStart
  | play
  | exitField
  | done
  deriving DecidableEq

inductive Place where
  | arrival (side : Side) (place : ArrivalPlace)
  | home (place : HomePlace)
  | away (place : AwayPlace)
  | referee (place : RefereePlace)
  deriving DecidableEq

/-- The player of this team plays the game. -/
def Place.game : Side → Place
  | .home => .home .play
  | .away => .away .play

/-- This function is the arrival in `home_players` and in `away_players`, whose code is the same.
The variables are used only under `lock`, so each test and each update is one access. -/
def arrival (numPlayers : Nat) (side : Side) : ArrivalPlace → Instr Memory Place Mutex Cond
  | .lockArrival => .lock .lock (.arrival side .arrive)
  | .arrive => .access fun memory =>
      ({ memory with numPlayersArrived := memory.numPlayersArrived + 1 }, .arrival side .lastTest)
  | .lastTest => .access fun memory =>
      (memory, .arrival side (if memory.numPlayersArrived = numPlayers then .signalReferee else .whistleTest))
  | .signalReferee => .signal .refereeWait (.arrival side .whistleTest)
  | .whistleTest => .access fun memory =>
      (memory, .arrival side (if memory.whistleBlown = 0 then .condWhistle else .startPlaying))
  | .condWhistle => .wait .playerWait .lock (.arrival side .whistleTest)
  | .startPlaying => .access fun memory => (memory, .arrival side .unlockArrival)
  | .unlockArrival => .unlock .lock (.game side)

/-- This function is `home_players` from the game on. -/
def homePlayers (tid : Nat) : HomePlace → Instr Memory Place Mutex Cond
  | .play => .access fun memory => (memory, .home (if tid = 0 then .conductInterview else .lockExit))
  | .conductInterview => .access fun memory => (memory, .home .lockInterview)
  | .lockInterview => .lock .lock (.home .endInterview)
  | .endInterview => .access fun memory => ({ memory with interviewOver := 1 }, .home .wakeHome)
  | .wakeHome => .broadcast .interview (.home .exitField)
  | .lockExit => .lock .lock (.home .interviewTest)
  | .interviewTest => .access fun memory =>
      (memory, .home (if memory.interviewOver = 0 then .condInterview else .exitField))
  | .condInterview => .wait .interview .lock (.home .interviewTest)
  | .exitField => .access fun memory => (memory, .home .unlockExit)
  | .unlockExit => .unlock .lock (.home .done)
  | .done => .exit

/-- This function is `away_players` from the game on. -/
def awayPlayers : AwayPlace → Instr Memory Place Mutex Cond
  | .play => .access fun memory => (memory, .away .exitField)
  | .exitField => .access fun memory => (memory, .away .done)
  | .done => .exit

/-- This function is `referee`. -/
def referee (numPlayers : Nat) : RefereePlace → Instr Memory Place Mutex Cond
  | .lockStart => .lock .lock (.referee .arrivedTest)
  | .arrivedTest => .access fun memory =>
      (memory, .referee (if memory.numPlayersArrived < numPlayers then .condReferee else .blowWhistle))
  | .condReferee => .wait .refereeWait .lock (.referee .arrivedTest)
  | .blowWhistle => .access fun memory => (memory, .referee .setWhistle)
  | .setWhistle => .access fun memory => ({ memory with whistleBlown := 1 }, .referee .wakePlayers)
  | .wakePlayers => .broadcast .playerWait (.referee .unlockStart)
  | .unlockStart => .unlock .lock (.referee .play)
  | .play => .access fun memory => (memory, .referee .exitField)
  | .exitField => .access fun memory => (memory, .referee .done)
  | .done => .exit

section
variable {P : Type}

/-- The threads are the referee, who is `none`, and the players. -/
abbrev State (P : Type) := Config (Option P) Memory Place Mutex Cond

/-- The number `tid` of a thread. -/
def tid (player : P → Player) : Option P → Nat
  | none => 0
  | some p => (player p).tid

/-- Each thread runs the function that it started with, and `NUM_PLAYERS` is the number of players. -/
def code [Fintype P] (player : P → Player) (t : Option P) : Place → Instr Memory Place Mutex Cond
  | .arrival side place => arrival (Fintype.card P) side place
  | .home place => homePlayers (tid player t) place
  | .away place => awayPlayers place
  | .referee place => referee (Fintype.card P) place

/-- At the start each thread is at the begin of its function. -/
def start (player : P → Player) : State P := Config.initial .start fun
  | none => .referee .lockStart
  | some p => .arrival (player p).side .lockArrival

end

namespace Place

/-- The player has executed `num_players_arrived++`. -/
def arrived : Place → Bool
  | .arrival _ .lockArrival | .arrival _ .arrive | .referee _ => false
  | _ => true

/-- The referee has found all players and blows the whistle or has blown it. -/
def blows : Place → Bool
  | .referee .lockStart | .referee .arrivedTest | .referee .condReferee => false
  | .referee _ => true
  | _ => false

/-- The referee has executed `whistle_blown = 1`. -/
def blown : Place → Bool
  | .referee .wakePlayers | .referee .unlockStart | .referee .play | .referee .exitField | .referee .done => true
  | _ => false

/-- The player starts playing or has started. -/
def plays : Place → Bool
  | .arrival _ .startPlaying | .arrival _ .unlockArrival | .home _ | .away _ => true
  | _ => false

/-- The star player has executed `interview_over = 1`. -/
def interviewed : Place → Bool
  | .home .wakeHome | .home .exitField | .home .unlockExit | .home .done => true
  | _ => false

/-- The home player exits the field or has exited. -/
def exits : Place → Bool
  | .home .exitField | .home .unlockExit | .home .done => true
  | _ => false

end Place

end OSLabs.Game
