/-
This file models the leader and the followers of `exam2/problem2/leader.c`.
-/

import OSLabs.Construction.Pthread
import Mathlib.Data.Fintype.Option

namespace OSLabs.Leader

open Pthread

/-- The followers use `lock` and the leader uses `lock2`. -/
inductive Mutex where
  | lock
  | lock2
  deriving DecidableEq

inductive Cond where
  | linger
  deriving DecidableEq

/-- These are the two global variables. -/
structure Memory where
  numFollowersInPlayground : Int
  leaderPlay : Int
  deriving DecidableEq

/-- These are the program points of `leader`, in source order. They carry the local variable `i`. -/
inductive LeaderPlace where
  | loopTest (i : Nat)
  | lockEnter (i : Nat)
  | enter (i : Nat)
  | wakeFollowers (i : Nat)
  | unlockEnter (i : Nat)
  | lockLeave (i : Nat)
  | leave (i : Nat)
  | unlockLeave (i : Nat)
  | done
  deriving DecidableEq

/-- These are the program points of `follower`, in source order. -/
inductive FollowerPlace where
  | lockWork
  | unlockWork
  | lockPlay
  | playTest
  | join
  | lingerTest
  | condLinger
  | part
  | unlockPlay
  deriving DecidableEq

inductive Place where
  | leader (place : LeaderPlace)
  | follower (place : FollowerPlace)
  deriving DecidableEq

/-- This function is `leader`. -/
def leader (shifts : Nat) : LeaderPlace → Instr Memory Place Mutex Cond
  | .loopTest i => .access fun memory => (memory, .leader (if i < shifts then .lockEnter i else .done))
  | .lockEnter i => .lock .lock2 (.leader (.enter i))
  | .enter i => .access fun memory => ({ memory with leaderPlay := 1 }, .leader (.wakeFollowers i))
  | .wakeFollowers i => .broadcast .linger (.leader (.unlockEnter i))
  | .unlockEnter i => .unlock .lock2 (.leader (.lockLeave i))
  | .lockLeave i => .lock .lock2 (.leader (.leave i))
  | .leave i => .access fun memory => ({ memory with leaderPlay := 0 }, .leader (.unlockLeave i))
  | .unlockLeave i => .unlock .lock2 (.leader (.loopTest (i + 1)))
  | .done => .exit

/-- This function is `follower`, which never returns.
Only followers use `num_followers_in_playground`, and they use it under `lock`, so each update is one access. -/
def follower : FollowerPlace → Instr Memory Place Mutex Cond
  | .lockWork => .lock .lock (.follower .unlockWork)
  | .unlockWork => .unlock .lock (.follower .lockPlay)
  | .lockPlay => .lock .lock (.follower .playTest)
  | .playTest => .access fun memory =>
      (memory, .follower (if memory.leaderPlay = 0 then .join else .unlockPlay))
  | .join => .access fun memory =>
      ({ memory with numFollowersInPlayground := memory.numFollowersInPlayground + 1 }, .follower .lingerTest)
  | .lingerTest => .access fun memory =>
      (memory, .follower (if memory.leaderPlay = 0 then .condLinger else .part))
  | .condLinger => .wait .linger .lock (.follower .lingerTest)
  | .part => .access fun memory =>
      ({ memory with numFollowersInPlayground := memory.numFollowersInPlayground - 1 }, .follower .unlockPlay)
  | .unlockPlay => .unlock .lock (.follower .lockWork)

section
variable {F : Type}

/-- The threads are the leader, which is `none`, and the followers. -/
abbrev State (F : Type) := Config (Option F) Memory Place Mutex Cond

/-- Each thread runs the function that it started with, and the leader takes this number of shifts. -/
def code (shifts : Nat) (_ : Option F) : Place → Instr Memory Place Mutex Cond
  | .leader place => leader shifts place
  | .follower place => follower place

/-- At the start the playground is empty and each thread is at the begin of its function. -/
def start : State F := Config.initial ⟨0, 0⟩ fun
  | none => .leader (.loopTest 0)
  | some _ => .follower .lockWork

namespace Place

/-- The leader is about to execute `leaderPlay = 1`. -/
def isEnter : Place → Bool
  | .leader (.enter _) => true
  | _ => false

/-- The leader is about to broadcast. -/
def isWake : Place → Bool
  | .leader (.wakeFollowers _) => true
  | _ => false

/-- The leader is about to execute `leaderPlay = 0`. -/
def isLeave : Place → Bool
  | .leader (.leave _) => true
  | _ => false

/-- The follower has found `leaderPlay == 0` and is about to wait. -/
def isCond : Place → Bool
  | .follower .condLinger => true
  | _ => false

/-- The follower is about to execute `num_followers_in_playground--`. -/
def isPart : Place → Bool
  | .follower .part => true
  | _ => false

/-- The follower is in the playground: it has executed `num_followers_in_playground++` and not yet
`num_followers_in_playground--`. -/
def lingers : Place → Bool
  | .follower .lingerTest | .follower .condLinger | .follower .part => true
  | _ => false

end Place

/-- The leader does not broadcast while a follower is between its test and its wait, and it leaves only when each
follower in the playground is blocked in its wait with no wakeup pending. -/
def Patient (config : State F) (t : Option F) : Prop :=
  ((config.status t).runs Place.isWake = true → ∀ other, (config.status other).runs Place.isCond = false) ∧
    ((config.status t).runs Place.isLeave = true →
      ∀ other, (config.status other).place.lingers = true → (config.status other).isBlocked = true)

/-- Whenever the leader has entered and later left, each follower that lingered when the leader entered
has ended its stay in between. -/
def Cleared (history : History (Option F) Memory Place Mutex Cond) : Prop :=
  ∀ later middle earlier (entered left : State F) (f : F),
    history = later ++ (left, none) :: (middle ++ (entered, none) :: earlier) →
    (entered.status none).runs Place.isEnter = true → (left.status none).runs Place.isLeave = true →
    (entered.status (some f)).place.lingers = true →
    ∃ entry ∈ middle, entry.2 = some f ∧ (entry.1.status (some f)).runs Place.isPart = true

end

end OSLabs.Leader
