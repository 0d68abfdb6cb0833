/-
This file models the priority lock of `condvar_challenge/priority.c`.
-/

import OSLabs.Construction.Pthread

namespace OSLabs.Priority

open Pthread

/-- The only mutex is `lock`. -/
inductive Mutex where
  | lock
  deriving DecidableEq

/-- The only condition variable is `priority`. -/
inductive Cond where
  | priority
  deriving DecidableEq

/-- These are the three global counters. -/
structure Memory where
  waiting : Int
  inCrit : Int
  highestPriority : Int

/-- The counters have these values before the first thread starts. -/
def Memory.start : Memory := ⟨0, 0, 0⟩

/-- These are the program points of `thread`, in source order. -/
inductive Place where
  | lockEntry
  | arrive
  | outerTest
  | innerTest
  | condWait
  | breakTest
  | enter
  | unlockEntry
  | lockExit
  | leave
  | wakeWaiters
  | unlockExit
  | done
  deriving DecidableEq

/-- This function is `thread` for the thread number `num`.
All counters are used only under `lock`, so each test with its branch is one access. -/
def thread (num : Int) : Place → Instr Memory Place Mutex Cond
  | .lockEntry => .lock .lock .arrive
  | .arrive => .access fun memory =>
      (if memory.inCrit ≠ 0 then { memory with waiting := memory.waiting + 1 } else memory, .outerTest)
  | .outerTest => .access fun memory =>
      if memory.waiting ≠ 0 then
        (if num > memory.highestPriority then { memory with highestPriority := num } else memory, .innerTest)
      else (memory, .enter)
  | .innerTest => .access fun memory =>
      (memory, if (num ≠ memory.highestPriority ∧ memory.waiting > 1) ∨ memory.inCrit ≠ 0 then .condWait
        else .breakTest)
  | .condWait => .wait .priority .lock .innerTest
  | .breakTest => .access fun memory =>
      if num = memory.highestPriority ∨ memory.waiting = 1 then
        ({ memory with waiting := memory.waiting - 1 }, .enter)
      else (memory, .outerTest)
  | .enter => .access fun memory => ({ memory with inCrit := memory.inCrit + 1 }, .unlockEntry)
  | .unlockEntry => .unlock .lock .lockExit
  | .lockExit => .lock .lock .leave
  | .leave => .access fun memory => ({ memory with inCrit := memory.inCrit - 1 }, .wakeWaiters)
  | .wakeWaiters => .broadcast .priority .unlockExit
  | .unlockExit => .unlock .lock .done
  | .done => .exit

section
variable {T : Type}

/-- A configuration of the priority lock. -/
abbrev State (T : Type) := Config T Memory Place Mutex Cond

/-- Each thread runs `thread` with its own number. -/
def code (num : T → Int) (t : T) : Place → Instr Memory Place Mutex Cond := thread (num t)

/-- The start state has zero counters and every thread before its first lock. -/
def start : State T := Config.initial .start fun _ => .lockEntry

/-- The thread has executed `inCrit++` and not yet its `inCrit--`. -/
def Place.inside : Place → Bool
  | .unlockEntry | .lockExit | .leave => true
  | _ => false

/-- The thread is in the loop of the admission test. -/
def Place.inLoop : Place → Bool
  | .outerTest | .innerTest | .condWait | .breakTest => true
  | _ => false

/-- The thread is in the critical section. -/
def Inside (config : State T) (t : T) : Prop := (config.status t).place.inside = true

/-- The thread waits in the loop of the admission test. -/
def Waits (config : State T) (t : T) : Prop := (config.status t).place.inLoop = true

/-- At most one thread is in the critical section. -/
def Exclusive (config : State T) : Prop :=
    ∀ first second, Inside config first → Inside config second → first = second

end

end OSLabs.Priority
