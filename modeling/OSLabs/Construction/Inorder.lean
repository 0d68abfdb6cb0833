/-
This file models the threads of `condvar_basics/inorder.c`.
-/

import OSLabs.Construction.Pthread
import Mathlib.Logic.Equiv.Defs

namespace OSLabs.Inorder

open Pthread

/-- The lines that the threads print. -/
inductive Line where
  | wants (num : Int)
  | finished (num : Int)
  deriving DecidableEq

/-- The shared memory has the global `threadNext` and the output.
It also lists the numbers of the threads that have executed `threadNext++`. -/
structure Memory where
  threadNext : Int
  advanced : List Int
  output : List Line
  deriving DecidableEq

def Memory.start : Memory := ⟨1, [], []⟩

/-- The printed line is the last one of the output. -/
def Memory.print (memory : Memory) (line : Line) : Memory := { memory with output := memory.output ++ [line] }

/-- These are the program points of `thread`, in source order.
The place of the write carries the value that `++` has read. -/
inductive Place where
  | printWants
  | lockGate
  | turnTest
  | condWait
  | broadcast
  | advanceRead
  | advanceWrite (value : Int)
  | unlockGate
  | printFinished
  | done
  deriving DecidableEq

/-- The mutex is `lock`. -/
inductive Mutex where
  | lock
  deriving DecidableEq

/-- The condition variable is `barrier`. -/
inductive Cond where
  | barrier
  deriving DecidableEq

/-- This function is `thread`. -/
def thread (num : Int) : Place → Instr Memory Place Mutex Cond
  | .printWants => .access fun memory => (memory.print (.wants num), .lockGate)
  | .lockGate => .lock .lock .turnTest
  | .turnTest => .access fun memory => (memory, if memory.threadNext ≠ num then .condWait else .broadcast)
  | .condWait => .wait .barrier .lock .turnTest
  | .broadcast => .broadcast .barrier .advanceRead
  | .advanceRead => .access fun memory => (memory, .advanceWrite memory.threadNext)
  | .advanceWrite value => .access fun memory =>
      ({ memory with threadNext := value + 1, advanced := memory.advanced ++ [num] }, .unlockGate)
  | .unlockGate => .unlock .lock .printFinished
  | .printFinished => .access fun memory => (memory.print (.finished num), .done)
  | .done => .exit

section
variable {n : Nat}

/-- A configuration of as many threads as there are numbers. -/
abbrev State (n : Nat) := Config (Fin n) Memory Place Mutex Cond

/-- The array `nums` has the numbers from 1 on in any order. -/
def nums (order : Equiv.Perm (Fin n)) (t : Fin n) : Int := (order t).val + 1

def code (order : Equiv.Perm (Fin n)) (t : Fin n) : Place → Instr Memory Place Mutex Cond := thread (nums order t)

def start : State n := Config.initial Memory.start fun _ => .printWants

/-- The numbers from 1 on, in ascending order. -/
def upTo (count : Nat) : List Int := (List.range count).map fun k : Nat => (k : Int) + 1

/-- The numbers in the lines of the finished threads, in the order of these lines. -/
def finishedLines (output : List Line) : List Int :=
  output.filterMap fun line =>
    match line with
    | .wants _ => none
    | .finished num => some num

/-- The thread is about to write `threadNext`. -/
def Place.advances : Place → Bool
  | .advanceWrite _ => true
  | _ => false

/-- A thread advances only when every thread that has advanced before it has printed its last line. -/
def Unhurried (config : State n) (t : Fin n) : Prop :=
  (config.status t).runs Place.advances = true → finishedLines config.memory.output = config.memory.advanced

instance (config : State n) (t : Fin n) : Decidable (Unhurried config t) := inferInstanceAs (Decidable (_ → _))

end

end OSLabs.Inorder
