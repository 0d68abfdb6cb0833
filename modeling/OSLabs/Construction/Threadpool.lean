/-
This file models the workers of `Exam2-202330-makeup/makeup_solution/threadpool.c`.
-/

import OSLabs.Construction.Pthread

namespace OSLabs.Threadpool

open Pthread

/-- A request is a character of `stack` with its position.
The overflow branch of `pop` returns 0, which has no position. -/
structure Request where
  position : Option Nat
  c : UInt8
  deriving DecidableEq

/-- The shared memory has the global `stackptr` and the lines of the program:
the number of overflow messages, and for each processed request the worker and the request. -/
structure Memory (workers : Nat) where
  stackptr : Nat
  overflows : Nat
  processed : List (Fin workers × Request)
  deriving DecidableEq

def Memory.start {workers : Nat} : Memory workers := ⟨0, 0, []⟩

/-- The positions of the processed requests. -/
def Memory.positions {workers : Nat} (memory : Memory workers) : List Nat :=
  memory.processed.filterMap fun entry => entry.2.position

/-- These are the program points of `worker_thread`, in source order, with those of its calls.
The place of the write carries the value that `++` has read. -/
inductive Place where
  | printStarted
  | lockFirst
  | emptyTest
  | overflowTest
  | overflow
  | popRead
  | popWrite (value : Nat)
  | unlockRequest (c : Request)
  | process (c : Request)
  | sleep
  | lockAgain
  | unlockLast
  | done
  deriving DecidableEq

/-- The mutex is `lock`. -/
inductive Mutex where
  | lock
  deriving DecidableEq

section
variable {workers : Nat}

/-- A configuration of the workers. There is no condition variable. -/
abbrev State (workers : Nat) := Config (Fin workers) (Memory workers) Place Mutex Empty

/-- This function is `is_empty`. The string has no NUL before its end. -/
def isEmpty (stack : List UInt8) (memory : Memory workers) : Bool := stack.length ≤ memory.stackptr

/-- This function is `pop`, after which the worker continues with the request. -/
def pop (stack : List UInt8) : Place → Instr (Memory workers) Place Mutex Empty
  | .overflow => .access fun memory => ({ memory with overflows := memory.overflows + 1 },
    .unlockRequest ⟨none, 0⟩)
  | .popRead => .access fun memory => (memory, .popWrite memory.stackptr)
  | .popWrite value => .access fun memory =>
      ({ memory with stackptr := value + 1 }, .unlockRequest ⟨some value, stack.getD value 0⟩)
  | _ => .access fun memory => (memory, if stack.length ≤ memory.stackptr then .overflow else .popRead)

/-- This function is `worker_thread`. -/
def workerThread (stack : List UInt8) (tid : Fin workers) : Place → Instr (Memory workers) Place Mutex Empty
  | .printStarted => .access fun memory => (memory, .lockFirst)
  | .lockFirst => .lock .lock .emptyTest
  | .emptyTest => .access fun memory => (memory, if isEmpty stack memory then .unlockLast else .overflowTest)
  | .overflowTest => pop stack .overflowTest
  | .overflow => pop stack .overflow
  | .popRead => pop stack .popRead
  | .popWrite value => pop stack (.popWrite value)
  | .unlockRequest c => .unlock .lock (.process c)
  | .process c => .access fun memory => ({ memory with processed := memory.processed ++ [(tid, c)] }, .sleep)
  | .sleep => .access fun memory => (memory, .lockAgain)
  | .lockAgain => .lock .lock .emptyTest
  | .unlockLast => .unlock .lock .done
  | .done => .exit

def start : State workers := Config.initial Memory.start fun _ => .printStarted

end

end OSLabs.Threadpool
