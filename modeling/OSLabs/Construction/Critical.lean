/-
This file models the red and blue threads of `makeup_solution/critical.c`.
-/

import OSLabs.Construction.Pthread

namespace OSLabs.Critical

open Pthread

inductive Mutex where
  | lock
  deriving DecidableEq

inductive Cond where
  | cv
  deriving DecidableEq

inductive Kind where
  | red
  | blue
  deriving DecidableEq

/-- These are the three global counters. -/
structure Memory where
  numThreadsIn : Int
  numRedIn : Int
  numBlueIn : Int

namespace Memory

/-- At the start nobody is inside. -/
def start : Memory := ⟨0, 0, 0⟩

/-- The counter of one kind. -/
def own (memory : Memory) : Kind → Int
  | .red => memory.numRedIn
  | .blue => memory.numBlueIn

def setOwn (memory : Memory) (kind : Kind) (value : Int) : Memory :=
  match kind with
  | .red => { memory with numRedIn := value }
  | .blue => { memory with numBlueIn := value }

/-- The entry condition of one kind is the negation of its loop test. -/
def Admits (memory : Memory) (kind : Kind) : Prop := ¬ (memory.numThreadsIn ≥ 3 ∨ memory.own kind ≥ 2)

instance (memory : Memory) (kind : Kind) : Decidable (memory.Admits kind) := inferInstanceAs (Decidable (¬ _))

end Memory

/-- These are the program points of `red` and of `blue`, in source order. -/
inductive Place where
  | lockEntry
  | entryTest
  | condWait
  | countThread
  | countOwn
  | unlockEntry
  | critical
  | lockExit
  | uncountThread
  | uncountOwn
  | wakeThreads
  | unlockExit
  | done
  deriving DecidableEq

/-- The two thread functions differ only in the counter of their kind.
All counters are used only under `lock`, so each test and each update is one access. -/
def thread (kind : Kind) : Place → Instr Memory Place Mutex Cond
  | .lockEntry => .lock .lock .entryTest
  | .entryTest => .access fun memory =>
      (memory, if memory.numThreadsIn ≥ 3 ∨ memory.own kind ≥ 2 then .condWait else .countThread)
  | .condWait => .wait .cv .lock .entryTest
  | .countThread => .access fun memory => ({ memory with numThreadsIn := memory.numThreadsIn + 1 }, .countOwn)
  | .countOwn => .access fun memory => (memory.setOwn kind (memory.own kind + 1), .unlockEntry)
  | .unlockEntry => .unlock .lock .critical
  | .critical => .access fun memory => (memory, .lockExit)
  | .lockExit => .lock .lock .uncountThread
  | .uncountThread => .access fun memory => ({ memory with numThreadsIn := memory.numThreadsIn - 1 }, .uncountOwn)
  | .uncountOwn => .access fun memory => (memory.setOwn kind (memory.own kind - 1), .wakeThreads)
  | .wakeThreads => .broadcast .cv .unlockExit
  | .unlockExit => .unlock .lock .done
  | .done => .exit

/-- This function is `red`. -/
def red : Place → Instr Memory Place Mutex Cond := thread .red

/-- This function is `blue`. -/
def blue : Place → Instr Memory Place Mutex Cond := thread .blue

section
variable {T : Type}

/-- A configuration of the red and blue threads. -/
abbrev State (T : Type) := Config T Memory Place Mutex Cond

def code (kind : T → Kind) (t : T) : Place → Instr Memory Place Mutex Cond :=
  match kind t with
  | .red => red
  | .blue => blue

/-- At the start every thread arrives. -/
def start : State T := Config.initial .start fun _ => .lockEntry

namespace Place

/-- The thread has executed its `num_threads_in++` and not yet its `num_threads_in--`. -/
def countedThread : Place → Bool
  | .countOwn | .unlockEntry | .critical | .lockExit | .uncountThread => true
  | _ => false

/-- The thread has executed the `++` of the counter of its kind and not yet the `--`. -/
def countedOwn : Place → Bool
  | .unlockEntry | .critical | .lockExit | .uncountThread | .uncountOwn => true
  | _ => false

/-- The thread has entered and not left. -/
def inside : Place → Bool
  | .unlockEntry | .critical | .lockExit | .uncountThread => true
  | _ => false

end Place

/-- The thread is of this kind and passes the test. -/
def ofKind (kind : T → Kind) (member : Kind) (test : Place → Bool) (t : T) (place : Place) : Bool :=
  kind t = member && test place

end

end OSLabs.Critical
