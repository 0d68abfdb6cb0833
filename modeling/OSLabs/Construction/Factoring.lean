/-
This file models the threads of `threads_basics/thread_factoring/factoring.c`.
-/

import OSLabs.Construction.Spawn
import OSLabs.Construction.Stdio

namespace OSLabs.Factoring

open Transition Spawn
open Stdio (toInt)

/-- The lines that the program prints. -/
inductive Line where
  | badNumber
  | testing (threadNum : Int) (i : Nat)
  | isFactor (i : Int)
  deriving DecidableEq

/-- All threads share the array `num` of `main` and the output. -/
structure Memory where
  num0 : Int
  num1 : Int
  output : List Line
  deriving DecidableEq

def Memory.print (memory : Memory) (line : Line) : Memory := { memory with output := memory.output ++ [line] }

/-- These are the program points of `main` after its input, in source order.
They carry the local variables `i` and `threadNum`. -/
inductive MainPlace where
  | checkThreads
  | setTarget
  | forTest (i : Nat) (threadNum : Int)
  | setCandidate (i : Nat) (threadNum : Int)
  | threadTest (i : Nat) (threadNum : Int)
  | printTesting (i : Nat) (threadNum : Int)
  | create (i : Nat) (threadNum : Int)
  | done
  deriving DecidableEq

/-- These are the program points of `factor`, in source order.
A place carries the local variables that have been read. -/
inductive FactorPlace where
  | readTarget
  | readCandidate (target : Int)
  | test (target i : Int)
  | done
  deriving DecidableEq

inductive Place where
  | main (place : MainPlace)
  | factor (place : FactorPlace)
  deriving DecidableEq

/-- The main thread, and one thread for each round of its loop. -/
abbrev Thread := Option Nat

/-- A configuration of the threads. -/
abbrev State := Config Thread Memory Place

/-- This function is `main` after its input. -/
def main (target : Nat) (numThreads : Int) : MainPlace → Instr Thread Memory Place
  | .checkThreads => .access fun memory =>
      if numThreads > 50 ∨ numThreads < 1 then (memory.print .badNumber, .main .done) else (memory,
        .main .setTarget)
  | .setTarget => .access fun memory => ({ memory with num0 := toInt target }, .main (.forTest 2 1))
  | .forTest i threadNum => .access fun memory =>
      (memory, .main (if i ≤ target / 2 then .setCandidate i threadNum else .done))
  | .setCandidate i threadNum => .access fun memory =>
      ({ memory with num1 := toInt i }, .main (.threadTest i threadNum))
  | .threadTest i threadNum => .access fun memory =>
      (memory, .main (.printTesting i (if threadNum ≤ numThreads then threadNum else 1)))
  | .printTesting i threadNum => .access fun memory =>
      (memory.print (.testing threadNum i), .main (.create i threadNum))
  | .create i threadNum => .create (some i) (.factor .readTarget) (.main (.forTest (i + 1) (threadNum + 1)))
  | .done => .exit

/-- This function is `factor`. -/
def factor : FactorPlace → Instr Thread Memory Place
  | .readTarget => .access fun memory => (memory, .factor (.readCandidate memory.num0))
  | .readCandidate target => .access fun memory => (memory, .factor (.test target memory.num1))
  | .test target i => .access fun memory =>
      (if target.tmod i = 0 then memory.print (.isFactor i) else memory, .factor .done)
  | .done => .exit

def code (target : Nat) (numThreads : Int) (_ : Thread) : Place → Instr Thread Memory Place
  | .main place => main target numThreads place
  | .factor place => factor place

/-- The return of `main` ends the process. -/
def Returned (config : State) : Prop := config.place none = some (.main .done)

instance (config : State) : Decidable (Returned config) := inferInstanceAs (Decidable (_ = _))

/-- This function gives the configuration after one move, while the process has not ended. -/
def fire (target : Nat) (numThreads : Int) (config : State) (thread : Thread) : Option State :=
  if Returned config then none else Spawn.fire (code target numThreads) config thread

/-- At the start `num` has any values. -/
def start (num0 num1 : Int) : State := Config.initial ⟨num0, num1, []⟩ none (.main .checkThreads)

/-- The numbers in the lines of the threads. -/
def reported (output : List Line) : List Int :=
  output.filterMap fun line =>
    match line with
    | .isFactor i => some i
    | .badNumber | .testing _ _ => none

/-- The divisors from 2 to the half of the target. -/
def factors (target : Nat) : List Int :=
  ((List.range (target / 2 + 1)).filter fun d => decide (2 ≤ d ∧ d ∣ target)).map fun d : Nat => (d : Int)

/-- The threads have printed one line for each of these divisors and no other line. -/
def Reports (target : Nat) (config : State) : Prop := (reported config.memory.output).Perm (factors target)

instance (target : Nat) (config : State) : Decidable (Reports target config) :=
    inferInstanceAs (Decidable (List.Perm _ _))

/-- The thread has not yet read `num[1]`. -/
def Place.unread : Place → Bool
  | .factor .readTarget | .factor (.readCandidate _) => true
  | _ => false

/-- All created threads pass the test. -/
def allCreated (test : Place → Bool) (i : Nat) (config : State) : Bool :=
  (List.range i).all fun k => (config.place (some k)).all test

/-- Main overwrites `num[1]` only when every created thread has read it,
and it returns only when every created thread has returned. -/
def Awaited (target : Nat) (config : State) (thread : Thread) : Prop :=
  (match thread, config.place none with
    | none, some (.main (.setCandidate i _)) => allCreated (fun place => !place.unread) i config
    | none, some (.main (.forTest i _)) => i ≤ target / 2 ||
        allCreated (fun place => place = .factor .done) i config
    | _, _ => true) = true

instance (target : Nat) (config : State) (thread : Thread) : Decidable (Awaited target config thread) :=
  inferInstanceAs (Decidable (_ = true))

/-- The lines that the test of `factor` prints.
The division fails for the divisor zero and for the quotient `2 ^ 31`. -/
def testLines (target i : Int) : Option (List Line) :=
  if i = 0 ∨ target = -2147483648 ∧ i = -1 then none
  else some (if target.tmod i = 0 then [.isFactor i] else [])

/-- On the values that main stores in `num`, the test divides
and reports the candidate exactly when it is a divisor. -/
def Decides (target i : Nat) : Prop :=
  ∃ lines, testLines (toInt target) (toInt i) = some lines ∧ (.isFactor i ∈ lines ↔ i ∣ target)

/-- The multiple of `2 ^ 32` that the conversion takes off. -/
def lost (value : Nat) : Nat := 4294967296 * ((value + 2147483648) / 4294967296)

/-- The conversions to `int` do no harm.
A candidate that fits in an `int` divides what the target loses,
or it divides neither the target nor what is left of it.
Another candidate is no divisor, and its division does not fail. -/
def Harmless (target i : Nat) : Prop :=
  if i < 2147483648 then
    i ∣ lost target ∨ ¬ i ∣ target ∧ ¬ (i : Int) ∣ target - lost target
  else ¬ i ∣ target ∧ ¬ 4294967296 ∣ i ∧ ¬ (target % 4294967296 = 2147483648 ∧ i % 4294967296 = 4294967295)

/-- The element of `arrayThreads` that main uses in this move. -/
def slot (step : State × Thread) : Option Int :=
  match step.2, step.1.place none with
  | none, some (.main (.create _ threadNum)) => some threadNum
  | _, _ => none

/-- The elements of `arrayThreads` that main has used, oldest first. -/
def slots (history : List (State × Thread)) : List Int := history.reverse.filterMap slot

/-- Main uses elements of the array, and any `numThreads` consecutive rounds use different ones. -/
structure RoundRobin (numThreads : Int) (slots : List Int) : Prop where
  inArray : ∀ slot ∈ slots, 0 ≤ slot ∧ slot < numThreads
  different : ∀ k, k + numThreads.toNat ≤ slots.length → ((slots.drop k).take numThreads.toNat).Nodup

end OSLabs.Factoring
