/-
This file models the test runner of `process_lab/simple_test.c`.
-/

import OSLabs.Construction.Process

namespace OSLabs.SimpleTest

open Transition Process

/-- A test function returns `NULL` or a message, or a signal kills it. -/
inductive Outcome where
  | passed
  | failed
  | killed (signal : Signal) (core : Bool)
  deriving DecidableEq

def Outcome.isKilled : Outcome → Bool
  | .killed _ _ => true
  | _ => false

/-- These are the lines that the main process prints, and the line that the lab asks for in the case of a crash. -/
inductive Line where
  | exceeded
  | startingSetup
  | testPassed
  | testFailed
  | testCrashed
  deriving DecidableEq

/-- The constant `MAX_TESTS`. -/
def maxTests : Nat := 10

/-- These are the program points of `main` and `run_all_tests`, in source order.
A child runs `test j`. -/
inductive Place where
  | addTest (numTests : Nat)
  | exceeded
  | abort
  | setup (j : Nat)
  | fork (j : Nat)
  | test (j : Nat)
  | collect (i : Nat)
  | wait (i : Nat)
  | verdict (i : Nat) (status : Nat)
  | printPassed (i : Nat)
  | printFailed (i : Nat)
  | return
  deriving DecidableEq

/-- The end of the process that runs a test. -/
def Outcome.instr : Outcome → Instr Place Unit Line
  | .passed => .exit 0
  | .failed => .exit 1
  | .killed signal core => .crash signal core

/-- This function is `main` with the given test functions. -/
def main (tests : List Outcome) : Place → Instr Place Unit Line
  | .addTest numTests =>
      .jump (if numTests < tests.length then
        if numTests = maxTests then .exceeded else .addTest (numTests + 1)
      else .setup 0)
  | .exceeded => .print .exceeded .abort
  | .abort => .exit 1
  | .setup j => if j < tests.length then .print .startingSetup (.fork j) else .jump (.collect 0)
  | .fork j => .fork (.test j) fun _ => .setup (j + 1)
  | .test j => (tests.getD j .passed).instr
  | .collect i => .jump (if i < tests.length then .wait i else .return)
  | .wait i => .wait fun
      | some status => .verdict i status
      | none => .collect (i + 1)
  | .verdict i status =>
      .jump (if wIfExited status ∧ wExitStatus status = 0 then .printPassed i
      else if wIfExited status then .printFailed i else .wait i)
  | .printPassed i => .print .testPassed (.wait i)
  | .printFailed i => .print .testFailed (.wait i)
  | .return => .exit 0

def program (tests : List Outcome) : Program Place Unit Line where
  code := main tests
  handler _ place := place
  blocks _ _ := false

/-- The main process has the number one. -/
def start : Config Place Unit Line := .initial (.addTest 0)

/-- The main process has ended. -/
def Ended (config : Config Place Unit Line) : Prop := ∃ termination, config.status 1 = some (.zombie termination)

/-- There is one right verdict for each test, and every test process has been waited for. -/
def Verdicts (tests : List Outcome) (config : Config Place Unit Line) : Prop :=
  config.output.count .testPassed = tests.count .passed ∧ config.output.count .testFailed = tests.count .failed ∧
    config.output.count .testCrashed = tests.countP Outcome.isKilled ∧ config.children 1 = 0

end OSLabs.SimpleTest
