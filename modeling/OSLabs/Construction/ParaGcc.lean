/-
This file models `main` of `sample_exams/exam1/exam1-2019c/solution/para_gcc.c`.
-/

import OSLabs.Construction.Buffer
import OSLabs.Construction.Process
import OSLabs.Construction.Stdio

namespace OSLabs.ParaGcc

open Transition Process Buffer Stdio

/-- This function replaces the first `.c` with `.o`. -/
def replaceDotcWithDoto : List UInt8 → List UInt8
  | 46 :: 99 :: rest => 46 :: 111 :: rest
  | character :: rest => character :: replaceDotcWithDoto rest
  | [] => []

/-- These are the two kinds of calls of `gcc_name`. -/
inductive Image where
  | compile (file : List UInt8)
  | link (objects : List (List UInt8))
  deriving DecidableEq

/-- These are the lines that `main` prints. -/
inductive Line where
  | childFailed
  deriving DecidableEq

/-- These are the program points of `main` from the loop on, in source order.
A place carries the two counters; `check` also has the status that `wait` stored, if it stored one. -/
inductive Place where
  | loop (startCounter endCounter : Nat)
  | fork (startCounter endCounter : Nat)
  | compile (startCounter endCounter : Nat)
  | wait (startCounter endCounter : Nat)
  | check (startCounter endCounter : Nat) (status : Nat)
  | childFailed
  | abort
  | link
  | return
  | undefined
  deriving DecidableEq

/-- This function is `main` with the arguments after the program name and with `max_gccs`.
The value of `status` is undefined when `wait` has not stored one. -/
def main (files : List (List UInt8)) (maxGccs : Nat) : Place → Instr Place Image Line
  | .loop start ended =>
      .jump (if ended < files.length then
        if start < files.length ∧ (start : Int) - ended < maxGccs then .fork start ended else .wait start ended
      else .link)
  | .fork start ended => .fork (.compile start ended) fun _ => .loop (start + 1) ended
  | .compile start ended => .exec (.compile (files.getD start [])) (.loop start ended)
  | .wait start ended => .wait fun
      | some status => .check start (ended + 1) status
      | none => .undefined
  | .check start ended status => .jump (if wExitStatus status ≠ 0 then .childFailed else .loop start ended)
  | .childFailed => .print .childFailed .abort
  | .abort => .exit 1
  | .link => .exec (.link (files.map replaceDotcWithDoto)) .return
  | .return => .exit 0
  | .undefined => .exit 0

def program (files : List (List UInt8)) (maxGccs : Nat) : Program Place Image Line where
  code := main files maxGccs
  handler _ place := place
  blocks _ _ := false

/-- The process that runs `main` has the number one. -/
def start : Config Place Image Line := .initial (.loop 0 0)

/-- Every `exec` succeeds, and each compilation ends in a possible way.
Compilation `k` is the process with the number `k + 2`. -/
def Ends (possible : Nat → Termination → Prop) (_ : Config Place Image Line) : Move → Prop
  | .refuse _ => False
  | .terminate pid termination => pid = 1 ∨ possible (pid - 2) termination
  | _ => True

instance (possible : Nat → Termination → Prop) [∀ k termination, Decidable (possible k termination)]
    (config : Config Place Image Line) (move : Move) : Decidable (Ends possible config move) :=
  match move with
  | .refuse _ => inferInstanceAs (Decidable False)
  | .terminate pid termination => inferInstanceAs (Decidable (pid = 1 ∨ possible (pid - 2) termination))
  | .run _ | .reap _ _ | .deliver _ _ => inferInstanceAs (Decidable True)

/-- Main waits for a child in this move. -/
def waited : Move → Bool
  | .reap pid _ => pid == 1
  | _ => false

/-- The number of times that main has waited for a child. -/
def waits (history : List (Config Place Image Line × Move)) : Nat := history.countP fun step => waited step.2

/-- The values of `start_counter` and `end_counter` at the places of the loop. -/
def Place.counters : Place → Option (Nat × Nat)
  | .loop a b | .fork a b | .wait a b | .check a b _ => some (a, b)
  | _ => none

/-- The calls of `exec` that a process has made. -/
def calls (config : Config Place Image Line) (pid : Nat) : List (Nat × Image) :=
  config.execs.filter fun call => call.1 == pid

/-- The loop of main is over and main links. -/
def Linking (config : Config Place Image Line) : Prop :=
  config.status 1 = some (.running .link) ∨ ∃ objects, config.status 1 = some (.executing (.link objects))

/-- What the scheduling loop promises.
File `k` is compiled by the process with the number `k + 2`, which is the next child that main creates. -/
structure Scheduled (files : List (List UInt8)) (maxGccs : Nat) (config : Config Place Image Line) : Prop where
  counters : ∀ place a b, config.status 1 = some (.running place) → place.counters = some (a, b) →
    b ≤ a ∧ a ≤ b + maxGccs ∧ config.children 1 = a - b
  waiting : ∀ a b, config.status 1 = some (.running (.wait a b)) → config.children 1 ≠ 0
  inOrder : ∃ started, started ≤ files.length ∧ config.fresh = started + 2 ∧
    ∀ k < started, config.parent (k + 2) = 1 ∧
    ((∃ b, config.status (k + 2) = some (.running (.compile k b))) ∧ calls config (k + 2) = [] ∨
      calls config (k + 2) = [(k + 2, .compile (files.getD k []))])
  compilers : ∀ pid file, (pid, Image.compile file) ∈ config.execs → ∃ k, pid = k + 2 ∧ files[k]? = some file
  linking : Linking config → ∀ k < files.length,
    (∃ termination, config.status (k + 2) = some (.reaped termination)) ∧
    calls config (k + 2) = [(k + 2, .compile (files.getD k []))]

/-- Compilation `k` ends in the given way. -/
def Outcomes (outcome : Nat → Termination) (k : Nat) (termination : Termination) : Prop := termination = outcome k

instance (outcome : Nat → Termination) (k : Nat) (termination : Termination) :
    Decidable (Outcomes outcome k termination) := inferInstanceAs (Decidable (_ = _))

/-- Main links only when all compilations have succeeded, and otherwise it gives up. -/
def LinksAfterSuccess (limit : Nat) (outcome : Nat → Termination) (config : Config Place Image Line) : Prop :=
  (Linking config → ∀ k < limit, outcome k = .exit 0) ∧
    ∀ termination, config.status 1 = some (.zombie termination) → (∃ k < limit, outcome k ≠ .exit 0) →
      termination = .exit 1 ∧ config.output = [.childFailed]

/-- The pointer at this index is copied. -/
def copyAt {A : Type} (array : List A) (i : Nat) (space : List (Option A)) : Option (List (Option A)) :=
  (load array i).bind fun pointer => store space i (some pointer)

/-- This function is `malloc_a_copy_that_ends_in_null`,
where `space` are the pointers for which the block has room.
The block has `1 + size * sizeof(char*)` bytes at least. -/
def mallocACopyThatEndsInNull {A : Type} (array : List A) (space : List (Option A)) :
    Option (List (Option A)) := do
  let space ← forLoop (copyAt array) 0 array.length space
  store space array.length none

/-- The pointers before the first null pointer. -/
def untilNull {A : Type} : List (Option A) → List A
  | some pointer :: rest => pointer :: untilNull rest
  | _ => []

/-- The string `gcc_name`. -/
def gccName : List UInt8 := ascii "./slow_gcc"

/-- The name at this index is edited in place. A null pointer is no string. -/
def replaceAt (i : Nat) (argvCopy : List (Option (List UInt8))) : Option (List (Option (List UInt8))) :=
  match load argvCopy i with
  | some (some name) => store argvCopy i (some (replaceDotcWithDoto name))
  | _ => none

/-- The argument vector of `main` for its last `execvp`. -/
def linkArguments (argv : List (List UInt8)) (space : List (Option (List UInt8))) :
    Option (List (List UInt8)) := do
  let argvCopy ← mallocACopyThatEndsInNull argv space
  let argvCopy ← store argvCopy 0 (some gccName)
  let argvCopy ← forLoop replaceAt 1 (argv.length - 1) argvCopy
  return untilNull argvCopy

/-- The ending of the file names. -/
def dotC : List UInt8 := [46, 99]

/-- The ending of the objects. -/
def dotO : List UInt8 := [46, 111]

/-- The argument vector that names the file and each object. -/
def NamesObjects (argv0 : Text) (stems : List Text) (space : List (Option (List UInt8))) : Prop :=
  linkArguments (argv0.bytes :: stems.map fun stem => stem.bytes ++ dotC) space =
    some (gccName :: stems.map fun stem => stem.bytes ++ dotO)

end OSLabs.ParaGcc
