/-
This file models the workers of `exam2/problem3/two_person_jobs.c`.
-/

import OSLabs.Construction.Pthread

namespace OSLabs.TwoPersonJobs

open Pthread

/-- The only mutex is `lock`. -/
inductive Mutex where
  | lock
  deriving DecidableEq

/-- The only condition variable is `startJob`. -/
inductive Cond where
  | startJob
  deriving DecidableEq

/-- These are the five values of an entry of `jobs`. -/
inductive Job where
  | unstarted
  | started
  | done
  | waiting
  | partially
  deriving DecidableEq

/-- These are the lines that a worker prints. -/
inductive Message (T : Type) (jobnum : Nat) where
  | ready (num : T) (job : Fin jobnum)
  | helping (num : T) (job : Fin jobnum)
  | bad (num : T)
  | starting (num : T) (job : Fin jobnum)
  | partially (num : T) (job : Fin jobnum)
  | completely (num : T) (job : Fin jobnum)
  deriving DecidableEq

/-- The memory has the array `jobs` and the printed lines, newest first. -/
structure Memory (T : Type) (jobnum : Nat) where
  jobs : Fin jobnum → Job
  output : List (Message T jobnum)

namespace Memory
variable {T : Type} {jobnum : Nat}

/-- The main function sets every job to `UNSTARTED`. -/
def start : Memory T jobnum := ⟨fun _ => .unstarted, []⟩

def print (memory : Memory T jobnum) (message : Message T jobnum) : Memory T jobnum :=
  { memory with output := message :: memory.output }

def setJob (memory : Memory T jobnum) (job : Fin jobnum) (value : Job) : Memory T jobnum :=
  { memory with jobs := Function.update memory.jobs job value }

end Memory

/-- These are the program points of `worker`, in source order.
The places after the loop carry the local variable `job`, where `none` is -1. -/
inductive Place (jobnum : Nat) where
  | lockClaim
  | scan (i : Nat)
  | waitTest (job : Fin jobnum)
  | condWait (job : Fin jobnum)
  | signalHelp (job : Fin jobnum)
  | startHelp (job : Fin jobnum)
  | testJob (job : Option (Fin jobnum))
  | unlockClaim (job : Fin jobnum)
  | lockFinish (job : Fin jobnum)
  | finish (job : Fin jobnum)
  | unlockFinish (job : Fin jobnum)
  | done (job : Fin jobnum)
  | failed
  deriving DecidableEq

/-- This function is `worker` for the worker `num`.
The early return for `job == -1` keeps `lock`, as in the source. -/
def worker {T : Type} {jobnum : Nat} (num : T) :
    Place jobnum → Instr (Memory T jobnum) (Place jobnum) Mutex Cond
  | .lockClaim => .lock .lock (.scan 0)
  | .scan i => .access fun memory =>
      if inside : i < jobnum then
        match memory.jobs ⟨i, inside⟩ with
        | .unstarted =>
            ((memory.print (.ready num ⟨i, inside⟩)).setJob ⟨i, inside⟩ .waiting, .waitTest ⟨i, inside⟩)
        | .waiting => (memory.print (.helping num ⟨i, inside⟩), .signalHelp ⟨i, inside⟩)
        | _ => (memory, .scan (i + 1))
      else (memory, .testJob none)
  | .waitTest job => .access fun memory =>
      (memory, if memory.jobs job = .waiting then .condWait job else .testJob (some job))
  | .condWait job => .wait .startJob .lock (.waitTest job)
  | .signalHelp job => .signal .startJob (.startHelp job)
  | .startHelp job => .access fun memory => (memory.setJob job .started, .testJob (some job))
  | .testJob none => .access fun memory => (memory.print (.bad num), .failed)
  | .testJob (some job) => .access fun memory => (memory.print (.starting num job), .unlockClaim job)
  | .unlockClaim job => .unlock .lock (.lockFinish job)
  | .lockFinish job => .lock .lock (.finish job)
  | .finish job => .access fun memory =>
      match memory.jobs job with
      | .started => ((memory.setJob job .partially).print (.partially num job), .unlockFinish job)
      | .partially => ((memory.setJob job .done).print (.completely num job), .unlockFinish job)
      | _ => (memory, .unlockFinish job)
  | .unlockFinish job => .unlock .lock (.done job)
  | .done _ => .exit
  | .failed => .exit

section
variable {T : Type} {jobnum : Nat}

/-- A configuration of the workers. -/
abbrev State (T : Type) (jobnum : Nat) := Config T (Memory T jobnum) (Place jobnum) Mutex Cond

/-- The start state has no claimed job and every worker before its first lock. -/
def start : State T jobnum := Config.initial .start fun _ => .lockClaim

/-- The worker has printed that it is ready for the job or that it helps on it. -/
def Claims (memory : Memory T jobnum) (num : T) (job : Fin jobnum) : Prop :=
  .ready num job ∈ memory.output ∨ .helping num job ∈ memory.output

/-- The line is a report that the job is partially finished. -/
def Message.isPartially (job : Fin jobnum) : Message T jobnum → Bool
  | .partially _ other => other = job
  | _ => false

/-- The line is a report that the job is completely finished. -/
def Message.isCompletely (job : Fin jobnum) : Message T jobnum → Bool
  | .completely _ other => other = job
  | _ => false

/-- These are the permitted changes of one job. -/
def Job.Advances : Job → Job → Prop
  | .unstarted, .waiting => True
  | .waiting, .started => True
  | .started, .partially => True
  | .partially, .done => True
  | _, _ => False

end

end OSLabs.TwoPersonJobs
