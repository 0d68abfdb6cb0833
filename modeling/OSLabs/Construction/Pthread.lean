/-
This file gives the interleaving semantics of mutexes and condition variables.
-/

import Mathlib.Data.Fintype.Card
import Mathlib.Logic.Function.Basic

namespace OSLabs.Pthread

/-- An instruction gives the next effect of a thread and the place where the thread continues.
An access is one atomic use of the shared memory. -/
inductive Instr (S L M C : Type) where
  | access (update : S → S × L)
  | lock (mutex : M) (next : L)
  | unlock (mutex : M) (next : L)
  | wait (cond : C) (mutex : M) (next : L)
  | signal (cond : C) (next : L)
  | broadcast (cond : C) (next : L)
  | exit

/-- The same instruction with its places inside a larger program. -/
def Instr.relabel {S L L' M C : Type} (embed : L → L') : Instr S L M C → Instr S L' M C
  | .access update => .access fun memory => ((update memory).1, embed (update memory).2)
  | .lock mutex next => .lock mutex (embed next)
  | .unlock mutex next => .unlock mutex (embed next)
  | .wait cond mutex next => .wait cond mutex (embed next)
  | .signal cond next => .signal cond (embed next)
  | .broadcast cond next => .broadcast cond (embed next)
  | .exit => .exit

/-- The thread returns. -/
def Instr.isExit {S L M C : Type} : Instr S L M C → Bool
  | .exit => true
  | _ => false

/-- The instruction can be performed in every configuration. -/
def Instr.isFree {S L M C : Type} : Instr S L M C → Bool
  | .lock _ _ => false
  | .exit => false
  | _ => true

/-- A thread runs at a place, is blocked in a wait, or is woken and must lock its mutex again. -/
inductive Status (L M C : Type) where
  | ready (place : L)
  | blocked (cond : C) (mutex : M) (place : L)
  | woken (mutex : M) (place : L)
  deriving DecidableEq

/-- The place where the thread runs or continues after its wait. -/
def Status.place {L M C : Type} : Status L M C → L
  | .ready place => place
  | .blocked _ _ place => place
  | .woken _ place => place

/-- The thread runs at a place of the set. -/
def Status.runs {L M C : Type} (inSet : L → Bool) : Status L M C → Bool
  | .ready place => inSet place
  | _ => false

/-- The thread is in a wait and no wakeup is pending for it. -/
def Status.isBlocked {L M C : Type} : Status L M C → Bool
  | .blocked _ _ _ => true
  | _ => false

/-- The thread is in a wait on this condition variable and no wakeup is pending for it. -/
def Status.blockedOn {L M C : Type} [DecidableEq C] (cond : C) : Status L M C → Bool
  | .blocked here _ _ => here = cond
  | _ => false

/-- A wakeup moves a thread that is blocked on the condition variable to its mutex. -/
def Status.wake {L M C : Type} [DecidableEq C] (cond : C) : Status L M C → Status L M C
  | .blocked here mutex place => if here = cond then .woken mutex place else .blocked here mutex place
  | .ready place => .ready place
  | .woken mutex place => .woken mutex place

/-- A configuration has the shared memory, the owner of each mutex, and the status of each thread. -/
structure Config (T S L M C : Type) where
  memory : S
  owner : M → Option T
  status : T → Status L M C

namespace Config

variable {T S L M C : Type}

def setMemory (config : Config T S L M C) (memory : S) : Config T S L M C :=
  { config with memory }

def setOwner [DecidableEq M] (config : Config T S L M C) (mutex : M) (owner : Option T) : Config T S L M C :=
  { config with owner := Function.update config.owner mutex owner }

def setStatus [DecidableEq T] (config : Config T S L M C) (thread : T) (status : Status L M C) :
    Config T S L M C :=
  { config with status := Function.update config.status thread status }

/-- A broadcast wakes every thread that is blocked on the condition variable. -/
def wakeAll [DecidableEq C] (config : Config T S L M C) (cond : C) : Config T S L M C :=
  { config with status := fun thread => (config.status thread).wake cond }

/-- The number of threads that pass a test at their places. -/
def number [Fintype T] (test : T → L → Bool) (config : Config T S L M C) : Nat :=
  (Finset.univ.filter fun thread => test thread (config.status thread).place = true).card

/-- At the start every mutex is free and every thread runs at its first place. -/
def initial (memory : S) (first : T → L) : Config T S L M C where
  memory := memory
  owner := fun _ => none
  status := fun thread => .ready (first thread)

end Config

/-- A move is one choice of the scheduler.
A signal that finds a blocked thread names the thread that it wakes. -/
inductive Move (T : Type) where
  | run (thread : T)
  | signal (thread target : T)
  | spurious (thread : T)

/-- The thread whose status the scheduler advances. -/
def Move.thread {T : Type} : Move T → T
  | .run thread => thread
  | .signal thread _ => thread
  | .spurious thread => thread

section
variable {T S L M C : Type} [DecidableEq T] [Fintype T] [DecidableEq M] [DecidableEq C]

/-- This function performs one instruction that needs no further choice of the scheduler.
An unlock frees its mutex, whichever thread owns the mutex. -/
def perform (config : Config T S L M C) (thread : T) : Instr S L M C → Option (Config T S L M C)
  | .access update =>
      let result := update config.memory
      some ((config.setMemory result.1).setStatus thread (.ready result.2))
  | .lock mutex next =>
      match config.owner mutex with
      | none => some ((config.setOwner mutex (some thread)).setStatus thread (.ready next))
      | some _ => none
  | .unlock mutex next => some ((config.setOwner mutex none).setStatus thread (.ready next))
  | .wait cond mutex next =>
      some ((config.setOwner mutex none).setStatus thread (.blocked cond mutex next))
  | .signal cond next =>
      if ∀ target, (config.status target).blockedOn cond = false then
        some (config.setStatus thread (.ready next))
      else none
  | .broadcast cond next => some ((config.wakeAll cond).setStatus thread (.ready next))
  | .exit => none

/-- This function gives the configuration after one move, if the move is possible. -/
def fire (code : T → L → Instr S L M C) (config : Config T S L M C) :
    Move T → Option (Config T S L M C)
  | .run thread =>
      match config.status thread with
      | .ready place => perform config thread (code thread place)
      | .woken mutex place => perform config thread (.lock mutex place)
      | .blocked _ _ _ => none
  | .signal thread target =>
      match config.status thread with
      | .ready place =>
          match code thread place with
          | .signal cond next =>
              if (config.status target).blockedOn cond then
                some ((config.setStatus thread (.ready next)).setStatus target
                  ((config.status target).wake cond))
              else none
          | _ => none
      | _ => none
  | .spurious thread =>
      match config.status thread with
      | .blocked _ mutex place => some (config.setStatus thread (.woken mutex place))
      | _ => none

/-- This function follows a complete schedule. -/
def follow (code : T → L → Instr S L M C) (config : Config T S L M C) :
    List (Move T) → Option (Config T S L M C)
  | [] => some config
  | move :: rest => (fire code config move).bind fun next => follow code next rest

/-- A thread that takes several turns in a row without a choice of its own. -/
def turns (count : Nat) (thread : T) : List (Move T) := List.replicate count (.run thread)

/-- The history lists each earlier configuration with the thread that moved there, newest first. -/
abbrev History (T S L M C : Type) := List (Config T S L M C × T)

/-- The number of earlier steps in which a thread executed the instruction at a place of the set. -/
def executed (inSet : L → Bool) (history : History T S L M C) : Nat :=
  history.countP fun entry => (entry.1.status entry.2).runs inSet

/-- A run is a sequence of moves in which each step meets the side condition. -/
inductive Run (code : T → L → Instr S L M C) (start : Config T S L M C)
    (allowed : History T S L M C → Config T S L M C → T → Prop) :
    History T S L M C → Config T S L M C → Prop where
  | start : Run code start allowed [] start
  | step {history : History T S L M C} {config next : Config T S L M C} (move : Move T)
      (before : Run code start allowed history config)
      (permitted : allowed history config move.thread)
      (fired : fire code config move = some next) :
      Run code start allowed ((config, move.thread) :: history) next

/-- This function follows a complete schedule and checks the side condition before each move. -/
def drive (code : T → L → Instr S L M C) (allowed : History T S L M C → Config T S L M C → T → Prop)
    [∀ history config thread, Decidable (allowed history config thread)]
    (history : History T S L M C) (config : Config T S L M C) :
    List (Move T) → Option (History T S L M C × Config T S L M C)
  | [] => some (history, config)
  | move :: rest =>
      if allowed history config move.thread then
        (fire code config move).bind fun next => drive code allowed ((config, move.thread) :: history) next rest
      else none

/-- A configuration is reachable when some unrestricted run ends in it. -/
def Reachable (code : T → L → Instr S L M C) (start config : Config T S L M C) : Prop :=
  ∃ history, Run code start (fun _ _ _ => True) history config

/-- A thread is finished when it runs and its next instruction is its exit. -/
def Finished (code : T → L → Instr S L M C) (config : Config T S L M C) (thread : T) : Prop :=
  (match config.status thread with
    | .ready place => (code thread place).isExit
    | _ => false) = true

instance (code : T → L → Instr S L M C) (config : Config T S L M C) (thread : T) :
    Decidable (Finished code config thread) := inferInstanceAs (Decidable (_ = true))

/-- A configuration is stalled when a thread is unfinished and every unfinished thread
is blocked in a wait with no wakeup pending. -/
def Stalled (code : T → L → Instr S L M C) (config : Config T S L M C) : Prop :=
  (∃ thread, ¬ Finished code config thread) ∧
    ∀ thread, ¬ Finished code config thread → (config.status thread).isBlocked = true

instance (code : T → L → Instr S L M C) (config : Config T S L M C) : Decidable (Stalled code config) :=
  inferInstanceAs (Decidable (_ ∧ _))

/-- A configuration is stuck when a thread is unfinished and no move is possible
other than a spurious wakeup. -/
def Stuck (code : T → L → Instr S L M C) (config : Config T S L M C) : Prop :=
  (∃ thread, ¬ Finished code config thread) ∧
    ∀ move next, fire code config move = some next → ∃ thread, move = .spurious thread

end

end OSLabs.Pthread
