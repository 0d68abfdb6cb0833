/-
This file gives the interleaving semantics of threads that create and join other threads.
-/

import OSLabs.Construction.Transition
import Mathlib.Logic.Function.Basic

namespace OSLabs.Spawn

open Transition

/-- An instruction gives the next effect of a thread and the place where the thread continues.
An access is one atomic use of the shared memory. -/
inductive Instr (T S L : Type) where
  | access (update : S → S × L)
  | create (thread : T) (entry : L) (next : L)
  | join (thread : T) (next : L)
  | exit

/-- The thread returns. -/
def Instr.isExit {T S L : Type} : Instr T S L → Bool
  | .exit => true
  | _ => false

/-- A configuration has the shared memory and the place of each created thread. -/
structure Config (T S L : Type) where
  memory : S
  place : T → Option L

section
variable {T S L : Type} [DecidableEq T]

def Config.setMemory (config : Config T S L) (memory : S) : Config T S L := { config with memory }

def Config.setPlace (config : Config T S L) (thread : T) (place : L) : Config T S L :=
  { config with place := Function.update config.place thread (some place) }

/-- At the start only the main thread exists. -/
def Config.initial (memory : S) (main : T) (first : L) : Config T S L where
  memory := memory
  place := Function.update (fun _ => none) main (some first)

/-- The thread has been created and has returned. -/
def Config.returned (code : T → L → Instr T S L) (config : Config T S L) (thread : T) : Bool :=
  match config.place thread with
  | some place => (code thread place).isExit
  | none => false

/-- This function performs one instruction of a thread.
A join waits until the other thread has returned. -/
def perform (code : T → L → Instr T S L) (config : Config T S L) (thread : T) :
    Instr T S L → Option (Config T S L)
  | .access update =>
      let result := update config.memory
      some ((config.setMemory result.1).setPlace thread result.2)
  | .create other entry next => some ((config.setPlace other entry).setPlace thread next)
  | .join other next => if config.returned code other then some (config.setPlace thread next) else none
  | .exit => none

/-- This function gives the configuration after one move of the scheduler, which names the thread that runs. -/
def fire (code : T → L → Instr T S L) (config : Config T S L) (thread : T) : Option (Config T S L) :=
  match config.place thread with
  | some place => perform code config thread (code thread place)
  | none => none

end

end OSLabs.Spawn
