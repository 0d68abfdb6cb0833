/-
This file models the commands of `threads_basics/basic_mutex/red_blue_purple.c`.
-/

import OSLabs.Construction.Pthread

namespace OSLabs.RedBluePurple

open Pthread

inductive Mutex where
  | lock
  | mutex
  deriving DecidableEq

inductive Command where
  | red
  | blue
  | purple
  | white
  deriving DecidableEq

/-- These are the program points of `redCommand`, in source order. -/
inductive RedPlace where
  | lockRed
  | startRed
  | endRed
  | unlockRed
  deriving DecidableEq

/-- These are the program points of `blueCommand`, in source order. -/
inductive BluePlace where
  | lockBlue
  | startBlue
  | endBlue
  | unlockBlue
  deriving DecidableEq

/-- These are the program points of `purpleCommand`, in source order. Its first instruction is an unlock. -/
inductive PurplePlace where
  | unlockFirst
  | lockBlue
  | startBlue
  | startRed
  | endRed
  | endBlue
  | unlockRed
  | unlockBlue
  deriving DecidableEq

/-- A thread is inside a command or has returned. It carries the commands that it still has to run. -/
inductive Place where
  | red (place : RedPlace) (rest : List Command)
  | blue (place : BluePlace) (rest : List Command)
  | purple (place : PurplePlace) (rest : List Command)
  | white (rest : List Command)
  | done
  deriving DecidableEq

/-- A thread with these commands calls the first one. -/
def Place.call : List Command → Place
  | [] => .done
  | .red :: rest => .red .lockRed rest
  | .blue :: rest => .blue .lockBlue rest
  | .purple :: rest => .purple .unlockFirst rest
  | .white :: rest => .white rest

/-- There is no shared memory and no condition variable. -/
abbrev Code := Instr Unit Place Mutex Empty

/-- This function is `redCommand`. -/
def redCommand (rest : List Command) : RedPlace → Code
  | .lockRed => .lock .lock (.red .startRed rest)
  | .startRed => .access fun memory => (memory, .red .endRed rest)
  | .endRed => .access fun memory => (memory, .red .unlockRed rest)
  | .unlockRed => .unlock .lock (.call rest)

/-- This function is `blueCommand`. -/
def blueCommand (rest : List Command) : BluePlace → Code
  | .lockBlue => .lock .mutex (.blue .startBlue rest)
  | .startBlue => .access fun memory => (memory, .blue .endBlue rest)
  | .endBlue => .access fun memory => (memory, .blue .unlockBlue rest)
  | .unlockBlue => .unlock .mutex (.call rest)

/-- This function is `purpleCommand`. -/
def purpleCommand (rest : List Command) : PurplePlace → Code
  | .unlockFirst => .unlock .lock (.purple .lockBlue rest)
  | .lockBlue => .lock .mutex (.purple .startBlue rest)
  | .startBlue => .access fun memory => (memory, .purple .startRed rest)
  | .startRed => .access fun memory => (memory, .purple .endRed rest)
  | .endRed => .access fun memory => (memory, .purple .endBlue rest)
  | .endBlue => .access fun memory => (memory, .purple .unlockRed rest)
  | .unlockRed => .unlock .lock (.purple .unlockBlue rest)
  | .unlockBlue => .unlock .mutex (.call rest)

/-- This function is `whiteCommand`. -/
def whiteCommand (rest : List Command) : Code := .access fun memory => (memory, .call rest)

section
variable {T : Type}

/-- A configuration of the threads. -/
abbrev State (T : Type) := Config T Unit Place Mutex Empty

def code (_ : T) : Place → Code
  | .red place rest => redCommand rest place
  | .blue place rest => blueCommand rest place
  | .purple place rest => purpleCommand rest place
  | .white rest => whiteCommand rest
  | .done => .exit

/-- At the start each thread calls the first command of its program. -/
def start (program : T → List Command) : State T := Config.initial () fun t => .call (program t)

namespace Place

/-- The thread is between `Start: Red` and `End  : Red`. -/
def inRed : Place → Bool
  | .red .endRed _ | .purple .endRed _ => true
  | _ => false

/-- The thread is between `Start: Blue` and `End  : Blue`. -/
def inBlue : Place → Bool
  | .blue .endBlue _ | .purple .startRed _ | .purple .endRed _ | .purple .endBlue _ => true
  | _ => false

end Place

/-- The thread is at a lock of a mutex that is not free. -/
def BlockedOnMutex (config : State T) (t : T) : Prop :=
  ∃ place which next, config.status t = .ready place ∧ code t place = .lock which next ∧ config.owner which ≠ none

/-- The rule about the channels in one configuration. -/
structure ChannelRule (config : State T) : Prop where
  /-- At most one thread outputs to the red channel. -/
  red : ∀ first second, (config.status first).place.inRed = true → (config.status second).place.inRed = true →
    first = second
  /-- At most one thread outputs to the blue channel. -/
  blue : ∀ first second, (config.status first).place.inBlue = true → (config.status second).place.inBlue = true →
    first = second
  /-- Not all unfinished threads are blocked on a mutex. -/
  alive : ¬ ((∃ t, ¬ Finished code config t) ∧ ∀ t, ¬ Finished code config t → BlockedOnMutex config t)

end

/-- The program of `thread1`. -/
def thread1 : List Command := [.red, .red, .white, .red, .purple, .red]

/-- The program of `thread2`. -/
def thread2 : List Command := [.red, .blue, .blue, .white, .purple, .red, .blue]

/-- The program of `thread3`. -/
def thread3 : List Command := [.red, .purple, .purple, .purple]

/-- The three threads of `main`. -/
def main : Fin 3 → List Command
  | 0 => thread1
  | 1 => thread2
  | 2 => thread3

end OSLabs.RedBluePurple
