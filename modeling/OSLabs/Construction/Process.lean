/-
This file gives the interleaving semantics of Unix processes that fork, execute programs, wait, and send signals.
-/

import OSLabs.Construction.Transition
import Mathlib.Data.Finset.Range
import Mathlib.Data.Finset.Card

namespace OSLabs.Process

/-- A Linux signal is named by its number. -/
structure Signal where
  number : Nat
  inRange : 1 ≤ number ∧ number ≤ 64
  deriving DecidableEq

namespace Signal

def kill : Signal := ⟨9, by decide⟩

def segv : Signal := ⟨11, by decide⟩

def term : Signal := ⟨15, by decide⟩

def chld : Signal := ⟨17, by decide⟩

def cont : Signal := ⟨18, by decide⟩

def stop : Signal := ⟨19, by decide⟩

def urg : Signal := ⟨23, by decide⟩

def winch : Signal := ⟨28, by decide⟩

end Signal

/-- A process ends by itself with an exit code, or a signal kills it. -/
inductive Termination where
  | exited (code : Fin 256)
  | killed (signal : Signal) (core : Bool)
  deriving DecidableEq

/-- The exit code has eight bits. -/
def Termination.exit (code : Nat) : Termination := .exited ⟨code % 256, Nat.mod_lt _ (by decide)⟩

/-- The word that `wait` stores for a terminated child. -/
def Termination.word : Termination → Nat
  | .exited code => code.val * 256
  | .killed signal core => signal.number + if core then 128 else 0

/-- This function is the macro `WEXITSTATUS`. -/
def wExitStatus (word : Nat) : Nat := word / 256 % 256

/-- This function is the macro `WIFEXITED`. -/
def wIfExited (word : Nat) : Bool := word % 128 == 0

/-- What a process does when it gets a signal. -/
inductive Disposition where
  | default
  | ignore
  | caught
  deriving DecidableEq

/-- The signal has no effect with this disposition. -/
def Disposition.discards (signal : Signal) : Disposition → Bool
  | .ignore => true
  | .default => signal ∈ [Signal.chld, Signal.cont, Signal.urg, Signal.winch]
  | .caught => false

/-- `signal` fails for the two signals that can be neither caught nor ignored. -/
def Signal.fixed (signal : Signal) : Bool := signal ∈ [Signal.kill, Signal.stop]

/-- An instruction gives the next system call of a process and the places where it continues.
`wait` and `waitpid` continue with nothing when the process has no such child,
and else with the word of the child. -/
inductive Instr (L E O : Type) where
  | jump (next : L)
  | print (line : O) (next : L)
  | fork (child : L) (next : Nat → L)
  | exec (image : E) (failed : L)
  | wait (next : Option Nat → L)
  | waitpid (child : Nat) (next : Option Nat → L)
  | kill (pid : Nat) (signal : Signal) (next : L)
  | signal (signal : Signal) (disposition : Disposition) (next : L)
  | exit (code : Nat)
  | crash (signal : Signal) (core : Bool)

/-- A program gives the instruction at each place, the first place of the handler that interrupts another place,
and the signals that are blocked at each place. -/
structure Program (L E O : Type) where
  code : L → Instr L E O
  handler : Signal → L → L
  blocks : L → Signal → Bool

/-- A process runs the program, executes another image, has terminated, or has also been waited for. -/
inductive Status (L E : Type) where
  | running (place : L)
  | executing (image : E)
  | zombie (termination : Termination)
  | reaped (termination : Termination)
  deriving DecidableEq

def Status.isReaped {L E : Type} : Status L E → Bool
  | .reaped _ => true
  | _ => false

def Status.isAlive {L E : Type} : Status L E → Bool
  | .running _ | .executing _ => true
  | _ => false

/-- A configuration has all processes that were ever created; their numbers are below `fresh`.
It keeps the printed lines and the calls of `exec`, newest first. -/
structure Config (L E O : Type) where
  fresh : Nat
  parent : Nat → Nat
  status : Nat → Option (Status L E)
  disposition : Nat → Signal → Disposition
  pending : Nat → List Signal
  output : List O
  execs : List (Nat × E)

section
variable {L E O : Type}

namespace Config

/-- At the start there is one process, which has the number one. -/
def initial (first : L) : Config L E O where
  fresh := 2
  parent _ := 0
  status := Function.update (fun _ => none) 1 (some (.running first))
  disposition _ _ := .default
  pending _ := []
  output := []
  execs := []

def setStatus (config : Config L E O) (pid : Nat) (status : Status L E) : Config L E O :=
  { config with status := Function.update config.status pid (some status) }

def setPlace (config : Config L E O) (pid : Nat) (place : L) : Config L E O :=
  config.setStatus pid (.running place)

def print (config : Config L E O) (line : O) : Config L E O := { config with output := line :: config.output }

/-- The call of `exec` is recorded. -/
def call (config : Config L E O) (pid : Nat) (image : E) : Config L E O :=
  { config with execs := (pid, image) :: config.execs }

/-- The new process has a copy of the dispositions and no pending signals. -/
def spawn (config : Config L E O) (pid : Nat) (child : L) : Config L E O :=
  { config with
    fresh := config.fresh + 1
    parent := Function.update config.parent config.fresh pid
    status := Function.update config.status config.fresh (some (.running child))
    disposition := Function.update config.disposition config.fresh (config.disposition pid)
    pending := Function.update config.pending config.fresh [] }

def alive (config : Config L E O) (pid : Nat) : Bool := (config.status pid).any Status.isAlive

/-- A signal that is not discarded becomes pending once.
It has no effect on a process that has ended. -/
def send (config : Config L E O) (pid : Nat) (signal : Signal) : Config L E O :=
  if (config.disposition pid signal).discards signal || !config.alive pid || signal ∈ config.pending pid then
    config
  else { config with pending := Function.update config.pending pid (signal :: config.pending pid) }

def setDisposition (config : Config L E O) (pid : Nat) (signal : Signal) (disposition : Disposition) :
    Config L E O :=
  if signal.fixed then config
  else
    { config with
      disposition :=
        Function.update config.disposition pid (Function.update (config.disposition pid) signal disposition) }

def unpend (config : Config L E O) (pid : Nat) (signal : Signal) : Config L E O :=
  { config with pending := Function.update config.pending pid ((config.pending pid).erase signal) }

/-- The process becomes a zombie and its parent gets `SIGCHLD`. -/
def finish (config : Config L E O) (pid : Nat) (termination : Termination) : Config L E O :=
  (config.setStatus pid (.zombie termination)).send (config.parent pid) .chld

/-- The process has a child with this number that it has not waited for. -/
def unreaped (config : Config L E O) (pid child : Nat) : Bool :=
  config.parent child == pid && (config.status child).any fun status => !status.isReaped

/-- The number of children that the process has not waited for. -/
def children (config : Config L E O) (pid : Nat) : Nat :=
  ((Finset.range config.fresh).filter fun child => config.unreaped pid child).card

end Config

/-- A move names the process that runs, whose `exec` fails, that reaps a child, that gets a pending signal,
or whose image ends. -/
inductive Move where
  | run (pid : Nat)
  | refuse (pid : Nat)
  | reap (pid child : Nat)
  | deliver (pid : Nat) (signal : Signal)
  | terminate (pid : Nat) (termination : Termination)
  deriving DecidableEq

/-- This function performs the instruction of a process, except for an `exec` that fails and a `wait` that finds a
child. -/
def perform (config : Config L E O) (pid : Nat) : Instr L E O → Option (Config L E O)
  | .jump next => some (config.setPlace pid next)
  | .print line next => some ((config.print line).setPlace pid next)
  | .fork child next => some ((config.spawn pid child).setPlace pid (next config.fresh))
  | .exec image _ => some ((config.call pid image).setStatus pid (.executing image))
  | .wait next => if config.children pid = 0 then some (config.setPlace pid (next none)) else none
  | .waitpid child next => if config.unreaped pid child then none else some (config.setPlace pid (next none))
  | .kill other signal next => some ((config.send other signal).setPlace pid next)
  | .signal signal disposition next => some ((config.setDisposition pid signal disposition).setPlace pid next)
  | .exit code => some (config.finish pid (.exit code))
  | .crash signal core => some (config.finish pid (.killed signal core))

/-- The process may wait for this child now. -/
def Instr.awaits (child : Nat) : Instr L E O → Option (Option Nat → L)
  | .wait next => some next
  | .waitpid other next => if child = other then some next else none
  | _ => none

/-- This function gives the configuration after one move.
What an executed image does is unknown: it may end at any time and in any way. -/
def fire (program : Program L E O) (config : Config L E O) : Move → Option (Config L E O)
  | .run pid =>
      match config.status pid with
      | some (.running place) => perform config pid (program.code place)
      | _ => none
  | .refuse pid =>
      match config.status pid with
      | some (.running place) =>
          match program.code place with
          | .exec image failed => some ((config.call pid image).setPlace pid failed)
          | _ => none
      | _ => none
  | .reap pid child =>
      match config.status pid, config.status child with
      | some (.running place), some (.zombie termination) =>
          match (program.code place).awaits child with
          | some next =>
              if config.parent child = pid then
                some ((config.setStatus child (.reaped termination)).setPlace pid (next (some termination.word)))
              else none
          | none => none
      | _, _ => none
  | .deliver pid signal =>
      match config.status pid with
      | some (.running place) =>
          if signal ∈ config.pending pid ∧ program.blocks place signal = false then
            match config.disposition pid signal with
            | .caught => some ((config.unpend pid signal).setPlace pid (program.handler signal place))
            | disposition =>
                if disposition.discards signal then some (config.unpend pid signal)
                else some ((config.unpend pid signal).finish pid (.killed signal false))
          else none
      | _ => none
  | .terminate pid termination =>
      match config.status pid with
      | some (.executing _) => some (config.finish pid termination)
      | _ => none

end

end OSLabs.Process
