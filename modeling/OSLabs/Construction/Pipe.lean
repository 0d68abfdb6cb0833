/-
This file gives the interleaving semantics of processes that are connected by pipes.
-/

import OSLabs.Construction.Transition
import Mathlib.Data.Fintype.Basic
import Mathlib.Logic.Function.Basic

namespace OSLabs.Pipe

open Transition

inductive Side where
  | read
  | write
  deriving DecidableEq

/-- One of the two ends of one of `n` pipes. -/
abbrev End (n : Nat) := Fin n × Side

/-- The pipe of a system that has one. -/
def only : Fin 1 := ⟨0, Nat.one_pos⟩

/-- The first pipe of a system that has two. -/
def first : Fin 2 := ⟨0, Nat.two_pos⟩

/-- The second pipe of a system that has two. -/
def second : Fin 2 := ⟨1, Nat.one_lt_two⟩

/-- These are the numbers that the kernel has given to the ends of `n` pipes.
The numbers of the standard streams are not among them. -/
structure Descriptors (n : Nat) where
  number : End n → Nat
  distinct : Function.Injective number
  standard : ∀ this, 2 < number this
  fits : ∀ this, number this < 2147483648

/-- The end of a pipe with this number. -/
def Descriptors.find {n : Nat} (descriptors : Descriptors n) (number : Int) : Option (End n) :=
  ((List.finRange n).flatMap fun pipe => [(pipe, Side.read), (pipe, Side.write)]).find?
    fun this => number = descriptors.number this

/-- An instruction gives the next effect of a process and the place where the process continues.
A read continues with the bytes that it has got, or with nothing when it fails.
A wait continues with the exit code, or with nothing when a signal has ended the child.
Nothing checks the results of the other calls. -/
inductive Instr (P L O : Type) where
  | print (line : O) (next : L)
  | close (number : Int) (next : L)
  | read (number : Int) (count : Nat) (next : Option (List UInt8) → L)
  | write (number : Int) (bytes : List UInt8) (next : L)
  | fork (child : P) (entry next : L)
  | wait (child : P) (next : Option Int → L)
  | exit (code : Int)
  | crash

/-- A process has not been created, runs at a place, has exited, or was ended by a signal. -/
inductive Status (L : Type) where
  | unborn
  | running (place : L)
  | exited (code : Int)
  | killed
  deriving DecidableEq

/-- A process has the ends that it holds open. It is muted when it has closed its standard output.
It also lists its printed lines and the results of its reads from pipes, oldest first. -/
structure Process (n : Nat) (L O : Type) where
  status : Status L
  opened : End n → Bool
  muted : Bool
  output : List O
  reads : List (List UInt8)

/-- A configuration has the bytes in each pipe and the processes. -/
structure Config (n : Nat) (P L O : Type) where
  content : Fin n → List UInt8
  process : P → Process n L O

/-- The kernel and the programs of the processes.
A read from a number that is no end of a pipe gives `foreign`. -/
structure System (n : Nat) (P L O : Type) where
  descriptors : Descriptors n
  capacity : Nat
  foreign : Int → Option (List UInt8)
  code : P → L → Instr P L O

section
variable {n : Nat} {P L O : Type}

namespace Process

def unborn : Process n L O := ⟨.unborn, fun _ => false, false, [], []⟩

def advance (process : Process n L O) (place : L) : Process n L O := { process with status := .running place }

/-- The muted process prints nothing. -/
def print (process : Process n L O) (line : O) : Process n L O :=
  if process.muted then process else { process with output := process.output ++ [line] }

def close (process : Process n L O) (this : End n) : Process n L O :=
  { process with opened := Function.update process.opened this false }

/-- The standard output has the number 1. -/
def closeForeign (process : Process n L O) (number : Int) : Process n L O :=
  if number = 1 then { process with muted := true } else process

def receive (process : Process n L O) (bytes : List UInt8) : Process n L O :=
  { process with reads := process.reads ++ [bytes] }

/-- A process that ends closes all its ends. -/
def finish (process : Process n L O) (status : Status L) : Process n L O :=
  { process with status := status, opened := fun _ => false }

/-- A new process has copies of the ends of its parent. -/
def child (process : Process n L O) (entry : L) : Process n L O :=
  ⟨.running entry, process.opened, process.muted, [], []⟩

end Process

namespace Config

def setProcess [DecidableEq P] (config : Config n P L O) (name : P) (process : Process n L O) : Config n P L O :=
  { config with process := Function.update config.process name process }

def setContent (config : Config n P L O) (pipe : Fin n) (content : List UInt8) : Config n P L O :=
  { config with content := Function.update config.content pipe content }

/-- Some process holds this end open. -/
def Held (config : Config n P L O) (this : End n) : Prop := ∃ name, (config.process name).opened this = true

instance [Fintype P] (config : Config n P L O) (this : End n) : Decidable (config.Held this) :=
  inferInstanceAs (Decidable (∃ _, _))

/-- At the start the first process holds all ends of empty pipes. -/
def initial [DecidableEq P] (first : P) (place : L) : Config n P L O where
  content := fun _ => []
  process := Function.update (fun _ => .unborn) first ⟨.running place, fun _ => true, false, [], []⟩

end Config

variable [DecidableEq P] [Fintype P]

/-- A read from an empty pipe waits while somebody holds the write end. -/
def readPipe (config : Config n P L O) (name : P) (pipe : Fin n) (count : Nat) (next : Option (List UInt8) → L) :
    Option (Config n P L O) :=
  let process := config.process name
  if process.opened (pipe, .read) = false then some (config.setProcess name (process.advance (next none)))
  else if config.content pipe = [] then
    if config.Held (pipe, .write) then none
    else some (config.setProcess name ((process.receive []).advance (next (some []))))
  else
    let bytes := (config.content pipe).take count
    some ((config.setContent pipe ((config.content pipe).drop count)).setProcess name
      ((process.receive bytes).advance (next (some bytes))))

/-- A write waits until all its bytes have room, and it ends the process when nobody holds the read end.
A write of no bytes does nothing. -/
def writePipe (capacity : Nat) (config : Config n P L O) (name : P) (pipe : Fin n) (bytes : List UInt8)
    (next : L) :
    Option (Config n P L O) :=
  let process := config.process name
  if process.opened (pipe, .write) = false ∨ bytes = [] then some (config.setProcess name (process.advance next))
  else if ¬ config.Held (pipe, .read) then some (config.setProcess name (process.finish .killed))
  else if (config.content pipe).length + bytes.length ≤ capacity then
    some ((config.setContent pipe (config.content pipe ++ bytes)).setProcess name (process.advance next))
  else none

/-- This function performs one instruction of a process. A call with the wrong end of a pipe fails. -/
def perform (system : System n P L O) (config : Config n P L O) (name : P) : Instr P L O → Option (Config n P L O)
  | .print line next => some (config.setProcess name (((config.process name).print line).advance next))
  | .close number next =>
      match system.descriptors.find number with
      | some this => some (config.setProcess name (((config.process name).close this).advance next))
      | none => some (config.setProcess name (((config.process name).closeForeign number).advance next))
  | .read number count next =>
      match system.descriptors.find number with
      | some (pipe, .read) => readPipe config name pipe count next
      | some (_, .write) => some (config.setProcess name ((config.process name).advance (next none)))
      | none =>
          some (config.setProcess name ((config.process name).advance
            (next ((system.foreign number).map fun bytes => bytes.take count))))
  | .write number bytes next =>
      match system.descriptors.find number with
      | some (pipe, .write) => writePipe system.capacity config name pipe bytes next
      | _ => some (config.setProcess name ((config.process name).advance next))
  | .fork child entry next =>
      some ((config.setProcess child ((config.process name).child entry)).setProcess name
        ((config.process name).advance next))
  | .wait child next =>
      match (config.process child).status with
      | .running _ => none
      | .exited code => some (config.setProcess name ((config.process name).advance (next (some code))))
      | .killed | .unborn => some (config.setProcess name ((config.process name).advance (next none)))
  | .exit code => some (config.setProcess name ((config.process name).finish (.exited code)))
  | .crash => some (config.setProcess name ((config.process name).finish .killed))

/-- This function gives the configuration after one move of the scheduler, which names the process that runs. -/
def fire (system : System n P L O) (config : Config n P L O) (name : P) : Option (Config n P L O) :=
  match (config.process name).status with
  | .running place => perform system config name (system.code name place)
  | _ => none

/-- The process runs but cannot move. -/
def Blocked (system : System n P L O) (config : Config n P L O) (name : P) : Prop :=
  (∃ place, (config.process name).status = .running place) ∧ fire system config name = none

/-- Every run is bounded, and a configuration in which no process can move meets the postcondition. -/
def Delivers (system : System n P L O) (start : Config n P L O) (post : Config n P L O → Prop) : Prop :=
  ∃ bound, ∀ history config, Run (fire system) Free start history config →
    history.length ≤ bound ∧ ((∀ name, fire system config name = none) → post config)

end

/-- A program that forks one child. -/
inductive Role where
  | parent
  | child
  deriving DecidableEq

instance : Fintype Role where
  elems := {.parent, .child}
  complete role := by cases role <;> decide

end OSLabs.Pipe
