/-
This file models `problem4.c` and `buffalosay.c` of `Exam1-202420/Part2`.
-/

import OSLabs.Construction.Buffalo
import OSLabs.Construction.Pipe

namespace OSLabs.BuffaloSay

open Transition Pipe Stdio Buffalo

/-- What both programs get from the system: a pipe, unset memory and a random number. -/
structure Environment where
  descriptors : Descriptors 1
  capacity : Nat
  atomic : 4096 ≤ capacity
  foreign : Int → Option (List UInt8)
  readbuffer : List UInt8
  readbufferSize : readbuffer.length = 1000
  ret : List UInt8
  rand : Nat

/-- The lines of both programs, without the process id of the parent. -/
inductive Line where
  | unknownCall
  | readError
  | buffalo (text : List UInt8)
  | exitCode (code : Int)
  | finished
  deriving DecidableEq

/-- These are the program points of `problem4.c`, in source order. -/
inductive ParentPlace where
  | fork
  | closeRead
  | writeHandshake
  | writeMessage
  | wait
  | printCode (status : Int)
  | printFinished
  | leave
  deriving DecidableEq

/-- These are the program points of `buffalosay.c`, in source order. They carry `readpipe` and the message.
The place `refuse` prints that the call is unknown and exits with this code. -/
inductive ChildPlace where
  | closeWrite (readpipe : Int × Int)
  | readHandshake (readpipe : Int × Int)
  | readMessage (readpipe : Int × Int)
  | printResult (readpipe : Int × Int) (readbuffer : List UInt8)
  | closeRead (readpipe : Int × Int)
  | readError
  | refuse (code : Int)
  | leave (code : Int)
  deriving DecidableEq

inductive Place where
  | parent (place : ParentPlace)
  | child (place : ChildPlace)
  deriving DecidableEq

/-- A configuration of both programs. -/
abbrev State := Config 1 Role Place Line

/-- This function is `main` of `buffalosay.c` up to its first call. -/
def buffalosay (argv : List (List UInt8)) : ChildPlace :=
  match argv with
  | _ :: first :: second :: _ => .closeWrite (atoi first, atoi second)
  | _ => .refuse 1

/-- The parent prints the code of a child that has exited. -/
def report : Option Int → ParentPlace
  | some status => .printCode status
  | none => .printFinished

section
variable (env : Environment)

/-- The numbers of the ends `fd[0]` and `fd[1]`. -/
def Environment.fd (side : Side) : Nat := env.descriptors.number (only, side)

def argv : List (List UInt8) := [ascii "./buffalosay.bin", decimalText (env.fd .read), decimalText (env.fd .write)]

/-- This function is `main` of `problem4.c` after the pipe. -/
def problem4 (message : Text) : ParentPlace → Instr Role Place Line
  | .fork => .fork .child (.child (buffalosay (argv env))) (.parent .closeRead)
  | .closeRead => .close (env.fd .read) (.parent .writeHandshake)
  | .writeHandshake => .write (env.fd .write) (frame (ascii "secret handshake")) (.parent .writeMessage)
  | .writeMessage => .write (env.fd .write) message.bytes (.parent .wait)
  | .wait => .wait .child fun status => .parent (report status)
  | .printCode status => .print (.exitCode status) (.parent .printFinished)
  | .printFinished => .print .finished (.parent .leave)
  | .leave => .exit 0

/-- This function continues `asserthandshake` after its read. -/
def afterHandshake (readpipe : Int × Int) : Handshake → ChildPlace
  | .failed => .readError
  | .wrong => .refuse 2
  | .accepted => .readMessage readpipe

/-- This function is `main` of `buffalosay.c` from its first call. A failed second read leaves the cleared buffer.
A message without an end in the buffer makes `printbuffalo` read behind it. -/
def child : ChildPlace → Instr Role Place Line
  | .closeWrite readpipe => .close readpipe.2 (.child (.readHandshake readpipe))
  | .readHandshake readpipe => .read readpipe.1 1000 fun result =>
      .child (afterHandshake readpipe (asserthandshake (ascii "secret handshake") env.readbuffer result))
  | .readMessage readpipe => .read readpipe.1 1000 fun result =>
      .child (.printResult readpipe (fill cleared (result.getD [])))
  | .printResult readpipe readbuffer =>
      match string readbuffer with
      | some msg => .print (.buffalo (cString 0 (printbuffalo env.ret msg))) (.child (.closeRead readpipe))
      | none => .crash
  | .closeRead readpipe => .close readpipe.1 (.child (.leave (env.rand % 100 : Nat)))
  | .readError => .print .readError (.child (.leave 1))
  | .refuse code => .print .unknownCall (.child (.leave code))
  | .leave code => .exit code

def code (message : Text) (_ : Role) : Place → Instr Role Place Line
  | .parent place => problem4 env message place
  | .child place => child env place

def system (message : Text) : System 1 Role Place Line where
  descriptors := env.descriptors
  capacity := env.capacity
  foreign := env.foreign
  code := code env message

end

def start : State := Config.initial .parent (.parent .fork)

/-- The child reads and cannot go on while the parent waits for its end. -/
def Stuck (env : Environment) (message : Text) (config : State) : Prop :=
  (config.process .parent).status = .running (.parent .wait) ∧
    (∃ readpipe, (config.process .child).status = .running (.child (.readHandshake readpipe)) ∨
      (config.process .child).status = .running (.child (.readMessage readpipe))) ∧
    Blocked (system env message) config .parent ∧ Blocked (system env message) config .child

end OSLabs.BuffaloSay
