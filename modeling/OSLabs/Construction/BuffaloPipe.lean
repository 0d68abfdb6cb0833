/-
This file models `problem5.c` and `buffalopipe.c` of `Exam1-202420/Part2`.
-/

import OSLabs.Construction.Buffalo
import OSLabs.Construction.Pipe

namespace OSLabs.BuffaloPipe

open Transition Pipe Stdio Buffalo

/-- What both programs get from the system: the pipes `read_fd` and `write_fd`, unset memory
and a random number. -/
structure Environment where
  descriptors : Descriptors 2
  capacity : Nat
  atomic : 4096 ≤ capacity
  foreign : Int → Option (List UInt8)
  readbuffer : List UInt8
  readbufferSize : readbuffer.length = 1000
  ret : List UInt8
  retSize : ret.length = 1000
  rand : Nat

/-- The lines of both programs, without the process id of the parent. -/
inductive Line where
  | unknownCall
  | readError
  | reply (text : List UInt8)
  | exitCode (code : Int)
  | finished
  deriving DecidableEq

/-- These are the program points of `problem5.c`, in source order. -/
inductive ParentPlace where
  | fork
  | closeRead
  | closeWrite
  | writeMessage
  | writeHandshake
  | readReply
  | printReply (buffer : List UInt8)
  | wait
  | printCode (status : Int)
  | printFinished
  | leave
  deriving DecidableEq

/-- The arrays `readpipe` and `writepipe` of `buffalopipe.c`. -/
structure Pipes where
  readpipe : Int × Int
  writepipe : Int × Int
  deriving DecidableEq

/-- These are the program points of `buffalopipe.c`, in source order. They carry its arrays and the result.
The place `refuse` prints that the call is unknown and exits with this code.
The place `overrun` is that of a message that does not end in its buffer. -/
inductive ChildPlace where
  | closeWrite (pipes : Pipes)
  | closeRead (pipes : Pipes)
  | readMessage (pipes : Pipes)
  | readHandshake (pipes : Pipes) (result : List UInt8)
  | writeResult (pipes : Pipes) (result : List UInt8)
  | closeReadEnd (pipes : Pipes)
  | closeWriteEnd (pipes : Pipes)
  | readError
  | refuse (code : Int)
  | overrun
  | leave (code : Int)
  deriving DecidableEq

inductive Place where
  | parent (place : ParentPlace)
  | child (place : ChildPlace)
  deriving DecidableEq

/-- A configuration of both programs. -/
abbrev State := Config 2 Role Place Line

/-- This function is `main` of `buffalopipe.c` up to its first call. -/
def buffalopipe (argv : List (List UInt8)) : ChildPlace :=
  match argv with
  | _ :: first :: second :: third :: fourth :: _ =>
      .closeWrite ⟨(atoi first, atoi second), (atoi third, atoi fourth)⟩
  | _ => .refuse 1

/-- The parent prints the code of a child that has exited. -/
def report : Option Int → ParentPlace
  | some status => .printCode status
  | none => .printFinished

section
variable (env : Environment)

/-- The numbers of the ends of `read_fd`. -/
def Environment.readFd (side : Side) : Nat := env.descriptors.number (first, side)

/-- The numbers of the ends of `write_fd`. -/
def Environment.writeFd (side : Side) : Nat := env.descriptors.number (second, side)

def argv : List (List UInt8) :=
  [ascii "./buffalopipe.bin", decimalText (env.writeFd .read), decimalText (env.writeFd .write),
    decimalText (env.readFd .read), decimalText (env.readFd .write)]

/-- This function is `main` of `problem5.c` after the pipes.
A reply without an end in the buffer makes `printf` read behind it. -/
def problem5 (message : Text) : ParentPlace → Instr Role Place Line
  | .fork => .fork .child (.child (buffalopipe (argv env))) (.parent .closeRead)
  | .closeRead => .close (env.writeFd .read) (.parent .closeWrite)
  | .closeWrite => .close (env.readFd .write) (.parent .writeMessage)
  | .writeMessage => .write (env.writeFd .write) (frame message.bytes) (.parent .writeHandshake)
  | .writeHandshake => .write (env.writeFd .write) (frame (ascii "goodbye world")) (.parent .readReply)
  | .readReply => .read (env.readFd .read) 1000 fun result => .parent (.printReply (fill cleared (result.getD [])))
  | .printReply buffer =>
      match string buffer with
      | some text => .print (.reply text) (.parent .wait)
      | none => .crash
  | .wait => .wait .child fun status => .parent (report status)
  | .printCode status => .print (.exitCode status) (.parent .printFinished)
  | .printFinished => .print .finished (.parent .leave)
  | .leave => .exit 0

/-- This function continues `main` of `buffalopipe.c` after its first read. -/
def afterMessage (pipes : Pipes) : Option (List UInt8) → ChildPlace
  | none => .readError
  | some bytes =>
      match string (fill env.readbuffer bytes) with
      | some msg => .readHandshake pipes (printbuffalo env.ret msg)
      | none => .overrun

/-- This function continues `asserthandshake` after its read. -/
def afterHandshake (pipes : Pipes) (result : List UInt8) : Handshake → ChildPlace
  | .failed => .readError
  | .wrong => .refuse 2
  | .accepted => .writeResult pipes result

/-- This function is `main` of `buffalopipe.c` from its first call. -/
def child : ChildPlace → Instr Role Place Line
  | .closeWrite pipes => .close pipes.readpipe.2 (.child (.closeRead pipes))
  | .closeRead pipes => .close pipes.writepipe.1 (.child (.readMessage pipes))
  | .readMessage pipes => .read pipes.readpipe.1 1000 fun result => .child (afterMessage env pipes result)
  | .readHandshake pipes result => .read pipes.readpipe.1 1000 fun bytes =>
      .child (afterHandshake pipes result (asserthandshake (ascii "goodbye world") cleared bytes))
  | .writeResult pipes result => .write pipes.writepipe.2 (result.take 1000) (.child (.closeReadEnd pipes))
  | .closeReadEnd pipes => .close pipes.readpipe.1 (.child (.closeWriteEnd pipes))
  | .closeWriteEnd pipes => .close pipes.writepipe.2 (.child (.leave (env.rand % 100 : Nat)))
  | .readError => .print .readError (.child (.leave 1))
  | .refuse code => .print .unknownCall (.child (.leave code))
  | .overrun => .crash
  | .leave code => .exit code

def code (message : Text) (_ : Role) : Place → Instr Role Place Line
  | .parent place => problem5 env message place
  | .child place => child env place

def system (message : Text) : System 2 Role Place Line where
  descriptors := env.descriptors
  capacity := env.capacity
  foreign := env.foreign
  code := code env message

end

def start : State := Config.initial .parent (.parent .fork)

/-- These places lead to `exit(1)` or `exit(2)`. -/
def ChildPlace.fails : ChildPlace → Bool
  | .readError | .refuse _ => true
  | _ => false

end OSLabs.BuffaloPipe
