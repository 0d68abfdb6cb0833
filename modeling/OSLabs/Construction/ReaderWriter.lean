/-
This file models the readers and writers of `activities/readers_writers/reader_writer_final.c`.
-/

import OSLabs.Construction.Pthread

namespace OSLabs.ReaderWriter

open Pthread

inductive Mutex where
  | lock
  deriving DecidableEq

inductive Cond where
  | timeToRead
  | timeToWrite
  deriving DecidableEq

/-- These are the four global variables. -/
structure Memory where
  data : Int
  writerActive : Int
  writersWaiting : Int
  readersActive : Int

/-- At the start nobody reads, writes or waits. -/
def Memory.start : Memory := ⟨0, 0, 0, 0⟩

/-- These are the program points of `reader`, in source order. -/
inductive ReaderPlace where
  | lockEntry
  | entryTest
  | condWait
  | enter
  | unlockEntry
  | read
  | lockExit
  | leave
  | lastTest
  | signalWriter
  | unlockExit
  deriving DecidableEq

/-- These are the program points of `writer`, in source order. -/
inductive WriterPlace where
  | lockEntry
  | arrive
  | entryTest
  | condWait
  | stopWaiting
  | activate
  | startWrite
  | write
  | finishWrite
  | deactivate
  | waitingTest
  | signalWriter
  | wakeReaders
  | unlockExit
  deriving DecidableEq

/-- This function is `reader`, whose loop has no end. The counters are used only under `lock`,
so each test and each update of them is one access. -/
def reader : ReaderPlace → Instr Memory ReaderPlace Mutex Cond
  | .lockEntry => .lock .lock .entryTest
  | .entryTest => .access fun memory =>
      (memory, if memory.writerActive ≠ 0 ∨ memory.writersWaiting ≠ 0 then .condWait else .enter)
  | .condWait => .wait .timeToRead .lock .entryTest
  | .enter => .access fun memory => ({ memory with readersActive := memory.readersActive + 1 }, .unlockEntry)
  | .unlockEntry => .unlock .lock .read
  | .read => .access fun memory => (memory, .lockExit)
  | .lockExit => .lock .lock .leave
  | .leave => .access fun memory => ({ memory with readersActive := memory.readersActive - 1 }, .lastTest)
  | .lastTest => .access fun memory => (memory, if memory.readersActive = 0 then .signalWriter else .unlockExit)
  | .signalWriter => .signal .timeToWrite .unlockExit
  | .unlockExit => .unlock .lock .lockEntry

/-- This function is `writer`, whose loop has no end. The two prints keep the memory. -/
def writer : WriterPlace → Instr Memory WriterPlace Mutex Cond
  | .lockEntry => .lock .lock .arrive
  | .arrive => .access fun memory => ({ memory with writersWaiting := memory.writersWaiting + 1 }, .entryTest)
  | .entryTest => .access fun memory =>
      (memory, if memory.readersActive ≠ 0 ∨ memory.writerActive ≠ 0 then .condWait else .stopWaiting)
  | .condWait => .wait .timeToWrite .lock .entryTest
  | .stopWaiting => .access fun memory => ({ memory with writersWaiting := memory.writersWaiting - 1 }, .activate)
  | .activate => .access fun memory => ({ memory with writerActive := 1 }, .startWrite)
  | .startWrite => .access fun memory => (memory, .write)
  | .write => .access fun memory => ({ memory with data := memory.data + 1 }, .finishWrite)
  | .finishWrite => .access fun memory => (memory, .deactivate)
  | .deactivate => .access fun memory => ({ memory with writerActive := 0 }, .waitingTest)
  | .waitingTest => .access fun memory =>
      (memory, if memory.writersWaiting ≠ 0 then .signalWriter else .wakeReaders)
  | .signalWriter => .signal .timeToWrite .unlockExit
  | .wakeReaders => .broadcast .timeToRead .unlockExit
  | .unlockExit => .unlock .lock .lockEntry

/-- A place is a place of a reader or of a writer. -/
inductive Place where
  | reader (place : ReaderPlace)
  | writer (place : WriterPlace)
  deriving DecidableEq

inductive Kind where
  | reader
  | writer
  deriving DecidableEq

section
variable {T : Type}

/-- A configuration of the readers and writers. -/
abbrev State (T : Type) := Config T Memory Place Mutex Cond

/-- Each thread runs the function that it started with. -/
def code (_ : T) : Place → Instr Memory Place Mutex Cond
  | .reader place => (reader place).relabel .reader
  | .writer place => (writer place).relabel .writer

/-- At the start each thread is at the begin of its function. -/
def start (kind : T → Kind) : State T := Config.initial .start fun t =>
  match kind t with
  | .reader => .reader .lockEntry
  | .writer => .writer .lockEntry

end

namespace Place

/-- The thread is a reader in its read section, which needs no mutex. -/
def reads : Place → Bool
  | .reader .read | .reader .lockExit => true
  | _ => false

/-- The thread is a writer in its write section. -/
def writes : Place → Bool
  | .writer .startWrite | .writer .write | .writer .finishWrite => true
  | _ => false

/-- The thread is at its `data++`. -/
def isWrite : Place → Bool
  | .writer .write => true
  | _ => false

/-- The thread is at the last instruction of its write section. -/
def isFinishWrite : Place → Bool
  | .writer .finishWrite => true
  | _ => false

/-- The thread is a writer between its `writers_waiting++` and its `writers_waiting--`. -/
def waiting : Place → Bool
  | .writer .entryTest | .writer .condWait | .writer .stopWaiting => true
  | _ => false

/-- The thread is a reader between its `readers_active++` and its `readers_active--`. -/
def active : Place → Bool
  | .reader .unlockEntry | .reader .read | .reader .lockExit | .reader .leave => true
  | _ => false

end Place

end OSLabs.ReaderWriter
