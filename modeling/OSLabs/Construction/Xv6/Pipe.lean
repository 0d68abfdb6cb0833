/-
This file models the pipes of `xv6-riscv/kernel/pipe.c`.
-/

import OSLabs.Construction.Fifo
import OSLabs.Construction.Pthread

namespace OSLabs.Xv6.Pipe

open Pthread Fifo

/-- This is `PIPESIZE`. -/
def pipeSize : Nat := 512

theorem pipeSize_pos : 0 < pipeSize := by decide

/-- A system call on the pipe. A read asks for `n` bytes and has a buffer whose first `room` bytes are mapped, and
a write of `n` bytes has a buffer whose mapped part holds `bytes`. A kill marks another process. -/
inductive Call (T : Type) where
  | read (room : Nat) (n : Int)
  | write (bytes : List UInt8) (n : Int)
  | close (writable : Bool)
  | kill (victim : T)

/-- A call that has returned, with its result and the bytes that it has moved. A read also has
the number of bytes that had left the pipe before its loop. -/
structure Return (T : Type) where
  call : Call T
  result : Int
  first : Nat
  moved : List UInt8

/-- The memory has the fields of `struct pipe` and the flags `killed`.
It also lists the bytes that have entered the pipe and those that have left it,
in order and with the processes that moved them. A call to `pipewrite` is cut when it returns -1 after it has
put bytes into the pipe of which it has told no reader. -/
structure Memory (T : Type) where
  data : Vector UInt8 pipeSize
  nread : UInt32
  nwrite : UInt32
  readopen : Bool
  writeopen : Bool
  killed : T → Bool
  entered : List (T × UInt8)
  left : List (T × UInt8)
  cut : Bool

/-- This function is `pi->data[pi->nwrite++ % PIPESIZE] = ch`. -/
def Memory.push {T : Type} (memory : Memory T) (process : T) (ch : UInt8) : Memory T :=
  { memory with
    data := memory.data.set (memory.nwrite.toNat % pipeSize) ch (Nat.mod_lt _ pipeSize_pos)
    nwrite := memory.nwrite + 1
    entered := memory.entered ++ [(process, ch)] }

/-- The byte `pi->data[pi->nread % PIPESIZE]`. -/
def Memory.head {T : Type} (memory : Memory T) : UInt8 :=
  memory.data.get ⟨memory.nread.toNat % pipeSize, Nat.mod_lt _ pipeSize_pos⟩

/-- This function is `ch = pi->data[pi->nread++ % PIPESIZE]`. -/
def Memory.pop {T : Type} (memory : Memory T) (process : T) : Memory T :=
  { memory with
    nread := memory.nread + 1
    left := memory.left ++ [(process, memory.head)] }

/-- These are the program points of a process: between its calls, in `pipewrite`, in `piperead`
and in `pipeclose`. -/
inductive Point where
  | idle
  | acquireWrite
  | writeLoop
  | writeFull
  | wakeFull
  | sleepFull
  | wakeWritten
  | releaseWrite
  | acquireRead
  | readEmpty
  | readSleep
  | readBegin
  | readLoop
  | wakeRead
  | releaseRead
  | acquireClose
  | closeSide
  | wakeReaders
  | wakeWriters
  | releaseClose
  deriving DecidableEq

/-- A place also has the call that runs, the bytes that it has moved,
whether it has put bytes into the pipe of which it has told no reader,
the number of bytes that had left the pipe before the loop of a read, the result of the call,
and the calls that have returned and those that are ahead. -/
structure Place (T : Type) where
  point : Point
  call : Call T
  moved : List UInt8
  fresh : Bool
  first : Nat
  result : Int
  returns : List (Return T)
  rest : List (Call T)

namespace Place
variable {T : Type}

def go (place : Place T) (point : Point) : Place T := { place with point }

/-- The call has told the readers. -/
def told (place : Place T) (point : Point) : Place T := { place with point, fresh := false }

/-- The call is about to return with this result. -/
def finish (place : Place T) (point : Point) (result : Int) : Place T := { place with point, result }

/-- The call has returned. -/
def leave (place : Place T) : Place T :=
  { place with point := .idle, returns := place.returns ++ [⟨place.call, place.result, place.first, place.moved⟩] }

/-- The next call begins. -/
def enter (place : Place T) (point : Point) (call : Call T) (rest : List (Call T)) : Place T :=
  { place with point, call, moved := [], fresh := false, first := 0, result := 0, rest }

end Place

/-- The mutex is `pi->lock`. -/
inductive Mutex where
  | lock
  deriving DecidableEq

/-- The channels are the addresses of `pi->nread` and `pi->nwrite`. -/
inductive Chan where
  | nread
  | nwrite
  deriving DecidableEq

/-- This function is a process that makes calls on the pipe one after another.
What happens under `pi->lock` between two tests is one access. -/
def process {T : Type} [DecidableEq T] (self : T) (place : Place T) : Instr (Memory T) (Place T) Mutex Chan :=
  match place.point with
  | .idle =>
      match place.rest with
      | [] => .exit
      | call :: rest => .access fun memory =>
          match call with
          | .read _ _ => (memory, place.enter .acquireRead call rest)
          | .write _ _ => (memory, place.enter .acquireWrite call rest)
          | .close _ => (memory, place.enter .acquireClose call rest)
          | .kill victim =>
              ({ memory with killed := Function.update memory.killed victim true },
                (place.enter .idle call rest).leave)
  | .acquireWrite => .lock .lock (place.go .writeLoop)
  | .writeLoop => .access fun memory =>
      match place.call with
      | .write _ n =>
          if place.moved.length < n then
            if memory.readopen = false ∨ memory.killed self = true then
              ({ memory with cut := memory.cut || place.fresh },
                (place.finish .releaseWrite (-1)).told .releaseWrite)
            else (memory, place.go .writeFull)
          else (memory, place.finish .wakeWritten place.moved.length)
      | _ => (memory, place.go .releaseWrite)
  | .writeFull => .access fun memory =>
      if memory.nwrite = memory.nread + UInt32.ofNat pipeSize then (memory, place.go .wakeFull)
      else
        match place.call with
        | .write bytes _ =>
            match bytes[place.moved.length]? with
            | some ch => (memory.push self ch,
                { place with point := .writeLoop, moved := place.moved ++ [ch], fresh := true })
            | none => (memory, place.finish .wakeWritten place.moved.length)
        | _ => (memory, place.go .releaseWrite)
  | .wakeFull => .broadcast .nread (place.told .sleepFull)
  | .sleepFull => .wait .nwrite .lock (place.go .writeLoop)
  | .wakeWritten => .broadcast .nread (place.told .releaseWrite)
  | .releaseWrite => .unlock .lock place.leave
  | .acquireRead => .lock .lock (place.go .readEmpty)
  | .readEmpty => .access fun memory =>
      if memory.nread = memory.nwrite ∧ memory.writeopen = true then
        if memory.killed self = true then (memory, place.finish .releaseRead (-1)) else (memory,
          place.go .readSleep)
      else (memory, place.go .readBegin)
  | .readSleep => .wait .nread .lock (place.go .readEmpty)
  | .readBegin => .access fun memory => (memory, { place with point := .readLoop, first := memory.left.length })
  | .readLoop => .access fun memory =>
      match place.call with
      | .read room n =>
          if place.moved.length < n then
            if memory.nread = memory.nwrite then (memory, place.finish .wakeRead place.moved.length)
            else if place.moved.length < room then
              (memory.pop self, { place with point := .readLoop, moved := place.moved ++ [memory.head] })
            else (memory.pop self, place.finish .wakeRead place.moved.length)
          else (memory, place.finish .wakeRead place.moved.length)
      | _ => (memory, place.go .releaseRead)
  | .wakeRead => .broadcast .nwrite (place.go .releaseRead)
  | .releaseRead => .unlock .lock place.leave
  | .acquireClose => .lock .lock (place.go .closeSide)
  | .closeSide => .access fun memory =>
      match place.call with
      | .close writable =>
          if writable then ({ memory with writeopen := false }, place.go .wakeReaders)
          else ({ memory with readopen := false }, place.go .wakeWriters)
      | _ => (memory, place.go .releaseClose)
  | .wakeReaders => .broadcast .nread (place.go .releaseClose)
  | .wakeWriters => .broadcast .nwrite (place.go .releaseClose)
  | .releaseClose => .unlock .lock place.leave

section
variable {T : Type}

abbrev State (T : Type) := Config T (Memory T) (Place T) Mutex Chan

/-- The memory after `pipealloc`. -/
def Memory.start : Memory T := ⟨Vector.replicate pipeSize 0, 0, 0, true, true, fun _ => false, [], [], false⟩

/-- At the start each process has its calls before it. -/
def start (calls : T → List (Call T)) : State T :=
  Config.initial .start fun process => ⟨.idle, .close true, [], false, 0, 0, [], calls process⟩

/-- The bytes of one process, in order. -/
def bytesOf [DecidableEq T] (process : T) (moved : List (T × UInt8)) : List UInt8 :=
  (moved.filter fun entry => entry.1 = process).map Prod.snd

/-- The bytes that the call put into the pipe. -/
def Call.puts (call : Call T) (moved : List UInt8) : List UInt8 :=
  match call with
  | .write _ _ => moved
  | _ => []

/-- The bytes that the calls of a process have put into the pipe. -/
def Place.puts (place : Place T) : List UInt8 :=
  place.returns.flatMap (fun return' => return'.call.puts return'.moved) ++
    if place.point = .idle then [] else place.call.puts place.moved

/-- The bytes that wait in the pipe are those between the counters, however often these have wrapped around. -/
def Memory.waiting (memory : Memory T) : List UInt8 :=
  window pipeSize_pos memory.data memory.nread.toNat (memory.nwrite - memory.nread).toNat

/-- A write has moved the first bytes of its buffer, all that it was asked for when it does not fail. -/
def Wrote (bytes : List UInt8) (n : Int) (moved : List UInt8) (result : Int) : Prop :=
  moved <+: bytes ∧ moved.length ≤ n.toNat ∧
    (result = -1 ∨ result = moved.length ∧ moved.length = min n.toNat bytes.length)

/-- A read has moved bytes that were next to one another in the pipe.
It gets none only when the write side is closed. -/
def Took (t : T) (room : Nat) (n : Int) (first : Nat) (moved : List UInt8) (result : Int)
    (memory : Memory T) : Prop :=
  result = -1 ∧ moved = [] ∨
    result = moved.length ∧ moved.length ≤ room ∧ moved.length ≤ n.toNat ∧
      first + moved.length ≤ memory.left.length ∧
      (memory.left.drop first).take moved.length = moved.map (Prod.mk t) ∧
      (moved = [] → 0 < room → 0 < n → memory.writeopen = false)

/-- What a call that has returned has done. -/
def Return.Faithful (t : T) (memory : Memory T) (return' : Return T) : Prop :=
  match return'.call with
  | .write bytes n => Wrote bytes n return'.moved return'.result
  | .read room n => Took t room n return'.first return'.moved return'.result memory
  | _ => True

end

end OSLabs.Xv6.Pipe
