/-
This file models the log of `xv6-riscv/kernel/log.c`.
-/

import OSLabs.Construction.Pthread
import OSLabs.Construction.RedoLog
import Mathlib.Data.Finset.Dedup
import Mathlib.Algebra.Order.Ring.Nat

namespace OSLabs.Xv6.Log

open Pthread RedoLog

/-- This is `LOGSIZE`. -/
def logSize : Nat := 30

/-- This is `MAXOPBLOCKS`. -/
def maxOpBlocks : Nat := 10

/-- A block has 1024 bytes, which are read as words of 32 bits. -/
abbrev Block := Fin 256 → UInt32

abbrev Disk := Nat → Block

/-- The fields of the superblock that the log uses. -/
structure Layout where
  logstart : Nat
  nlog : Nat
  size : Nat
  positive : 0 < nlog
  within : logstart + nlog ≤ size
  word : size ≤ 2 ^ 32

/-- The block belongs to the file system and not to the log. -/
def Layout.Home (layout : Layout) (blockno : Nat) : Prop :=
  blockno < layout.size ∧ (blockno < layout.logstart ∨ layout.logstart + layout.nlog ≤ blockno)

instance (layout : Layout) (blockno : Nat) : Decidable (layout.Home blockno) := inferInstanceAs (Decidable (_ ∧ _))

/-- The block of the log behind the header that belongs to this index. -/
def Layout.slot (layout : Layout) (tail : Nat) : Nat := layout.logstart + tail + 1

/-- This function is the loop of `write_head`. The words behind the header stay as they are. -/
def encodeHead (lh : List Nat) (block : Block) : Block := fun i =>
  if i = 0 then UInt32.ofNat lh.length
  else
    match lh[i.val - 1]? with
    | some blockno => UInt32.ofNat blockno
    | none => block i

/-- This function is the loop of `read_head`. A negative count copies nothing,
and a count above `LOGSIZE` writes behind the header in memory, which is a failure. -/
def decodeHead (block : Block) : Option (List Nat) :=
  let n := (block 0).toNat
  if 2 ^ 31 ≤ n then some []
  else if n ≤ logSize then some ((List.range n).map fun i => (block (Fin.ofNat 256 (i + 1))).toNat)
  else none

/-- This function is `write_head`. -/
def writeHead (layout : Layout) (lh : List Nat) (disk : Disk) : Disk :=
  Function.update disk layout.logstart (encodeHead lh (disk layout.logstart))

/-- This function is `recover_from_log`. -/
def recoverFromLog (layout : Layout) (disk : Disk) : Option Disk :=
  (decodeHead (disk layout.logstart)).map fun lh => writeHead layout [] (install layout.slot lh 0 disk)

/-- The disk when a crash stops `recover_from_log` after so many installed blocks. -/
def recoverPart (layout : Layout) (disk : Disk) (count : Nat) : Option Disk :=
  (decodeHead (disk layout.logstart)).map fun lh => install layout.slot (lh.take count) 0 disk

/-- The disk after any number of recoveries that a crash has stopped. -/
inductive Interrupted (layout : Layout) (disk : Disk) : Disk → Prop where
  | refl : Interrupted layout disk disk
  | again {earlier crashed : Disk} (before : Interrupted layout disk earlier) (count : Nat)
      (stopped : recoverPart layout earlier count = some crashed) : Interrupted layout disk crashed

/-- The memory has the disk, the pinned buffers and the fields of `log`.
A buffer that is not pinned holds what is on the disk.
It also lists the changes of blocks by the processes in their order,
and how many of them had been written when `write_head` last committed a transaction. -/
structure Memory (T : Type) where
  disk : Disk
  pinned : Nat → Option Block
  lh : List Nat
  outstanding : Int
  committing : Bool
  written : List (T × Update Nat Block)
  durable : Nat

/-- What `bread` returns. -/
def Memory.bread {T : Type} (memory : Memory T) (blockno : Nat) : Block :=
  (memory.pinned blockno).getD (memory.disk blockno)

/-- The process changes the buffer and calls `log_write`, whose loop finds the block in the header or appends it.
The buffer stays locked up to here, so that no other process sees its contents before. -/
def Memory.logWrite {T : Type} (memory : Memory T) (process : T) (update : Update Nat Block) : Memory T :=
  { memory with
    pinned := Function.update memory.pinned update.target (some (update.write (memory.bread update.target)))
    lh := if update.target ∈ memory.lh then memory.lh else memory.lh ++ [update.target]
    written := memory.written ++ [(process, update)] }

/-- One round of the loop of `write_log`. -/
def Memory.writeLog {T : Type} (layout : Layout) (memory : Memory T) (tail blockno : Nat) : Memory T :=
  { memory with disk := Function.update memory.disk (layout.slot tail) (memory.bread blockno) }

/-- One round of the loop of `install_trans`, which unpins the buffer. -/
def Memory.installTrans {T : Type} (layout : Layout) (memory : Memory T) (tail blockno : Nat) : Memory T :=
  { memory with
    disk := Function.update memory.disk blockno (memory.bread (layout.slot tail))
    pinned := Function.update memory.pinned blockno none }

/-- These are the program points of a process that makes file system calls: between the calls, in `begin_op`,
between its `log_write`s, in `log_write`, in `end_op`, and in `commit` with the functions that it calls. -/
inductive Point where
  | idle
  | acquireBegin
  | beginTest
  | beginSleep
  | beginCount
  | releaseBegin
  | inOp
  | acquireWrite
  | writePanics
  | writeAppend
  | releaseWrite
  | acquireEnd
  | endCount
  | endWakeup
  | releaseEnd
  | releaseCommit
  | commitTest
  | writeLog (tail : Nat)
  | writeHead
  | installTrans (tail : Nat)
  | commitReset
  | clearHead
  | acquireFinish
  | finishCommit
  | finishWakeup
  | releaseFinish
  | logWritePanicked
  | endOpPanicked
  deriving DecidableEq

/-- A place also has the changes that are left of the system call, and the system calls behind it. -/
structure Place where
  point : Point
  op : List (Update Nat Block)
  rest : List (List (Update Nat Block))

/-- The process goes on with the same changes ahead of it. -/
def Place.go (place : Place) (point : Point) : Place := { place with point }

/-- The mutex is `log.lock`. -/
inductive Mutex where
  | lock
  deriving DecidableEq

/-- The channel of `sleep` and `wakeup` is the address of `log`. -/
inductive Chan where
  | log
  deriving DecidableEq

/-- This function is a process that makes system calls one after another.
Each of them calls `begin_op`, then for each change `bread`, `log_write` and `brelse`, and then `end_op`.
What happens under `log.lock` between two tests is one access, and so is the work on a buffer,
which is locked from `bread` to `brelse`. -/
def process {T : Type} (layout : Layout) (self : T) (place : Place) : Instr (Memory T) Place Mutex Chan :=
  match place.point with
  | .idle =>
      match place.rest with
      | [] => .exit
      | op :: rest => .access fun memory => (memory, ⟨.acquireBegin, op, rest⟩)
  | .acquireBegin => .lock .lock (place.go .beginTest)
  | .beginTest => .access fun memory =>
      (memory, place.go
        (if memory.committing then .beginSleep
        else if memory.lh.length + (memory.outstanding + 1) * maxOpBlocks > logSize then .beginSleep
        else .beginCount))
  | .beginSleep => .wait .log .lock (place.go .beginTest)
  | .beginCount => .access fun memory =>
      ({ memory with outstanding := memory.outstanding + 1 }, place.go .releaseBegin)
  | .releaseBegin => .unlock .lock (place.go .inOp)
  | .inOp => .access fun memory => (memory, place.go (if place.op = [] then .acquireEnd else .acquireWrite))
  | .acquireWrite => .lock .lock (place.go .writePanics)
  | .writePanics => .access fun memory =>
      (memory, place.go
        (if memory.lh.length ≥ logSize ∨ memory.lh.length ≥ layout.nlog - 1 then .logWritePanicked
        else if memory.outstanding < 1 then .logWritePanicked
        else .writeAppend))
  | .writeAppend =>
      match place.op with
      | [] => .access fun memory => (memory, place.go .releaseWrite)
      | update :: op => .access fun memory => (memory.logWrite self update, ⟨.releaseWrite, op, place.rest⟩)
  | .releaseWrite => .unlock .lock (place.go .inOp)
  | .acquireEnd => .lock .lock (place.go .endCount)
  | .endCount => .access fun memory =>
      if memory.committing then ({ memory with outstanding := memory.outstanding - 1 }, place.go .endOpPanicked)
      else if memory.outstanding - 1 = 0 then
        ({ memory with outstanding := memory.outstanding - 1, committing := true }, place.go .releaseCommit)
      else ({ memory with outstanding := memory.outstanding - 1 }, place.go .endWakeup)
  | .endWakeup => .broadcast .log (place.go .releaseEnd)
  | .releaseEnd => .unlock .lock (place.go .idle)
  | .releaseCommit => .unlock .lock (place.go .commitTest)
  | .commitTest => .access fun memory =>
      (memory, place.go (if memory.lh.length > 0 then .writeLog 0 else .acquireFinish))
  | .writeLog tail => .access fun memory =>
      match memory.lh[tail]? with
      | some blockno => (memory.writeLog layout tail blockno, place.go (.writeLog (tail + 1)))
      | none => (memory, place.go .writeHead)
  | .writeHead => .access fun memory =>
      ({ memory with disk := Log.writeHead layout memory.lh memory.disk, durable := memory.written.length },
        place.go (.installTrans 0))
  | .installTrans tail => .access fun memory =>
      match memory.lh[tail]? with
      | some blockno => (memory.installTrans layout tail blockno, place.go (.installTrans (tail + 1)))
      | none => (memory, place.go .commitReset)
  | .commitReset => .access fun memory => ({ memory with lh := [] }, place.go .clearHead)
  | .clearHead => .access fun memory =>
      ({ memory with disk := Log.writeHead layout memory.lh memory.disk }, place.go .acquireFinish)
  | .acquireFinish => .lock .lock (place.go .finishCommit)
  | .finishCommit => .access fun memory => ({ memory with committing := false }, place.go .finishWakeup)
  | .finishWakeup => .broadcast .log (place.go .releaseFinish)
  | .releaseFinish => .unlock .lock (place.go .idle)
  | .logWritePanicked | .endOpPanicked => .exit

namespace Point

/-- The process is between its `outstanding += 1` and its `outstanding -= 1`. -/
def isOpen : Point → Bool
  | .releaseBegin | .inOp | .acquireWrite | .writePanics | .writeAppend | .releaseWrite | .acquireEnd | .endCount
  | .logWritePanicked => true
  | _ => false

/-- The process is between its `committing = 1` and its `committing = 0`. -/
def commits : Point → Bool
  | .releaseCommit | .commitTest | .writeLog _ | .writeHead | .installTrans _ | .commitReset | .clearHead
  | .acquireFinish | .finishCommit => true
  | _ => false

/-- The kernel has panicked. -/
def isPanic : Point → Bool
  | .logWritePanicked | .endOpPanicked => true
  | _ => false

end Point

section
variable {T : Type}

/-- A configuration of the processes. -/
abbrev State (T : Type) := Config T (Memory T) Place Mutex Chan

/-- The memory after `initlog` on this disk. -/
def Memory.start (disk : Disk) : Memory T := ⟨disk, fun _ => none, [], 0, false, [], 0⟩

/-- At the start each process has its list of system calls before it. -/
def start (disk : Disk) (calls : T → List (List (Update Nat Block))) : State T :=
  Config.initial (.start disk) fun process => ⟨.idle, [], calls process⟩

/-- Every change is to a block of the file system. -/
def Fits (layout : Layout) (calls : T → List (List (Update Nat Block))) : Prop :=
  ∀ process, ∀ op ∈ calls process, ∀ update ∈ op, layout.Home update.target

/-- The system call makes at most `MAXOPBLOCKS` changes, or all its changes are to fewer blocks than that. -/
def Small (op : List (Update Nat Block)) : Prop :=
  op.length ≤ maxOpBlocks ∨ (op.map Update.target).toFinset.card < maxOpBlocks

instance (op : List (Update Nat Block)) : Decidable (Small op) := inferInstanceAs (Decidable (_ ∨ _))

end

end OSLabs.Xv6.Log
