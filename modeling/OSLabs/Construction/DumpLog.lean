/-
This file models `dump_log` of `sample_exams/exam1/exam1-2223b/solution/server.c`.
-/

import OSLabs.Construction.Buffer
import OSLabs.Construction.Stdio

namespace OSLabs.DumpLog

open Buffer Stdio

/-- The result of one call of `read`: the bytes that it stores, or nothing when it fails. -/
abbrev Read := Option (List UInt8)

/-- The number that `read` returns. -/
def Read.len : Read → Int
  | some bytes => bytes.length
  | none => -1

/-- The buffer after the call. -/
def Read.received (readbuf : List UInt8) : Read → List UInt8
  | some bytes => fill readbuf bytes
  | none => readbuf

/-- A store with an index of type `int` fails outside the buffer. -/
def storeAt (readbuf : List UInt8) (index : Int) (byte : UInt8) : Option (List UInt8) :=
  if 0 ≤ index then store readbuf index.toNat byte else none

/-- This function is the loop on one pipe from its read with number `j` on: the printed strings and the buffer.
It fails with a store outside `readbuf`, or when the loop needs more than so many rounds. -/
def dumpPipe (reads : Nat → Read) : Nat → Nat → List UInt8 → Option (List (List UInt8) × List UInt8)
  | 0, _, _ => none
  | rounds + 1, j, readbuf =>
      if (reads j).len = 0 then some ([], readbuf)
      else do
        let readbuf ← storeAt ((reads j).received readbuf) (reads j).len 0
        let line ← string readbuf
        let rest ← dumpPipe reads rounds (j + 1) readbuf
        return (line :: rest.1, rest.2)

/-- This function is `dump_log` from connection `i` on: the printed strings of each connection.
A newline follows each string. -/
def dumpLog (reads : Nat → Nat → Read) (rounds : Nat) : Nat → Nat → List UInt8 → Option (List (List (List UInt8)))
  | _, 0, _ => some []
  | i, connections + 1, readbuf => do
      let lines ← dumpPipe (reads i) rounds 0 readbuf
      let rest ← dumpLog reads rounds (i + 1) connections lines.2
      return lines.1 :: rest

/-- The bytes that the reads before number `j` have taken from the pipe. -/
def delivered (reads : Nat → Read) (j : Nat) : List UInt8 := (List.range j).flatMap fun k => (reads k).getD []

/-- The reads from a closed pipe with this log: each of them fails or takes at most 1024 of the next bytes,
and it takes none only at the end. -/
def Delivers (log : List UInt8) (reads : Nat → Read) : Prop :=
  ∀ j bytes, reads j = some bytes →
    bytes.length ≤ 1024 ∧ delivered reads j ++ bytes <+: log ∧ (bytes = [] → delivered reads j = log)

/-- Every read up to the end of the pipe succeeds with fewer than 1024 bytes. -/
def Small (reads : Nat → Read) : Prop :=
  ∀ j, (∀ k < j, reads k ≠ some []) → ∃ bytes, reads j = some bytes ∧ bytes.length < 1024

/-- `dump_log` ends, stores only inside `readbuf`, and prints all bytes of each connection in order. -/
def DumpsAll (logs : List Text) (reads : Nat → Nat → Read) (readbuf : List UInt8) : Prop :=
  ∃ rounds dumped, dumpLog reads rounds 0 logs.length readbuf = some dumped ∧
    dumped.map List.flatten = logs.map Text.bytes

/-- These reads deliver a log in parts. -/
def inReads (parts : List (List UInt8)) (j : Nat) : Read := some (parts[j]?.getD [])

end OSLabs.DumpLog
