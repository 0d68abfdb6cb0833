/-
This file models the parallel phase of `exam2/problem1/count_chars.c`.
-/

import OSLabs.Construction.Spawn
import OSLabs.Construction.Stdio
import Mathlib.Data.List.FinRange

namespace OSLabs.CountChars

open Transition Spawn Stdio

/-- This function is the loop of `transform_file` with as many rounds as the input has characters.
A line that is only a newline is skipped, and any other text is one number. -/
def transformLoop : Nat → List UInt8 → List UInt8
  | 0, _ => []
  | rounds + 1, stream =>
      match fgets 10 5 stream with
      | none => []
      | some (hexstr, rest) =>
          if cString 0 hexstr = [10] then transformLoop rounds rest
          else UInt8.ofNat (strtoul16 (cString 0 hexstr)) :: transformLoop rounds rest

/-- The content that `transform_file` writes for the content that it reads. -/
def transformFile (content : List UInt8) : List UInt8 := transformLoop content.length content

/-- The number of `e` characters. -/
def countE (content : List UInt8) : Nat := content.count 101

/-- This is `struct info`. -/
structure Info (N : Type) where
  fileName : N
  ofName : N
  id : Nat
  deriving DecidableEq

/-- The two file names of a task. -/
def Info.names {N : Type} (info : Info N) : N × N := (info.fileName, info.ofName)

/-- The memory has the one `information` of `main`, the `data` of each `threadFunc`, the files and `sum`.
It also keeps the pairs of names that were handed to `transform_file` and that were counted. -/
structure Memory (n : Nat) (N : Type) where
  information : Info N
  data : Fin n → Info N
  files : N → List UInt8
  sum : Nat
  handed : List (N × N)
  counted : List (N × N)

/-- The main thread, the threads that main creates, and the counting thread of each of them. -/
inductive Thread (n : Nat) where
  | main
  | func (i : Fin n)
  | count (i : Fin n)
  deriving DecidableEq

/-- These are the program points of `main` from the creation loop on, in source order. -/
inductive MainPlace where
  | createLoop (i : Nat)
  | setFileName (i : Nat)
  | setOfName (i : Nat)
  | setId (i : Nat)
  | create (i : Nat)
  | joinLoop (k : Nat)
  | done
  deriving DecidableEq

/-- These are the program points of `threadFunc`, in source order.
A place carries the local variables that have been read. -/
inductive FuncPlace (N : Type) where
  | readFileName
  | readOfName (fileName : N)
  | readId (fileName ofName : N)
  | setData (info : Info N)
  | openFiles (info : Info N)
  | writeOutput (info : Info N)
  | createCount (info : Info N)
  | joinCount (info : Info N)
  | done (info : Info N)
  deriving DecidableEq

/-- These are the program points of `threadCount`, in source order.
The section of `lock2` is one step. -/
inductive CountPlace (N : Type) where
  | readOfName
  | readId (ofName : N)
  | countFile (ofName : N) (threadID : Nat)
  | done
  deriving DecidableEq

inductive Place (N : Type) where
  | main (place : MainPlace)
  | func (place : FuncPlace N)
  | count (place : CountPlace N)
  deriving DecidableEq

section
variable {n : Nat} {N : Type} [DecidableEq N]

/-- A configuration of the threads. -/
abbrev State (n : Nat) (N : Type) := Config (Thread n) (Memory n N) (Place N)

/-- This function is the creation loop and the join loop of `main`.
Task `i` has the file names `file_names[i]` and `ofnames[i]`. -/
def main (names : Fin n → N × N) : MainPlace → Instr (Thread n) (Memory n N) (Place N)
  | .createLoop i => .access fun memory => (memory, .main (if i < n then .setFileName i else .joinLoop 0))
  | .setFileName i =>
      if inRange : i < n then
        .access fun memory =>
          ({ memory with information := { memory.information with fileName := (names ⟨i, inRange⟩).1 } },
            .main (.setOfName i))
      else .exit
  | .setOfName i =>
      if inRange : i < n then
        .access fun memory =>
          ({ memory with information := { memory.information with ofName := (names ⟨i, inRange⟩).2 } },
            .main (.setId i))
      else .exit
  | .setId i => .access fun memory =>
      ({ memory with information := { memory.information with id := i } }, .main (.create i))
  | .create i =>
      if inRange : i < n then .create (.func ⟨i, inRange⟩) (.func .readFileName) (.main (.createLoop (i + 1)))
      else .exit
  | .joinLoop k =>
      if inRange : k < n then .join (.func ⟨k, inRange⟩) (.main (.joinLoop (k + 1)))
      else .access fun memory => (memory, .main .done)
  | .done => .exit

/-- This function is `threadFunc`.
Opening the output file empties it. -/
def threadFunc (i : Fin n) : FuncPlace N → Instr (Thread n) (Memory n N) (Place N)
  | .readFileName => .access fun memory => (memory, .func (.readOfName memory.information.fileName))
  | .readOfName fileName => .access fun memory => (memory, .func (.readId fileName memory.information.ofName))
  | .readId fileName ofName => .access fun memory =>
      (memory, .func (.setData ⟨fileName, ofName, memory.information.id⟩))
  | .setData info => .access fun memory =>
      ({ memory with data := Function.update memory.data i info }, .func (.openFiles info))
  | .openFiles info => .access fun memory =>
      ({ memory with files := Function.update memory.files info.ofName [] }, .func (.writeOutput info))
  | .writeOutput info => .access fun memory =>
      ({ memory with
          files := Function.update memory.files info.ofName (transformFile (memory.files info.fileName))
          handed := info.names :: memory.handed }, .func (.createCount info))
  | .createCount info => .create (.count i) (.count .readOfName) (.func (.joinCount info))
  | .joinCount info => .join (.count i) (.func (.done info))
  | .done _ => .exit

/-- This function is `threadCount` with the `data` of its creator. -/
def threadCount (i : Fin n) : CountPlace N → Instr (Thread n) (Memory n N) (Place N)
  | .readOfName => .access fun memory => (memory, .count (.readId (memory.data i).ofName))
  | .readId ofName => .access fun memory => (memory, .count (.countFile ofName (memory.data i).id))
  | .countFile ofName _ => .access fun memory =>
      ({ memory with
          sum := memory.sum + countE (memory.files ofName)
          counted := ((memory.data i).fileName, ofName) :: memory.counted }, .count .done)
  | .done => .exit

def code (names : Fin n → N × N) : Thread n → Place N → Instr (Thread n) (Memory n N) (Place N)
  | .main, .main place => main names place
  | .func i, .func place => threadFunc i place
  | .count i, .count place => threadCount i place
  | _, _ => .exit

/-- This function is `transform_file` on the whole file system. -/
def transform (files : N → List UInt8) (names : N × N) : N → List UInt8 :=
  let opened := Function.update files names.2 []
  Function.update opened names.2 (transformFile (opened names.1))

/-- The files after the sequential transformation. -/
def transformAll (names : Fin n → N × N) (files : N → List UInt8) : N → List UInt8 :=
  (List.ofFn names).foldl transform files

/-- The exact number of characters `e` in the transformed files.
`sequentialSum` is the number that the code computes. -/
def seqSum (names : Fin n → N × N) (files : N → List UInt8) : Nat :=
  ((List.ofFn names).map fun task => countE (transformAll names files task.2)).sum

/-- The parallel phase begins after the sequential one, with an `information` that nobody has set. -/
def start (names : Fin n → N × N) (files : N → List UInt8) (unset : Info N) : State n N :=
  Config.initial ⟨unset, fun _ => unset, transformAll names files, 0, [], []⟩ .main (.main (.createLoop 0))

/-- The thread has been created and has not yet read `information->fileName`. -/
def Place.fileNameUnread : Place N → Bool
  | .func .readFileName => true
  | _ => false

/-- The thread has been created and has not yet read `information->ofName`. -/
def Place.ofNameUnread : Place N → Bool
  | .func .readFileName | .func (.readOfName _) => true
  | _ => false

/-- Main overwrites a file name only when every created thread has read it. -/
def Settled (config : State n N) (thread : Thread n) : Prop :=
  (∀ i, config.place thread = some (.main (.setFileName i)) → ∀ other place, config.place other = some place →
    place.fileNameUnread = false) ∧
  (∀ i, config.place thread = some (.main (.setOfName i)) → ∀ other place, config.place other = some place →
    place.ofNameUnread = false)

/-- The output files are different from each other and from the input files. -/
def Separate (names : Fin n → N × N) : Prop :=
  (∀ i j, (names i).2 = (names j).2 → i = j) ∧ ∀ i j, (names i).2 ≠ (names j).1

/-- Each task is transformed and counted once, and where the files are separate the sums agree. -/
def Agrees (names : Fin n → N × N) (files : N → List UInt8) (memory : Memory n N) : Prop :=
  memory.handed.Perm (List.ofFn names) ∧ memory.counted.Perm (List.ofFn names) ∧
    (Separate names → memory.sum = seqSum names files)

end

end OSLabs.CountChars
