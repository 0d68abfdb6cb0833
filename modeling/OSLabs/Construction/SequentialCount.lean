/-
This file models the input format of `exam2/problem1/count_chars.c` and its sequential phase.
-/

import OSLabs.Construction.CountChars

namespace OSLabs.CountChars

open Stdio

/-- The text of an input file that lists these bytes: a token `0xHH` for each of them,
with any number of newline characters before, between and after the tokens. -/
inductive Listing : List UInt8 → List UInt8 → Prop where
  | done : Listing [] []
  | newline {text bytes : List UInt8} : Listing text bytes → Listing (10 :: text) bytes
  | token {high low : UInt8} {first second : Nat} {text bytes : List UInt8} :
      hexDigit high = some first → hexDigit low = some second → Listing text bytes →
      Listing (48 :: 120 :: high :: low :: text) (UInt8.ofNat (16 * first + second) :: bytes)

/-- The constant `FILE_SIZE`. -/
def fileSize : Nat := 10 * 1024

/-- What `fgets` stores for the content of a file: its first line and a null character.
Nothing is stored at the end of the file. -/
def stored (content : List UInt8) : List UInt8 :=
  match fgets 10 fileSize content with
  | some (line, _) => line ++ [0]
  | none => []

/-- This function is `read_file_to_buffer`. -/
def readFileToBuffer (buffer content : List UInt8) : List UInt8 := fill buffer (stored content)

/-- This function is the counting loop of `main` over the contents of the output files.
It fails when the `int` variable `seq_sum` overflows. -/
def countFiles : List (List UInt8) → List UInt8 → Nat → Option Nat
  | [], _, seqSum => some seqSum
  | content :: rest, buff, seqSum =>
      let buff := readFileToBuffer buff content
      let seqSum := seqSum + countE buff
      if seqSum < 2 ^ 31 then countFiles rest buff seqSum else none

/-- This function is the sequential phase of `main` on the contents of the input files,
with an unset array `buff`. -/
def sequentialSum (files : List (List UInt8)) (buff : List UInt8) : Option Nat :=
  countFiles (files.map transformFile) buff 0

/-- The number of `e` characters in the decoded contents of all files. -/
def totalE (files : List (List UInt8)) : Nat := (files.map fun file => countE (transformFile file)).sum

/-- The `e` characters behind the first line of a content, which is all that is read. -/
def unread (content : List UInt8) : Nat := countE (takeLine 10 (fileSize - 1) content).2

/-- The byte at a place of the buffer: the last of the contents that reaches the place has left it there,
or it has been there from the beginning. -/
def residue (buff : List UInt8) (earlier : List (List UInt8)) (place : Nat) : Option UInt8 :=
  match earlier.reverse.find? fun content => place < (stored content).length with
  | some content => (stored content)[place]?
  | none => buff[place]?

/-- The `e` characters that lie in the buffer behind what is stored for each of the later contents. -/
def stale (buff : List UInt8) : List (List UInt8) → List (List UInt8) → Nat
  | _, [] => 0
  | earlier, content :: later =>
      (List.range fileSize).countP (fun place =>
        (stored content).length ≤ place ∧ residue buff earlier place = some 101) +
      stale buff (earlier ++ [content]) later

end OSLabs.CountChars
