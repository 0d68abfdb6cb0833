/-
This file models the functions of the C library that read lines and numbers from text.
-/

import Mathlib.Algebra.Order.Ring.Nat

namespace OSLabs.Stdio

section
variable {A : Type} [DecidableEq A]

/-- This function splits off at most `room` characters and stops after a newline. -/
def takeLine (newline : A) : Nat → List A → List A × List A
  | 0, stream => ([], stream)
  | _ + 1, [] => ([], [])
  | room + 1, character :: rest =>
      if character = newline then ([character], rest)
      else
        let line := takeLine newline room rest
        (character :: line.1, line.2)

/-- This function is `fgets`: at most `size - 1` characters of one line, and the rest of the stream.
It fails at the end of the file. -/
def fgets (newline : A) (size : Nat) (stream : List A) : Option (List A × List A) :=
  match stream with
  | [] => none
  | _ => some (takeLine newline (size - 1) stream)

/-- The string in a buffer ends before the first null character. -/
def cString (null : A) (buffer : List A) : List A := buffer.takeWhile (· ≠ null)

end

/-- This function is `isspace` of the C locale. -/
def isSpace (byte : UInt8) : Bool := byte = 32 || (9 ≤ byte && byte ≤ 13)

/-- The value of a hexadecimal digit. -/
def hexDigit (byte : UInt8) : Option Nat :=
  if 48 ≤ byte ∧ byte ≤ 57 then some (byte.toNat - 48)
  else if 97 ≤ byte ∧ byte ≤ 102 then some (byte.toNat - 87)
  else if 65 ≤ byte ∧ byte ≤ 70 then some (byte.toNat - 55)
  else none

/-- This function reads hexadecimal digits up to the first other character. -/
def hexDigits (value : Nat) : List UInt8 → Nat
  | [] => value
  | byte :: rest =>
      match hexDigit byte with
      | some digit => hexDigits (16 * value + digit) rest
      | none => value

/-- This function drops the optional prefix `0x` or `0X`. -/
def dropHexPrefix : List UInt8 → List UInt8
  | 48 :: 120 :: rest | 48 :: 88 :: rest => rest
  | text => text

/-- This function is `strtoul` with base 16 on a text of a few characters: spaces, a sign, a prefix, and digits.
A minus sign negates the value in 64 bits. -/
def strtoul16 (text : List UInt8) : Nat :=
  match text.dropWhile isSpace with
  | 45 :: rest => (2 ^ 64 - hexDigits 0 (dropHexPrefix rest)) % 2 ^ 64
  | 43 :: rest => hexDigits 0 (dropHexPrefix rest)
  | rest => hexDigits 0 (dropHexPrefix rest)

/-- This function is `isdigit`. -/
def isDigit (byte : UInt8) : Bool := 48 ≤ byte && byte ≤ 57

/-- The value of the decimal digits up to the first other character. -/
def decimal (text : List UInt8) : Nat :=
  (text.takeWhile isDigit).foldl (fun value digit => 10 * value + (digit.toNat - 48)) 0

/-- This function is `atoi` of the GNU library: a `long` that is read with saturation and cut to 32 bits. -/
def atoi (text : List UInt8) : Int :=
  let value : Int :=
    match text.dropWhile isSpace with
    | 45 :: rest => max (-(decimal rest : Int)) (-2 ^ 63)
    | 43 :: rest => min (decimal rest : Int) (2 ^ 63 - 1)
    | rest => min (decimal rest : Int) (2 ^ 63 - 1)
  (value + 2 ^ 31) % 2 ^ 32 - 2 ^ 31

/-- This function is `strtol` with base 10: a value that is saturated in 64 bits, and the text behind the number.
Without a digit it takes nothing. -/
def strtol (text : List UInt8) : Int × List UInt8 :=
  let number : List UInt8 × Bool :=
    match text.dropWhile isSpace with
    | 45 :: rest => (rest, true)
    | 43 :: rest => (rest, false)
    | rest => (rest, false)
  if number.1.takeWhile isDigit = [] then (0, text)
  else
    let value : Int := decimal number.1
    (if number.2 then max (-value) (-2 ^ 63) else min value (2 ^ 63 - 1), number.1.dropWhile isDigit)

/-- This function is `strtok` with one delimiter: the next token, and the text behind the delimiter that ends it.
It is `NULL` when there are only delimiters. -/
def strtok (delimiter : UInt8) (text : List UInt8) : Option (List UInt8 × List UInt8) :=
  match text.dropWhile (· = delimiter) with
  | [] => none
  | rest => some (rest.takeWhile (· ≠ delimiter), (rest.dropWhile (· ≠ delimiter)).tail)

/-- The parts of a text between the delimiters, without the empty ones. -/
def tokens (delimiter : UInt8) (text : List UInt8) : List (List UInt8) :=
  (text.splitOn delimiter).filter (· ≠ [])

/-- This function is the conversion of a `long` or of an `unsigned long long` to an `int`. -/
def toInt (value : Int) : Int := (value + 2 ^ 31) % 2 ^ 32 - 2 ^ 31

/-- A string of C holds no null character. -/
structure Text where
  bytes : List UInt8
  clean : 0 ∉ bytes

/-- This function is `snprintf` with `%d` for a number that is not negative. -/
def decimalText (value : Nat) : List UInt8 := (Nat.toDigits 10 value).map fun digit => digit.toNat.toUInt8

/-- The bytes of a text of ASCII characters. -/
def ascii (text : String) : List UInt8 := text.toList.map fun character => character.toNat.toUInt8

/-- The string in a buffer, when it ends inside the buffer. -/
def string (buffer : List UInt8) : Option (List UInt8) := if 0 ∈ buffer then some (cString 0 buffer) else none

/-- This function is `snprintf` with `%s` into a buffer of this size. -/
def snprintf (buffer : List UInt8) (size : Nat) (text : List UInt8) : List UInt8 :=
  text.take (size - 1) ++ 0 :: buffer.drop ((text.take (size - 1)).length + 1)

/-- The buffer after the bytes have been stored at its beginning. -/
def fill (buffer bytes : List UInt8) : List UInt8 := bytes ++ buffer.drop bytes.length

end OSLabs.Stdio
