/-
This file models the three steps of `problem1.c` and the program `caesar.c` of `exam1/problem1`.
-/

import OSLabs.Construction.Pipe
import OSLabs.Construction.Stdio
import Mathlib.Data.List.Forall2

namespace OSLabs.Caesar

open Transition Pipe Stdio

section Cipher

inductive Mode where
  | encrypt
  | decrypt
  deriving DecidableEq

/-- This function is the test with `strncmp` and `strlen(op)`. -/
def sameOp (op : List UInt8) (word : String) : Bool := op.isPrefixOf (ascii word)

def studentKey : UInt8 := 8

/-- The letter that replaces a letter of this alphabet. The comparison is that of `char`, which has a sign. -/
def encryptLetter (first last letter : UInt8) : UInt8 :=
  if last.toInt8 < (letter + studentKey).toInt8 then
    letter + studentKey + first - last - 1 else letter + studentKey

def decryptLetter (first last letter : UInt8) : UInt8 :=
  if (letter - studentKey).toInt8 < first.toInt8 then
    letter - studentKey - first + last + 1 else letter - studentKey

def isLower (letter : UInt8) : Bool := 97 ≤ letter && letter ≤ 122

def isUpper (letter : UInt8) : Bool := 65 ≤ letter && letter ≤ 90

/-- This function is one round of the loop of `caesar`. -/
def substitute (mode : Mode) (letter : UInt8) : UInt8 :=
  match mode with
  | .encrypt =>
      if isLower letter then encryptLetter 97 122 letter
      else if isUpper letter then encryptLetter 65 90 letter
      else letter
  | .decrypt =>
      if isLower letter then decryptLetter 97 122 letter
      else if isUpper letter then decryptLetter 65 90 letter
      else letter

def mode (op : List UInt8) : Mode := if sameOp op "encrypt" then .encrypt else .decrypt

/-- This function is `caesar`. -/
def caesar (op message : List UInt8) : List UInt8 := message.map (substitute (mode op))

/-- A letter is replaced by a letter of its alphabet, and any other character stays. -/
def Kept (letter result : UInt8) : Prop :=
  if isLower letter then isLower result = true else if isUpper letter then isUpper result =
    true else result = letter

/-- The two operations undo each other on this message,
and both keep its length and the kinds of its characters. -/
structure RoundTrip (message : List UInt8) : Prop where
  decrypted : caesar (ascii "decrypt") (caesar (ascii "encrypt") message) = message
  encrypted : caesar (ascii "encrypt") (caesar (ascii "decrypt") message) = message
  length : ∀ op, op = ascii "encrypt" ∨ op = ascii "decrypt" → (caesar op message).length = message.length
  kept : ∀ op, op = ascii "encrypt" ∨ op = ascii "decrypt" → List.Forall₂ Kept message (caesar op message)

end Cipher

/-- The lines of all programs, without the process id of `caesar.bin`. -/
inductive Line where
  | unknownCaller
  | invalidOperation (op : List UInt8)
  | invalidCall
  | unknownCall
  | argumentMode (op : List UInt8)
  | readMode (op : List UInt8) (readfd : Int)
  | pipesMode (op : List UInt8) (readfd writefd : Int)
  | output (op result : List UInt8)
  | received (text : List UInt8)
  | done
  deriving DecidableEq

/-- What the programs get from the system: `n` pipes, the unset arrays `buff` and `buffer`,
and the bytes behind the message in the memory of the parent. -/
structure Environment (n : Nat) where
  descriptors : Descriptors n
  capacity : Nat
  atomic : 4096 ≤ capacity
  foreign : Int → Option (List UInt8)
  buff : List UInt8
  buffSize : buff.length = 256
  buffer : List UInt8
  bufferSize : buffer.length = 1000
  behind : Nat → UInt8

/-- These are the program points of `caesar.c`, in source order. They carry its local variables.
The place `overrun` is that of a message that does not end in its buffer. -/
inductive ChildPlace where
  | fail (line : Line)
  | warnArgument (op message : List UInt8)
  | warnRead (op : List UInt8) (readfd : Int)
  | readBuff (op : List UInt8) (readfd : Int)
  | closeRead (op : List UInt8) (readfd : Int) (buff : List UInt8)
  | printResult (op result : List UInt8)
  | warnPipes (op : List UInt8) (readfd writefd : Int)
  | readMessage (op : List UInt8) (readfd writefd : Int)
  | closeMessage (op : List UInt8) (readfd writefd : Int) (buff : List UInt8)
  | writeResult (writefd : Int) (result : List UInt8)
  | closeWrite (writefd : Int)
  | overrun
  | leave (code : Int)
  deriving DecidableEq

/-- A place of one of the steps or of its child. -/
inductive Place (A : Type) where
  | parent (place : A)
  | child (place : ChildPlace)
  deriving DecidableEq

/-- This function is `main` of `caesar.c` up to its first call. -/
def caesarBin (argv : List (List UInt8)) : ChildPlace :=
  match argv with
  | [] | [_] => .fail .unknownCaller
  | _ :: op :: arguments =>
      if ¬ sameOp op "encrypt" ∧ ¬ sameOp op "decrypt" then .fail (.invalidOperation op)
      else
        match arguments with
        | [argument] =>
            if (strtol argument).2 ≠ [] then .warnArgument op argument else .warnRead op
              (toInt (strtol argument).1)
        | [first, second] =>
            if (strtol first).2 ≠ [] ∨ (strtol second).2 ≠ [] then .fail .invalidCall
            else .warnPipes op (toInt (strtol first).1) (toInt (strtol second).1)
        | _ => .fail .unknownCall

section Child
variable {n : Nat} {A : Type} (env : Environment n)

def afterRead (op buff : List UInt8) : ChildPlace :=
  match string buff with
  | some message => .printResult op (caesar op message)
  | none => .overrun

def afterMessage (op : List UInt8) (writefd : Int) (buff : List UInt8) : ChildPlace :=
  match string buff with
  | some message => .writeResult writefd (caesar op message)
  | none => .overrun

/-- This function is `main` of `caesar.c` from its first call. A failed read leaves the unset array. -/
def child : ChildPlace → Instr Role (Place A) Line
  | .fail line => .print line (.child (.leave 1))
  | .warnArgument op message => .print (.argumentMode op) (.child (.printResult op (caesar op message)))
  | .warnRead op readfd => .print (.readMode op readfd) (.child (.readBuff op readfd))
  | .readBuff op readfd => .read readfd 256 fun bytes =>
      .child (.closeRead op readfd (fill env.buff (bytes.getD [])))
  | .closeRead op readfd buff => .close readfd (.child (afterRead op buff))
  | .printResult op result => .print (.output op result) (.child (.leave 0))
  | .warnPipes op readfd writefd => .print (.pipesMode op readfd writefd) (.child (.readMessage op readfd writefd))
  | .readMessage op readfd writefd => .read readfd 256 fun bytes =>
      .child (.closeMessage op readfd writefd (fill env.buff (bytes.getD [])))
  | .closeMessage op readfd writefd buff => .close readfd (.child (afterMessage op writefd buff))
  | .writeResult writefd result => .write writefd (result ++ [0]) (.child (.closeWrite writefd))
  | .closeWrite writefd => .close writefd (.child (.leave 0))
  | .overrun => .crash
  | .leave code => .exit code

end Child

/-- The arguments of `caesar.bin`. -/
def argv (op : Text) (arguments : List (List UInt8)) : List (List UInt8) := ascii "./caesar.bin" :: op.bytes :: arguments

/-- The 1000 bytes from the address of the message: its characters, the null character, and what is behind. -/
def payload {n : Nat} (env : Environment n) (message : Text) : List UInt8 :=
  (message.bytes ++ 0 :: (List.range 1000).map env.behind).take 1000

/-- The texts in the lines that show a result. -/
def texts (output : List Line) : List (List UInt8) :=
  output.filterMap fun line =>
    match line with
    | .output _ text | .received text => some text
    | _ => none

section Step1

inductive Step1Place where
  | fork
  | wait
  | printDone
  | leave
  deriving DecidableEq

variable (env : Environment 0) (op message : Text)

/-- This function is `step1`. -/
def step1 : Step1Place → Instr Role (Place Step1Place) Line
  | .fork => .fork .child (.child (caesarBin (argv op [message.bytes]))) (.parent .wait)
  | .wait => .wait .child fun _ => .parent .printDone
  | .printDone => .print .done (.parent .leave)
  | .leave => .exit 0

def code1 (_ : Role) : Place Step1Place → Instr Role (Place Step1Place) Line
  | .parent place => step1 op message place
  | .child place => child env place

def system1 : System 0 Role (Place Step1Place) Line :=
    ⟨env.descriptors, env.capacity, env.foreign, code1 env op message⟩

def start1 : Config 0 Role (Place Step1Place) Line := Config.initial .parent (.parent .fork)

end Step1

section Step2

inductive Step2Place where
  | fork
  | closeRead
  | writeMessage
  | wait
  | printDone
  | leave
  deriving DecidableEq

variable (env : Environment 1) (op message : Text)

/-- The numbers of the ends of the single pipe. -/
def fd (side : Side) : Nat := env.descriptors.number (only, side)

/-- This function is `step2` after its pipe. -/
def step2 : Step2Place → Instr Role (Place Step2Place) Line
  | .fork => .fork .child (.child (caesarBin (argv op [decimalText (fd env .read)]))) (.parent .closeRead)
  | .closeRead => .close (fd env .read) (.parent .writeMessage)
  | .writeMessage => .write (fd env .write) (payload env message) (.parent .wait)
  | .wait => .wait .child fun _ => .parent .printDone
  | .printDone => .print .done (.parent .leave)
  | .leave => .exit 0

def code2 (_ : Role) : Place Step2Place → Instr Role (Place Step2Place) Line
  | .parent place => step2 env op message place
  | .child place => child env place

def system2 : System 1 Role (Place Step2Place) Line :=
    ⟨env.descriptors, env.capacity, env.foreign, code2 env op message⟩

def start2 : Config 1 Role (Place Step2Place) Line := Config.initial .parent (.parent .fork)

end Step2

section Step3

inductive Step3Place where
  | fork
  | closeRead
  | closeBackWrite
  | writeMessage
  | readBack
  | printBack (buffer : List UInt8)
  | closeBack
  | closeWrite
  | wait
  | printDone
  | leave
  deriving DecidableEq

variable (env : Environment 2) (op message : Text)

/-- The numbers of the ends of the pipe to the child. -/
def sendFd (side : Side) : Nat := env.descriptors.number (first, side)

/-- The numbers of the ends of the pipe `back_fd`. -/
def backFd (side : Side) : Nat := env.descriptors.number (second, side)

/-- This function is `step3` after its pipes. A text without an end in the buffer makes `printf` read behind it. -/
def step3 : Step3Place → Instr Role (Place Step3Place) Line
  | .fork =>
      .fork .child (.child (caesarBin (argv op [decimalText (sendFd env .read), decimalText (backFd env .write)])))
      (.parent .closeRead)
  | .closeRead => .close (sendFd env .read) (.parent .closeBackWrite)
  | .closeBackWrite => .close (backFd env .write) (.parent .writeMessage)
  | .writeMessage => .write (sendFd env .write) (payload env message) (.parent .readBack)
  | .readBack => .read (backFd env .read) 1000 fun bytes => .parent (.printBack (fill env.buffer (bytes.getD [])))
  | .printBack buffer =>
      match string buffer with
      | some text => .print (.received text) (.parent .closeBack)
      | none => .crash
  | .closeBack => .close (backFd env .read) (.parent .closeWrite)
  | .closeWrite => .close (sendFd env .write) (.parent .wait)
  | .wait => .wait .child fun _ => .parent .printDone
  | .printDone => .print .done (.parent .leave)
  | .leave => .exit 0

def code3 (_ : Role) : Place Step3Place → Instr Role (Place Step3Place) Line
  | .parent place => step3 env op message place
  | .child place => child env place

def system3 : System 2 Role (Place Step3Place) Line :=
    ⟨env.descriptors, env.capacity, env.foreign, code3 env op message⟩

def start3 : Config 2 Role (Place Step3Place) Line := Config.initial .parent (.parent .fork)

end Step3

end OSLabs.Caesar
