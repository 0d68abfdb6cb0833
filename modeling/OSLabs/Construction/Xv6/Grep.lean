/-
This file models `xv6-riscv/user/grep.c`.
-/

import Mathlib.Computability.Language

namespace OSLabs.Xv6.Grep

def star : UInt8 := 42
def dollar : UInt8 := 36
def dot : UInt8 := 46
def caret : UInt8 := 94
def newline : UInt8 := 10

/-- The test `re[0]=='.' || re[0]==*text`. -/
def accepts (c a : UInt8) : Bool := c = dot || c = a

/-- This function is `matchstar`. What stands behind the star is given as the test of `matchhere`. -/
def matchstar (here : List UInt8 → Bool) (c : UInt8) : List UInt8 → Bool
  | [] => here []
  | a :: text => here (a :: text) || (accepts c a && matchstar here c text)

/-- This function is `matchhere`. A string is the list of its bytes before the zero. -/
def matchhere : List UInt8 → List UInt8 → Bool
  | [], _ => true
  | [c], text =>
      if c = dollar then text.isEmpty
      else
        match text with
        | [] => false
        | a :: _ => accepts c a
  | c :: d :: re, text =>
      if d = star then matchstar (matchhere re) c text
      else
        match text with
        | [] => false
        | a :: text => accepts c a && matchhere (d :: re) text

/-- This function is `match`. Its loop tries all ends of the text, also the empty one. -/
def match' (re text : List UInt8) : Bool :=
  match re with
  | [] => text.tails.any (matchhere [])
  | c :: re => if c = caret then matchhere re text else text.tails.any (matchhere (c :: re))

/-- This function is `strchr(p, '\n')`, which stops at a zero byte. It gives the string before the newline. -/
def strchr : List UInt8 → Option (List UInt8)
  | [] => none
  | c :: p => if c = 0 then none else if c = newline then some [] else (strchr p).map (c :: ·)

/-- This function is the inner loop of `grep`: what it writes, and the bytes from `p` on that stay. -/
def scan (pattern : List UInt8) : Nat → List UInt8 → List UInt8 × List UInt8
  | 0, p => ([], p)
  | fuel + 1, p =>
      match strchr p with
      | none => ([], p)
      | some line =>
          let later := scan pattern fuel (p.drop (line.length + 1))
          ((if match' pattern line then line ++ [newline] else []) ++ later.1, later.2)

/-- This is `sizeof(buf)`. -/
def bufSize : Nat := 1024

/-- This function is `read`. It gives at least one byte when it is asked for one and there is one. -/
def read (choice count : Nat) (input : List UInt8) : List UInt8 := input.take (min count (max 1 choice))

/-- This function is the loop of `grep`. The list has the numbers of bytes that the kernel has ready at each
read. -/
def grepLoop (pattern : List UInt8) (choices : Nat → Nat) : Nat → Nat → List UInt8 → List UInt8 → List UInt8
  | 0, _, _, _ => []
  | fuel + 1, round, buf, input =>
      match read (choices round) (bufSize - buf.length - 1) input with
      | [] => []
      | c :: chunk =>
          let buf := buf ++ c :: chunk
          let scanned := scan pattern buf.length buf
          scanned.1 ++ grepLoop pattern choices fuel (round + 1) scanned.2 (input.drop (chunk.length + 1))

/-- This function is `grep`: what it writes for this input. -/
def grep (pattern : List UInt8) (choices : Nat → Nat) (input : List UInt8) : List UInt8 :=
  grepLoop pattern choices (input.length + 1) 0 [] input

section

/-- A pattern is a sequence of single letters, of repeated letters, and of the end of the text. -/
inductive Item where
  | one (c : UInt8)
  | many (c : UInt8)
  | stop
  deriving DecidableEq

/-- The items of a pattern behind the caret. -/
def parse : List UInt8 → List Item
  | [] => []
  | [c] => if c = dollar then [.stop] else [.one c]
  | c :: d :: re => if d = star then .many c :: parse re else .one c :: parse (d :: re)

/-- The texts of one letter that this letter of a pattern accepts. -/
def letter (c : UInt8) : Language UInt8 := {text | ∃ a, text = [a] ∧ (c = dot ∨ c = a)}

/-- The texts that begin with what the items describe. -/
def prefixes : List Item → Language UInt8
  | [] => ⊤
  | .stop :: _ => 1
  | .one c :: items => letter c * prefixes items
  | .many c :: items => KStar.kstar (letter c) * prefixes items

/-- The texts that contain what the pattern describes. A caret ties it to their beginning. -/
def language (pattern : List UInt8) : Language UInt8 :=
  match pattern with
  | [] => ⊤
  | c :: re => if c = caret then prefixes (parse re) else ⊤ * prefixes (parse (c :: re))

/-- The lines of the input, each with its newline. What follows the last newline is no line. -/
def linesFrom (line : List UInt8) : List UInt8 → List (List UInt8)
  | [] => []
  | c :: input => if c = newline then (line ++ [c]) :: linesFrom [] input else linesFrom (line ++ [c]) input

/-- The line fits into the buffer and has no zero byte. -/
def fits (line : List UInt8) : Bool := line.length < bufSize && 0 ∉ line

/-- The lines that match the pattern, up to the first line that does not fit. -/
def selected (pattern : List UInt8) (lines : List (List UInt8)) : List UInt8 :=
  ((lines.takeWhile fits).filter fun line => match' pattern line.dropLast).flatten

end

end OSLabs.Xv6.Grep
