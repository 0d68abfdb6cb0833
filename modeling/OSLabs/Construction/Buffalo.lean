/-
This file models the functions that `buffalosay.c` and `buffalopipe.c` have in common.
-/

import OSLabs.Construction.Stdio

namespace OSLabs.Buffalo

open Stdio

/-- The picture of a buffalo that says a message. -/
def buffalo (msg : List UInt8) : List UInt8 :=
  ascii (
    "             _.-````'-,_\n" ++
    "   _,.,_ ,-'`           `'-.,_\n" ++
    " /)     (\\                   '``-.\n" ++
    "((      ) )                      `\\\n" ++
    " \\)    (_/                        )\\\n" ++
    "  |       /)           '    ,'    / \\\n" ++
    "  `\\    ^'            '     (    /  ))\n" ++
    "    |      _/\\ ,     /    ,,`\\   (  \"`\n" ++
    "     \\Y,   |  \\  \\  | ````| / \\_ \\\n" ++
    "    /  `)_/    \\  \\  )    ( >  ( >\n" ++
    "   |            \\( \\(     |/   |/\n" ++
    "   |           /_(/_(    /_(  /_(\n" ++
    "   | \n" ++
    "   < ") ++ msg ++ ascii " > - Buffalo, probably \n\n"

/-- This function is `printbuffalo`, which fills the new memory `ret`. -/
def printbuffalo (ret msg : List UInt8) : List UInt8 := snprintf ret 1000 (buffalo msg)

/-- A buffer that `memset` has cleared. -/
def cleared : List UInt8 := List.replicate 1000 0

/-- A cleared buffer with the beginning of a string. -/
def frame (text : List UInt8) : List UInt8 := snprintf cleared 1000 text

/-- This function is the test of `strcmp` whether the buffer holds this string. -/
def sameString (text buffer : List UInt8) : Bool := buffer.take (text.length + 1) = text ++ [0]

/-- The handshake has not been read, is wrong, or is accepted. -/
inductive Handshake where
  | failed
  | wrong
  | accepted
  deriving DecidableEq

/-- This function is `asserthandshake` after its read. -/
def asserthandshake (expected readbuffer : List UInt8) : Option (List UInt8) → Handshake
  | none => .failed
  | some bytes => if sameString expected (fill readbuffer bytes) then .accepted else .wrong

end OSLabs.Buffalo
