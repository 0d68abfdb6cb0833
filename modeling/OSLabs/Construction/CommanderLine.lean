/-
This file models the command line of `exam1/problem2/commander.c`.
-/

import OSLabs.Construction.Stdio

namespace OSLabs.Commander

open Stdio

/-- These are the calls of the functions of `problem2.c` that handle a command. -/
inductive Handler where
  | infantry
  | cavalry
  | armored
  | list
  | nuke
  | fire (pid : Int)
  | support (pid : Int)
  | dezombify (pid : Int)
  deriving DecidableEq

/-- The number that a handler receives. -/
def Handler.pid : Handler → Option Int
  | .fire pid | .support pid | .dezombify pid => some pid
  | _ => none

/-- The number that a handler passes to `kill`. -/
def Handler.kill : Handler → Option Int
  | .fire pid => some pid
  | .nuke => some 0
  | _ => none

/-- A message in green, yellow or red, or the call of a handler. -/
inductive Event where
  | log (message : String)
  | warn (message : String)
  | error (message : String)
  | call (handler : Handler)
  deriving DecidableEq

/-- The parser returns, leaves the program, or reads from a null pointer. -/
inductive Ending where
  | returned
  | exited
  | nullPointer
  deriving DecidableEq

/-- This function is the test with `strncmp` and `strlen` of the word. -/
def starts (text : List UInt8) (word : String) : Bool := (ascii word).isPrefixOf text

/-- This function is the branch of a command with a target.
The zero test is made on the `long`, and the handler receives an `int`. -/
def aim (missing : String) (blank shot : Int → Event) (handler : Int → Handler) : Option (List UInt8) → List Event
  | none => [.error missing]
  | some text =>
      let target := (strtol text).1
      if target = 0 then [blank target] else [shot target, .call (handler (toInt target))]

def aimFire : Option (List UInt8) → List Event :=
  aim "You do not know how to fire....\n" (fun target => .warn s!"Cannot shoot at blank (target = {target})\n")
    (fun target => .warn s!"You shot {target}\n") .fire

def aimSupport : Option (List UInt8) → List Event :=
  aim "You do not know how to call air support....\n"
    (fun target => .warn s!"Cannot call air support at blank (target = {target})\n")
    (fun target => .log s!"You called air support on {target}\n") .support

def aimDezombify : Option (List UInt8) → List Event :=
  aim "You do not know how to call dezombification teams....\n"
    (fun target => .warn s!"Cannot send dezombification team at blank (target = {target})\n")
    (fun target => .log s!"Sending dezombification team to target {target}\n") .dezombify

/-- This function is the part of `parse_command` behind the calls of `strtok`. -/
def parseTokens (name target : Option (List UInt8)) : List Event × Ending :=
  match name with
  | none => ([], .nullPointer)
  | some name =>
      if starts name "fire" then (aimFire target, .returned)
      else if starts name "support" then (aimSupport target, .returned)
      else if starts name "dezombify" then (aimDezombify target, .returned)
      else ([.error "Unknow command, please try again....\n"], .returned)

/-- This function is `parse_command`: what it does in order, and how it ends. -/
def parseCommand : Option Text → List Event × Ending
  | none => ([], .returned)
  | some line =>
      if line.bytes = [] then ([], .returned)
      else if starts line.bytes "quit" then ([.log "Goodbye cruel world....\n"], .exited)
      else if starts line.bytes "infantry" then ([.call .infantry], .returned)
      else if starts line.bytes "cavalry" then ([.call .cavalry], .returned)
      else if starts line.bytes "armored" then ([.call .armored], .returned)
      else if starts line.bytes "list" then ([.call .list], .returned)
      else if starts line.bytes "nuke" then ([.call .nuke], .returned)
      else
        let name := strtok 32 line.bytes
        let target := name.bind fun name => strtok 32 name.2
        parseTokens (name.map Prod.fst) (target.map Prod.fst)

/-- The handlers that are called, in order. -/
def calls (events : List Event) : List Handler :=
  events.filterMap fun
    | .call handler => some handler
    | _ => none

/-- The line makes the parser call a handler with a number. -/
def Accepted (line : Text) : Prop := ∃ handler ∈ calls (parseCommand (some line)).1, handler.pid.isSome

/-- The text begins with digits, and they have this value. -/
def Digits (text : List UInt8) (value : Nat) : Prop := text.takeWhile isDigit ≠ [] ∧ decimal text = value

/-- The number of the digits at the beginning of a text, which may have a sign. -/
inductive Denotes : List UInt8 → Int → Prop where
  | digits {text : List UInt8} {value : Nat} : Digits text value → Denotes text value
  | plus {text : List UInt8} {value : Nat} : Digits text value → Denotes (43 :: text) value
  | minus {text : List UInt8} {value : Nat} : Digits text value → Denotes (45 :: text) (-value)

/-- A handler receives the number that the second token of the line denotes.
The number is not zero, and the process group of the commander is not killed. -/
structure TargetRight (line : Text) (handler : Handler) (pid : Int) : Prop where
  nonzero : pid ≠ 0
  denoted : ∃ text, (tokens 32 line.bytes)[1]? = some text ∧ Denotes text pid
  spared : handler.kill ≠ some 0

/-- Every handler that the line calls with a number receives the right one. -/
def TargetsRight (line : Text) : Prop :=
  ∀ handler ∈ calls (parseCommand (some line)).1, ∀ pid, handler.pid = some pid → TargetRight line handler pid

/-- The words that are tested, in order. -/
def commandWords : List String :=
  ["quit", "infantry", "cavalry", "armored", "list", "nuke", "fire", "support", "dezombify"]

/-- The first token of the text, if it has one, starts with no word of a command. -/
def Unknown (text : Text) : Prop :=
  ∀ name, (tokens 32 text.bytes)[0]? = some name → ∀ word ∈ commandWords, starts name word = false

/-- No null pointer is read, at most one handler is called, and an unknown command is reported and calls none. -/
structure ParsesRight (line : Option Text) : Prop where
  pointers : (parseCommand line).2 ≠ .nullPointer
  atMostOne : (calls (parseCommand line).1).length ≤ 1
  unknown : ∀ text, line = some text → text.bytes ≠ [] → Unknown text →
    Event.error "Unknow command, please try again....\n" ∈ (parseCommand line).1 ∧ calls (parseCommand line).1 = []

end OSLabs.Commander
