/-
This file models the shell of `simpleshell/simpleshell.c`.
-/

import OSLabs.Construction.Process
import OSLabs.Construction.Stdio

namespace OSLabs.SimpleShell

open Transition Process Stdio

/-- The two strings of `parsed_command`, where the second one may be `NULL`. -/
structure Parsed where
  command : List UInt8
  argument : Option (List UInt8)
  deriving DecidableEq

/-- The index of the first null character, if the buffer has one. -/
def strlen (buffer : List UInt8) : Option Nat :=
  if 0 ∈ buffer then some (cString 0 buffer).length else none

/-- This function writes a string and its null character to the start of a buffer. -/
def write (buffer line : List UInt8) : List UInt8 := line ++ 0 :: buffer.drop (line.length + 1)

/-- This function is the call of `fgets` and the removal of the last character.
At the end of the file the buffer is unchanged.
It fails where the program writes in front of the buffer or reads behind it. -/
def readLine (buffer stream : List UInt8) : Option (List UInt8 × List UInt8) :=
  let read := match fgets 10 82 stream with
    | some (line, rest) => (write buffer line, rest)
    | none => (buffer, stream)
  match strlen read.1 with
  | some (length + 1) => some (read.1.set length 0, read.2)
  | _ => none

/-- This function splits the line in the buffer at the first space, where it writes a null character. -/
def parse (buffer : List UInt8) : Parsed × List UInt8 :=
  let line := cString 0 buffer
  let len1 := (line.takeWhile (· ≠ 32)).length
  if len1 = line.length then (⟨line, none⟩, buffer)
  else
    let split := buffer.set len1 0
    (⟨cString 0 split, some (cString 0 (split.drop (len1 + 1)))⟩, split)

/-- The prefix `BG`. -/
def isBackground : List UInt8 → Bool
  | 66 :: 71 :: _ => true
  | _ => false

/-- This function is the dispatch's `parsed_command[0] + 2` for a command with the prefix `BG`. -/
def stripBackground : List UInt8 → List UInt8
  | 66 :: 71 :: rest => rest
  | command => command

/-- The strings `quit` and `exit`. -/
def quits (command : List UInt8) : Bool := command = [113, 117, 105, 116] || command = [101, 120, 105, 116]

/-- The loop of `main` ends with `exit`, or with a wrong use of the buffer, or it goes on. -/
inductive Ending where
  | exited
  | undefined
  | running
  deriving DecidableEq

/-- This function is a number of rounds of the loop of `main` in the shell itself.
It gives the value of `parsed_command` in each round. -/
def mainLoop : Nat → List UInt8 → List UInt8 → List Parsed × Ending
  | 0, _, _ => ([], .running)
  | rounds + 1, buffer, stream =>
      match readLine buffer stream with
      | none => ([], .undefined)
      | some (buffer, stream) =>
          let parsed := parse buffer
          if quits (stripBackground parsed.1.command) then ([parsed.1], .exited)
          else
            let rest := mainLoop rounds parsed.2 stream
            (parsed.1 :: rest.1, rest.2)

/-- The parts of a line before and after the first space. -/
def splitLine (line : List UInt8) : Parsed :=
  match line.dropWhile (· ≠ 32) with
  | [] => ⟨line, none⟩
  | _ :: argument => ⟨line.takeWhile (· ≠ 32), some argument⟩

/-- The parts joined by a space. -/
def Parsed.join (parsed : Parsed) : List UInt8 :=
  match parsed.argument with
  | none => parsed.command
  | some argument => parsed.command ++ 32 :: argument

/-- The input that has these lines. -/
def input (lines : List (List UInt8)) : List UInt8 := lines.flatMap fun line => line ++ [10]

/-- Round after round the shell works on one line after the other, and it ends before the input does. -/
def LineByLine (lines : List (List UInt8)) (buffer : List UInt8) : Prop :=
  ∀ rounds, (mainLoop rounds buffer (input lines)).1 <+: lines.map splitLine ∧
    (mainLoop rounds buffer (input lines)).2 ≠ .undefined

/-- The line has at most 80 characters and no null character. -/
def Short (line : List UInt8) : Prop := line.length ≤ 80 ∧ 0 ∉ line

/-- What is passed to `exec`, with the number of the iteration of `main` that it belongs to. -/
structure Image where
  round : Nat
  parsed : Parsed
  deriving DecidableEq

/-- The dispatch adds two to `parsed_command[0]` after the prefix `BG`. -/
def Image.strip (image : Image) : Image :=
  { image with parsed := { image.parsed with command := stripBackground image.parsed.command } }

/-- The digit loop runs `parsed_command[0] + 1`. -/
def Image.shorten (image : Image) : Image :=
  { image with parsed := { image.parsed with command := image.parsed.command.tail } }

inductive Output where
  | prompt
  | command (parsed : Parsed)
  | finished
  deriving DecidableEq

/-- These are the program points of the shell and of the processes that it forks.
The places of `runCommand` carry the place where it returns to. -/
inductive Place where
  | main (lines : List Parsed)
  | prompt (round : Nat) (lines : List Parsed)
  | read (round : Nat) (lines : List Parsed)
  | dispatch (image : Image) (lines : List Parsed)
  | testDigit (image : Image) (lines : List Parsed)
  | loop (i : Nat) (image : Image) (lines : List Parsed)
  | runCommand (image : Image) (background : Bool) (after : Place)
  | execute (image : Image)
  | waitBackground (after : Place)
  | printFinished (after : Place)
  | waitForeground (after : Place)
  | testQuit (image : Image) (lines : List Parsed)
  | exit
  | execFailed
  | signalHandle (interrupted : Place)
  deriving DecidableEq

abbrev Step := Instr Place Image Output

/-- The function `runCommand` forks.
After the wait of its branch for background commands the parent falls through to the other wait. -/
def runCommand (image : Image) (background : Bool) (after : Place) : Step :=
  .fork (.execute image) fun _ => if background then .waitBackground after else .waitForeground after

/-- The handler of `SIGCHLD` waits until there are no more children. -/
def signalHandle (interrupted : Place) : Step :=
  .wait fun
    | some _ => .signalHandle interrupted
    | none => interrupted

/-- The shell works on the lines that its loop reads; after them it waits for more input. -/
def program : Program Place Image Output where
  code
    | .main lines => .signal .chld .caught (.prompt 0 lines)
    | .prompt round lines => .print .prompt (.read round lines)
    | .read round [] => .jump (.read round [])
    | .read round (line :: rest) => .print (.command line) (.dispatch ⟨round, line⟩ rest)
    | .dispatch image rest =>
        if isBackground image.parsed.command then
          .fork (.runCommand image.strip true .exit) fun _ => .testDigit image.strip rest
        else .jump (.testDigit image rest)
    | .testDigit image rest =>
        if image.parsed.command.head?.any isDigit then .jump (.loop 0 image rest)
        else .jump (.runCommand image false (.testQuit image rest))
    | .loop i image rest =>
        if (i : Int) < atoi image.parsed.command then
          .jump (.runCommand image.shorten false (.loop (i + 1) image rest))
        else .jump (.runCommand image false (.testQuit image rest))
    | .runCommand image background after => runCommand image background after
    | .execute image => .exec image .execFailed
    | .waitBackground after => .wait fun _ => .printFinished after
    | .printFinished after => .print .finished (.waitForeground after)
    | .waitForeground after => .wait fun _ => after
    | .testQuit image rest => if quits image.parsed.command then .exit 0 else .jump
        (.prompt (image.round + 1) rest)
    | .exit => .exit 0
    | .execFailed => .exit 1
    | .signalHandle interrupted => signalHandle interrupted
  handler _ := .signalHandle
  blocks
    | .signalHandle _, signal => signal = .chld
    | _, _ => false

/-- The shell has the number one. -/
def start (lines : List Parsed) : Config Place Image Output := .initial (.main lines)

/-- The lines up to the first one that ends the shell. -/
def untilQuit : List Parsed → List Parsed
  | [] => []
  | line :: rest => line :: if quits (stripBackground line.command) then [] else untilQuit rest

/-- A process at this place has still to do something for the iteration with this number. -/
def Place.handles (round : Nat) : Place → Bool
  | .main _ => true
  | .prompt next _ | .read next _ => next ≤ round
  | .dispatch image _ | .testDigit image _ | .loop _ image _ | .testQuit image _ => image.round ≤ round
  | .runCommand image _ after => image.round = round || after.handles round
  | .execute image => image.round = round
  | .waitBackground after | .printFinished after | .waitForeground after | .signalHandle after =>
      after.handles round
  | .exit | .execFailed => false

/-- Every process is done with the iteration. -/
def Handled (round : Nat) (config : Config Place Image Output) : Prop :=
  ∀ pid place, config.status pid = some (.running place) → place.handles round = false

/-- The shell is in a `wait` of `runCommand` for this iteration. -/
def Waits (round : Nat) (config : Config Place Image Output) : Prop :=
  ∃ image lines, image.round = round ∧
    (config.status 1 = some (.running (.waitForeground (.testQuit image lines))) ∨
      ∃ i, config.status 1 = some (.running (.waitForeground (.loop i image lines))))

/-- The number of processes that have called `exec` in this iteration. -/
def calls (round : Nat) (config : Config Place Image Output) : Nat :=
  config.execs.countP fun entry => entry.2.round = round

/-- The command of the line is executed once with its argument,
and the shell does not wait for a background command. -/
structure RunsOnce (round : Nat) (line : Parsed) (config : Config Place Image Output) : Prop where
  exact : ∀ entry ∈ config.execs, entry.2.round = round →
    entry.2.parsed = ⟨stripBackground line.command, line.argument⟩
  once : calls round config ≤ 1 ∧ (Handled round config → calls round config = 1)
  returns : isBackground line.command = true → ¬ Waits round config

end OSLabs.SimpleShell
