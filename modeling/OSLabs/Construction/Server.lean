/-
This file models the worker of `sample_exams/exam1/exam1-2223b/solution/server.c` and the processes that it forks.
-/

import OSLabs.Construction.Process
import OSLabs.Construction.Stdio

namespace OSLabs.Server

open Transition Process Stdio

/-- The constant `MAX_BACKGROUND_CMDS`. -/
def maxBackgroundCmds : Nat := 5

/-- This function splits the received text at the first space. -/
def parseClientCommand (buff : List UInt8) : List UInt8 × Option (List UInt8) :=
  let command := cString 0 buff
  let len1 := (command.takeWhile (· ≠ 32)).length
  if len1 = command.length then (command, none)
  else (command.take len1, some (command.drop (len1 + 1)))

/-- What the worker does with a received text. -/
inductive Request where
  | close
  | background (command : List UInt8)
  | foreground (command : List UInt8) (argument : Option (List UInt8))
  deriving DecidableEq

/-- The worker tests for `close` first and then for the argument `&`. -/
def request (buff : List UInt8) : Request :=
  let parsed := parseClientCommand buff
  if parsed.1 = [99, 108, 111, 115, 101] then .close
  else if parsed.2 = some [38] then .background parsed.1
  else .foreground parsed.1 parsed.2

/-- The command and the argument that are passed to `exec`. -/
structure Image where
  command : List UInt8
  argument : Option (List UInt8)
  deriving DecidableEq

/-- These are the program points of the worker, of its children, and of their children.
`children` and `grandchildren` list the entries of the tables,
and `remaining` those that a loop has not reached. -/
inductive Place where
  | read (requests : List Request) (children : List Nat)
  | waitForeground (pid : Nat) (requests : List Request) (children : List Nat)
  | closeKill (remaining : List Nat)
  | closeWait (child : Nat) (remaining : List Nat)
  | background (command : List UInt8)
  | install (grandchildren : List Nat)
  | waitGrandchild (grandchildren : List Nat)
  | leave (grandchildren : List Nat)
  | handleKill (remaining : List Nat) (interrupted : Place)
  | handleWait (grandchild : Nat) (remaining : List Nat) (interrupted : Place)
  | execute (image : Image)
  | execFailed
  deriving DecidableEq

abbrev Step := Instr Place Image Unit

/-- The table `grand_children` of a process at this place. -/
def Place.grandChildren : Place → List Nat
  | .install grandchildren | .waitGrandchild grandchildren | .leave grandchildren => grandchildren
  | .handleKill _ interrupted | .handleWait _ _ interrupted => interrupted.grandChildren
  | _ => []

/-- This function is `handle_sigterm`: it kills and awaits the processes of its table one after the other. -/
def handleSigterm (interrupted : Place) : List Nat → Step
  | [] => .jump interrupted
  | grandchild :: remaining => .kill grandchild .term (.handleWait grandchild remaining interrupted)

/-- The worker kills and awaits the processes of its table one after the other and ends. -/
def close : List Nat → Step
  | [] => .exit 1
  | child :: remaining => .kill child .term (.closeWait child remaining)

/-- This function is one round of the loop of `service_request`.
The worker ends when the client sends nothing more. -/
def serviceRequest (children : List Nat) : List Request → Step
  | [] => .exit 1
  | .close :: _ => .jump (.closeKill children)
  | .background command :: rest => .fork (.background command) fun pid => .read rest (children ++ [pid])
  | .foreground command argument :: rest =>
      .fork (.execute ⟨command, argument⟩) fun pid => .waitForeground pid rest children

def program : Program Place Image Unit where
  code
    | .read requests children => serviceRequest children requests
    | .waitForeground _ rest children => .wait fun _ => .read rest children
    | .closeKill remaining => close remaining
    | .closeWait child remaining => .waitpid child fun _ => .closeKill remaining
    | .background command => .fork (.execute ⟨command, none⟩) fun pid => .install [pid]
    | .install grandchildren => .signal .term .caught (.waitGrandchild grandchildren)
    | .waitGrandchild grandchildren => .wait fun _ => .leave grandchildren
    | .leave _ => .exit 0
    | .handleKill remaining interrupted => handleSigterm interrupted remaining
    | .handleWait grandchild remaining interrupted => .waitpid grandchild fun _ =>
        .handleKill remaining interrupted
    | .execute image => .exec image .execFailed
    | .execFailed => .exit 1
  handler _ place := .handleKill place.grandChildren place
  blocks
    | .handleKill _ _, signal | .handleWait _ _ _, signal => signal = .term
    | _, _ => false

abbrev State := Config Place Image Unit

/-- A session is what the client sends and `close`. -/
def session (texts : List (List UInt8)) : List Request := (texts ++ [[99, 108, 111, 115, 101]]).map request

/-- The worker has the number one and no children. -/
def start (requests : List Request) : State := .initial (.read requests [])

/-- The requests that the worker serves before it closes. -/
def served : List Request → List Request
  | [] => []
  | .close :: _ => []
  | other :: rest => other :: served rest

def Request.isBackground : Request → Bool
  | .background _ => true
  | _ => false

/-- The number of background commands before the first `close`. -/
def backgrounds (requests : List Request) : Nat := (served requests).countP Request.isBackground

/-- No foreground command is served after a background command. -/
def ForegroundFirst (requests : List Request) : Prop :=
  (served requests).Pairwise fun earlier later => earlier.isBackground = true → later.isBackground = true

/-- The tables `children` or `grand_children` to which a process at this place has just added an entry. -/
def Place.table : Place → List Nat
  | .read _ children | .waitForeground _ _ children => children
  | place => place.grandChildren

/-- Every store was within a table. -/
def InBounds (config : State) : Prop :=
  ∀ pid place, config.status pid = some (.running place) → place.table.length ≤ maxBackgroundCmds

/-- When the worker has ended, every other process has ended. -/
def NothingLeft (config : State) : Prop :=
  (∃ termination, config.status 1 = some (.zombie termination)) → ∀ pid, config.alive pid = false

/-- When the worker reads the next command, every child that is not in the table has ended. -/
def ForegroundDone (config : State) : Prop :=
  ∀ requests children, config.status 1 = some (.running (.read requests children)) →
    ∀ pid, config.parent pid = 1 → pid ∉ children → config.alive pid = false

/-- The `wait` for a foreground command finds no background command that has ended. -/
def Undisturbed (config : State) (move : Move) : Prop :=
  ∀ child, move = .reap 1 child →
    ∀ pid requests children, config.status 1 = some (.running (.waitForeground pid requests children)) →
      child ∉ children

/-- No child gets `SIGTERM` between its `fork` and its call of `signal`. -/
def Installed (config : State) (move : Move) : Prop :=
  ∀ pid, move = .deliver pid .term → ∀ grandchildren, config.status pid ≠ some (.running (.install grandchildren))

/-- The moves of the runs in which the worker leaves nothing behind. -/
def Careful (config : State) (move : Move) : Prop := Undisturbed config move ∧ Installed config move

end OSLabs.Server
