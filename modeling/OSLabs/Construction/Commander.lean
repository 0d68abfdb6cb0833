/-
This file models the units of `exam1/problem2/problem2.c`.
-/

import OSLabs.Construction.Process

namespace OSLabs.Commander

open Transition Process

/-- These are the commands that spawn a unit or fire at the process with a number. -/
inductive Command where
  | infantry
  | cavalry
  | armored
  | fire (pid : Nat)
  deriving DecidableEq

inductive Kind where
  | infantry
  | cavalry
  | armored
  deriving DecidableEq

/-- These are the program points of the commander shell and of its units.
A place carries the variable `hit_count` of its process. -/
inductive Place where
  | prompt (hitCount : Nat) (commands : List Command)
  | shellSignal (kind : Kind) (hitCount : Nat) (commands : List Command)
  | unitSignal (kind : Kind) (hitCount : Nat)
  | report (kind : Kind) (hitCount : Nat)
  | hold (kind : Kind) (hitCount : Nat)
  | leave
  | handleKill (interrupted : Place)
  deriving DecidableEq

/-- The instructions of the commander print only that a unit is ready. -/
abbrev Step := Instr Place Unit Kind

/-- What the function of this kind passes to `signal` for `SIGKILL`. -/
def Kind.disposition : Kind → Disposition
  | .infantry => .default
  | .cavalry => .caught
  | .armored => .default

/-- A function that spawns a unit calls `fork`, and both processes call `signal`. -/
def spawnUnit (kind : Kind) (hitCount : Nat) (commands : List Command) : Step :=
  .fork (.unitSignal kind hitCount) fun _ => .shellSignal kind hitCount commands

def infantry : Nat → List Command → Step := spawnUnit .infantry

def cavalry : Nat → List Command → Step := spawnUnit .cavalry

def armored : Nat → List Command → Step := spawnUnit .armored

/-- This function is `fire`. -/
def fire (pid hitCount : Nat) (commands : List Command) : Step := .kill pid .kill (.prompt hitCount commands)

/-- A unit loops forever, and a cavalry unit polls its `hit_count`. -/
def hold : Kind → Nat → Step
  | .cavalry, hitCount => .jump (if hitCount > 3 then .leave else .hold .cavalry hitCount)
  | kind, hitCount => .jump (.hold kind hitCount)

/-- This function is `handle_kill`: it increments `hit_count` and returns. -/
def Place.hit : Place → Place
  | .prompt hitCount commands => .prompt (hitCount + 1) commands
  | .shellSignal kind hitCount commands => .shellSignal kind (hitCount + 1) commands
  | .unitSignal kind hitCount => .unitSignal kind (hitCount + 1)
  | .report kind hitCount => .report kind (hitCount + 1)
  | .hold kind hitCount => .hold kind (hitCount + 1)
  | .leave => .leave
  | .handleKill interrupted => .handleKill interrupted.hit

def program : Program Place Unit Kind where
  code
    | .prompt _ [] => .exit 0
    | .prompt hitCount (.infantry :: rest) => infantry hitCount rest
    | .prompt hitCount (.cavalry :: rest) => cavalry hitCount rest
    | .prompt hitCount (.armored :: rest) => armored hitCount rest
    | .prompt hitCount (.fire pid :: rest) => fire pid hitCount rest
    | .shellSignal kind hitCount rest => .signal .kill kind.disposition (.prompt hitCount rest)
    | .unitSignal kind hitCount => .signal .kill kind.disposition (.report kind hitCount)
    | .report kind hitCount => .print kind (.hold kind hitCount)
    | .hold kind hitCount => hold kind hitCount
    | .leave => .exit 1
    | .handleKill interrupted => .jump interrupted.hit
  handler _ := .handleKill
  blocks
    | .handleKill _, signal => signal = .kill
    | _, _ => false

/-- The commander shell has the number one. -/
def start (commands : List Command) : Config Place Unit Kind := .initial (.prompt 0 commands)

/-- No sent signal is still to be delivered. -/
def Delivered (config : Config Place Unit Kind) : Prop := ∀ pid < config.fresh, config.pending pid = []

instance (config : Config Place Unit Kind) : Decidable (Delivered config) :=
  inferInstanceAs (Decidable (∀ pid < config.fresh, config.pending pid = []))

/-- Every sent signal is delivered before the shell goes on. -/
def Prompt (config : Config Place Unit Kind) (move : Move) : Prop := move = .run 1 → Delivered config

instance (config : Config Place Unit Kind) (move : Move) : Decidable (Prompt config move) :=
  inferInstanceAs (Decidable (_ → _))

def Command.kind : Command → Option Kind
  | .infantry => some .infantry
  | .cavalry => some .cavalry
  | .armored => some .armored
  | .fire _ => none

/-- The kinds of the units in the order in which they are spawned.
Unit `k` is the process with the number `k + 2`. -/
def kinds (commands : List Command) : List Kind := commands.filterMap Command.kind

/-- The number of hits of unit `k`. -/
def hits (commands : List Command) (k : Nat) : Nat := commands.count (.fire (k + 2))

/-- Every `fire` names one of the units that have been spawned before. -/
def named (spawned : Nat) : List Command → Bool
  | [] => true
  | .fire pid :: rest => 2 ≤ pid && pid < spawned + 2 && named spawned rest
  | _ :: rest => named (spawned + 1) rest

/-- All commands have been carried out. -/
def Over (config : Config Place Unit Kind) : Prop :=
  (∃ hitCount, config.status 1 = some (.running (.prompt hitCount []))) ∧ Delivered config

/-- The unit with this number has died. -/
def Dead (config : Config Place Unit Kind) (k : Nat) : Prop :=
  ∃ termination, config.status (k + 2) = some (.zombie termination)

/-- What a unit of this kind withstands. -/
def UnitRight (config : Config Place Unit Kind) (k hits : Nat) : Kind → Prop
  | .infantry => Dead config k ↔ 1 ≤ hits
  | .cavalry => (hits < 3 → ¬ Dead config k) ∧ (3 ≤ hits → Dead config k)
  | .armored => ¬ Dead config k

/-- Every unit withstands what its kind withstands. -/
def UnitsRight (commands : List Command) (config : Config Place Unit Kind) : Prop :=
  ∀ k kind, (kinds commands)[k]? = some kind → UnitRight config k (hits commands k) kind

end OSLabs.Commander
