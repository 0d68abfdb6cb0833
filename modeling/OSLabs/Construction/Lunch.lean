/-
This file models the friends of `makeup_solution/lunch.c`.
-/

import OSLabs.Construction.Pthread

namespace OSLabs.Lunch

open Pthread

inductive Mutex where
  | mutex
  deriving DecidableEq

inductive Cond where
  | waiting
  deriving DecidableEq

/-- A printed decision has the number of the group and its size. -/
structure Decision where
  group : Nat
  size : Nat
  deriving DecidableEq

/-- The memory has the two global variables and the printed decisions, newest first. -/
structure Memory where
  groupSize : Nat
  groupNum : Nat
  decisions : List Decision

/-- At the start the first group is empty. -/
def Memory.start : Memory := ⟨0, 1, []⟩

/-- These are the program points of `friend`, in source order.
They carry the local variables `my_size` and `my_group`. -/
inductive Place where
  | lockArrival
  | arrive
  | unlockArrival (size group : Nat)
  | lockDecision (size group : Nat)
  | sizeTest (size group : Nat)
  | announce (size group : Nat)
  | wakeGroup (size group : Nat)
  | nextGroup (size group : Nat)
  | groupTest (size group : Nat)
  | condWait (size group : Nat)
  | leave (size group : Nat)
  | unlockDecision (size group : Nat)
  | done (size group : Nat)
  deriving DecidableEq

/-- This function is `friend`. The variables are used only under `mutex`, so the three statements of the arrival
and the two updates after a decision are one access each. -/
def friend : Place → Instr Memory Place Mutex Cond
  | .lockArrival => .lock .mutex .arrive
  | .arrive => .access fun memory =>
      ({ memory with groupSize := memory.groupSize + 1 }, .unlockArrival (memory.groupSize + 1) memory.groupNum)
  | .unlockArrival size group => .unlock .mutex (.lockDecision size group)
  | .lockDecision size group => .lock .mutex (.sizeTest size group)
  | .sizeTest size group => .access fun memory =>
      (memory, if size = memory.groupSize then .announce size group else .groupTest size group)
  | .announce size group => .access fun memory =>
      ({ memory with decisions := ⟨group, size⟩ :: memory.decisions }, .wakeGroup size group)
  | .wakeGroup size group => .broadcast .waiting (.nextGroup size group)
  | .nextGroup size group => .access fun memory =>
      ({ memory with groupSize := 0, groupNum := memory.groupNum + 1 }, .leave size group)
  | .groupTest size group => .access fun memory =>
      (memory, if memory.groupNum = group then .condWait size group else .leave size group)
  | .condWait size group => .wait .waiting .mutex (.groupTest size group)
  | .leave size group => .access fun memory => (memory, .unlockDecision size group)
  | .unlockDecision size group => .unlock .mutex (.done size group)
  | .done _ _ => .exit

section
variable {T : Type}

/-- A configuration of the friends. -/
abbrev State (T : Type) := Config T Memory Place Mutex Cond

def code (_ : T) : Place → Instr Memory Place Mutex Cond := friend

/-- At the start every friend arrives. -/
def start : State T := Config.initial .start fun _ => .lockArrival

namespace Place

/-- The local variable `my_group` of a friend that has arrived. -/
def myGroup : Place → Option Nat
  | .lockArrival | .arrive => none
  | .unlockArrival _ group | .lockDecision _ group | .sizeTest _ group | .announce _ group | .wakeGroup _ group
  | .nextGroup _ group | .groupTest _ group | .condWait _ group | .leave _ group | .unlockDecision _ group
  | .done _ group => some group

/-- The friend is about to test its size, which is the size of the current group,
but its own group is another one. -/
def meetsOther (memory : Memory) : Place → Bool
  | .sizeTest size group => size = memory.groupSize && group ≠ memory.groupNum
  | _ => false

/-- The friend leaves or has left. -/
def leaves : Place → Bool
  | .leave _ _ | .unlockDecision _ _ | .done _ _ => true
  | _ => false

end Place

/-- The number of times that the group was decided. -/
def decided (memory : Memory) (group : Nat) : Nat := memory.decisions.countP fun decision => decision.group = group

/-- The number of friends whose `my_group` is this group. -/
def members [Fintype T] (config : State T) (group : Nat) : Nat :=
  config.number fun _ place => place.myGroup = some group

/-- No friend that is about to test its size meets the size of a group that is not its own. -/
def OwnGroup (config : State T) (t : T) : Prop := (config.status t).runs (Place.meetsOther config.memory) = false

instance (config : State T) (t : T) : Decidable (OwnGroup config t) := inferInstanceAs (Decidable (_ = false))

end

end OSLabs.Lunch
