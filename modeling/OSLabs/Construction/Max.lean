/-
This file models the threads of `condvar_basics/max.c`.
-/

import OSLabs.Construction.Pthread

namespace OSLabs.Max

open Pthread

/-- `brickWall` uses `lock` and `freeThread` uses `lock2`. -/
inductive Mutex where
  | lock
  | lock2
  deriving DecidableEq

inductive Cond where
  | bullDoze
  deriving DecidableEq

/-- The memory has the one global counter. -/
structure Memory where
  numberAtWall : Int

/-- These are the program points of `brickWall`, in source order.
The place of the write carries the value that `numberAtWall++` has read. -/
inductive WallPlace where
  | lockWall
  | enterRead
  | enterWrite (value : Int)
  | wallTest
  | condWait
  | unlockWall
  deriving DecidableEq

/-- These are the program points of `freeThread`, in source order.
The place of the write carries the value that `numberAtWall--` has read. -/
inductive FreePlace where
  | lockFree
  | signalWall
  | leaveRead
  | leaveWrite (value : Int)
  | unlockFree
  deriving DecidableEq

/-- A thread is in `brickWall`, in the critical section, in `freeThread`, or has returned. -/
inductive Place where
  | wall (place : WallPlace)
  | critical
  | free (place : FreePlace)
  | done
  deriving DecidableEq

/-- This function is `brickWall`. -/
def brickWall : WallPlace → Instr Memory Place Mutex Cond
  | .lockWall => .lock .lock (.wall .enterRead)
  | .enterRead => .access fun memory => (memory, .wall (.enterWrite memory.numberAtWall))
  | .enterWrite value => .access fun _ => (⟨value + 1⟩, .wall .wallTest)
  | .wallTest => .access fun memory => (memory, .wall (if memory.numberAtWall > 3 then .condWait else .unlockWall))
  | .condWait => .wait .bullDoze .lock (.wall .wallTest)
  | .unlockWall => .unlock .lock .critical

/-- This function is `freeThread`. -/
def freeThread : FreePlace → Instr Memory Place Mutex Cond
  | .lockFree => .lock .lock2 (.free .signalWall)
  | .signalWall => .signal .bullDoze (.free .leaveRead)
  | .leaveRead => .access fun memory => (memory, .free (.leaveWrite memory.numberAtWall))
  | .leaveWrite value => .access fun _ => (⟨value - 1⟩, .free .unlockFree)
  | .unlockFree => .unlock .lock2 .done

/-- This function is `thread`. -/
def thread : Place → Instr Memory Place Mutex Cond
  | .wall place => brickWall place
  | .critical => .access fun memory => (memory, .free .lockFree)
  | .free place => freeThread place
  | .done => .exit

section
variable {T : Type}

/-- A configuration of the threads. -/
abbrev State (T : Type) := Config T Memory Place Mutex Cond

def code (_ : T) : Place → Instr Memory Place Mutex Cond := thread

/-- At the start nobody is at the wall. -/
def start : State T := Config.initial ⟨0⟩ fun _ => .wall .lockWall

namespace Place

/-- The thread has returned from `brickWall` and not yet called `freeThread`. -/
def inside : Place → Bool
  | .critical => true
  | _ => false

/-- The thread is in the body of `brickWall` or of `freeThread`. -/
def inBody : Place → Bool
  | .wall .lockWall | .critical | .free .lockFree | .done => false
  | _ => true

/-- The thread is at the write of `numberAtWall++`. -/
def isEnterWrite : Place → Bool
  | .wall (.enterWrite _) => true
  | _ => false

/-- The thread is at the write of `numberAtWall--`. -/
def isLeaveWrite : Place → Bool
  | .free (.leaveWrite _) => true
  | _ => false

end Place

/-- No thread writes its increment while another thread is between the read and the write of its decrement. -/
def NoLostIncrement (config : State T) (t : T) : Prop :=
  (config.status t).runs Place.isEnterWrite = true → ∀ other, (config.status other).place.isLeaveWrite = false

instance [Fintype T] (config : State T) (t : T) : Decidable (NoLostIncrement config t) :=
  inferInstanceAs (Decidable (_ → _))

/-- The bodies of `brickWall` and of `freeThread` are atomic, apart from the wait:
a thread moves only while no other thread runs inside a body. -/
def AtomicBodies (config : State T) (t : T) : Prop :=
  ∀ other, other ≠ t → (config.status other).runs Place.inBody = false

instance [Fintype T] [DecidableEq T] (config : State T) (t : T) : Decidable (AtomicBodies config t) :=
  inferInstanceAs (Decidable (∀ _, _ → _))

end

end OSLabs.Max
