/-
This file models the friends of `condvar_challenge/band.c`.
-/

import OSLabs.Construction.Pthread

namespace OSLabs.Band

open Pthread

/-- `bandCheckIn` uses `lock` and `bandCheckOut` uses `lock2`. No function uses `lock3`. -/
inductive Mutex where
  | lock
  | lock2
  deriving DecidableEq

inductive Cond where
  | stageManager
  | doorManager
  deriving DecidableEq

/-- There are three kinds of friends, which the source numbers from 0 to 2. -/
inductive Kind where
  | drum
  | sing
  | guit
  deriving DecidableEq

instance : Fintype Kind := ⟨{.drum, .sing, .guit}, by intro kind; cases kind <;> simp⟩

/-- The memory has the array `band` and the counter `onStage`. -/
structure Memory where
  band : Kind → Int
  onStage : Int

/-- At the start no slot is taken. -/
def Memory.start : Memory := ⟨fun _ => 0, 0⟩

def Memory.setBand (memory : Memory) (kind : Kind) (value : Int) : Memory :=
  { memory with band := Function.update memory.band kind value }

/-- These are the program points of `bandCheckIn`, in source order.
They carry the number of outer calls that wait for the present recursive call,
and `stageWrite` also carries the value that `++` has read. -/
inductive CheckIn where
  | lockIn (frames : Nat)
  | slotTest (frames : Nat)
  | doorTest (frames : Nat)
  | doorWait (frames : Nat)
  | unlockDoor (frames : Nat)
  | takeSlot (frames : Nat)
  | stageRead (frames : Nat)
  | stageWrite (frames : Nat) (value : Int)
  | fullTest (frames : Nat)
  | wakeStage (frames : Nat)
  | unlockFull (frames : Nat)
  | stageTest (frames : Nat)
  | stageWait (frames : Nat)
  | unlockIn (frames : Nat)
  | unlockAgain (frames : Nat)
  deriving DecidableEq

/-- These are the program points of `bandCheckOut`, in source order.
The place `leaveWrite` carries the value that `--` has read. -/
inductive CheckOut where
  | lockOut
  | outTest
  | freeSlot
  | leaveRead
  | leaveWrite (value : Int)
  | emptyTest
  | wakeDoor
  | unlockOut
  deriving DecidableEq

/-- These are the program points of `friend`.
A friend prints that it plays at `play` and that it has finished at `playing`. -/
inductive Place where
  | checkIn (place : CheckIn)
  | play
  | playing
  | checkOut (place : CheckOut)
  | done
  deriving DecidableEq

/-- A recursive call of `bandCheckIn` returns to the last unlock of its caller. -/
def returned : Nat → Place
  | 0 => .play
  | frames + 1 => .checkIn (.unlockAgain frames)

/-- This function is `bandCheckIn`. -/
def bandCheckIn (member : Kind) : CheckIn → Instr Memory Place Mutex Cond
  | .lockIn frames => .lock .lock (.checkIn (.slotTest frames))
  | .slotTest frames => .access fun memory =>
      (memory, if memory.band member = 1 then .checkIn (.doorTest frames) else .checkIn (.takeSlot frames))
  | .doorTest frames => .access fun memory =>
      (memory, if memory.band member = 1 then .checkIn (.doorWait frames) else .checkIn (.unlockDoor frames))
  | .doorWait frames => .wait .doorManager .lock (.checkIn (.doorTest frames))
  | .unlockDoor frames => .unlock .lock (.checkIn (.lockIn (frames + 1)))
  | .takeSlot frames => .access fun memory => (memory.setBand member 1, .checkIn (.stageRead frames))
  | .stageRead frames => .access fun memory => (memory, .checkIn (.stageWrite frames memory.onStage))
  | .stageWrite frames value => .access fun memory =>
      ({ memory with onStage := value + 1 }, .checkIn (.fullTest frames))
  | .fullTest frames => .access fun memory =>
      (memory, if memory.onStage = 3 then .checkIn (.wakeStage frames) else .checkIn (.stageTest frames))
  | .wakeStage frames => .broadcast .stageManager (.checkIn (.unlockFull frames))
  | .unlockFull frames => .unlock .lock (returned frames)
  | .stageTest frames => .access fun memory =>
      (memory, if memory.onStage < 3 then .checkIn (.stageWait frames) else .checkIn (.unlockIn frames))
  | .stageWait frames => .wait .stageManager .lock (.checkIn (.stageTest frames))
  | .unlockIn frames => .unlock .lock (returned frames)
  | .unlockAgain frames => .unlock .lock (returned frames)

/-- This function is `bandCheckOut`. -/
def bandCheckOut (member : Kind) : CheckOut → Instr Memory Place Mutex Cond
  | .lockOut => .lock .lock2 (.checkOut .outTest)
  | .outTest => .access fun memory =>
      (memory, if memory.band member = 1 then .checkOut .freeSlot else .checkOut .emptyTest)
  | .freeSlot => .access fun memory => (memory.setBand member 0, .checkOut .leaveRead)
  | .leaveRead => .access fun memory => (memory, .checkOut (.leaveWrite memory.onStage))
  | .leaveWrite value => .access fun memory => ({ memory with onStage := value - 1 }, .checkOut .emptyTest)
  | .emptyTest => .access fun memory =>
      (memory, if memory.onStage = 0 then .checkOut .wakeDoor else .checkOut .unlockOut)
  | .wakeDoor => .broadcast .doorManager (.checkOut .unlockOut)
  | .unlockOut => .unlock .lock2 .done

/-- This function is `friend`. -/
def friend (kind : Kind) : Place → Instr Memory Place Mutex Cond
  | .checkIn place => bandCheckIn kind place
  | .play => .access fun memory => (memory, .playing)
  | .playing => .access fun memory => (memory, .checkOut .lockOut)
  | .checkOut place => bandCheckOut kind place
  | .done => .exit

section
variable {T : Type}

/-- A configuration of the friends. -/
abbrev State (T : Type) := Config T Memory Place Mutex Cond

/-- Each friend runs `friend` with its own kind. -/
def code (kind : T → Kind) (t : T) : Place → Instr Memory Place Mutex Cond := friend (kind t)

/-- At the start every friend arrives. -/
def start : State T := Config.initial .start fun _ => .checkIn (.lockIn 0)

namespace Place

/-- The friend has set the slot of its kind and not yet cleared it. -/
def inSlot : Place → Bool
  | .checkIn (.stageRead _) | .checkIn (.stageWrite _ _) | .checkIn (.fullTest _) | .checkIn (.wakeStage _)
  | .checkIn (.unlockFull _) | .checkIn (.stageTest _) | .checkIn (.stageWait _) | .checkIn (.unlockIn _)
  | .checkIn (.unlockAgain _) | .play | .playing | .checkOut .lockOut | .checkOut .outTest
  | .checkOut .freeSlot => true
  | _ => false

/-- The friend has executed its update of `bandCheckOut`. -/
def checkedOut : Place → Bool
  | .checkOut .emptyTest | .checkOut .wakeDoor | .checkOut .unlockOut | .done => true
  | _ => false

/-- The friend tests whether its arrival completes the band. -/
def isFullTest : Place → Bool
  | .checkIn (.fullTest _) => true
  | _ => false

end Place

/-- The friend has printed that it plays and not yet that it has finished. -/
def Playing (config : State T) (t : T) : Prop := config.status t = .ready .playing

/-- The friend holds a slot. In a configuration that admits a band, the members of the band are these friends. -/
def Member (config : State T) (t : T) : Prop := (config.status t).place.inSlot = true

/-- The next step of the friend admits a band: the friend finds that three friends are on stage. -/
def Admits (config : State T) (t : T) : Prop :=
  (config.status t).runs Place.isFullTest = true ∧ config.memory.onStage = 3

/-- The friend has executed its update of `bandCheckOut`. -/
def CheckedOut (config : State T) (t : T) : Prop := (config.status t).place.checkedOut = true

instance (config : State T) (t : T) : Decidable (Member config t) := inferInstanceAs (Decidable (_ = true))

instance (config : State T) (t : T) : Decidable (Admits config t) := inferInstanceAs (Decidable (_ ∧ _))

instance (config : State T) (t : T) : Decidable (CheckedOut config t) := inferInstanceAs (Decidable (_ = true))

/-- The configurations of a run that admitted a band. -/
def bands (history : History T Memory Place Mutex Cond) : List (State T) :=
  (history.filter fun entry => Admits entry.1 entry.2).map Prod.fst

end

end OSLabs.Band
