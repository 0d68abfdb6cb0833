/-
This file models the customers of `condvar_basics/rooms.c`.
-/

import OSLabs.Construction.Pthread

namespace OSLabs.Rooms

open Pthread

def firstRoomCapacity : Int := 5

def secondRoomCapacity : Int := 2

def waitingRoomCapacity : Int := 2

/-- A customer enters a room and leaves it under different mutexes. -/
inductive Mutex where
  | firstLock
  | secondLock
  | firstLeftLock
  | secondLeftLock
  deriving DecidableEq

inductive Cond where
  | firstRoom
  | secondRoom
  deriving DecidableEq

/-- These are the four global counters. -/
structure Memory where
  numLeftCustomers : Int
  numFirstRoom : Int
  numSecondWaiting : Int
  numSecondRoom : Int
  deriving DecidableEq

/-- At the start the rooms are empty. -/
def Memory.start : Memory := ⟨0, 0, 0, 0⟩

/-- These are the program points of `customer` at the first room, in source order.
The places of the writes carry the values that `++` and `--` have read. -/
inductive FirstPlace where
  | lockFirst
  | enterRead
  | enterWrite (value : Int)
  | fullTest
  | condWait
  | unlockFirst
  | lockLeft
  | leaveRead
  | leaveWrite (value : Int)
  | signalFirst
  | unlockLeft
  deriving DecidableEq

/-- These are the program points of `customer` at the second room, in source order.
The first condition has one place for each of its two comparisons. -/
inductive SecondPlace where
  | lockSecond
  | fullTest
  | roomTest
  | joinRead
  | joinWrite (value : Int)
  | waitTest
  | condWait
  | enterRead
  | enterWrite (value : Int)
  | freeTest
  | directRead
  | directWrite (value : Int)
  | turnAway
  | unlockAway
  | unlockSecond
  | lockLeft
  | leaveRead
  | leaveWrite (value : Int)
  | signalSecond
  | dropRead
  | dropWrite (value : Int)
  | unlockLeft
  deriving DecidableEq

/-- A customer is at a room, has left unhappy, or is done. -/
inductive Place where
  | first (place : FirstPlace)
  | second (place : SecondPlace)
  | leftUnhappy
  | done
  deriving DecidableEq

/-- This function is `customer` at the first room. -/
def firstRoom : FirstPlace → Instr Memory Place Mutex Cond
  | .lockFirst => .lock .firstLock (.first .enterRead)
  | .enterRead => .access fun memory => (memory, .first (.enterWrite memory.numFirstRoom))
  | .enterWrite value => .access fun memory => ({ memory with numFirstRoom := value + 1 }, .first .fullTest)
  | .fullTest => .access fun memory =>
      (memory, .first (if memory.numFirstRoom > firstRoomCapacity then .condWait else .unlockFirst))
  | .condWait => .wait .firstRoom .firstLock (.first .fullTest)
  | .unlockFirst => .unlock .firstLock (.first .lockLeft)
  | .lockLeft => .lock .firstLeftLock (.first .leaveRead)
  | .leaveRead => .access fun memory => (memory, .first (.leaveWrite memory.numFirstRoom))
  | .leaveWrite value => .access fun memory => ({ memory with numFirstRoom := value - 1 }, .first .signalFirst)
  | .signalFirst => .signal .firstRoom (.first .unlockLeft)
  | .unlockLeft => .unlock .firstLeftLock (.second .lockSecond)

/-- This function is `customer` at the second room.
Only `turnAway` uses `num_left_customers`, and it does so under `secondLock`, so it is one access. -/
def secondRoom : SecondPlace → Instr Memory Place Mutex Cond
  | .lockSecond => .lock .secondLock (.second .fullTest)
  | .fullTest => .access fun memory =>
      (memory, .second (if memory.numSecondRoom = secondRoomCapacity then .roomTest else .freeTest))
  | .roomTest => .access fun memory =>
      (memory, .second (if memory.numSecondWaiting < waitingRoomCapacity then .joinRead else .freeTest))
  | .joinRead => .access fun memory => (memory, .second (.joinWrite memory.numSecondWaiting))
  | .joinWrite value => .access fun memory => ({ memory with numSecondWaiting := value + 1 }, .second .waitTest)
  | .waitTest => .access fun memory =>
      (memory, .second (if memory.numSecondRoom = secondRoomCapacity then .condWait else .enterRead))
  | .condWait => .wait .secondRoom .secondLock (.second .waitTest)
  | .enterRead => .access fun memory => (memory, .second (.enterWrite memory.numSecondRoom))
  | .enterWrite value => .access fun memory => ({ memory with numSecondRoom := value + 1 }, .second .unlockSecond)
  | .freeTest => .access fun memory =>
      (memory, .second (if memory.numSecondRoom < secondRoomCapacity then .directRead else .turnAway))
  | .directRead => .access fun memory => (memory, .second (.directWrite memory.numSecondRoom))
  | .directWrite value => .access fun memory => ({ memory with numSecondRoom := value + 1 }, .second .unlockSecond)
  | .turnAway => .access fun memory =>
      ({ memory with numLeftCustomers := memory.numLeftCustomers + 1 }, .second .unlockAway)
  | .unlockAway => .unlock .secondLock .leftUnhappy
  | .unlockSecond => .unlock .secondLock (.second .lockLeft)
  | .lockLeft => .lock .secondLeftLock (.second .leaveRead)
  | .leaveRead => .access fun memory => (memory, .second (.leaveWrite memory.numSecondRoom))
  | .leaveWrite value => .access fun memory => ({ memory with numSecondRoom := value - 1 }, .second .signalSecond)
  | .signalSecond => .signal .secondRoom (.second .dropRead)
  | .dropRead => .access fun memory => (memory, .second (.dropWrite memory.numSecondWaiting))
  | .dropWrite value => .access fun memory => ({ memory with numSecondWaiting := value - 1 }, .second .unlockLeft)
  | .unlockLeft => .unlock .secondLeftLock .done

/-- This function is `customer`. -/
def customer : Place → Instr Memory Place Mutex Cond
  | .first place => firstRoom place
  | .second place => secondRoom place
  | .leftUnhappy | .done => .exit

section
variable {T : Type}

/-- A configuration of the customers. -/
abbrev State (T : Type) := Config T Memory Place Mutex Cond

def code (_ : T) : Place → Instr Memory Place Mutex Cond := customer

/-- At the start each customer arrives at the first room. -/
def start : State T := Config.initial .start fun _ => .first .lockFirst

namespace Place

/-- The customer is in a section that a mutex protects. -/
def inSection : Place → Bool
  | .first .lockFirst | .first .lockLeft | .second .lockSecond | .second .lockLeft | .leftUnhappy | .done => false
  | _ => true

/-- The customer has joined the waiting room of the second room and not yet entered the second room. -/
def waits : Place → Bool
  | .second .waitTest | .second .condWait | .second .enterRead | .second (.enterWrite _) => true
  | _ => false

/-- The customer has entered the second room and not yet left it. -/
def inRoom : Place → Bool
  | .second .unlockSecond | .second .lockLeft | .second .leaveRead | .second (.leaveWrite _) => true
  | _ => false

/-- The customer has left the second room and not yet lowered `num_secondWaiting`. -/
def leaves : Place → Bool
  | .second .signalSecond | .second .dropRead | .second (.dropWrite _) => true
  | _ => false

/-- The customer is counted in `num_left_customers`. -/
def turnedAway : Place → Bool
  | .second .unlockAway | .leftUnhappy => true
  | _ => false

/-- The customer is about to compare `num_secondWaiting` with the capacity. -/
def isRoomTest : Place → Bool
  | .second .roomTest => true
  | _ => false

/-- The customer is about to enter the second room from the waiting room. -/
def isEnterWrite : Place → Bool
  | .second (.enterWrite _) => true
  | _ => false

/-- The customer is about to lower `num_secondWaiting`. -/
def isDropWrite : Place → Bool
  | .second (.dropWrite _) => true
  | _ => false

/-- The value that the customer has read for its write of `num_secondRoom`. -/
def pendingRoom : Place → Option Int
  | .second (.enterWrite value) | .second (.directWrite value) | .second (.leaveWrite value) => some value
  | _ => none

/-- The value that the customer has read for its write of `num_secondWaiting`. -/
def pendingWaiting : Place → Option Int
  | .second (.joinWrite value) | .second (.dropWrite value) => some value
  | _ => none

end Place

/-- A customer lowers `num_secondWaiting` only in exchange for a customer that has entered from the waiting room,
no write of `num_secondRoom` or `num_secondWaiting` is lost, and a customer compares `num_secondWaiting` only
while nobody is between leaving the second room and lowering it. -/
structure Handover (history : History T Memory Place Mutex Cond) (config : State T) (t : T) : Prop where
  exchange : (config.status t).runs Place.isDropWrite = true →
    executed Place.isDropWrite history < executed Place.isEnterWrite history
  room : (config.status t).runs (fun place => place.pendingRoom.isSome) = true →
    ∀ other, other ≠ t → (config.status other).place.pendingRoom = none
  waiting : (config.status t).runs (fun place => place.pendingWaiting.isSome) = true →
    ∀ other, other ≠ t → (config.status other).place.pendingWaiting = none
  test : (config.status t).runs Place.isRoomTest = true → ∀ other, (config.status other).place.leaves = false

instance [Fintype T] [DecidableEq T] (history : History T Memory Place Mutex Cond) (config : State T) (t : T) :
    Decidable (Handover history config t) :=
  decidable_of_iff (_ ∧ _ ∧ _ ∧ _)
    ⟨fun ⟨exchange, room, waiting, test⟩ => ⟨exchange, room, waiting, test⟩,
      fun handover => ⟨handover.exchange, handover.room, handover.waiting, handover.test⟩⟩

/-- The accounting of the waiting room of the second room. -/
structure Accounted [Fintype T] (history : History T Memory Place Mutex Cond) (config : State T) : Prop where
  waiting : (∀ t, (config.status t).runs Place.inSection = false) →
    config.memory.numSecondWaiting = config.number fun _ => Place.waits
  nonneg : 0 ≤ config.memory.numSecondWaiting
  capacity : config.number (fun _ => Place.waits) ≤ waitingRoomCapacity
  counted : config.memory.numLeftCustomers = config.number fun _ => Place.turnedAway
  turned : ∀ t, (config.status t).place.turnedAway = true → ∃ test : State T, (test, t) ∈ history ∧
    test.status t = .ready (.second .freeTest) ∧ test.number (fun _ => Place.inRoom) = secondRoomCapacity ∧
    test.number (fun _ => Place.waits) = waitingRoomCapacity

end

end OSLabs.Rooms
