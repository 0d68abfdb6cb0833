/-
This file models the cars of `exam2/problem4/big_little_car.c`.
-/

import OSLabs.Construction.Pthread
import Mathlib.Algebra.BigOperators.Group.Finset.Basic

namespace OSLabs.BigLittleCar

open Pthread

/-- Big cars use `lock` and little cars use `lock2`. -/
inductive Mutex where
  | lock
  | lock2
  deriving DecidableEq

/-- The only condition variable is `waitYOURTURN`. -/
inductive Cond where
  | waitYOURTURN
  deriving DecidableEq

def maxWeight : Int := 2

def smallCar : Int := 1

def bigCar : Int := 2

/-- The memory has the only global variable that a car writes. -/
structure Memory where
  currentWeight : Int
  deriving DecidableEq

/-- These are the program points of a car, in source order.
An update of `currentWeight` reads the variable and then writes it, and carries the value in between. -/
inductive Place where
  | lockEntry
  | firstTest
  | waitTest
  | condWait
  | addRead
  | addWrite (value : Int)
  | printStarting
  | unlockEntry
  | lockExit
  | subtractRead
  | subtractWrite (value : Int)
  | wakeCars
  | unlockExit
  | done
  deriving DecidableEq

/-- This function is the common body of `bigcar` and `littlecar`.
The two copies of the addition in the source continue at the same line. -/
def car (mutex : Mutex) (first : Int → Bool) (weight : Int) : Place → Instr Memory Place Mutex Cond
  | .lockEntry => .lock mutex .firstTest
  | .firstTest => .access fun memory =>
      (memory, if first memory.currentWeight then .addRead else .waitTest)
  | .waitTest => .access fun memory =>
      (memory, if memory.currentWeight + weight > maxWeight then .condWait else .addRead)
  | .condWait => .wait .waitYOURTURN mutex .waitTest
  | .addRead => .access fun memory => (memory, .addWrite memory.currentWeight)
  | .addWrite value => .access fun _ => (⟨value + weight⟩, .printStarting)
  | .printStarting => .access fun memory => (memory, .unlockEntry)
  | .unlockEntry => .unlock mutex .lockExit
  | .lockExit => .lock mutex .subtractRead
  | .subtractRead => .access fun memory => (memory, .subtractWrite memory.currentWeight)
  | .subtractWrite value => .access fun _ => (⟨value - weight⟩, .wakeCars)
  | .wakeCars => .broadcast .waitYOURTURN .unlockExit
  | .unlockExit => .unlock mutex .done
  | .done => .exit

/-- This function is `bigcar`. -/
def bigcar : Place → Instr Memory Place Mutex Cond :=
  car .lock (fun currentWeight => currentWeight = 0) bigCar

/-- This function is `littlecar`. -/
def littlecar : Place → Instr Memory Place Mutex Cond :=
  car .lock2 (fun currentWeight => currentWeight < maxWeight) smallCar

/-- There are two kinds of cars. -/
inductive Kind where
  | big
  | little
  deriving DecidableEq

/-- The weight of a car of this kind. -/
def Kind.weight : Kind → Int
  | .big => bigCar
  | .little => smallCar

section
variable {T : Type}

/-- A configuration of the cars. -/
abbrev State (T : Type) := Config T Memory Place Mutex Cond

/-- Each car runs the function of its kind. -/
def code (kind : T → Kind) (t : T) : Place → Instr Memory Place Mutex Cond :=
  match kind t with
  | .big => bigcar
  | .little => littlecar

/-- At the start the bridge is empty and every car is before its first lock. -/
def start : State T := Config.initial ⟨0⟩ fun _ => .lockEntry

/-- The car has printed that it starts the bridge and has not yet subtracted its weight. -/
def Place.onBridge : Place → Bool
  | .unlockEntry | .lockExit | .subtractRead | .subtractWrite _ => true
  | _ => false

/-- The load of the bridge is the weight of all cars on it. -/
def load [Fintype T] (kind : T → Kind) (config : State T) : Int :=
  ∑ t, if (config.status t).place.onBridge then (kind t).weight else 0

/-- No car is inside a section that a mutex protects. -/
def Unlocked (config : State T) : Prop := ∀ mutex, config.owner mutex = none

end

end OSLabs.BigLittleCar
