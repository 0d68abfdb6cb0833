/-
This file models the hen and the animals of `condvar_challenge/littleredhen.c`.
-/

import OSLabs.Construction.Pthread
import Mathlib.Algebra.BigOperators.Group.Finset.Basic
import Mathlib.Data.Fintype.Option

namespace OSLabs.LittleRedHen

open Pthread

/-- The hen uses `lock` and the animals use `lock2`. No thread uses `lock3`. -/
inductive Mutex where
  | lock
  | lock2
  deriving DecidableEq

inductive Cond where
  | bakingBread
  | eatingBread
  | stayOut
  deriving DecidableEq

/-- The memory has the three global counters. -/
structure Memory where
  numLoaves : Int
  animalInKitchen : Int
  eating : Int
  deriving DecidableEq

/-- These are the program points of `littleRedHenThread`, in source order.
They carry the local variable `batch`, and `bakeWrite` also carries the value that `+=` has read. -/
inductive HenPlace where
  | lockHen
  | loopTest (batch : Nat)
  | bakeRead (batch : Nat)
  | bakeWrite (batch : Nat) (value : Int)
  | signalEating (batch : Nat)
  | lastTest (batch : Nat)
  | waitTest (batch : Nat)
  | condWait (batch : Nat)
  | unlockHen (batch : Nat)
  | done (batch : Nat)
  deriving DecidableEq

/-- This function is `littleRedHenThread`, where the source has six batches of seven loaves.
The place after the loop keeps the number of baked batches. -/
def littleRedHenThread (batches loaves : Nat) : HenPlace → Instr Memory HenPlace Mutex Cond
  | .lockHen => .lock .lock (.loopTest 1)
  | .loopTest batch => .access fun memory =>
      (memory, if batch ≤ batches then .bakeRead batch else .unlockHen (batch - 1))
  | .bakeRead batch => .access fun memory => (memory, .bakeWrite batch memory.numLoaves)
  | .bakeWrite batch value => .access fun memory =>
      ({ memory with numLoaves := value + loaves }, .signalEating batch)
  | .signalEating batch => .signal .eatingBread (.lastTest batch)
  | .lastTest batch => .access fun memory =>
      (memory, if batch = batches then .unlockHen batch else .waitTest batch)
  | .waitTest batch => .access fun memory =>
      (memory, if memory.numLoaves > 0 then .condWait batch else .loopTest (batch + 1))
  | .condWait batch => .wait .bakingBread .lock (.waitTest batch)
  | .unlockHen batch => .unlock .lock (.done batch)
  | .done _ => .exit

/-- These are the program points of `otherAnimalThread`, in source order.
They carry the local variable `numLoavesEaten`, which counts a loaf as soon as `numLoaves` is written,
and `takeWrite` also carries the value that `--` has read. -/
inductive AnimalPlace where
  | eatTest (numLoavesEaten : Nat)
  | lockKitchen (numLoavesEaten : Nat)
  | enter (numLoavesEaten : Nat)
  | crowdTest (numLoavesEaten : Nat)
  | stayTest (numLoavesEaten : Nat)
  | condStay (numLoavesEaten : Nat)
  | startEating (numLoavesEaten : Nat)
  | hungryTest (numLoavesEaten : Nat)
  | signalBaking (numLoavesEaten : Nat)
  | breadTest (numLoavesEaten : Nat)
  | condBread (numLoavesEaten : Nat)
  | takeRead (numLoavesEaten : Nat)
  | takeWrite (numLoavesEaten : Nat) (value : Int)
  | leave (numLoavesEaten : Nat)
  | stopEating (numLoavesEaten : Nat)
  | signalStay (numLoavesEaten : Nat)
  | unlockKitchen (numLoavesEaten : Nat)
  | lockEnd (numLoavesEaten : Nat)
  | wakeAll (numLoavesEaten : Nat)
  | unlockEnd (numLoavesEaten : Nat)
  | done (numLoavesEaten : Nat)
  deriving DecidableEq

/-- This function is `otherAnimalThread`, where the source has fourteen loaves to eat. -/
def otherAnimalThread (loavesToEat : Nat) : AnimalPlace → Instr Memory AnimalPlace Mutex Cond
  | .eatTest eaten => .access fun memory =>
      (memory, if eaten < loavesToEat then .lockKitchen eaten else .lockEnd eaten)
  | .lockKitchen eaten => .lock .lock2 (.enter eaten)
  | .enter eaten => .access fun memory =>
      ({ memory with animalInKitchen := memory.animalInKitchen + 1 }, .crowdTest eaten)
  | .crowdTest eaten => .access fun memory =>
      (memory, if memory.animalInKitchen > 1 then .stayTest eaten else .startEating eaten)
  | .stayTest eaten => .access fun memory =>
      (memory, if memory.eating = 1 then .condStay eaten else .startEating eaten)
  | .condStay eaten => .wait .stayOut .lock2 (.stayTest eaten)
  | .startEating eaten => .access fun memory => ({ memory with eating := memory.eating + 1 }, .hungryTest eaten)
  | .hungryTest eaten => .access fun memory =>
      (memory, if memory.numLoaves ≤ 0 then .signalBaking eaten else .takeRead eaten)
  | .signalBaking eaten => .signal .bakingBread (.breadTest eaten)
  | .breadTest eaten => .access fun memory =>
      (memory, if memory.numLoaves ≤ 0 then .condBread eaten else .takeRead eaten)
  | .condBread eaten => .wait .eatingBread .lock2 (.breadTest eaten)
  | .takeRead eaten => .access fun memory => (memory, .takeWrite eaten memory.numLoaves)
  | .takeWrite eaten value => .access fun memory =>
      ({ memory with numLoaves := value - 1 }, .leave (eaten + 1))
  | .leave eaten => .access fun memory =>
      ({ memory with animalInKitchen := memory.animalInKitchen - 1 }, .stopEating eaten)
  | .stopEating eaten => .access fun memory => ({ memory with eating := memory.eating - 1 }, .signalStay eaten)
  | .signalStay eaten => .signal .stayOut (.unlockKitchen eaten)
  | .unlockKitchen eaten => .unlock .lock2 (.eatTest eaten)
  | .lockEnd eaten => .lock .lock2 (.wakeAll eaten)
  | .wakeAll eaten => .broadcast .stayOut (.unlockEnd eaten)
  | .unlockEnd eaten => .unlock .lock2 (.done eaten)
  | .done _ => .exit

/-- A place is a place of the hen or of an animal. -/
inductive Place where
  | hen (place : HenPlace)
  | animal (place : AnimalPlace)
  deriving DecidableEq

/-- These are the constants of the program. -/
structure Recipe where
  batches : Nat
  loaves : Nat
  loavesToEat : Nat

/-- The constants of the source. -/
def Recipe.source : Recipe := ⟨6, 7, 14⟩

section
variable {A : Type}

/-- The threads are the hen, which is `none`, and the animals. -/
abbrev State (A : Type) := Config (Option A) Memory Place Mutex Cond

/-- Each thread runs the function that it started with. -/
def code (recipe : Recipe) (_ : Option A) : Place → Instr Memory Place Mutex Cond
  | .hen place => (littleRedHenThread recipe.batches recipe.loaves place).relabel .hen
  | .animal place => (otherAnimalThread recipe.loavesToEat place).relabel .animal

/-- At the start there is no bread and each thread is at the begin of its function. -/
def start : State A := Config.initial ⟨0, 0, 0⟩ fun
  | none => .hen .lockHen
  | some _ => .animal (.eatTest 0)

/-- The number of batches that the hen has baked. -/
def HenPlace.baked : HenPlace → Nat
  | .lockHen => 0
  | .loopTest batch | .bakeRead batch | .bakeWrite batch _ => batch - 1
  | .signalEating batch | .lastTest batch | .waitTest batch | .condWait batch
  | .unlockHen batch | .done batch => batch

/-- The number of loaves that the animal has taken. -/
def AnimalPlace.eaten : AnimalPlace → Nat
  | .eatTest eaten | .lockKitchen eaten | .enter eaten | .crowdTest eaten | .stayTest eaten | .condStay eaten
  | .startEating eaten | .hungryTest eaten | .signalBaking eaten | .breadTest eaten | .condBread eaten
  | .takeRead eaten | .takeWrite eaten _ | .leave eaten | .stopEating eaten | .signalStay eaten
  | .unlockKitchen eaten | .lockEnd eaten | .wakeAll eaten | .unlockEnd eaten | .done eaten => eaten

/-- The animal is between `eating++` and `eating--`. -/
def AnimalPlace.eats : AnimalPlace → Bool
  | .hungryTest _ | .signalBaking _ | .breadTest _ | .condBread _ | .takeRead _ | .takeWrite _ _
  | .leave _ | .stopEating _ => true
  | _ => false

def Place.baked : Place → Nat
  | .hen place => place.baked
  | .animal _ => 0

def Place.eaten : Place → Nat
  | .hen _ => 0
  | .animal place => place.eaten

def Place.eats : Place → Bool
  | .hen _ => false
  | .animal place => place.eats

/-- The number of loaves that the animals have taken. -/
def taken [Fintype A] (config : State A) : Nat := ∑ animal : A, (config.status (some animal)).place.eaten

/-- The number of batches that the hen has baked. -/
def baked (config : State A) : Nat := (config.status none).place.baked

end

end OSLabs.LittleRedHen
