/-
This file models the plate of `activities/prodcons/03_prodcons.c`.
-/

import OSLabs.Construction.Fifo
import OSLabs.Construction.Stdio

namespace OSLabs.Prodcons

open Stdio

/-- The array has `BUF_SIZ` elements. -/
structure CircularPlate (bufSiz : Nat) where
  burgers : Vector Int bufSiz
  eatIndex : Nat
  placeIndex : Nat
  onPlate : Nat

/-- These are the lines that the two functions print, with their numbers in the order of the text. -/
inductive Line where
  | adding (id burger : Int) (place : Nat)
  | ate (id : Int) (position : Nat) (madeBy : Int)
  deriving DecidableEq

/-- The global variables and the output. -/
structure State (bufSiz : Nat) where
  plate : CircularPlate bufSiz
  numCookedBurgers : Int
  output : List Line

/-- An assertion fails, or an index is outside the array. -/
inductive Fault where
  | assertion
  | outOfBounds
  deriving DecidableEq

section
variable {bufSiz : Nat}

def CircularPlate.isEmpty (plate : CircularPlate bufSiz) : Bool := plate.onPlate = 0

def CircularPlate.isFull (plate : CircularPlate bufSiz) : Bool := plate.onPlate = bufSiz

/-- The burger is placed, and the line is printed. The number of the burger is an `int`. -/
def State.place (state : State bufSiz) (id : Int) (inside : state.plate.placeIndex < bufSiz) : State bufSiz where
  plate := { state.plate with
    burgers := state.plate.burgers.set state.plate.placeIndex id inside
    placeIndex := (state.plate.placeIndex + 1) % bufSiz
    onPlate := state.plate.onPlate + 1 }
  numCookedBurgers := toInt (state.numCookedBurgers + 1)
  output := state.output ++ [.adding id (toInt (state.numCookedBurgers + 1)) state.plate.placeIndex]

/-- This function is `cook_burger`. -/
def cookBurger (id : Int) (state : State bufSiz) : Except Fault (State bufSiz) :=
  if state.plate.isFull then .error .assertion
  else if inside : state.plate.placeIndex < bufSiz then .ok (state.place id inside)
  else .error .outOfBounds

/-- The burger is taken, and the line is printed. -/
def State.take (state : State bufSiz) (id : Int) (inside : state.plate.eatIndex < bufSiz) : State bufSiz where
  plate := { state.plate with
    eatIndex := (state.plate.eatIndex + 1) % bufSiz
    onPlate := state.plate.onPlate - 1 }
  numCookedBurgers := state.numCookedBurgers
  output := state.output ++ [.ate id state.plate.eatIndex (state.plate.burgers.get ⟨state.plate.eatIndex, inside⟩)]

/-- This function is `eat_burger`. -/
def eatBurger (id : Int) (state : State bufSiz) : Except Fault (State bufSiz) :=
  if state.plate.isEmpty then .error .assertion
  else if inside : state.plate.eatIndex < bufSiz then .ok (state.take id inside)
  else .error .outOfBounds

/-- A call of one of the two functions. -/
inductive Call where
  | cookBurger (id : Int)
  | eatBurger (id : Int)
  deriving DecidableEq

def perform (state : State bufSiz) : Call → Except Fault (State bufSiz)
  | .cookBurger id => cookBurger id state
  | .eatBurger id => eatBurger id state

/-- This function makes the calls in order up to the first fault. -/
def run (state : State bufSiz) : List Call → Except Fault (State bufSiz)
  | [] => .ok state
  | call :: rest => (perform state call).bind fun next => run next rest

/-- The state after the initialisation of `main`, which leaves the array alone. -/
def start (burgers : Vector Int bufSiz) : State bufSiz := ⟨⟨burgers, 0, 0, 0⟩, 0, []⟩

/-- A cook pushes its number, and an eater pops the number of a cook. -/
def Call.op : Call → Fifo.Op Int
  | .cookBurger id => .push id
  | .eatBurger _ => .pop

/-- The numbers of the cooks of the burgers, in order. -/
def cookIds (calls : List Call) : List Int := Fifo.pushed (calls.map Call.op)

/-- The number of burgers that are eaten. -/
def eats (calls : List Call) : Nat := Fifo.pops (calls.map Call.op)

/-- The numbers of the cooks that the eaten burgers carry, in order. -/
def carried (output : List Line) : List Int :=
  output.filterMap fun line =>
    match line with
    | .adding _ _ _ => none
    | .ate _ _ madeBy => some madeBy

/-- After these calls all `BUF_SIZ` places hold burgers that are not eaten and the next call cooks,
or all burgers are eaten and the next call eats. -/
def Refused (bufSiz : Nat) (calls : List Call) : Call → Prop
  | .cookBurger _ => (cookIds calls).length = eats calls + bufSiz
  | .eatBurger _ => (cookIds calls).length = eats calls

/-- The plate is a bounded queue. The burger that is eaten as number `k` is the one that was cooked as number
`k`. -/
structure BoundedFifo (calls : List Call) (state : State bufSiz) : Prop where
  placeIndex : state.plate.placeIndex < bufSiz
  eatIndex : state.plate.eatIndex < bufSiz
  onPlate : state.plate.onPlate + eats calls = (cookIds calls).length
  indexes : state.plate.placeIndex = (state.plate.eatIndex + state.plate.onPlate) % bufSiz
  count : (carried state.output).length = eats calls
  order : ∀ k < eats calls, (carried state.output)[k]? = (cookIds calls)[k]?

/-- Either no call is refused and the plate is a bounded queue,
or an assertion fails at the first call that is refused. -/
def Specified (burgers : Vector Int bufSiz) (calls : List Call) : Prop :=
  match run (start burgers) calls with
  | .ok state => BoundedFifo calls state ∧
      ∀ before call after, calls = before ++ call :: after → ¬ Refused bufSiz before call
  | .error fault => fault = .assertion ∧ ∃ before call after state, calls = before ++ call :: after ∧
      run (start burgers) before = .ok state ∧ Refused bufSiz before call

end

end OSLabs.Prodcons
