/-
This file models the marking of `sample_exams/exam2/sieve.c`, serially and in threads that share the array.
-/

import OSLabs.Construction.Buffer
import OSLabs.Construction.Spawn
import Mathlib.Data.List.Perm.Basic

namespace OSLabs.Sieve

open Transition Spawn Buffer

/-- These are the lines that `sieve_for` prints. -/
inductive Line where
  | starting (num : Nat)
  | found (num composite : Nat)
  | finished (num : Nat)
  deriving DecidableEq

/-- The array `nums` and the output. -/
structure Memory where
  nums : List Char
  output : List Line
  deriving DecidableEq

def Memory.print (memory : Memory) (line : Line) : Memory := { memory with output := memory.output ++ [line] }

/-- A sum of two numbers of type `long`. It is undefined when it overflows. -/
def addLong (first second : Nat) : Option Nat :=
  if first + second < 9223372036854775808 then some (first + second) else none

/-- The initial value of a global character. -/
def nul : Char := Char.ofNat 0

/-- This function is the first loop of `main`. Its counter is an `int`. -/
def initialise (maxNum : Nat) : Option (List Char) :=
  if maxNum < 2147483648 then
    forLoop (fun i nums => store nums i 'P') 2 (maxNum - 2) (List.replicate maxNum nul)
  else none

/-- The array in which all numbers from 2 on are marked as potentially prime. -/
def potential (maxNum : Nat) : List Char := List.replicate 2 nul ++ List.replicate (maxNum - 2) 'P'

section Serial
variable (maxNum : Nat)

/-- This function is one round of the loop of `sieve_for`: the memory and the value of `current`. -/
def round (num : Nat) (state : Memory × Nat) : Option (Memory × Nat) := do
  let mark ← load state.1.nums state.2
  let memory := if mark ≠ 'C' then state.1.print (.found num state.2) else state.1
  let nums ← store memory.nums state.2 'C'
  let current ← addLong state.2 num
  return ({ memory with nums }, current)

/-- This function is a call of `sieve_for`, whose loop has no more than `maxNum` rounds. -/
def sieveFor (num : Nat) (memory : Memory) : Option Memory := do
  let current ← addLong num num
  let state ← whileLoop (fun state => state.2 < maxNum) (round num) maxNum (memory.print (.starting num), current)
  return state.1.print (.finished num)

/-- The calls are made one after the other. -/
def serial : List Nat → Memory → Option Memory
  | [], memory => some memory
  | num :: rest, memory => (sieveFor maxNum num memory).bind (serial rest)

end Serial

/-- These are the program points of `sieve_for`, in source order.
They carry the argument and the local variable `current`. -/
inductive Place where
  | start (num : Nat)
  | loop (num current : Nat)
  | check (num current : Nat)
  | print (num current : Nat)
  | mark (num current : Nat)
  | finish (num : Nat)
  | done
  | undefined
  deriving DecidableEq

/-- The variable `current` gets a sum. -/
def advance (num current : Nat) : Place :=
  match addLong current num with
  | some next => .loop num next
  | none => .undefined

/-- This function is `sieve_for` in a thread. Each load and each store of an element is a step of its own. -/
def thread (maxNum : Nat) (_ : Nat) : Place → Instr Nat Memory Place
  | .start num => .access fun memory => (memory.print (.starting num), advance num num)
  | .loop num current => .access fun memory =>
      (memory, if current < maxNum then .check num current else .finish num)
  | .check num current => .access fun memory =>
      (memory, match load memory.nums current with
        | some mark => if mark ≠ 'C' then .print num current else .mark num current
        | none => .undefined)
  | .print num current => .access fun memory => (memory.print (.found num current), .mark num current)
  | .mark num current => .access fun memory =>
      match store memory.nums current 'C' with
      | some nums => ({ memory with nums }, advance num current)
      | none => (memory, .undefined)
  | .finish num => .access fun memory => (memory.print (.finished num), .done)
  | .done => .exit
  | .undefined => .exit

abbrev State := Config Nat Memory Place

/-- Thread `k` makes call `k` of the list. -/
def threads (maxNum : Nat) (order : List Nat) : State := ⟨⟨potential maxNum, []⟩, fun k => order[k]?.map .start⟩

/-- All calls have returned. -/
def Finished (order : List Nat) (config : State) : Prop := ∀ k < order.length, config.place k = some .done

/-- The number is a multiple 2p, 3p, ... of one of the strides. -/
def Crossed (strides : List Nat) (i : Nat) : Prop := ∃ p ∈ strides, ∃ m, 2 ≤ m ∧ i = m * p

/-- The first value of `current` for which the loop ends is a `long`. -/
def Fits (maxNum num : Nat) : Prop := max 2 ((maxNum + num - 1) / num) * num < 9223372036854775808

instance (maxNum num : Nat) : Decidable (Fits maxNum num) := inferInstanceAs (Decidable (_ < _))

/-- The calls for these strides leave this array in every order and in every interleaving of their steps.
Every run of the threads is finite, and it can be continued until all calls have returned. -/
structure OrderIndependent (maxNum : Nat) (strides : List Nat) (final : List Char) : Prop where
  serial : ∀ order, order.Perm strides →
    ∃ memory, serial maxNum order ⟨potential maxNum, []⟩ = some memory ∧ memory.nums = final
  interleaved : ∀ order, order.Perm strides →
    ∀ config, Reachable (fire (thread maxNum)) Free (threads maxNum order) config →
    (Finished order config → config.memory.nums = final) ∧
      ∃ last, Reachable (fire (thread maxNum)) Free config last ∧ Finished order last
  finite : ∀ order, order.Perm strides → ∃ bound, ∀ history config,
    Run (fire (thread maxNum)) Free (threads maxNum order) history config → history.length ≤ bound
  length : final.length = maxNum
  crossed : ∀ i < maxNum, final[i]? = some 'C' ↔ Crossed strides i

/-- The numbers that are left potentially prime after the strides 2, 3 and 5. -/
def Left (maxNum i : Nat) : Prop := i < maxNum ∧ (i = 2 ∨ i = 3 ∨ i = 5 ∨ 7 ≤ i ∧ i.Coprime 30)

end OSLabs.Sieve
