import OSLabs.Construction.Spawn
import OSLabs.Proof.Transition.Run
import Mathlib.Algebra.BigOperators.Group.Finset.Basic
import Mathlib.Data.Fintype.Basic

namespace OSLabs.Spawn

open Transition

variable {T S L : Type}

namespace Config

@[simp] theorem setMemory_memory (config : Config T S L) (memory : S) :
    (config.setMemory memory).memory = memory := rfl

@[simp] theorem setMemory_place (config : Config T S L) (memory : S) :
    (config.setMemory memory).place = config.place := rfl

@[simp] theorem setMemory_self (config : Config T S L) : config.setMemory config.memory = config := rfl

/-- Two configurations with the same memory and the same places are equal. -/
theorem eq_of {first second : Config T S L} (memory : first.memory = second.memory)
    (place : ∀ thread, first.place thread = second.place thread) : first = second := by
  obtain ⟨firstMemory, firstPlace⟩ := first
  obtain ⟨secondMemory, secondPlace⟩ := second
  obtain rfl : firstMemory = secondMemory := memory
  obtain rfl : firstPlace = secondPlace := funext place
  rfl

variable [DecidableEq T]

@[simp] theorem setPlace_memory (config : Config T S L) (thread : T) (place : L) :
    (config.setPlace thread place).memory = config.memory := rfl

@[simp] theorem setPlace_place (config : Config T S L) (thread : T) (place : L) :
    (config.setPlace thread place).place = Function.update config.place thread (some place) := rfl

/-- A thread is where it has moved to. -/
theorem place_setPlace_self (config : Config T S L) (thread : T) (place : L) :
    (config.setPlace thread place).place thread = some place :=
  Function.update_self _ _ _

@[simp] theorem initial_memory (memory : S) (main : T) (first : L) :
    (Config.initial memory main first).memory = memory := rfl

@[simp] theorem initial_place (memory : S) (main : T) (first : L) :
    (Config.initial memory main first).place = Function.update (fun _ => none) main (some first) := rfl

end Config

/-- A thread that has returned is at a place without an instruction. -/
theorem exists_of_returned {code : T → L → Instr T S L} {config : Config T S L} {other : T}
    (returned : config.returned code other = true) :
    ∃ place, config.place other = some place ∧ (code other place).isExit = true := by
  unfold Config.returned at returned
  cases here : config.place other with
  | none => simp [here] at returned
  | some place => exact ⟨place, rfl, by simpa [here] using returned⟩

variable [DecidableEq T] {code : T → L → Instr T S L} {config next : Config T S L} {thread : T}

/-- A thread that moves performs the instruction at its place. -/
theorem exists_of_fire (fired : fire code config thread = some next) :
    ∃ place, config.place thread = some place ∧ perform code config thread (code thread place) = some next := by
  unfold fire at fired
  cases here : config.place thread with
  | none => simp [here] at fired
  | some place => exact ⟨place, rfl, by simpa [here] using fired⟩

/-- The move of a thread at a known place. -/
theorem fire_of_place (place : L) (here : config.place thread = some place) :
    fire code config thread = perform code config thread (code thread place) := by
  simp [fire, here]

theorem fire_access {update : S → S × L} (place : L) (here : config.place thread = some place)
    (instr : code thread place = .access update) :
    fire code config thread =
      some ((config.setMemory (update config.memory).1).setPlace thread (update config.memory).2) := by
  rw [fire_of_place place here, instr]
  rfl

theorem fire_create {other : T} {entry after : L} (place : L) (here : config.place thread = some place)
    (instr : code thread place = .create other entry after) :
    fire code config thread = some ((config.setPlace other entry).setPlace thread after) := by
  rw [fire_of_place place here, instr]
  rfl

theorem fire_join {other : T} {after : L} (place : L) (here : config.place thread = some place)
    (instr : code thread place = .join other after) (returned : config.returned code other = true) :
    fire code config thread = some (config.setPlace thread after) := by
  rw [fire_of_place place here, instr]
  simp [perform, returned]

/-- After an access the thread is at the place that the access gives. -/
theorem eq_of_access {update : S → S × L} {place : L} (here : config.place thread = some place)
    (fired : fire code config thread = some next) (instr : code thread place = .access update) :
    next = (config.setMemory (update config.memory).1).setPlace thread (update config.memory).2 :=
  Option.some.inj (fired.symm.trans (fire_access place here instr))

/-- After a creation the new thread is at its entry. -/
theorem eq_of_create {other : T} {entry after place : L} (here : config.place thread = some place)
    (fired : fire code config thread = some next) (instr : code thread place = .create other entry after) :
    next = (config.setPlace other entry).setPlace thread after :=
  Option.some.inj (fired.symm.trans (fire_create place here instr))

/-- A thread joins only a thread that has returned. -/
theorem returned_of_join {other : T} {after place : L} (here : config.place thread = some place)
    (fired : fire code config thread = some next) (instr : code thread place = .join other after) :
    config.returned code other = true ∧ next = config.setPlace thread after := by
  rw [fire_of_place place here, instr] at fired
  simp only [perform] at fired
  split at fired
  · next returned => exact ⟨returned, (Option.some.inj fired).symm⟩
  · cases fired

/-- A thread at a known place takes its next step. -/
theorem reachable_step {first : Config T S L} (thread : T) (place : L) (next : Config T S L)
    (reached : Reachable (fire code) Free first config) (here : config.place thread = some place)
    (performed : perform code config thread (code thread place) = some next) :
    Reachable (fire code) Free first next :=
  reached.step thread trivial ((fire_of_place place here).trans performed)

/-- A sum over a family of threads grows by what the thread gains that moves. -/
theorem sum_setPlace {I G : Type} [Fintype I] [DecidableEq I] [AddCommMonoid G] {family : I → T}
    (injective : Function.Injective family) (weight : I → Option L → G) (config : Config T S L) (i : I) (place : L)
    {gain : G} (grows : weight i (some place) = weight i (config.place (family i)) + gain) :
    ∑ j, weight j ((config.setPlace (family i) place).place (family j)) =
      ∑ j, weight j (config.place (family j)) + gain := by
  have others : ∀ j ∈ Finset.univ.erase i,
      weight j ((config.setPlace (family i) place).place (family j)) = weight j (config.place (family j)) := by
    intro j member
    have different : family j ≠ family i := fun same => Finset.ne_of_mem_erase member (injective same)
    rw [Config.setPlace_place, Function.update_of_ne different]
  rw [← Finset.add_sum_erase _ _ (Finset.mem_univ i), Finset.sum_congr rfl others, Config.setPlace_place,
    Function.update_self, grows, add_right_comm,
    Finset.add_sum_erase Finset.univ (fun j => weight j (config.place (family j))) (Finset.mem_univ i)]

end OSLabs.Spawn
