import OSLabs.Construction.Rooms
import OSLabs.Proof.Pthread.Local
import OSLabs.Proof.Pthread.Placed

namespace OSLabs.Rooms
open Pthread

namespace Place

/-- The customer is at the test of a waiting loop. -/
def isLoopTest : Place → Bool
  | .first .fullTest | .second .waitTest => true
  | _ => false

/-- The customer runs under `secondLock`. -/
def inEntry : Place → Bool
  | .second .fullTest | .second .roomTest | .second .joinRead | .second (.joinWrite _) | .second .condWait
  | .second .enterRead | .second (.enterWrite _) | .second .freeTest | .second .directRead | .second (.directWrite _)
  | .second .turnAway | .second .unlockAway | .second .unlockSecond => true
  | _ => false

end Place

/-- These places hold these mutexes. -/
def held : Place → Mutex → Bool
  | .first .lockFirst | .first .lockLeft => fun _ => false
  | .first .leaveRead | .first (.leaveWrite _) | .first .signalFirst | .first .unlockLeft =>
      fun mutex => mutex = .firstLeftLock
  | .first _ => fun mutex => mutex = .firstLock
  | .second .lockSecond | .second .lockLeft => fun _ => false
  | .second .leaveRead | .second (.leaveWrite _) | .second .signalSecond | .second .dropRead | .second (.dropWrite _)
  | .second .unlockLeft => fun mutex => mutex = .secondLeftLock
  | .second _ => fun mutex => mutex = .secondLock
  | .leftUnhappy | .done => fun _ => false

theorem not_isLoopTest_of_inEntry {place : Place} (inside : place.inEntry = true) : place.isLoopTest = false := by
  cases place with
  | second place => cases place <;> first | rfl | cases inside
  | first place | leftUnhappy | done => cases inside

theorem held_of_inEntry {place : Place} (inside : place.inEntry = true) : held place .secondLock = true := by
  cases place with
  | second place => cases place <;> first | rfl | cases inside
  | first place | leftUnhappy | done => cases inside

section
variable {T : Type}

theorem code_respects (t : T) (place : Place) : (code t place).Respects held place := by
  cases place with
  | first place =>
      cases place with
      | lockFirst | unlockFirst | lockLeft | unlockLeft =>
          funext mutex
          cases mutex <;> rfl
      | fullTest =>
          intro before after next effect
          cases effect
          split <;> rfl
      | enterRead | enterWrite value | leaveRead | leaveWrite value =>
          intro before after next effect
          cases effect
          rfl
      | condWait => exact ⟨rfl, rfl⟩
      | signalFirst => rfl
  | second place =>
      cases place with
      | lockSecond | unlockAway | unlockSecond | lockLeft | unlockLeft =>
          funext mutex
          cases mutex <;> rfl
      | fullTest | roomTest | waitTest | freeTest =>
          intro before after next effect
          cases effect
          split <;> rfl
      | joinRead | joinWrite value | enterRead | enterWrite value | directRead | directWrite value | turnAway
      | leaveRead | leaveWrite value | dropRead | dropWrite value =>
          intro before after next effect
          cases effect
          rfl
      | condWait => exact ⟨rfl, rfl⟩
      | signalSecond => rfl
  | leftUnhappy | done => trivial

theorem start_owned : Owned (fun _ => held) (start : State T) :=
  ⟨fun mutex t => by simp [start, Status.holds, held], fun t => trivial⟩

variable [DecidableEq T] [Fintype T] {allowed : History T Memory Place Mutex Cond → State T → T → Prop}
  {history : History T Memory Place Mutex Cond} {config : State T}

theorem owned (reached : Run code start allowed history config) : Owned (fun _ => held) config := by
  refine reached.owned code_respects start_owned ?_
  intro _ _ t place mutex next _ _ _ unlocks unheld
  cases place with
  | first place => cases place <;> cases unlocks <;> cases unheld
  | second place => cases place <;> cases unlocks <;> cases unheld
  | leftUnhappy | done => cases unlocks

/-- A customer that is not at the test of a waiting loop runs. -/
theorem ready_of_not_isLoopTest (reached : Run code start allowed history config) {t : T}
    (elsewhere : (config.places t).isLoopTest = false) : config.status t = .ready (config.places t) := by
  refine reached.ready_of_not_resumed (fun _ => ⟨_, rfl⟩) Place.isLoopTest ?_ elsewhere
  intro t there cond mutex next instr
  cases there with
  | first there => cases there <;> cases instr; rfl
  | second there => cases there <;> cases instr; rfl
  | leftUnhappy | done => cases instr

/-- While a customer runs under `secondLock`, nobody else is in the entry section of the second room. -/
theorem outside_of_held (reached : Run code start allowed history config) {t other : T} {place : Place}
    (here : config.status t = .ready place) (holds : held place .secondLock = true) (different : other ≠ t) :
    (config.places other).inEntry = false := by
  by_contra inside
  have inside : (config.places other).inEntry = true := by simpa using inside
  have outside := (owned reached).outside here holds different (ready_of_not_isLoopTest reached
    (not_isLoopTest_of_inEntry inside))
  cases there : config.places other with
  | second there' =>
      rw [there] at inside outside
      cases there' <;> first | cases inside; done | cases outside
  | first there' | leftUnhappy | done =>
      rw [there] at inside
      cases inside

end

end OSLabs.Rooms
