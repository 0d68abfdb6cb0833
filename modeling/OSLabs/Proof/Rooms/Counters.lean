import OSLabs.Construction.Rooms
import OSLabs.Proof.Pthread.Counter

namespace OSLabs.Rooms
open Pthread

namespace Place

/-- The value that the customer has read for its write of `num_firstRoom`. -/
def pendingFirst : Place → Option Int
  | .first (.enterWrite value) | .first (.leaveWrite value) => some value
  | _ => none

/-- The customer has executed `num_firstRoom++`. -/
def arrived : Place → Bool
  | .first .lockFirst | .first .enterRead | .first (.enterWrite _) => false
  | _ => true

/-- The customer has executed `num_secondRoom++`. -/
def entered : Place → Bool
  | .second .unlockSecond | .second .lockLeft | .second .leaveRead | .second (.leaveWrite _) | .second .signalSecond
  | .second .dropRead | .second (.dropWrite _) | .second .unlockLeft | .done => true
  | _ => false

end Place

variable {T : Type} {t : T} {place next : Place} {memory after : Memory} {value : Int}

/-- Without a pending read an instruction keeps the counter of the first room, and a read takes its value. -/
theorem first_kept (effect : (code t place).effect memory = some (after, next))
    (settled : place.pendingFirst = none) :
    after.numFirstRoom = memory.numFirstRoom ∧
      ∀ value, next.pendingFirst = some value → value = memory.numFirstRoom := by
  cases place with
  | first place =>
      cases place with
      | enterRead | leaveRead =>
          cases effect
          exact ⟨rfl, fun value reads => (Option.some.inj reads).symm⟩
      | enterWrite value | leaveWrite value => cases settled
      | fullTest =>
          cases effect
          refine ⟨rfl, fun value reads => ?_⟩
          split at reads <;> cases reads
      | lockFirst | condWait | unlockFirst | lockLeft | signalFirst | unlockLeft =>
          cases effect
          exact ⟨rfl, nofun⟩
  | second place => cases place <;> cases effect <;> exact ⟨rfl, nofun⟩
  | leftUnhappy | done => cases effect

/-- A pending read of the first room ends in a write, which is the increment of a customer that arrives
or a decrement. -/
theorem first_written (effect : (code t place).effect memory = some (after, next))
    (reads : place.pendingFirst = some value) : next.pendingFirst = none ∧
      (after.numFirstRoom ≤ value ∨
        after.numFirstRoom = value + 1 ∧ place.arrived = false ∧ next.arrived = true) := by
  cases place with
  | first place =>
      cases place with
      | enterWrite value =>
          cases effect
          cases reads
          exact ⟨rfl, .inr ⟨rfl, rfl, rfl⟩⟩
      | leaveWrite value =>
          cases effect
          cases reads
          exact ⟨rfl, .inl (Int.sub_le_self _ (by decide))⟩
      | _ => cases reads
  | second place | leftUnhappy | done => cases reads

theorem arrived_of_effect (effect : (code t place).effect memory = some (after, next))
    (arrived : place.arrived = true) : next.arrived = true := by
  cases place with
  | first place =>
      cases place with
      | fullTest =>
          cases effect
          split <;> rfl
      | lockFirst | enterRead | enterWrite value => cases arrived
      | condWait | unlockFirst | lockLeft | leaveRead | leaveWrite value | signalFirst | unlockLeft =>
          cases effect
          rfl
  | second place => cases place <;> cases effect <;> rfl
  | leftUnhappy | done => cases effect

/-- Without a pending read an instruction keeps the counter of the second room, and a read takes its value. -/
theorem room_kept (effect : (code t place).effect memory = some (after, next))
    (settled : place.pendingRoom = none) :
    after.numSecondRoom = memory.numSecondRoom ∧
      ∀ value, next.pendingRoom = some value → value = memory.numSecondRoom := by
  cases place with
  | first place => cases place <;> cases effect <;> exact ⟨rfl, nofun⟩
  | second place =>
      cases place with
      | enterRead | directRead | leaveRead =>
          cases effect
          exact ⟨rfl, fun value reads => (Option.some.inj reads).symm⟩
      | enterWrite value | directWrite value | leaveWrite value => cases settled
      | fullTest | roomTest | waitTest | freeTest =>
          cases effect
          refine ⟨rfl, fun value reads => ?_⟩
          split at reads <;> cases reads
      | lockSecond | joinRead | joinWrite value | condWait | turnAway | unlockAway | unlockSecond | lockLeft
      | signalSecond | dropRead | dropWrite value | unlockLeft =>
          cases effect
          exact ⟨rfl, nofun⟩
  | leftUnhappy | done => cases effect

/-- A pending read of the second room ends in a write, which is the increment of a customer that enters
or the decrement of a customer that leaves. -/
theorem room_written (effect : (code t place).effect memory = some (after, next))
    (reads : place.pendingRoom = some value) : next.pendingRoom = none ∧
      (after.numSecondRoom = value + 1 ∧ place.entered = false ∧ next.entered = true ∧
          place.inRoom = false ∧ next.inRoom = true ∨
        after.numSecondRoom = value - 1 ∧ place.inRoom = true ∧ next.inRoom = false) := by
  cases place with
  | second place =>
      cases place with
      | enterWrite value | directWrite value =>
          cases effect
          cases reads
          exact ⟨rfl, .inl ⟨rfl, rfl, rfl, rfl, rfl⟩⟩
      | leaveWrite value =>
          cases effect
          cases reads
          exact ⟨rfl, .inr ⟨rfl, rfl, rfl⟩⟩
      | _ => cases reads
  | first place | leftUnhappy | done => cases reads

theorem entered_of_effect (effect : (code t place).effect memory = some (after, next))
    (entered : place.entered = true) : next.entered = true := by
  cases place with
  | second place =>
      cases place with
      | unlockSecond | lockLeft | leaveRead | leaveWrite value | signalSecond | dropRead | dropWrite value
      | unlockLeft =>
          cases effect
          rfl
      | _ => cases entered
  | first place | leftUnhappy => cases entered
  | done => cases effect

/-- Without a pending read an instruction keeps the counter of the waiting room, and a read takes its value. -/
theorem waiting_kept (effect : (code t place).effect memory = some (after, next))
    (settled : place.pendingWaiting = none) :
    after.numSecondWaiting = memory.numSecondWaiting ∧
      ∀ value, next.pendingWaiting = some value → value = memory.numSecondWaiting := by
  cases place with
  | first place => cases place <;> cases effect <;> exact ⟨rfl, nofun⟩
  | second place =>
      cases place with
      | joinRead | dropRead =>
          cases effect
          exact ⟨rfl, fun value reads => (Option.some.inj reads).symm⟩
      | joinWrite value | dropWrite value => cases settled
      | fullTest | roomTest | waitTest | freeTest =>
          cases effect
          refine ⟨rfl, fun value reads => ?_⟩
          split at reads <;> cases reads
      | lockSecond | condWait | enterRead | enterWrite value | directRead | directWrite value | turnAway | unlockAway
      | unlockSecond | lockLeft | leaveRead | leaveWrite value | signalSecond | unlockLeft =>
          cases effect
          exact ⟨rfl, nofun⟩
  | leftUnhappy | done => cases effect

end OSLabs.Rooms
