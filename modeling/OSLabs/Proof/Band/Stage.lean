import OSLabs.Construction.Band
import OSLabs.Proof.Pthread.Local
import OSLabs.Proof.Pthread.Tally

namespace OSLabs.Band
open Pthread

@[simp] theorem Memory.setBand_band (memory : Memory) (kind : Kind) (value : Int) :
    (memory.setBand kind value).band = Function.update memory.band kind value := rfl

@[simp] theorem Memory.setBand_onStage (memory : Memory) (kind : Kind) (value : Int) :
    (memory.setBand kind value).onStage = memory.onStage := rfl

/-- The friend holds `lock` here. -/
def CheckIn.inside : CheckIn → Bool
  | .lockIn _ | .unlockAgain _ => false
  | _ => true

/-- The friend holds `lock2` here. -/
def CheckOut.inside : CheckOut → Bool
  | .lockOut => false
  | _ => true

namespace Place

/-- The friend is about to unlock `lock` after a recursive call. -/
def unlocksAgain : Place → Bool
  | .checkIn (.unlockAgain _) => true
  | _ => false

/-- The friend is about to write its `onStage++`. -/
def climbs : Place → Bool
  | .checkIn (.stageWrite _ _) => true
  | _ => false

/-- The friend is about to write its `onStage--`. -/
def descends : Place → Bool
  | .checkOut (.leaveWrite _) => true
  | _ => false

/-- The friend is counted in `onStage`. -/
def counted : Place → Bool
  | .checkIn (.stageRead _) | .checkIn (.stageWrite _ _) => false
  | .checkOut .leaveRead | .checkOut (.leaveWrite _) => true
  | place => place.inSlot

/-- The friend has cleared its slot and not yet left the stage. -/
def leaving : Place → Bool
  | .checkOut .leaveRead | .checkOut (.leaveWrite _) => true
  | _ => false

/-- The friend is about to test whether the slot of its kind is taken. -/
def isSlotTest : Place → Bool
  | .checkIn (.slotTest _) => true
  | _ => false

/-- The friend has found a free slot and has not yet tested whether it completes a band. -/
def arriving : Place → Bool
  | .checkIn (.takeSlot _) | .checkIn (.stageRead _) | .checkIn (.stageWrite _ _) | .checkIn (.fullTest _) => true
  | _ => false

/-- The friend holds a slot or is about to leave the stage. -/
def present (place : Place) : Bool := place.inSlot || place.leaving

/-- The friend has been admitted and has not yet left the stage. -/
def admitted : Place → Bool
  | .checkIn (.wakeStage _) | .checkIn (.unlockFull _) | .checkIn (.unlockIn _) | .checkIn (.unlockAgain _)
  | .play | .playing | .checkOut .lockOut | .checkOut .outTest | .checkOut .freeSlot | .checkOut .leaveRead
  | .checkOut (.leaveWrite _) => true
  | _ => false

/-- The condition variable of a wait that continues at this place. -/
def waitsOn : Place → Option Cond
  | .checkIn (.doorTest _) => some .doorManager
  | .checkIn (.stageTest _) => some .stageManager
  | _ => none

end Place

theorem Place.present_of_admitted {place : Place} (admitted : place.admitted = true) :
    place.present = true ∧ place.checkedOut = false ∧ place.arriving = false := by
  cases place with
  | checkIn place => cases place <;> cases admitted <;> exact ⟨rfl, rfl, rfl⟩
  | checkOut place => cases place <;> cases admitted <;> exact ⟨rfl, rfl, rfl⟩
  | play | playing => exact ⟨rfl, rfl, rfl⟩
  | done => cases admitted

theorem Place.not_checkedOut_of_arriving {place : Place} (arriving : place.arriving = true) :
    place.checkedOut = false := by
  cases place with
  | checkIn place => rfl
  | _ => cases arriving

theorem Place.arriving_of_isFullTest {place : Place} (tests : place.isFullTest = true) :
    place.arriving = true := by
  cases place with
  | checkIn place => cases place <;> first | rfl | cases tests
  | _ => cases tests

theorem Place.admitted_of_leaving {place : Place} (leaving : place.leaving = true) : place.admitted = true := by
  cases place with
  | checkOut place => cases place <;> cases leaving <;> rfl
  | _ => cases leaving

theorem Place.present_of_counted {place : Place} (counted : place.counted = true) :
    place.present = true ∧ place.checkedOut = false := by
  cases place with
  | checkIn place => cases place <;> cases counted <;> exact ⟨rfl, rfl⟩
  | checkOut place => cases place <;> cases counted <;> exact ⟨rfl, rfl⟩
  | play | playing => exact ⟨rfl, rfl⟩
  | done => cases counted

/-- These places hold these mutexes. -/
def held : Place → Mutex → Bool
  | .checkIn place => fun mutex => mutex = .lock && place.inside
  | .checkOut place => fun mutex => mutex = .lock2 && place.inside
  | _ => fun _ => false

@[simp] theorem held_returned (frames : Nat) : held (returned frames) = fun _ => false := by
  cases frames with
  | zero => rfl
  | succ frames =>
      funext mutex
      simp [returned, held, CheckIn.inside]

theorem held_of_climbs (place : Place) (climbs : place.climbs = true) : held place .lock = true := by
  cases place with
  | checkIn place => cases place <;> first | rfl | cases climbs
  | _ => cases climbs

theorem held_of_descends (place : Place) (descends : place.descends = true) : held place .lock2 = true := by
  cases place with
  | checkOut place => cases place <;> first | rfl | cases descends
  | _ => cases descends

/-- The second unlock of `lock` after a recursive call finds `lock` free. -/
def Tidy {T : Type} (config : State T) (t : T) : Prop :=
  (config.status t).runs Place.unlocksAgain = true → config.owner .lock = none

/-- No `onStage++` and no `onStage--` overlap. -/
def Apart {T : Type} (config : State T) : Prop :=
  ∀ first second, (config.status first).runs Place.climbs = true →
    (config.status second).runs Place.descends = false

/-- Each wait continues at its test. -/
def Located {T : Type} (_ : T) (status : Status Place Mutex Cond) (_ : Memory) : Prop :=
  match status with
  | .ready _ => True
  | .blocked cond _ place => place.waitsOn = some cond
  | .woken _ place => place.waitsOn.isSome = true

/-- A friend that is about to take a slot finds the slot of its kind free. -/
def Vacant {T : Type} (kind : T → Kind) (t : T) (status : Status Place Mutex Cond) (memory : Memory) : Prop :=
  match status with
  | .ready (.checkIn (.takeSlot _)) => memory.band (kind t) = 0
  | .ready _ => True
  | .blocked _ _ place | .woken _ place => place.waitsOn.isSome = true

/-- A friend that is about to write `onStage` knows the value that it will replace. -/
def Fresh {T : Type} (_ : T) (status : Status Place Mutex Cond) (memory : Memory) : Prop :=
  match status with
  | .ready (.checkIn (.stageWrite _ value)) => value = memory.onStage
  | .ready (.checkOut (.leaveWrite value)) => value = memory.onStage
  | .ready _ => True
  | .blocked _ _ place | .woken _ place => place.waitsOn.isSome = true

section
variable {T : Type} {kind : T → Kind}

theorem Vacant.congr {t : T} {status : Status Place Mutex Cond} {memory after : Memory}
    (vacant : Vacant kind t status memory) (same : after.band = memory.band) : Vacant kind t status after := by
  unfold Vacant at vacant ⊢
  rwa [same]

/-- A slot that is freed stays free. -/
theorem Vacant.free {t : T} {status : Status Place Mutex Cond} {memory : Memory}
    (vacant : Vacant kind t status memory) (member : Kind) : Vacant kind t status (memory.setBand member 0) := by
  cases status with
  | ready place =>
      cases place with
      | checkIn place =>
          cases place with
          | takeSlot frames =>
              simp only [Vacant] at vacant ⊢
              by_cases hit : kind t = member
              · simp [hit]
              · simpa [Function.update_of_ne hit] using vacant
          | _ => trivial
      | _ => trivial
  | blocked cond mutex place => exact vacant
  | woken mutex place => exact vacant

theorem vacant_stable (t : T) (status : Status Place Mutex Cond) (memory memory' : Memory)
    (free : status.holds held .lock = false) (vacant : Vacant kind t status memory) :
    Vacant kind t status memory' := by
  cases status with
  | ready place =>
      cases place with
      | checkIn place => cases place <;> trivial
      | _ => trivial
  | blocked cond mutex place => exact vacant
  | woken mutex place => exact vacant

theorem vacant_returned {t : T} {memory : Memory} (frames : Nat) :
    Vacant kind t (.ready (returned frames)) memory := by
  cases frames <;> trivial

/-- The weight of a friend in the slot of a kind. -/
def slotWeight (kind : T → Kind) (member : Kind) (t : T) (place : Place) : Int :=
  if kind t = member && place.inSlot then 1 else 0

theorem slotWeight_nonneg (member : Kind) (t : T) (place : Place) : 0 ≤ slotWeight kind member t place := by
  unfold slotWeight
  split <;> decide

@[simp] theorem inSlot_returned (frames : Nat) : (returned frames).inSlot = true := by
  cases frames <;> rfl

theorem slotWeight_returned {member : Kind} {t : T} {place : Place} (frames : Nat)
    (present : place.inSlot = true) :
    slotWeight kind member t (returned frames) = slotWeight kind member t place := by
  simp [slotWeight, present]

/-- A slot counts each of its friends once, whatever their kinds. -/
theorem sum_slotWeight (t : T) (place : Place) :
    ∑ member, slotWeight kind member t place = indicator Place.inSlot t place := by
  cases present : place.inSlot <;> simp [slotWeight, indicator, present]

theorem sum_kinds (count : Kind → Int) : ∑ member, count member = count .drum + (count .sing + count .guit) := by
  have all : (Finset.univ : Finset Kind) = {.drum, .sing, .guit} := rfl
  rw [all, Finset.sum_insert (by decide), Finset.sum_pair (by decide)]

theorem counted_le_inSlot (t : T) {place : Place} (stays : place.leaving = false) :
    indicator Place.counted t place ≤ indicator Place.inSlot t place := by
  cases place with
  | checkIn place => cases place <;> simp [indicator, Place.counted, Place.inSlot]
  | checkOut place => cases place <;> simp_all [indicator, Place.counted, Place.inSlot, Place.leaving]
  | _ => simp [indicator, Place.counted, Place.inSlot]

theorem Fresh.congr {t : T} {status : Status Place Mutex Cond} {memory after : Memory}
    (fresh : Fresh t status memory) (same : after.onStage = memory.onStage) : Fresh t status after := by
  unfold Fresh at fresh ⊢
  rwa [same]

/-- A friend that is not about to write `onStage` does not notice a change. -/
theorem Fresh.change {t : T} {status : Status Place Mutex Cond} {memory after : Memory}
    (fresh : Fresh t status memory)
    (idle : status.runs Place.climbs = false ∧ status.runs Place.descends = false) : Fresh t status after := by
  obtain ⟨notClimbs, notDescends⟩ := idle
  cases status with
  | ready place =>
      cases place with
      | checkIn place => cases place <;> trivial
      | checkOut place => cases place <;> trivial
      | _ => trivial
  | blocked cond mutex place => exact fresh
  | woken mutex place => exact fresh

theorem fresh_returned (t : T) (memory : Memory) (frames : Nat) : Fresh t (.ready (returned frames)) memory := by
  cases frames <;> trivial

@[simp] theorem counted_returned (frames : Nat) : (returned frames).counted = true := by
  cases frames <;> rfl

theorem counted_weight_returned (t : T) {place : Place} (frames : Nat) (present : place.counted = true) :
    indicator Place.counted t (returned frames) = indicator Place.counted t place := by
  simp [indicator, present]

theorem code_respects (t : T) (place : Place) : (code kind t place).Respects held place := by
  cases place with
  | checkIn place =>
      cases place with
      | lockIn frames | unlockDoor frames =>
          funext mutex
          cases mutex <;> rfl
      | unlockFull frames | unlockIn frames | unlockAgain frames =>
          simp only [Instr.Respects, code, friend, bandCheckIn, held_returned]
          funext mutex
          cases mutex <;> rfl
      | slotTest frames | doorTest frames | fullTest frames | stageTest frames =>
          intro before after next effect
          cases effect
          split <;> rfl
      | takeSlot frames | stageRead frames | stageWrite frames value =>
          intro before after next effect
          cases effect
          rfl
      | doorWait frames | stageWait frames => exact ⟨rfl, rfl⟩
      | wakeStage frames => rfl
  | play =>
      intro before after next effect
      cases effect
      rfl
  | playing =>
      intro before after next effect
      cases effect
      funext mutex
      cases mutex <;> rfl
  | checkOut place =>
      cases place with
      | lockOut | unlockOut =>
          funext mutex
          cases mutex <;> rfl
      | outTest | emptyTest =>
          intro before after next effect
          cases effect
          split <;> rfl
      | freeSlot | leaveRead | leaveWrite value =>
          intro before after next effect
          cases effect
          rfl
      | wakeDoor => rfl
  | done => trivial

theorem start_owned : Owned (fun _ => held) (start : State T) := by
  refine ⟨fun mutex t => ?_, fun t => trivial⟩
  simp [start, Status.holds, held, CheckIn.inside]

/-- The owner of `lock` is the only friend that can be arriving. -/
theorem not_arriving {config : State T} (owned : Owned (fun _ => held) config)
    (located : Everywhere Located config) {t other : T} {place : Place} (here : config.status t = .ready place)
    (holds : held place .lock = true) (different : other ≠ t) :
    (config.places other).arriving = false := by
  have waits := located other
  rw [Config.places]
  cases there : config.status other with
  | ready place =>
      have outside : held place .lock = false := owned.outside here holds different there
      cases place with
      | checkIn place => cases place <;> first | rfl | cases outside
      | _ => rfl
  | blocked cond mutex place =>
      simp only [there, Located] at waits
      cases place with
      | checkIn place => cases place <;> first | rfl | cases waits
      | _ => rfl
  | woken mutex place =>
      simp only [there, Located] at waits
      cases place with
      | checkIn place => cases place <;> first | rfl | cases waits
      | _ => rfl

/-- The owner of `lock` is the only friend that can be testing whether the band is complete. -/
theorem not_isFullTest {config : State T} (owned : Owned (fun _ => held) config)
    (located : Everywhere Located config)
    {t : T} {place : Place} (here : config.status t = .ready place) (holds : held place .lock = true)
    (notFull : place.isFullTest = false) (other : T) : (config.places other).isFullTest = false := by
  by_contra tests
  have tests : (config.places other).isFullTest = true := by simpa using tests
  by_cases hit : other = t
  · rw [hit, Config.places, here, Status.place_ready, notFull] at tests
    cases tests
  · have away := not_arriving owned located here holds hit
    rw [Place.arriving_of_isFullTest tests] at away
    cases away

/-- The updates of `onStage` are apart while nobody arrives next to an admitted friend. -/
theorem apart_of_separate {config : State T}
    (separate : ∀ first second, (config.places first).admitted = true → (config.places second).arriving = false) :
    Apart config := by
  intro first second climbs
  by_contra descends
  obtain ⟨place, here, climbing⟩ := (Status.runs_iff _ _).mp climbs
  obtain ⟨there, away, descending⟩ := (Status.runs_iff _ _).mp (by simpa using descends)
  have arriving := separate second first (by
    rw [Config.places, away]
    cases there with
    | checkOut there => cases there <;> cases descending; rfl
    | _ => cases descending)
  rw [Config.places, here] at arriving
  cases place with
  | checkIn place => cases place <;> cases climbing; cases arriving
  | _ => cases climbing

variable [DecidableEq T] [Fintype T] {allowed : History T Memory Place Mutex Cond → State T → T → Prop}
  {history : History T Memory Place Mutex Cond} {config : State T}

theorem located (reached : Run (code kind) start allowed history config) : Everywhere Located config := by
  refine Run.everywhere Located ?_ ?_ ?_ ?_ reached
  · intro t
    trivial
  · intro t cond mutex place memory located
    simp only [Located] at located ⊢
    simp [located]
  · intro t mutex place memory _
    trivial
  · intro history config t place _ all _ _
    cases place with
    | checkIn place =>
        cases place with
        | lockIn frames => exact fun _ => trivial
        | doorWait frames | stageWait frames => rfl
        | unlockDoor frames | wakeStage frames | unlockFull frames | unlockIn frames | unlockAgain frames =>
            trivial
        | _ => exact fun after next _ => ⟨trivial, fun other _ => all other⟩
    | checkOut place =>
        cases place with
        | lockOut => exact fun _ => trivial
        | wakeDoor | unlockOut => trivial
        | _ => exact fun after next _ => ⟨trivial, fun other _ => all other⟩
    | play | playing => exact fun after next _ => ⟨trivial, fun other _ => all other⟩
    | done => trivial

/-- Every slot is free or taken once. -/
theorem band_zero_or_one (reached : Run (code kind) start allowed history config) (member : Kind) :
    config.memory.band member = 0 ∨ config.memory.band member = 1 := by
  refine reached.stored (fun memory => memory.band member = 0 ∨ memory.band member = 1) (.inl rfl) ?_
  intro history config t place update after next _ holds _ _ instr effect
  have written : ∀ {value : Int}, value = 0 ∨ value = 1 →
      (config.memory.setBand (kind t) value).band member = 0 ∨
        (config.memory.setBand (kind t) value).band member = 1 := by
    intro value range
    by_cases hit : member = kind t
    · subst hit
      simpa using range
    · simpa [Function.update_of_ne hit] using holds
  cases place with
  | checkIn place =>
      cases place with
      | takeSlot frames =>
          cases instr
          cases effect
          exact written (.inr rfl)
      | slotTest frames | doorTest frames | stageRead frames | stageWrite frames value | fullTest frames
      | stageTest frames =>
          cases instr
          cases effect
          exact holds
      | _ => cases instr
  | checkOut place =>
      cases place with
      | freeSlot =>
          cases instr
          cases effect
          exact written (.inl rfl)
      | outTest | leaveRead | leaveWrite value | emptyTest =>
          cases instr
          cases effect
          exact holds
      | _ => cases instr
  | play | playing =>
      cases instr
      cases effect
      exact holds
  | done => cases instr

section
variable (tidy : ∀ history config t, allowed history config t → Tidy config t)
include tidy

theorem owned (reached : Run (code kind) start allowed history config) : Owned (fun _ => held) config := by
  refine reached.owned code_respects start_owned ?_
  intro _ _ t place mutex next _ permitted here unlocks unheld
  cases place with
  | checkIn place =>
      cases place with
      | unlockAgain frames =>
          cases unlocks
          exact tidy _ _ _ permitted (by simp [here, Place.unlocksAgain])
      | _ => cases unlocks <;> cases unheld
  | checkOut place => cases place <;> cases unlocks; cases unheld
  | play => cases unlocks
  | playing => cases unlocks
  | done => cases unlocks

theorem vacant (reached : Run (code kind) start allowed history config) : Everywhere (Vacant kind) config := by
  refine Run.everywhere (Vacant kind) ?_ ?_ ?_ ?_ reached
  · intro t
    trivial
  · intro t cond mutex place memory waits
    exact waits
  · intro t mutex place memory waits
    cases place with
    | checkIn place => cases place <;> trivial
    | _ => trivial
  · intro history config t place before all _ here
    have same : ∀ {after : Memory}, after.band = config.memory.band →
        ∀ other, other ≠ t → Vacant kind other (config.status other) after :=
      fun same other _ => (all other).congr same
    cases place with
    | checkIn place =>
        cases place with
        | lockIn frames => exact fun _ => trivial
        | doorWait frames | stageWait frames => rfl
        | unlockDoor frames | wakeStage frames => trivial
        | unlockFull frames | unlockIn frames | unlockAgain frames => exact vacant_returned frames
        | takeSlot frames =>
            intro after next effect
            cases effect
            exact ⟨trivial, fun other different =>
              all.undisturbed (owned tidy before) vacant_stable here (rfl : held _ .lock = true) _ different⟩
        | slotTest frames =>
            intro after next effect
            cases effect
            refine ⟨?_, same rfl⟩
            split
            · trivial
            · next free =>
                rcases band_zero_or_one before (kind t) with zero | one
                · exact zero
                · exact absurd one free
        | doorTest frames | fullTest frames | stageTest frames =>
            intro after next effect
            cases effect
            refine ⟨?_, same rfl⟩
            split <;> trivial
        | stageRead frames | stageWrite frames value =>
            intro after next effect
            cases effect
            exact ⟨trivial, same rfl⟩
    | checkOut place =>
        cases place with
        | lockOut => exact fun _ => trivial
        | wakeDoor | unlockOut => trivial
        | freeSlot =>
            intro after next effect
            cases effect
            exact ⟨trivial, fun other _ => (all other).free (kind t)⟩
        | outTest | emptyTest =>
            intro after next effect
            cases effect
            refine ⟨?_, same rfl⟩
            split <;> trivial
        | leaveRead | leaveWrite value =>
            intro after next effect
            cases effect
            exact ⟨trivial, same rfl⟩
    | play | playing =>
        intro after next effect
        cases effect
        exact ⟨trivial, same rfl⟩
    | done => trivial

/-- The slot of a kind counts the friends of this kind that hold it. -/
theorem band_eq (reached : Run (code kind) start allowed history config) (member : Kind) :
    config.memory.band member = tally (slotWeight kind member) config := by
  refine reached.balanced (fun memory => memory.band member) (slotWeight kind member)
    (tally_eq_zero fun t => by simp [slotWeight, start, Place.inSlot]).symm ?_
  intro _ config t place before counted _ here
  have range := band_zero_or_one before member
  have free := vacant tidy before t
  rw [here] at free
  have taken : place.inSlot = true → kind t = member → config.memory.band member = 1 := by
    rintro present rfl
    have mine : slotWeight kind (kind t) t (config.status t).place ≤ tally (slotWeight kind (kind t)) config :=
      le_tally (slotWeight_nonneg _) t
    simp only [slotWeight, here, Status.place_ready, present, decide_true, Bool.and_true, ↓reduceIte] at mine
    rcases range with zero | one
    · rw [← counted, zero] at mine
      cases mine
    · exact one
  cases place with
  | checkIn place =>
      cases place with
      | lockIn frames | unlockDoor frames | wakeStage frames | doorWait frames | stageWait frames => rfl
      | unlockFull frames | unlockIn frames | unlockAgain frames => exact slotWeight_returned frames rfl
      | takeSlot frames =>
          intro after next effect
          cases effect
          simp only [Vacant] at free
          by_cases hit : member = kind t
          · subst hit
            simp [slotWeight, Place.inSlot, free]
          · simp [slotWeight, Function.update_of_ne hit, Ne.symm hit]
      | slotTest frames | doorTest frames | fullTest frames | stageTest frames =>
          intro after next effect
          cases effect
          split <;> simp [slotWeight, Place.inSlot]
      | stageRead frames | stageWrite frames value =>
          intro after next effect
          cases effect
          simp [slotWeight, Place.inSlot]
  | checkOut place =>
      cases place with
      | lockOut | wakeDoor | unlockOut => rfl
      | freeSlot =>
          intro after next effect
          cases effect
          by_cases hit : member = kind t
          · subst hit
            simp [slotWeight, Place.inSlot, taken rfl rfl]
          · simp [slotWeight, Function.update_of_ne hit, Ne.symm hit]
      | outTest =>
          intro after next effect
          cases effect
          by_cases hit : kind t = member
          · simp [slotWeight, Place.inSlot, hit, taken rfl hit]
          · simp [slotWeight, hit]
      | leaveRead | leaveWrite value | emptyTest =>
          intro after next effect
          cases effect
          repeat' split
          all_goals simp [slotWeight, Place.inSlot]
  | play | playing =>
      intro after next effect
      cases effect
      simp [slotWeight, Place.inSlot]
  | done => trivial

/-- The slots count the friends that hold one. -/
theorem sum_band (reached : Run (code kind) start allowed history config) :
    ∑ member, config.memory.band member = tally (indicator Place.inSlot) config := by
  calc ∑ member, config.memory.band member
      = ∑ member, ∑ t, slotWeight kind member t (config.status t).place :=
        Finset.sum_congr rfl fun member _ => band_eq tidy reached member
    _ = ∑ t, ∑ member, slotWeight kind member t (config.status t).place := Finset.sum_comm
    _ = ∑ t, indicator Place.inSlot t (config.status t).place :=
        Finset.sum_congr rfl fun t _ => sum_slotWeight t _

/-- Two friends that hold the slot of one kind are the same friend. -/
theorem inSlot_unique (reached : Run (code kind) start allowed history config) {first second : T}
    (firstIn : Member config first) (secondIn : Member config second) (same : kind first = kind second) :
    first = second := by
  by_contra distinct
  have count := band_eq tidy reached (kind first)
  have pair : slotWeight kind (kind first) first _ + slotWeight kind (kind first) second _ ≤
      tally (slotWeight kind (kind first)) config := add_le_tally (slotWeight_nonneg _) distinct
  rw [Member] at firstIn secondIn
  simp only [slotWeight, firstIn, secondIn, same, decide_true, Bool.and_true, ↓reduceIte] at pair count
  have range := band_zero_or_one reached (kind second)
  omega

/-- A friend in a slot finds its slot taken. -/
theorem band_eq_one (reached : Run (code kind) start allowed history config) {t : T} (present : Member config t) :
    config.memory.band (kind t) = 1 := by
  have count := band_eq tidy reached (kind t)
  have mine : slotWeight kind (kind t) t _ ≤ tally (slotWeight kind (kind t)) config :=
    le_tally (slotWeight_nonneg _) t
  rw [Member] at present
  simp only [slotWeight, present, decide_true, Bool.and_true, ↓reduceIte] at mine count
  have range := band_zero_or_one reached (kind t)
  omega

section
variable (apart : ∀ history config t, allowed history config t → Apart config)
include apart

theorem fresh (reached : Run (code kind) start allowed history config) : Everywhere Fresh config := by
  refine Run.everywhere Fresh ?_ ?_ ?_ ?_ reached
  · intro t
    trivial
  · intro t cond mutex place memory waits
    exact waits
  · intro t mutex place memory waits
    cases place with
    | checkIn place => cases place <;> trivial
    | checkOut place => cases place <;> trivial
    | _ => trivial
  · intro history config t place before all permitted here
    have same : ∀ {after : Memory}, after.onStage = config.memory.onStage →
        ∀ other, other ≠ t → Fresh other (config.status other) after :=
      fun same other _ => (all other).congr same
    cases place with
    | checkIn place =>
        cases place with
        | lockIn frames => exact fun _ => trivial
        | doorWait frames | stageWait frames => rfl
        | unlockDoor frames | wakeStage frames => trivial
        | unlockFull frames | unlockIn frames | unlockAgain frames => exact fresh_returned t _ frames
        | stageWrite frames value =>
            intro after next effect
            cases effect
            refine ⟨trivial, fun other different => (all other).change ⟨?_, ?_⟩⟩
            · rw [(owned tidy before).runs_eq_false_of_ne here held_of_climbs rfl different]
            · exact apart _ _ _ permitted t other (by simp [here, Place.climbs])
        | slotTest frames | doorTest frames | fullTest frames | stageTest frames =>
            intro after next effect
            cases effect
            refine ⟨?_, same rfl⟩
            split <;> trivial
        | takeSlot frames =>
            intro after next effect
            cases effect
            exact ⟨trivial, same rfl⟩
        | stageRead frames =>
            intro after next effect
            cases effect
            exact ⟨rfl, same rfl⟩
    | checkOut place =>
        cases place with
        | lockOut => exact fun _ => trivial
        | wakeDoor | unlockOut => trivial
        | leaveWrite value =>
            intro after next effect
            cases effect
            refine ⟨trivial, fun other different => (all other).change ⟨?_, ?_⟩⟩
            · by_contra climbs
              have free := apart _ _ _ permitted other t (by simpa using climbs)
              simp [here, Place.descends] at free
            · rw [(owned tidy before).runs_eq_false_of_ne here held_of_descends rfl different]
        | outTest | emptyTest =>
            intro after next effect
            cases effect
            refine ⟨?_, same rfl⟩
            split <;> trivial
        | leaveRead =>
            intro after next effect
            cases effect
            exact ⟨rfl, same rfl⟩
        | freeSlot =>
            intro after next effect
            cases effect
            exact ⟨trivial, same rfl⟩
    | play | playing =>
        intro after next effect
        cases effect
        exact ⟨trivial, same rfl⟩
    | done => trivial

/-- The variable `onStage` counts the friends on stage. -/
theorem onStage_eq (reached : Run (code kind) start allowed history config) :
    config.memory.onStage = tally (indicator Place.counted) config := by
  refine reached.balanced Memory.onStage (indicator Place.counted) (tally_eq_zero fun t => rfl).symm ?_
  intro _ config t place before _ _ here
  have value := fresh tidy apart before t
  rw [here] at value
  cases place with
  | checkIn place =>
      cases place with
      | lockIn frames | unlockDoor frames | wakeStage frames | doorWait frames | stageWait frames => rfl
      | unlockFull frames | unlockIn frames | unlockAgain frames => exact counted_weight_returned t frames rfl
      | stageWrite frames stored =>
          intro after next effect
          cases effect
          simp only [Fresh] at value
          simp [indicator, Place.counted, Place.inSlot, value]
      | slotTest frames | doorTest frames | fullTest frames | stageTest frames =>
          intro after next effect
          cases effect
          split <;> simp [indicator, Place.counted, Place.inSlot]
      | takeSlot frames | stageRead frames =>
          intro after next effect
          cases effect
          simp [indicator, Place.counted, Place.inSlot]
  | checkOut place =>
      cases place with
      | lockOut | wakeDoor | unlockOut => rfl
      | outTest =>
          intro after next effect
          cases effect
          have one := band_eq_one tidy before (t := t) (by simp [Member, here, Place.inSlot])
          simp [one, indicator, Place.counted, Place.inSlot]
      | leaveWrite stored =>
          intro after next effect
          cases effect
          simp only [Fresh] at value
          simp [indicator, Place.counted, Place.inSlot, value]
      | freeSlot | leaveRead =>
          intro after next effect
          cases effect
          simp [indicator, Place.counted, Place.inSlot]
      | emptyTest =>
          intro after next effect
          cases effect
          split <;> simp [indicator, Place.counted, Place.inSlot]
  | play | playing =>
      intro after next effect
      cases effect
      simp [indicator, Place.counted, Place.inSlot]
  | done => trivial

/-- A stage with two friends has another friend than this one. -/
theorem exists_other (reached : Run (code kind) start allowed history config) {t : T} {value : Int}
    (here : config.status t = .ready (.checkOut (.leaveWrite value))) (populated : 2 ≤ config.memory.onStage) :
    ∃ other, other ≠ t ∧ (config.places other).counted = true := by
  have count := onStage_eq tidy apart reached
  have remaining : tally (indicator Place.counted) (config.setStatus t (.ready .done)) ≠ 0 := by
    rw [tally_setStatus, ← count]
    simp only [here, Status.place_ready]
    have mine : indicator Place.counted t (.checkOut (.leaveWrite value)) = 1 := rfl
    have gone : indicator Place.counted t .done = 0 := rfl
    omega
  obtain ⟨other, weight⟩ := exists_of_tally_ne_zero remaining
  by_cases hit : other = t
  · subst hit
    simp [indicator, Place.counted, Place.inSlot] at weight
  · rw [Config.setStatus_status, Function.update_of_ne hit] at weight
    exact ⟨other, hit, by simpa [Config.places, indicator] using weight⟩

/-- While no friend leaves, the stage is no fuller than the slots. -/
theorem onStage_le (reached : Run (code kind) start allowed history config)
    (nobody : ∀ t, (config.status t).place.leaving = false) :
    config.memory.onStage ≤ ∑ member, config.memory.band member := by
  rw [sum_band tidy reached, onStage_eq tidy apart reached]
  exact Finset.sum_le_sum fun t _ => counted_le_inSlot t (nobody t)

/-- While no friend leaves, at most three friends are on stage. -/
theorem onStage_le_three (reached : Run (code kind) start allowed history config)
    (nobody : ∀ t, (config.status t).place.leaving = false) : config.memory.onStage ≤ 3 := by
  have limit := onStage_le tidy apart reached nobody
  have drum := band_zero_or_one reached .drum
  have sing := band_zero_or_one reached .sing
  have guit := band_zero_or_one reached .guit
  rw [sum_kinds] at limit
  omega

/-- While no friend leaves, three friends on stage take every slot. -/
theorem band_eq_one_of_full (reached : Run (code kind) start allowed history config)
    (nobody : ∀ t, (config.status t).place.leaving = false) (complete : config.memory.onStage = 3)
    (member : Kind) :
    config.memory.band member = 1 := by
  have limit := onStage_le tidy apart reached nobody
  have drum := band_zero_or_one reached .drum
  have sing := band_zero_or_one reached .sing
  have guit := band_zero_or_one reached .guit
  rw [sum_kinds] at limit
  cases member <;> omega

end

/-- A slot that is taken is held by a friend of its kind. -/
theorem exists_member (reached : Run (code kind) start allowed history config) {member : Kind}
    (taken : config.memory.band member = 1) : ∃ t, kind t = member ∧ Member config t := by
  rw [band_eq tidy reached member] at taken
  obtain ⟨t, weight⟩ := exists_of_tally_ne_zero (by rw [taken]; decide)
  refine ⟨t, ?_⟩
  simpa [slotWeight, Member] using weight

end
end

end OSLabs.Band
