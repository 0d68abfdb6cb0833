import OSLabs.Proof.Band.Stage

namespace OSLabs.Band
open Pthread

namespace Place

/-- The friend waits on stage for its band. -/
def looping : Place → Bool
  | .checkIn (.stageTest _) | .checkIn (.stageWait _) => true
  | _ => false

/-- The friend has left the stage and is about to test whether it was the last one. -/
def isEmptyTest : Place → Bool
  | .checkOut .emptyTest => true
  | _ => false

/-- The friend has been admitted and has not yet tested whether it leaves an empty stage. -/
def performing (place : Place) : Bool := place.admitted || place.isEmptyTest

/-- The friend is about to wake the friends at the door. -/
def isWakeDoor : Place → Bool
  | .checkOut .wakeDoor => true
  | _ => false

/-- The friend has found its slot taken and is about to wait at the door. -/
def isDoorWait : Place → Bool
  | .checkIn (.doorWait _) => true
  | _ => false

/-- The friend has found its band incomplete and is about to wait on stage. -/
def isStageWait : Place → Bool
  | .checkIn (.stageWait _) => true
  | _ => false

/-- The friend performs or is about to wake the friends at the door. -/
def attends (place : Place) : Bool := place.performing || place.isWakeDoor

/-- The friend completes a band and has not yet woken the others. -/
def completes : Place → Bool
  | .checkIn (.fullTest _) | .checkIn (.wakeStage _) => true
  | _ => false

end Place

/-- The side condition of the friends. A friend takes a slot only while no friend performs.
A friend leaves the stage only after its whole band has left the loop on stage.
A friend wakes the door only while no friend is between its test and its wait there.
The second unlock after a recursive call finds `lock` free. -/
def Considerate {T : Type} (kind : T → Kind) (config : State T) (t : T) : Prop :=
  ((config.status t).runs Place.isSlotTest = true → config.memory.band (kind t) ≠ 1 →
    ∀ other, (config.status other).place.performing = false) ∧
  ((config.status t).runs Place.descends = true → ∀ other, (config.status other).place.looping = false) ∧
  ((config.status t).runs Place.isWakeDoor = true → ∀ other, (config.status other).runs Place.isDoorWait = false) ∧
  Tidy config t

instance {T : Type} [Fintype T] [DecidableEq T] (kind : T → Kind) (config : State T) (t : T) :
    Decidable (Considerate kind config t) :=
  inferInstanceAs (Decidable ((_ → _ → ∀ _, _) ∧ (_ → ∀ _, _) ∧ (_ → ∀ _, _) ∧ (_ → _)))

/-- Nobody arrives while a friend performs, and nobody waits on stage while a friend tests whether it is empty. -/
structure Separate {T : Type} (places : T → Place) : Prop where
  arrivals : ∀ first second, (places first).performing = true → (places second).arriving = false
  loops : ∀ first second, (places first).isEmptyTest = true → (places second).looping = false

theorem held_of_isStageWait (place : Place) (waits : place.isStageWait = true) : held place .lock = true := by
  cases place with
  | checkIn place => cases place <;> first | rfl | cases waits
  | _ => cases waits

section
variable {T : Type} [DecidableEq T] {places : T → Place} {t : T} {next : Place}

/-- A step that neither arrives nor starts to perform keeps both facts. -/
theorem Separate.proceed (separate : Separate places)
    (kept : ((!next.arriving || (places t).arriving) && (!next.performing || (places t).performing) &&
      (!next.looping || (places t).looping) && (!next.isEmptyTest || (places t).isEmptyTest)) = true) :
    Separate (Function.update places t next) := by
  simp only [Bool.and_eq_true] at kept
  obtain ⟨⟨⟨arrives, performs⟩, loops⟩, tests⟩ := kept
  constructor
  · intro first second performing
    apply update_eq_false Place.arriving arrives
    exact separate.arrivals first second (of_update Place.performing performs performing)
  · intro first second testing
    apply update_eq_false Place.looping loops
    exact separate.loops first second (of_update Place.isEmptyTest tests testing)

/-- While nobody performs, a friend may arrive or wait on stage. -/
theorem separate_of_nobody (nobody : ∀ other, (places other).performing = false) (idle : next.performing = false) :
    Separate (Function.update places t next) := by
  have still : ∀ other, (Function.update places t next other).performing = false := by
    intro other
    by_cases hit : other = t
    · subst hit
      simpa using idle
    · simpa [Function.update_of_ne hit] using nobody other
  constructor
  · intro first second performing
    rw [still first] at performing
    cases performing
  · intro first second testing
    have performs := still first
    rw [Place.performing, testing, Bool.or_true] at performs
    cases performs

/-- While nobody else arrives, a friend may start to perform. -/
theorem Separate.perform (separate : Separate places) (alone : ∀ other, other ≠ t →
    (places other).arriving = false)
    (away : next.arriving = false) (kept : (!next.looping || (places t).looping) = true)
    (tests : next.isEmptyTest = false) : Separate (Function.update places t next) := by
  constructor
  · intro first second _
    by_cases hit : second = t
    · subst hit
      simpa using away
    · simpa [Function.update_of_ne hit] using alone second hit
  · intro first second testing
    apply update_eq_false Place.looping kept
    exact separate.loops first second (of_update Place.isEmptyTest (by simp [tests]) testing)

/-- While nobody waits on stage, a friend that performs may leave. -/
theorem Separate.leave (separate : Separate places) (empty : ∀ other, (places other).looping = false)
    (performs : (places t).performing = true) (away : next.arriving = false) (gone : next.looping = false) :
    Separate (Function.update places t next) := by
  constructor
  · intro first second performing
    apply update_eq_false Place.arriving (by simp [away])
    exact separate.arrivals first second (of_update Place.performing (by simp [performs]) performing)
  · intro first second _
    exact update_eq_false Place.looping (by simp [gone]) (empty second)

end

section
variable {T : Type} {kind : T → Kind} {history : History T Memory Place Mutex Cond} {config : State T}

/-- A friend that arrives finds nobody who performs. -/
theorem Separate.nobody_performs {places : T → Place} (separate : Separate places) {t : T}
    (arriving : (places t).arriving = true) (other : T) : (places other).performing = false := by
  by_contra performs
  have away := separate.arrivals other t (by simpa using performs)
  rw [arriving] at away
  cases away

theorem Separate.nobody_admitted {places : T → Place} (separate : Separate places) {t : T}
    (arriving : (places t).arriving = true) (other : T) : (places other).admitted = false :=
  (Bool.or_eq_false_iff.mp (separate.nobody_performs arriving other)).1

theorem Separate.nobody_leaves {places : T → Place} (separate : Separate places) {t : T}
    (arriving : (places t).arriving = true) (other : T) : (places other).leaving = false := by
  by_contra leaves
  have outside := separate.nobody_admitted arriving other
  rw [Place.admitted_of_leaving (by simpa using leaves)] at outside
  cases outside

/-- Every step is tidy. -/
theorem tidy (_ : History T Memory Place Mutex Cond) (config : State T) (t : T)
    (permitted : Considerate kind config t ∧ Apart config) : Tidy config t := permitted.1.2.2.2

/-- Every step keeps the updates apart. -/
theorem apart (_ : History T Memory Place Mutex Cond) (config : State T) (t : T)
    (permitted : Considerate kind config t ∧ Apart config) : Apart config := permitted.2

variable [DecidableEq T] [Fintype T]

theorem separate (reached : Run (code kind) start (fun _ => Considerate kind) history config) :
    Separate config.places := by
  refine Run.placed (fun _ places _ => Separate places) ⟨fun _ _ performs => ?_, fun _ _ tests => ?_⟩ ?_ ?_ reached
  · cases performs
  · cases tests
  · intro _ _ _ separate _
    exact separate
  · intro history config t place after next before separate permitted here effect
    have located := Config.places_of_ready here
    have alone : held place .lock = true → ∀ other, other ≠ t → (config.places other).arriving = false :=
      fun holds other different => not_arriving (owned (fun _ _ _ permitted => permitted.2.2.2) before)
        (Band.located before) here holds different
    cases place with
    | checkIn place =>
        cases place with
        | lockIn frames | doorWait frames | stageWait frames | unlockDoor frames | wakeStage frames | takeSlot frames
        | stageRead frames | stageWrite frames value =>
            cases effect
            exact separate.proceed (by rw [located]; rfl)
        | unlockFull frames | unlockIn frames | unlockAgain frames =>
            cases effect
            cases frames <;> exact separate.proceed (by rw [located]; rfl)
        | doorTest frames =>
            cases effect
            split <;> exact separate.proceed (by rw [located]; rfl)
        | slotTest frames =>
            cases effect
            split
            · exact separate.proceed (by rw [located]; rfl)
            · next free => exact separate_of_nobody (permitted.1 (by simp [here, Place.isSlotTest]) free) rfl
        | fullTest frames =>
            cases effect
            split
            · exact separate.perform (alone rfl) rfl rfl rfl
            · exact separate_of_nobody (separate.nobody_performs (t := t) (by rw [located]; rfl)) rfl
        | stageTest frames =>
            cases effect
            split
            · exact separate.proceed (by rw [located]; rfl)
            · exact separate.perform (alone rfl) rfl rfl rfl
    | checkOut place =>
        cases place with
        | lockOut | wakeDoor | unlockOut | freeSlot | leaveRead =>
            cases effect
            exact separate.proceed (by rw [located]; rfl)
        | outTest =>
            have one := band_eq_one (fun _ _ _ permitted => permitted.2.2.2) before (t := t)
              (by simp [Member, here, Place.inSlot])
            cases effect
            rw [if_pos one]
            exact separate.proceed (by rw [located]; rfl)
        | leaveWrite value =>
            have empty := permitted.2.1 (by simp [here, Place.descends])
            cases effect
            exact separate.leave empty (by rw [located]; rfl) rfl rfl
        | emptyTest =>
            cases effect
            split <;> exact separate.proceed (by rw [located]; rfl)
    | play | playing =>
        cases effect
        exact separate.proceed (by rw [located]; rfl)
    | done => cases effect

/-- Considerate friends keep the updates of `onStage` apart. -/
theorem considerate_apart (reached : Run (code kind) start (fun _ => Considerate kind) history config) :
    Apart config := by
  apply apart_of_separate
  intro first second admitted
  exact (separate reached).arrivals first second (by rw [Place.performing, admitted, Bool.true_or])

/-- Considerate friends run with both side conditions of the stage. -/
theorem considerate_run (reached : Run (code kind) start (fun _ => Considerate kind) history config) :
    Run (code kind) start (fun _ config t => Considerate kind config t ∧ Apart config) history config :=
  reached.mono fun _ _ _ before _ permitted => ⟨permitted, considerate_apart before⟩

end

namespace Place

/-- The friend has been admitted, whether or not it has left again. -/
def gone (place : Place) : Bool := place.admitted || place.checkedOut

/-- The friend has taken a slot, whether or not it has left again. -/
def booked (place : Place) : Bool := place.present || place.checkedOut

end Place

/-- A friend of this kind that passes the test has weight one. -/
def kindWeight {T : Type} (kind : T → Kind) (test : Place → Bool) (member : Kind) (t : T) (place : Place) : Int :=
  if kind t = member && test place then 1 else 0

/-- The number of friends of this kind that pass the test. -/
def level {T : Type} [Fintype T] (kind : T → Kind) (test : Place → Bool) (places : T → Place) (member : Kind) :
    Int :=
  ∑ t, kindWeight kind test member t (places t)

/-- The kinds are even: a full stage belongs to friends that perform or is about to be tested.
While a friend is admitted, each kind has taken the same number of slots.
While no friend is admitted, each kind has played the same number of times. -/
structure Even {T : Type} [Fintype T] (kind : T → Kind) (places : T → Place) (onStage : Int) : Prop where
  full : 3 ≤ onStage → (∃ t, (places t).isFullTest = true) ∨ ∃ t, (places t).admitted = true
  taken : (∃ t, (places t).admitted = true) →
    ∀ first second, level kind Place.booked places first = level kind Place.booked places second
  played : (∀ t, (places t).admitted = false) →
    ∀ first second, level kind Place.gone places first = level kind Place.gone places second

section
variable {T : Type} [Fintype T] {kind : T → Kind} {places : T → Place} {onStage : Int} {t : T} {next : Place}

/-- The number of friends of a kind. -/
theorem sum_kind (member : Kind) :
    ∑ t, (if kind t = member then 1 else 0 : Int) = Fintype.card {t // kind t = member} := by
  rw [Fintype.card_subtype, Finset.natCast_card_filter]

/-- All friends of a kind pass the test. -/
theorem level_eq_card {test : Place → Bool} {member : Kind} (all : ∀ t, kind t = member → test (places t) = true) :
    level kind test places member = Fintype.card {t // kind t = member} := by
  rw [← sum_kind]
  refine Finset.sum_congr rfl fun t _ => ?_
  by_cases same : kind t = member
  · simp [kindWeight, same, all t same]
  · simp [kindWeight, same]

/-- One friend of a kind fails the test. -/
theorem level_lt_card {test : Place → Bool} (fails : test (places t) = false) :
    level kind test places (kind t) < Fintype.card {other // kind other = kind t} := by
  rw [← sum_kind]
  refine Finset.sum_lt_sum (fun other _ => ?_) ⟨t, Finset.mem_univ t, ?_⟩
  · by_cases same : kind other = kind t <;> cases passes : test (places other) <;> simp [kindWeight, same, passes]
  · simp [kindWeight, fails]

/-- While nobody is admitted, a friend with a slot has not played yet. -/
theorem level_booked (nobody : ∀ other, (places other).admitted = false) (member : Kind) :
    level kind Place.booked places member =
      level kind Place.gone places member + ∑ other, slotWeight kind member other (places other) := by
  rw [level, level, ← Finset.sum_add_distrib]
  refine Finset.sum_congr rfl fun other _ => ?_
  have outside := nobody other
  have split : (places other).booked = ((places other).gone || (places other).inSlot) ∧
      ((places other).gone && (places other).inSlot) = false := by
    cases place : places other with
    | checkIn place' => rw [place] at outside; cases place' <;> first | cases outside; done | exact ⟨rfl, rfl⟩
    | checkOut place' => rw [place] at outside; cases place' <;> first | cases outside; done | exact ⟨rfl, rfl⟩
    | play | playing => rw [place] at outside; cases outside
    | done => exact ⟨rfl, rfl⟩
  obtain ⟨union, disjoint⟩ := split
  simp only [kindWeight, slotWeight, union]
  cases gone : (places other).gone <;> cases slot : (places other).inSlot <;> simp_all

variable [DecidableEq T]

theorem level_update {test : Place → Bool} (same : test next = test (places t)) (member : Kind) :
    level kind test (Function.update places t next) member = level kind test places member := by
  rw [level, sum_update]
  simp only [kindWeight, same, level]
  omega

/-- A step that changes no number keeps the kinds even. -/
theorem Even.change (even : Even kind places onStage) {after : Int}
    (same : (next.booked == (places t).booked && next.gone == (places t).gone &&
      next.admitted == (places t).admitted) = true)
    (full : 3 ≤ after → (∃ other, (Function.update places t next other).isFullTest = true) ∨
      ∃ other, (places other).admitted = true) : Even kind (Function.update places t next) after := by
  simp only [Bool.and_eq_true, beq_iff_eq] at same
  obtain ⟨⟨booked, gone⟩, admitted⟩ := same
  constructor
  · intro complete
    rcases full complete with tester | ⟨other, there⟩
    · exact .inl tester
    · exact .inr ⟨other, by rwa [test_update Place.admitted admitted]⟩
  · rintro ⟨other, there⟩ first second
    rw [test_update Place.admitted admitted] at there
    rw [level_update booked, level_update booked]
    exact even.taken ⟨other, there⟩ first second
  · intro nobody first second
    rw [level_update gone, level_update gone]
    refine even.played (fun other => ?_) first second
    rw [← test_update Place.admitted admitted other]
    exact nobody other

/-- A friend that was not testing leaves the other tests in place. -/
theorem Even.full_update (even : Even kind places onStage) (notFull : (places t).isFullTest = false)
    (complete : 3 ≤ onStage) : (∃ other, (Function.update places t next other).isFullTest = true) ∨
      ∃ other, (places other).admitted = true := by
  rcases even.full complete with tester | admitted
  · exact .inl (exists_update Place.isFullTest (by simp [notFull]) tester)
  · exact .inr admitted

/-- A friend may take a slot while nobody is admitted. -/
theorem Even.take (even : Even kind places onStage) (nobody : ∀ other, (places other).admitted = false)
    (notFull : (places t).isFullTest = false) (gone : next.gone = (places t).gone)
    (outside : next.admitted = false) : Even kind (Function.update places t next) onStage := by
  have still : ∀ other, (Function.update places t next other).admitted = false :=
    fun other => update_eq_false Place.admitted (by simp [outside]) (nobody other)
  constructor
  · intro complete
    rcases even.full_update notFull complete with tester | ⟨other, there⟩
    · exact .inl tester
    · rw [nobody other] at there
      cases there
  · rintro ⟨other, there⟩
    rw [still other] at there
    cases there
  · intro _ first second
    rw [level_update gone, level_update gone]
    exact even.played nobody first second

/-- A friend may be admitted while each kind has taken the same number of slots. -/
theorem even_of_admitted {after : Int} (inside : next.admitted = true) (booked : next.booked = (places t).booked)
    (taken : ∀ first second, level kind Place.booked places first = level kind Place.booked places second) :
    Even kind (Function.update places t next) after := by
  have mine : (Function.update places t next t).admitted = true := by simpa using inside
  constructor
  · exact fun _ => .inr ⟨t, mine⟩
  · intro _ first second
    rw [level_update booked, level_update booked]
    exact taken first second
  · intro nobody
    rw [nobody t] at mine
    cases mine

/-- A friend that is admitted may leave while nobody with a slot is left behind. -/
theorem Even.leave (even : Even kind places onStage) {after : Int} (inside : (places t).admitted = true)
    (same : next.booked = (places t).booked ∧ next.gone = (places t).gone)
    (together : ∀ other, (places other).booked = (places other).gone)
    (populated : 3 ≤ after → ∃ other, other ≠ t ∧ (places other).admitted = true) :
    Even kind (Function.update places t next) after := by
  obtain ⟨booked, gone⟩ := same
  have taken := even.taken ⟨t, inside⟩
  constructor
  · intro complete
    obtain ⟨other, different, there⟩ := populated complete
    exact .inr ⟨other, by rwa [Function.update_of_ne different]⟩
  · intro _ first second
    rw [level_update booked, level_update booked]
    exact taken first second
  · intro _ first second
    have counted : ∀ member, level kind Place.gone places member = level kind Place.booked places member := by
      intro member
      refine Finset.sum_congr rfl fun other _ => ?_
      simp only [kindWeight, together other]
    rw [level_update gone, level_update gone, counted, counted]
    exact taken first second

end

/-- A friend decides to wait on stage only while its band is incomplete,
and at the door only while its slot is taken. -/
theorem effect_wait {T : Type} {kind : T → Kind} {t : T} {place next : Place} {memory after : Memory}
    (effect : (code kind t place).effect memory = some (after, next)) :
    (next.isStageWait = true → memory = after ∧ memory.onStage < 3) ∧
      (next.isDoorWait = true → memory = after ∧ memory.band (kind t) = 1) := by
  cases place with
  | checkIn place =>
      cases place with
      | stageTest frames =>
          cases effect
          split
          · next incomplete => exact ⟨fun _ => ⟨rfl, incomplete⟩, nofun⟩
          · exact ⟨nofun, nofun⟩
      | doorTest frames =>
          cases effect
          split
          · next taken => exact ⟨nofun, fun _ => ⟨rfl, taken⟩⟩
          · exact ⟨nofun, nofun⟩
      | unlockFull frames | unlockIn frames | unlockAgain frames =>
          cases effect
          cases frames <;> exact ⟨nofun, nofun⟩
      | slotTest frames | fullTest frames =>
          cases effect
          split <;> exact ⟨nofun, nofun⟩
      | _ => cases effect; exact ⟨nofun, nofun⟩
  | checkOut place =>
      cases place with
      | outTest | emptyTest =>
          cases effect
          split <;> exact ⟨nofun, nofun⟩
      | _ => cases effect; exact ⟨nofun, nofun⟩
  | play | playing => cases effect; exact ⟨nofun, nofun⟩
  | done => cases effect

section
variable {T : Type} [DecidableEq T] [Fintype T] {kind : T → Kind} {history : History T Memory Place Mutex Cond}
  {config : State T}

/-- A friend that holds a slot and neither arrives nor waits on stage has been admitted. -/
theorem Place.booked_eq_gone {place : Place} (settled : place.arriving = false) (left : place.looping = false) :
    place.booked = place.gone := by
  cases place with
  | checkIn place => cases place <;> first | rfl | cases settled; done | cases left
  | checkOut place => cases place <;> rfl
  | _ => rfl

theorem Place.admitted_of_counted {place : Place} (counted : place.counted = true)
    (settled : place.arriving = false)
    (left : place.looping = false) : place.admitted = true := by
  cases place with
  | checkIn place => cases place <;> first | rfl | cases settled; done | cases left; done | cases counted
  | checkOut place => cases place <;> first | rfl | cases counted
  | play | playing => rfl
  | done => cases counted

theorem even
    (reached : Run (code kind) start (fun _ config t => Considerate kind config t ∧ Apart config) history config) :
    Even kind config.places config.memory.onStage := by
  refine Run.placed (fun _ places memory => Even kind places memory.onStage) ⟨?_, ?_, ?_⟩ ?_ ?_ reached
  · intro full
    cases full
  · rintro ⟨t, admitted⟩
    cases admitted
  · intro _ first second
    have zero : ∀ member, level kind Place.gone (start : State T).places member = 0 := by
      intro member
      refine Finset.sum_eq_zero fun t _ => ?_
      simp [kindWeight, start, Config.places, Place.gone, Place.admitted, Place.checkedOut]
    rw [zero, zero]
  · intro _ _ _ even _
    exact even
  · intro history config t place after next before even permitted here effect
    have located := Config.places_of_ready here
    have separate := separate (before.mono fun _ _ _ _ _ permitted => permitted.1)
    have plain : ∀ {following : Place}, (following.booked == place.booked && following.gone == place.gone &&
        following.admitted == place.admitted && !place.isFullTest) = true →
        Even kind (Function.update config.places t following) config.memory.onStage := by
      intro following same
      rw [← located, Bool.and_eq_true, Bool.not_eq_true'] at same
      exact even.change same.1 (even.full_update same.2)
    have idle : place.arriving = true → ∀ other, (config.places other).admitted = false :=
      fun arriving => separate.nobody_admitted (t := t) (by rwa [located])
    cases place with
    | checkIn place =>
        cases place with
        | lockIn frames | doorWait frames | stageWait frames | unlockDoor frames | wakeStage frames
        | stageRead frames =>
            cases effect
            exact plain rfl
        | unlockFull frames | unlockIn frames | unlockAgain frames =>
            cases effect
            cases frames <;> exact plain rfl
        | slotTest frames | doorTest frames =>
            cases effect
            split <;> exact plain rfl
        | takeSlot frames =>
            cases effect
            exact even.take (idle rfl) (by rw [located]; rfl) (by rw [located]; rfl) rfl
        | stageWrite frames value =>
            cases effect
            refine even.change (by rw [located]; rfl) fun _ => .inl ⟨t, ?_⟩
            rw [Function.update_self]
            rfl
        | fullTest frames =>
            have nobody := idle rfl
            have stays := separate.nobody_leaves (t := t) (by rw [located]; rfl)
            cases effect
            split
            · next complete =>
                refine even_of_admitted rfl (by rw [located]; rfl) fun first second => ?_
                have slot : ∀ member, ∑ other, slotWeight kind member other (config.places other) = 1 := by
                  intro member
                  rw [← band_eq_one_of_full tidy apart before stays complete member]
                  exact (band_eq tidy before member).symm
                rw [level_booked nobody, level_booked nobody, slot, slot, even.played nobody first second]
            · next incomplete =>
                refine even.change (by rw [located]; rfl) fun full => ?_
                exact absurd (le_antisymm (onStage_le_three tidy apart before stays) full) incomplete
        | stageTest frames =>
            cases effect
            split
            · exact plain rfl
            · next complete =>
                refine even_of_admitted rfl (by rw [located]; rfl) (even.taken ?_)
                rcases even.full (by omega) with ⟨tester, tests⟩ | admitted
                · rw [not_isFullTest (owned tidy before) (Band.located before) here rfl rfl tester] at tests
                  cases tests
                · exact admitted
    | checkOut place =>
        cases place with
        | lockOut | wakeDoor | unlockOut | freeSlot | leaveRead =>
            cases effect
            exact plain rfl
        | outTest =>
            have one := band_eq_one tidy before (t := t) (by simp [Member, here, Place.inSlot])
            cases effect
            rw [if_pos one]
            exact plain rfl
        | leaveWrite value =>
            have empty := permitted.1.2.1 (by simp [here, Place.descends])
            have settled := fun other => separate.arrivals t other (by rw [located]; rfl)
            cases effect
            refine even.leave (by rw [located]; rfl) (by rw [located]; exact ⟨rfl, rfl⟩)
              (fun other => Place.booked_eq_gone (settled other) (empty other)) fun complete => ?_
            have stored : value = config.memory.onStage := by
              simpa [here, Fresh] using fresh tidy apart before t
            obtain ⟨other, different, counted⟩ := exists_other tidy apart before here
              (by rw [← stored]; simp only at complete; omega)
            exact ⟨other, different, Place.admitted_of_counted counted (settled other) (empty other)⟩
        | emptyTest =>
            cases effect
            split <;> exact plain rfl
    | play | playing =>
        cases effect
        exact plain rfl
    | done => cases effect

/-- A friend that was woken continues at its test. -/
theorem resumed_test {allowed : History T Memory Place Mutex Cond → State T → T → Prop}
    (reached : Run (code kind) start allowed history config) {t : T} {mutex : Mutex} {place : Place}
    (woken : config.status t = .woken mutex place) : place.isStageWait = false ∧ place.isDoorWait = false := by
  have waits := located reached t
  simp only [woken, Located] at waits
  cases place with
  | checkIn place => cases place <;> first | exact ⟨rfl, rfl⟩ | cases waits
  | _ => exact ⟨rfl, rfl⟩

/-- A friend waits on stage only while its band is incomplete or its last member has not yet woken the others. -/
theorem stage_attended
    (reached : Run (code kind) start (fun _ config t => Considerate kind config t ∧ Apart config) history config)
    {t : T} (awaits : (config.status t).awaits .stageManager Place.isStageWait = true) :
    config.memory.onStage ≤ 2 ∨ ∃ other, (config.places other).completes = true := by
  refine reached.awaited .stageManager Place.isStageWait
    (fun _ places memory => memory.onStage ≤ 2 ∨ ∃ other, (places other).completes = true)
    (fun _ => rfl) ?_ ?_ ?_ ?_ t awaits
  · intro _ _ _ _ _ before woken
    exact (resumed_test before woken).1
  · intro t place mutex next waits
    cases place with
    | checkIn place => cases place <;> cases waits; rfl
    | checkOut place => cases place <;> cases waits
    | _ => cases waits
  · intro history config t place after next before permitted here effect entering
    obtain ⟨rfl, incomplete⟩ := (effect_wait effect).1 entering
    exact .inl (by omega)
  · intro history config t place after next waiter before permitted here effect awaits woken attended
    have located := Config.places_of_ready here
    have separate := separate (before.mono fun _ _ _ _ _ permitted => permitted.1)
    have kept : ∀ {memory : Memory}, memory.onStage ≤ config.memory.onStage → place.completes = false →
        memory.onStage ≤ 2 ∨ ∃ other, (Function.update config.places t next other).completes = true := by
      intro memory fewer outside
      exact or_exists_update Place.completes attended (fun _ => by omega) (by rw [located, outside])
    cases place with
    | checkIn place =>
        cases place with
        | stageWrite frames value =>
            cases effect
            exact .inr ⟨t, by rw [Function.update_self]; rfl⟩
        | fullTest frames =>
            cases effect
            by_cases complete : config.memory.onStage = 3
            · exact .inr ⟨t, by rw [Function.update_self, if_pos complete]; rfl⟩
            · have limit := onStage_le_three tidy apart before
                (separate.nobody_leaves (t := t) (by rw [located]; rfl))
              exact .inl (by omega)
        | wakeStage frames =>
            have runs := woken (by cases effect; rfl)
            rw [(owned tidy before).runs_eq_false here held_of_isStageWait rfl rfl] at runs
            cases runs
        | _ =>
            cases effect
            exact kept le_rfl rfl
    | checkOut place =>
        cases place with
        | leaveWrite value =>
            have stored : value = config.memory.onStage := by
              simpa [here, Fresh] using fresh tidy apart before t
            have fewer : value - 1 ≤ config.memory.onStage := by omega
            cases effect
            exact kept fewer rfl
        | _ =>
            cases effect
            exact kept le_rfl rfl
    | play | playing =>
        cases effect
        exact kept le_rfl rfl
    | done => cases effect

/-- A friend waits at the door only while its slot is taken or a friend will wake the door. -/
theorem door_attended
    (reached : Run (code kind) start (fun _ config t => Considerate kind config t ∧ Apart config) history config)
    {t : T} (awaits : (config.status t).awaits .doorManager Place.isDoorWait = true) :
    config.memory.band (kind t) = 1 ∨ ∃ other, (config.places other).attends = true := by
  refine reached.awaited .doorManager Place.isDoorWait
    (fun waiter places memory => memory.band (kind waiter) = 1 ∨ ∃ other, (places other).attends = true)
    (fun _ => rfl) ?_ ?_ ?_ ?_ t awaits
  · intro _ _ _ _ _ before woken
    exact (resumed_test before woken).2
  · intro t place mutex next waits
    cases place with
    | checkIn place => cases place <;> cases waits; rfl
    | checkOut place => cases place <;> cases waits
    | _ => cases waits
  · intro history config t place after next before permitted here effect entering
    obtain ⟨rfl, taken⟩ := (effect_wait effect).2 entering
    exact .inl taken
  · intro history config t place after next waiter before permitted here effect awaits woken attended
    have located := Config.places_of_ready here
    have separate := separate (before.mono fun _ _ _ _ _ permitted => permitted.1)
    have mine : next.attends = true →
        after.band (kind waiter) = 1 ∨ ∃ other, (Function.update config.places t next other).attends = true :=
      fun attends => .inr ⟨t, by rwa [Function.update_self]⟩
    have kept : after.band (kind waiter) = config.memory.band (kind waiter) → place.attends = false →
        after.band (kind waiter) = 1 ∨ ∃ other, (Function.update config.places t next other).attends = true := by
      intro same outside
      exact or_exists_update Place.attends attended same.trans (by rw [located, outside])
    cases place with
    | checkIn place =>
        cases place with
        | takeSlot frames =>
            cases effect
            by_cases same : kind waiter = kind t
            · exact .inl (by simp [same])
            · exact kept (by simp [Function.update_of_ne same]) rfl
        | wakeStage frames =>
            cases effect
            exact mine rfl
        | unlockFull frames | unlockIn frames | unlockAgain frames =>
            cases effect
            cases frames <;> exact mine rfl
        | _ =>
            cases effect
            exact kept rfl rfl
    | checkOut place =>
        cases place with
        | lockOut | freeSlot | leaveRead | leaveWrite value =>
            cases effect
            exact mine rfl
        | outTest =>
            cases effect
            exact mine (by split <;> rfl)
        | emptyTest =>
            cases effect
            by_cases zero : config.memory.onStage = 0
            · exact mine (by rw [if_pos zero]; rfl)
            · rw [onStage_eq tidy apart before] at zero
              obtain ⟨other, weight⟩ := exists_of_tally_ne_zero zero
              have admitted : (config.places other).admitted = true :=
                Place.admitted_of_counted (by simpa [Config.places, indicator] using weight)
                  (separate.arrivals t other (by rw [located]; rfl))
                    (separate.loops t other (by rw [located]; rfl))
              have different : other ≠ t := by
                rintro rfl
                rw [located] at admitted
                cases admitted
              refine .inr ⟨other, ?_⟩
              rw [Function.update_of_ne different, Place.attends, Place.performing, admitted]
              rfl
        | wakeDoor =>
            have runs := woken (by cases effect; rfl)
            rw [permitted.1.2.2.1 (by simp [here, Place.isWakeDoor]) waiter] at runs
            cases runs
        | unlockOut =>
            cases effect
            exact kept rfl rfl
    | play | playing =>
        cases effect
        exact mine rfl
    | done => cases effect

/-- In a stalled configuration a friend has returned, waits at the door, or waits on stage. -/
theorem place_of_stalled {allowed : History T Memory Place Mutex Cond → State T → T → Prop}
    (reached : Run (code kind) start allowed history config) (stalled : Stalled (code kind) config) (t : T) :
    config.status t = .ready .done ∨
      (∃ mutex frames, config.status t = .blocked .doorManager mutex (.checkIn (.doorTest frames))) ∨
      ∃ mutex frames, config.status t = .blocked .stageManager mutex (.checkIn (.stageTest frames)) := by
  have waits := located reached t
  cases status : config.status t with
  | ready place =>
      have exits := stalled.exits status
      cases place with
      | checkIn place => cases place <;> cases exits
      | checkOut place => cases place <;> cases exits
      | play | playing => cases exits
      | done => exact .inl rfl
  | woken mutex place => exact absurd status stalled.not_woken
  | blocked cond mutex place =>
      simp only [status, Located] at waits
      cases place with
      | checkIn place =>
          cases place with
          | doorTest frames =>
              cases waits
              exact .inr (.inl ⟨mutex, frames, rfl⟩)
          | stageTest frames =>
              cases waits
              exact .inr (.inr ⟨mutex, frames, rfl⟩)
          | _ => cases waits
      | _ => cases waits

section
variable (run : Run (code kind) start (fun _ config t => Considerate kind config t ∧ Apart config) history config)
  (stalled : Stalled (code kind) config)
include run stalled

/-- In a stalled configuration nobody performs and nobody wakes another friend. -/
theorem rest_of_stalled (t : T) : (config.places t).admitted = false ∧ (config.places t).attends = false ∧
    (config.places t).completes = false ∧ (config.places t).counted = (config.places t).inSlot := by
  rw [Config.places]
  rcases place_of_stalled run stalled t with here | ⟨mutex, frames, here⟩ | ⟨mutex, frames, here⟩ <;> rw [here] <;>
    exact ⟨rfl, rfl, rfl, rfl⟩

/-- A friend that waits at the door for ever finds its slot taken for ever. -/
theorem band_eq_one_of_stalled {t : T} {mutex : Mutex} {frames : Nat}
    (here : config.status t = .blocked .doorManager mutex (.checkIn (.doorTest frames))) :
    config.memory.band (kind t) = 1 := by
  rcases door_attended run (t := t) (by rw [here]; rfl) with taken | ⟨other, attends⟩
  · exact taken
  · rw [(rest_of_stalled run stalled other).2.1] at attends
    cases attends

/-- Somebody waits on stage. -/
theorem exists_member_of_stalled : ∃ t, Member config t := by
  obtain ⟨t, blocked⟩ := stalled.exists_blocked
  rcases place_of_stalled run stalled t with here | ⟨mutex, frames, here⟩ | ⟨mutex, frames, here⟩
  · rw [here] at blocked
    cases blocked
  · have taken := band_eq_one_of_stalled run stalled here
    obtain ⟨other, _, belongs⟩ := exists_member tidy run taken
    exact ⟨other, belongs⟩
  · exact ⟨t, by rw [Member, here]; rfl⟩

/-- The friends on stage leave a slot free. -/
theorem exists_free_of_stalled : ∃ member, config.memory.band member = 0 := by
  obtain ⟨t, belongs⟩ := exists_member_of_stalled run stalled
  have incomplete : config.memory.onStage ≤ 2 := by
    rcases place_of_stalled run stalled t with here | ⟨mutex, frames, here⟩ | ⟨mutex, frames, here⟩
    · rw [Member, here] at belongs
      cases belongs
    · rw [Member, here] at belongs
      cases belongs
    · rcases stage_attended run (t := t) (by rw [here]; rfl) with few | ⟨other, completes⟩
      · exact few
      · rw [(rest_of_stalled run stalled other).2.2.1] at completes
        cases completes
  have count : config.memory.onStage = ∑ member, config.memory.band member := by
    rw [onStage_eq tidy apart run,
      sum_band tidy run]
    refine Finset.sum_congr rfl fun other _ => ?_
    have same := (rest_of_stalled run stalled other).2.2.2
    rw [Config.places] at same
    simp only [indicator, same]
  by_contra none
  push Not at none
  have full : ∀ member, config.memory.band member = 1 :=
    fun member => (band_zero_or_one run member).resolve_left (none member)
  rw [count, sum_kinds, full, full, full] at incomplete
  omega

end

/-- With equal numbers of each kind, considerate friends never stall. -/
theorem not_stalled_of_considerate
    (equal : ∀ first second, Fintype.card {t // kind t = first} = Fintype.card {t // kind t = second})
    (reached : Run (code kind) start (fun _ => Considerate kind) history config) :
    ¬ Stalled (code kind) config := by
  intro stalled
  have run := considerate_run reached
  obtain ⟨member, free⟩ := exists_free_of_stalled run stalled
  obtain ⟨waiting, belongs⟩ := exists_member_of_stalled run stalled
  have played := (even run).played (fun t => (rest_of_stalled run stalled t).1) member (kind waiting)
  have finished : ∀ t, kind t = member → (config.places t).gone = true := by
    rintro t rfl
    rw [Config.places]
    rcases place_of_stalled run stalled t with here | ⟨mutex, frames, here⟩ | ⟨mutex, frames, here⟩
    · rw [here]
      rfl
    · rw [band_eq_one_of_stalled run stalled here] at free
      cases free
    · rw [band_eq_one tidy run (t := t) (by rw [Member, here]; rfl)] at free
      cases free
  have stays : (config.places waiting).gone = false := by
    rw [Config.places]
    rcases place_of_stalled run stalled waiting with here | ⟨mutex, frames, here⟩ | ⟨mutex, frames, here⟩
    · rw [Member, here] at belongs
      cases belongs
    · rw [here]
      rfl
    · rw [here]
      rfl
  have all : level kind Place.gone config.places member = _ := level_eq_card finished
  have fewer : level kind Place.gone config.places (kind waiting) < _ := level_lt_card stays
  have same := equal member (kind waiting)
  omega

end

/-- One drummer, one singer and one guitarist. -/
def trio : Fin 3 → Kind
  | 0 => .drum
  | 1 => .sing
  | 2 => .guit

theorem trio_equal (first second : Kind) :
    Fintype.card {t // trio t = first} = Fintype.card {t // trio t = second} := by
  cases first <;> cases second <;> decide

/-- The drummer and the singer leave the loop on stage before the guitarist checks out. -/
theorem considerate_trio :
    (∀ first second, Fintype.card {t // trio t = first} = Fintype.card {t // trio t = second}) ∧
    ∃ history config, Run (code trio) start (fun _ => Considerate trio) history config ∧
      config.status 0 = .ready .play ∧ config.status 2 = .ready .done ∧ ¬ Stalled (code trio) config := by
  refine ⟨trio_equal, ?_⟩
  obtain ⟨history, config, reached, holds⟩ := exists_run (code trio) start (fun _ => Considerate trio)
    (turns 8 0 ++ turns 8 1 ++ turns 8 2 ++ turns 3 0 ++ turns 3 1 ++ turns 9 2)
    (fun config => config.status 0 = .ready .play && config.status 2 = .ready .done) (by decide)
  simp only [Bool.and_eq_true, decide_eq_true_eq] at holds
  exact ⟨history, config, reached, holds.1, holds.2, not_stalled_of_considerate trio_equal reached⟩

/-- The guitarist checks out before the drummer and the singer leave the loop on stage,
and then both wait for ever. -/
theorem trio_stalls :
    (∀ first second, Fintype.card {t // trio t = first} = Fintype.card {t // trio t = second}) ∧
    ∃ config, Reachable (code trio) start config ∧ Stalled (code trio) config := by
  refine ⟨trio_equal, ?_⟩
  obtain ⟨config, reached, stalled⟩ := exists_reachable (code trio) start
    (turns 8 0 ++ turns 8 1 ++ turns 17 2 ++ turns 3 0 ++ turns 3 1)
    (fun config => Stalled (code trio) config) (by decide)
  exact ⟨config, reached, by simpa using stalled⟩

end OSLabs.Band
