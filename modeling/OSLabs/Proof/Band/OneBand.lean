import OSLabs.Proof.Band.Stage

namespace OSLabs.Band
open Pthread

namespace Place

/-- The step neither enters nor leaves a stage of the life of a friend that matters to a band. -/
def continues (place next : Place) : Bool :=
  (!next.present || place.present) && next.checkedOut == place.checkedOut && (!next.arriving || place.arriving) &&
    (!next.admitted || place.admitted) && !place.isFullTest

end Place

/-- The side condition of the slots: no friend finds its slot free while an admitted band is open,
and the second unlock after a recursive call finds `lock` free. -/
def TakesTurns {T : Type} (kind : T → Kind) (history : History T Memory Place Mutex Cond) (config : State T)
    (t : T) : Prop :=
  ((config.status t).runs Place.isSlotTest = true → config.memory.band (kind t) ≠ 1 →
    ∀ band ∈ bands history, ∀ member, Member band member → CheckedOut config member) ∧
  Tidy config t

instance {T : Type} [Fintype T] [DecidableEq T] (kind : T → Kind) (history : History T Memory Place Mutex Cond)
    (config : State T) (t : T) : Decidable (TakesTurns kind history config t) :=
  inferInstanceAs (Decidable ((_ → _ → ∀ band ∈ bands history, ∀ _, _) ∧ (_ → _)))

/-- The bands take turns: an open band has the stage for itself, every admitted friend belongs to a band,
and a full stage belongs to an open band or is about to be tested. -/
structure InTurn {T : Type} (past : List (State T)) (places : T → Place) (onStage : Int) : Prop where
  closed : ∀ band ∈ past, ∀ member, Member band member → (places member).checkedOut = false →
    ∀ t, (places t).arriving = false ∧ ((places t).present = true → Member band t)
  admitted : ∀ t, (places t).admitted = true → ∃ band ∈ past, Member band t
  full : 3 ≤ onStage → (∃ t, (places t).isFullTest = true) ∨
    ∃ band ∈ past, ∃ member, Member band member ∧ (places member).checkedOut = false

/-- What one band at a time means in a configuration of a run. -/
structure OneBand {T : Type} (kind : T → Kind) (history : History T Memory Place Mutex Cond) (config : State T) :
    Prop where
  /-- A friend that starts playing belongs to every admitted band whose members have not all checked out. -/
  starts : ∀ t, config.status t = .ready .play → ∀ band ∈ bands history,
    Member band t ∨ ∀ member, Member band member → CheckedOut config member
  /-- Every admitted band has exactly one friend of each kind. -/
  complete : ∀ band ∈ bands history, ∀ member, ∃! t, kind t = member ∧ Member band t
  /-- At most one friend of each kind is playing. -/
  single : ∀ first second, Playing config first → Playing config second → kind first = kind second → first = second
  /-- The friends that are playing come from one admitted band. -/
  together : (∃ t, Playing config t) → ∃ band ∈ bands history, ∀ t, Playing config t → Member band t

section
variable {T : Type} {past : List (State T)} {places : T → Place} {onStage : Int}

/-- A friend that has been admitted belongs to an open band, and nobody else has the stage. -/
theorem InTurn.own (turn : InTurn past places onStage) {t : T} (admitted : (places t).admitted = true) :
    ∃ band ∈ past, Member band t ∧
      ∀ other, (places other).arriving = false ∧ ((places other).present = true → Member band other) := by
  obtain ⟨band, listed, member⟩ := turn.admitted t admitted
  exact ⟨band, listed, member, turn.closed band listed t member (Place.present_of_admitted admitted).2.1⟩

/-- While a friend arrives, nobody is admitted and every band has checked out. -/
theorem InTurn.idle (turn : InTurn past places onStage) {t : T} (arriving : (places t).arriving = true) :
    ∀ band ∈ past, ∀ member, Member band member → (places member).checkedOut = true := by
  intro band listed member belongs
  by_contra stays
  have free := (turn.closed band listed member belongs (by simpa using stays) t).1
  rw [arriving] at free
  cases free

/-- While every band has checked out, nobody leaves. -/
theorem InTurn.nobody_leaves (turn : InTurn past places onStage)
    (out : ∀ band ∈ past, ∀ member, Member band member → (places member).checkedOut = true) (t : T) :
    (places t).leaving = false := by
  by_contra leaves
  have admitted := Place.admitted_of_leaving (by simpa using leaves)
  obtain ⟨band, listed, belongs⟩ := turn.admitted t admitted
  have left := out band listed t belongs
  rw [(Place.present_of_admitted admitted).2.1] at left
  cases left

end

section
variable {T : Type} [DecidableEq T] {past : List (State T)} {places : T → Place} {onStage : Int}

/-- Most steps continue a stage of the life of a friend. -/
theorem InTurn.proceed (turn : InTurn past places onStage) {t : T} {next : Place}
    (continues : (places t).continues next = true) : InTurn past (Function.update places t next) onStage := by
  simp only [Place.continues, Bool.and_eq_true, Bool.not_eq_true', beq_iff_eq] at continues
  obtain ⟨⟨⟨⟨present, out⟩, arriving⟩, admitted⟩, notFull⟩ := continues
  constructor
  · intro band listed member belongs stays other
    rw [test_update Place.checkedOut out] at stays
    obtain ⟨away, inside⟩ := turn.closed band listed member belongs stays other
    exact ⟨update_eq_false Place.arriving arriving away, fun there =>
      inside (of_update Place.present present there)⟩
  · intro other there
    exact turn.admitted other (of_update Place.admitted admitted there)
  · intro complete
    rcases turn.full complete with tester | ⟨band, listed, member, belongs, stays⟩
    · exact .inl (exists_update Place.isFullTest (by simp [notFull]) tester)
    · exact .inr ⟨band, listed, member, belongs, by rwa [test_update Place.checkedOut out]⟩

/-- While every band has checked out, a new band may form. -/
theorem InTurn.form (turn : InTurn past places onStage) {t : T} {next : Place} {after : Int}
    (out : ∀ band ∈ past, ∀ member, Member band member → (places member).checkedOut = true)
    (same : next.checkedOut = (places t).checkedOut) (admitted : next.admitted = false)
    (full : 3 ≤ after → next.isFullTest = true ∨ 3 ≤ onStage ∧ (places t).isFullTest = false) :
    InTurn past (Function.update places t next) after := by
  constructor
  · intro band listed member belongs stays
    rw [test_update Place.checkedOut same, out band listed member belongs] at stays
    cases stays
  · intro other there
    exact turn.admitted other (of_update Place.admitted (by simp [admitted]) there)
  · intro complete
    left
    rcases full complete with mine | ⟨before, notMine⟩
    · exact ⟨t, by simpa using mine⟩
    · rcases turn.full before with tester | ⟨band, listed, member, belongs, stays⟩
      · exact exists_update Place.isFullTest (by simp [notMine]) tester
      · rw [out band listed member belongs] at stays
        cases stays

/-- The last friend of a band that arrives admits the friends with a slot. -/
theorem InTurn.admit (turn : InTurn past places onStage) {t : T} {next : Place} {band : State T}
    (arriving : (places t).arriving = true) (members : ∀ member, Member band member ↔
      (places member).inSlot = true)
    (alone : ∀ other, other ≠ t → (places other).arriving = false)
    (mine : Member band t) (nextIn : next.admitted = true) :
    InTurn (band :: past) (Function.update places t next) onStage := by
  have out := turn.idle arriving
  obtain ⟨_, stays, away⟩ := Place.present_of_admitted nextIn
  constructor
  · intro earlier listed member belongs remains other
    rcases List.mem_cons.mp listed with rfl | older
    · by_cases hit : other = t
      · subst hit
        simpa [away] using fun _ => mine
      · refine ⟨by simpa [Function.update_of_ne hit] using alone other hit, fun present => ?_⟩
        rw [Function.update_of_ne hit, Place.present, turn.nobody_leaves out other, Bool.or_false] at present
        exact (members other).mpr present
    · have left := out earlier older member belongs
      by_cases hit : member = t
      · rw [hit, Place.not_checkedOut_of_arriving arriving] at left
        cases left
      · rw [Function.update_of_ne hit, left] at remains
        cases remains
  · intro other there
    by_cases hit : other = t
    · exact ⟨band, .head _, hit ▸ mine⟩
    · rw [Function.update_of_ne hit] at there
      obtain ⟨earlier, listed, belongs⟩ := turn.admitted other there
      exact ⟨earlier, .tail _ listed, belongs⟩
  · intro _
    exact .inr ⟨band, .head _, t, mine, by simpa using stays⟩

/-- A friend that finds the stage full joins the open band. -/
theorem InTurn.join (turn : InTurn past places onStage) {t : T} {next : Place}
    (complete : 3 ≤ onStage) (tested : ∀ other, (places other).isFullTest = false)
    (present : (places t).present = true) (stays : next.checkedOut = (places t).checkedOut)
    (away : next.arriving = false) : InTurn past (Function.update places t next) onStage := by
  rcases turn.full complete with ⟨tester, tests⟩ | ⟨band, listed, member, belongs, remains⟩
  · rw [tested tester] at tests
    cases tests
  · have mine := (turn.closed band listed member belongs remains t).2 present
    constructor
    · intro earlier older someone included staying other
      rw [test_update Place.checkedOut stays] at staying
      have alone := turn.closed earlier older someone included staying
      by_cases hit : other = t
      · subst hit
        simpa [away] using fun _ => (alone other).2 present
      · simpa [Function.update_of_ne hit] using alone other
    · intro other there
      by_cases hit : other = t
      · exact ⟨band, listed, hit ▸ mine⟩
      · exact turn.admitted other (by simpa [Function.update_of_ne hit] using there)
    · intro _
      exact .inr ⟨band, listed, member, belongs, by rwa [test_update Place.checkedOut stays]⟩

/-- A friend that leaves the stage keeps its band open unless the stage is empty. -/
theorem InTurn.leave (turn : InTurn past places onStage) {t : T} {next : Place} {after : Int}
    (admitted : (places t).admitted = true) (away : next.arriving = false) (absent : next.present = false)
    (out : next.admitted = false)
    (populated : 3 ≤ after →
      ∃ other, other ≠ t ∧ (places other).present = true ∧ (places other).checkedOut = false) :
    InTurn past (Function.update places t next) after := by
  have kept : ∀ {member}, (Function.update places t next member).checkedOut = false →
      (places member).checkedOut = false := by
    intro member stays
    by_cases hit : member = t
    · rw [hit]
      exact (Place.present_of_admitted admitted).2.1
    · simpa [Function.update_of_ne hit] using stays
  constructor
  · intro band listed member belongs stays other
    have alone := turn.closed band listed member belongs (kept stays) other
    by_cases hit : other = t
    · subst hit
      simp [away, absent]
    · simpa [Function.update_of_ne hit] using alone
  · intro other there
    exact turn.admitted other (of_update Place.admitted (by simp [out]) there)
  · intro complete
    right
    obtain ⟨band, listed, _, alone⟩ := turn.own admitted
    obtain ⟨other, different, present, stays⟩ := populated complete
    exact ⟨band, listed, other, (alone other).2 present, by simpa [Function.update_of_ne different] using stays⟩

end

section
variable {T : Type} {kind : T → Kind} {history : History T Memory Place Mutex Cond} {config : State T}

@[simp] theorem bands_cons (t : T) :
    bands ((config, t) :: history) = if Admits config t then config :: bands history else bands history := by
  by_cases admits : Admits config t <;> simp [bands, admits]

/-- While the bands take turns, nobody arrives and leaves at the same time. -/
theorem InTurn.apart {past : List (State T)} (turn : InTurn past config.places config.memory.onStage) :
    Apart config := by
  apply apart_of_separate
  intro first second admitted
  obtain ⟨_, _, _, alone⟩ := turn.own admitted
  exact (alone second).1

/-- Only the test of a full stage adds a band. -/
theorem bands_of_not_fullTest {t : T} {place : Place} (here : config.status t = .ready place)
    (notFull : place.isFullTest = false) : bands ((config, t) :: history) = bands history := by
  simp [Admits, here, notFull]

/-- The side condition of the turns, and what it has kept so far. -/
def Orderly (kind : T → Kind) (history : History T Memory Place Mutex Cond) (config : State T) (t : T) : Prop :=
  TakesTurns kind history config t ∧ Apart config

theorem Orderly.tidy (history : History T Memory Place Mutex Cond) (config : State T) (t : T)
    (orderly : Orderly kind history config t) : Tidy config t := orderly.1.2

theorem Orderly.apart (history : History T Memory Place Mutex Cond) (config : State T) (t : T)
    (orderly : Orderly kind history config t) : Apart config := orderly.2

variable [DecidableEq T]

/-- A friend that stays where it is keeps the turns. -/
theorem InTurn.plain {t : T} {place next : Place}
    (turn : InTurn (bands history) config.places config.memory.onStage)
    (here : config.status t = .ready place) (continues : place.continues next = true) :
    InTurn (bands ((config, t) :: history)) (Function.update config.places t next) config.memory.onStage := by
  have notFull : place.isFullTest = false := by
    simp [Place.continues] at continues
    exact continues.2
  rw [bands_of_not_fullTest here notFull]
  exact turn.proceed (by rwa [Config.places_of_ready here])

variable [Fintype T]

section Moves
variable {t : T} {after : Memory} {next : Place} (before : Run (code kind) start (Orderly kind) history config)
  (turn : InTurn (bands history) config.places config.memory.onStage)
include before turn

/-- A friend that checks in keeps the turns. -/
theorem inTurn_checkIn {place : CheckIn} (orderly : Orderly kind history config t)
    (here : config.status t = .ready (.checkIn place))
    (effect : (code kind t (.checkIn place)).effect config.memory = some (after, next)) :
    InTurn (bands ((config, t) :: history)) (Function.update config.places t next) after.onStage := by
  have located := Config.places_of_ready here
  cases place with
  | lockIn frames | doorWait frames | stageWait frames | unlockDoor frames | wakeStage frames
  | stageRead frames =>
      cases effect
      exact turn.plain here rfl
  | unlockFull frames | unlockIn frames | unlockAgain frames =>
      cases effect
      cases frames <;> exact turn.plain here rfl
  | doorTest frames =>
      cases effect
      split <;> exact turn.plain here rfl
  | slotTest frames =>
      cases effect
      split
      · exact turn.plain here rfl
      · next free =>
          rw [bands_of_not_fullTest here rfl]
          have out := orderly.1.1 (by simp [here, Place.isSlotTest]) free
          exact turn.form out (by rw [located]; rfl) rfl fun complete => .inr ⟨complete, by rw [located]; rfl⟩
  | takeSlot frames =>
      cases effect
      rw [bands_of_not_fullTest here rfl]
      have out := turn.idle (t := t) (by rw [located]; rfl)
      exact turn.form out (by rw [located]; rfl) rfl fun complete => .inr ⟨complete, by rw [located]; rfl⟩
  | stageWrite frames value =>
      cases effect
      rw [bands_of_not_fullTest here rfl]
      have out := turn.idle (t := t) (by rw [located]; rfl)
      exact turn.form out (by rw [located]; rfl) rfl fun _ => .inl rfl
  | fullTest frames =>
      have arriving : (config.places t).arriving = true := by rw [located]; rfl
      have out := turn.idle arriving
      cases effect
      split
      · next complete =>
          rw [bands_cons, if_pos ⟨by simp [here, Place.isFullTest], complete⟩]
          refine turn.admit arriving (fun _ => Iff.rfl) (fun other different => ?_) ?_ rfl
          · exact not_arriving (owned Orderly.tidy before) (Band.located before) here rfl different
          · simp [Member, here, Place.inSlot]
      · next incomplete =>
          rw [bands_cons, if_neg (fun admits => incomplete admits.2)]
          refine turn.form out (by rw [located]; rfl) rfl fun full => ?_
          have limit := onStage_le_three Orderly.tidy Orderly.apart before (turn.nobody_leaves out)
          exact absurd (le_antisymm limit full) incomplete
  | stageTest frames =>
      cases effect
      split
      · exact turn.plain here rfl
      · next complete =>
          rw [bands_of_not_fullTest here rfl]
          exact turn.join (by omega) (not_isFullTest (owned Orderly.tidy before)
            (Band.located before) here rfl rfl)
            (by rw [located]; rfl) (by rw [located]; rfl) rfl

/-- A friend that checks out keeps the turns. -/
theorem inTurn_checkOut {place : CheckOut} (here : config.status t = .ready (.checkOut place))
    (effect : (code kind t (.checkOut place)).effect config.memory = some (after, next)) :
    InTurn (bands ((config, t) :: history)) (Function.update config.places t next) after.onStage := by
  have located := Config.places_of_ready here
  cases place with
  | lockOut | wakeDoor | unlockOut | freeSlot | leaveRead =>
      cases effect
      exact turn.plain here rfl
  | outTest =>
      have one := band_eq_one Orderly.tidy before (t := t) (by simp [Member, here, Place.inSlot])
      cases effect
      rw [if_pos one]
      exact turn.plain here rfl
  | leaveWrite value =>
      cases effect
      rw [bands_of_not_fullTest here rfl]
      refine turn.leave (by rw [located]; rfl) rfl rfl rfl fun complete => ?_
      have stored : value = config.memory.onStage := by
        simpa [here, Fresh] using fresh Orderly.tidy Orderly.apart before t
      obtain ⟨other, different, counted⟩ := exists_other Orderly.tidy Orderly.apart before here
        (by rw [← stored]; simp only at complete; omega)
      exact ⟨other, different, Place.present_of_counted counted⟩
  | emptyTest =>
      cases effect
      split <;> exact turn.plain here rfl

end Moves

theorem inTurn (reached : Run (code kind) start
    (fun history config t => TakesTurns kind history config t ∧ Apart config) history config) :
    InTurn (bands history) config.places config.memory.onStage := by
  refine Run.placed (fun history places memory => InTurn (bands history) places memory.onStage) ?_ ?_ ?_ reached
  · constructor
    · intro band listed
      cases listed
    · intro t admitted
      cases admitted
    · intro full
      cases full
  · intro history config t turn waits
    have quiet : ¬ Admits config t := by
      rintro ⟨runs, _⟩
      obtain ⟨place, here, _⟩ := (Status.runs_iff _ _).mp runs
      exact waits place here
    simpa [quiet] using turn
  · intro history config t place after next before turn permitted here effect
    cases place with
    | checkIn place => exact inTurn_checkIn before turn permitted here effect
    | checkOut place => exact inTurn_checkOut before turn here effect
    | play | playing =>
        cases effect
        exact turn.plain here rfl
    | done => cases effect

/-- Turns already keep the updates of `onStage` apart. -/
theorem run_apart (reached : Run (code kind) start (TakesTurns kind) history config) :
    Run (code kind) start (fun history config t => TakesTurns kind history config t ∧
      Apart config) history config :=
  reached.mono fun _ _ _ _ before permitted => ⟨permitted, (inTurn before).apart⟩

/-- A band is admitted with one friend of each kind. -/
theorem complete_of_mem_bands (reached : Run (code kind) start
    (fun history config t => TakesTurns kind history config t ∧ Apart config) history config)
    {band : State T} (listed : band ∈ bands history) (member : Kind) : ∃! t, kind t = member ∧ Member band t := by
  obtain ⟨⟨complete, last⟩, kept, rfl⟩ := List.mem_map.mp listed
  obtain ⟨entry, admits⟩ := List.mem_filter.mp kept
  obtain ⟨tests, three⟩ := of_decide_eq_true admits
  obtain ⟨earlier, before⟩ := reached.of_mem entry
  have tidy : ∀ history config t, TakesTurns kind history config t ∧ Apart config → Tidy config t :=
    fun _ _ _ permitted => permitted.1.2
  have turn := inTurn before
  obtain ⟨place, here, isFull⟩ := (Status.runs_iff _ _).mp tests
  have arriving : (complete.places last).arriving = true :=
    Place.arriving_of_isFullTest (by rw [Config.places, here]; exact isFull)
  have taken := band_eq_one_of_full tidy (fun _ _ _ permitted => permitted.2) before
    (turn.nobody_leaves (turn.idle arriving)) three member
  obtain ⟨t, same, belongs⟩ := exists_member tidy before taken
  refine ⟨t, ⟨same, belongs⟩, ?_⟩
  rintro other ⟨equal, also⟩
  exact inSlot_unique tidy before also belongs (equal.trans same.symm)

/-- In every run in which no friend takes a slot while an admitted band is open, one band plays at a time. -/
theorem one_band_at_a_time (reached : Run (code kind) start (TakesTurns kind) history config) :
    OneBand kind history config := by
  have run := run_apart reached
  have turn := inTurn run
  refine ⟨?_, fun band listed member => complete_of_mem_bands run listed member, ?_, ?_⟩
  · intro t here band listed
    by_cases out : ∀ member, Member band member → CheckedOut config member
    · exact .inr out
    · push Not at out
      obtain ⟨member, belongs, stays⟩ := out
      left
      refine (turn.closed band listed member belongs (by simpa [CheckedOut, Config.places] using stays) t).2 ?_
      rw [Config.places_of_ready here]
      rfl
  · intro first second firstPlays secondPlays
    apply inSlot_unique (fun _ _ _ permitted => permitted.1.2) run
    · rw [Member, firstPlays]
      rfl
    · rw [Member, secondPlays]
      rfl
  · rintro ⟨first, plays⟩
    obtain ⟨band, listed, _, alone⟩ := turn.own (by rw [Config.places_of_ready plays]; rfl)
    refine ⟨band, listed, fun t also => (alone t).2 ?_⟩
    rw [Config.places_of_ready also]
    rfl

end

/-- A drummer, a singer and a guitarist, and a second drummer. -/
def secondDrummer : Fin 4 → Kind
  | 1 => .sing
  | 2 => .guit
  | _ => .drum

/-- The second drummer waits at the door while the band plays. -/
theorem second_drummer_waits : ∃ history config,
    Run (code secondDrummer) start (TakesTurns secondDrummer) history config ∧ Playing config 2 ∧
      (config.status 3).isBlocked = true ∧ (bands history).length = 1 ∧
    OneBand secondDrummer history config := by
  obtain ⟨history, config, reached, holds⟩ := exists_run_history (code secondDrummer) start
    (TakesTurns secondDrummer) (turns 8 0 ++ turns 8 1 ++ turns 9 2 ++ turns 4 3)
    (fun history config => config.status 2 = .ready .playing && (config.status 3).isBlocked &&
      (bands history).length == 1) (by decide)
  simp only [Bool.and_eq_true, decide_eq_true_eq, beq_iff_eq] at holds
  exact ⟨history, config, reached, holds.1.1, holds.1.2, holds.2, one_band_at_a_time reached⟩

/-- The first drummer checks out while the others play, and the second drummer starts playing with them. -/
theorem second_drummer_joins : ∃ history config,
    Run (code secondDrummer) start (fun _ _ _ => True) history config ∧
      ¬ OneBand secondDrummer history config := by
  obtain ⟨history, config, reached, holds⟩ := exists_run_history (code secondDrummer) start (fun _ _ _ => True)
    (turns 8 0 ++ turns 8 1 ++ turns 9 2 ++ turns 4 0 ++ turns 4 1 ++ turns 6 0 ++ turns 8 3)
    (fun history config => config.status 3 = .ready .play &&
      decide (∃ band ∈ bands history, ¬ Member band 3 ∧ ∃ member, Member band member ∧ ¬ CheckedOut config member))
    (by decide)
  simp only [Bool.and_eq_true, decide_eq_true_eq] at holds
  obtain ⟨starts, band, listed, stranger, member, belongs, stays⟩ := holds
  refine ⟨history, config, reached, fun one => ?_⟩
  rcases one.starts 3 starts band listed with mine | out
  · exact stranger mine
  · exact stays (out member belongs)

end OSLabs.Band
