import OSLabs.Proof.LittleRedHen.Bread

namespace OSLabs.LittleRedHen
open Pthread

namespace Place

/-- The animal is about to signal the hen. -/
def complains : Place → Bool
  | .animal (.signalBaking _) => true
  | _ => false

/-- The hen has seen bread and is about to wait. -/
def naps : Place → Bool
  | .hen (.condWait _) => true
  | _ => false

/-- The hen has baked and is about to signal the animals. -/
def serves : Place → Bool
  | .hen (.signalEating _) => true
  | _ => false

/-- The animal has seen no bread and is about to wait. -/
def begs : Place → Bool
  | .animal (.condBread _) => true
  | _ => false

/-- The animal has signaled the hen and has not yet seen bread. -/
def hopes : Place → Bool
  | .animal (.breadTest _) | .animal (.condBread _) => true
  | _ => false

/-- The animal is about to start eating or to signal the next animal. -/
def relays : Place → Bool
  | .animal (.stayTest _) | .animal (.startEating _) | .animal (.signalStay _) => true
  | _ => false

end Place

/-- The hen waits or is about to wait. -/
def sleeps (status : Status Place Mutex Cond) : Bool := status.isBlocked || status.runs Place.naps

/-- The animal waits for bread or is about to wait for it. -/
def starves (status : Status Place Mutex Cond) : Bool := status.blockedOn .eatingBread || status.runs Place.begs

/-- The animal will start eating or signal the next animal. -/
def roused (status : Status Place Mutex Cond) : Bool := !status.isBlocked && status.place.relays

/-- The side condition of the signals: no animal signals the hen between her test and her wait,
and the hen signals no animal between its test and its wait. -/
def Heeded {A : Type} (config : State A) (t : Option A) : Prop :=
  ((config.status t).runs Place.complains = true → (config.status none).runs Place.naps = false) ∧
    ((config.status t).runs Place.serves = true → ∀ other, (config.status other).runs Place.begs = false)

instance {A : Type} [Fintype A] (config : State A) (t : Option A) : Decidable (Heeded config t) :=
  inferInstanceAs (Decidable ((_ → _) ∧ (_ → ∀ _, _)))

/-- A sleeping hen has left bread for an animal that hopes for it, and an animal starves only without bread
or before the signal of the hen. -/
structure Served {A : Type} (recipe : Recipe) (config : State A) : Prop where
  hen : sleeps (config.status none) = true →
    0 < recipe.loaves ∧ ∀ t, (config.status t).place.hopes = true → 0 < config.memory.numLoaves
  bread : ∀ t, starves (config.status t) = true →
    config.memory.numLoaves = 0 ∨ (config.status none).runs Place.serves = true

/-- An animal that stays out while no animal eats is followed by another one that will signal. -/
def Relay {A : Type} (config : State A) : Prop :=
  config.memory.eating = 0 → ∀ t, (config.status t).blockedOn .stayOut = true →
    ∃ other, roused (config.status other) = true

section
variable {A : Type} {recipe : Recipe} {config : State A}

theorem Served.setMemory (served : Served recipe config) {memory : Memory}
    (same : memory.numLoaves = config.memory.numLoaves) : Served recipe (config.setMemory memory) :=
  ⟨by simpa [same] using served.hen, by simpa [same] using served.bread⟩

theorem Served.setOwner (served : Served recipe config) (mutex : Mutex) (owner : Option (Option A)) :
    Served recipe (config.setOwner mutex owner) := ⟨served.hen, served.bread⟩

theorem Served.wakeAll (served : Served recipe config) (cond : Cond) : Served recipe (config.wakeAll cond) := by
  refine ⟨fun asleep => ?_, fun other starving => ?_⟩
  · have before : sleeps (config.status none) = true := by
      simp only [sleeps, Config.wakeAll_status, Bool.or_eq_true, Status.runs_wake] at asleep ⊢
      exact asleep.imp_left Status.isBlocked_of_wake
    simpa using served.hen before
  · have before : starves (config.status other) = true := by
      simp only [starves, Config.wakeAll_status, Bool.or_eq_true, Status.runs_wake] at starving ⊢
      exact starving.imp_left Status.blockedOn_of_wake
    simpa using served.bread other before

/-- While the hen is awake, only the starving animals matter. -/
theorem Served.of_awake (awake : sleeps (config.status none) = false)
    (bread : ∀ t, starves (config.status t) = true →
      config.memory.numLoaves = 0 ∨ (config.status none).runs Place.serves = true) : Served recipe config where
  hen asleep := by simp [awake] at asleep
  bread := bread

theorem Relay.setMemory (relay : Relay config) {memory : Memory}
    (same : memory.eating = config.memory.eating) : Relay (config.setMemory memory) := by
  simpa [Relay, same] using relay

theorem Relay.setOwner (relay : Relay config) (mutex : Mutex) (owner : Option (Option A)) :
    Relay (config.setOwner mutex owner) := relay

variable [DecidableEq A] {t : Option A} {status : Status Place Mutex Cond}

/-- A thread that begins to sleep only with bread, to starve only without bread, and that neither begins to hope
nor leaves a due signal, keeps both promises. -/
theorem Served.setStatus (served : Served recipe config)
    (slept : t = none → sleeps status = true →
      sleeps (config.status t) = true ∨ 0 < recipe.loaves ∧ 0 < config.memory.numLoaves)
    (hoped : status.place.hopes = true → (config.status t).place.hopes = true)
    (starved : starves status = true → starves (config.status t) = true ∨ config.memory.numLoaves = 0)
    (serving : (config.status t).runs Place.serves = false) : Served recipe (config.setStatus t status) := by
  refine ⟨fun asleep => ?_, fun other starving => ?_⟩
  · have before : sleeps (config.status none) = true ∨ 0 < recipe.loaves ∧ 0 < config.memory.numLoaves := by
      by_cases moved : none = t
      · subst moved
        exact slept rfl (by simpa using asleep)
      · left
        simpa [Function.update_of_ne moved] using asleep
    rcases before with before | bread
    · refine ⟨(served.hen before).1, fun other hopes => (served.hen before).2 other ?_⟩
      by_cases moved : other = t
      · subst moved
        exact hoped (by simpa using hopes)
      · simpa [Function.update_of_ne moved] using hopes
    · exact ⟨bread.1, fun _ _ => bread.2⟩
  · have before : starves (config.status other) = true ∨ config.memory.numLoaves = 0 := by
      by_cases moved : other = t
      · subst moved
        exact starved (by simpa using starving)
      · left
        simpa [Function.update_of_ne moved] using starving
    rcases before with before | empty
    · refine (served.bread other before).imp_right fun due => ?_
      have different : none ≠ t := by
        rintro rfl
        simp [serving] at due
      simpa [Function.update_of_ne different] using due
    · exact .inl empty

/-- The step from one place to the next begins neither to sleep nor to hope nor to starve,
and leaves no due signal. -/
def Quiet (place next : Place) : Prop :=
  (next.naps = true → place.naps = true) ∧ (next.hopes = true → place.hopes = true) ∧
    (next.begs = true → place.begs = true) ∧ place.serves = false

theorem Quiet.of_plain {place next : Place} (naps : next.naps = false) (hopes : next.hopes = false)
    (begs : next.begs = false) (serves : place.serves = false) : Quiet place next :=
  ⟨by simp [naps], by simp [hopes], by simp [begs], serves⟩

theorem Served.advance (served : Served recipe config) {place next : Place} (here : config.status t = .ready place)
    (quiet : Quiet place next) : Served recipe (config.setStatus t (.ready next)) := by
  obtain ⟨naps, hopes, begs, serves⟩ := quiet
  refine served.setStatus (fun _ asleep => .inl ?_) ?_ (fun starving => .inl ?_) (by simpa [here] using serves)
  · simpa [here, sleeps] using naps (by simpa [sleeps] using asleep)
  · simpa [here] using hopes
  · simpa [here, starves, Status.blockedOn] using begs (by simpa [starves, Status.blockedOn] using starving)

theorem Served.access (served : Served recipe config) {memory : Memory} {place next : Place}
    (here : config.status t = .ready place) (same : memory.numLoaves = config.memory.numLoaves)
    (quiet : Quiet place next) : Served recipe ((config.setMemory memory).setStatus t (.ready next)) :=
  (served.setMemory same).advance here quiet

/-- A thread that does not begin to stay out and that stays roused keeps the relay. -/
theorem Relay.setStatus (relay : Relay config) (awake : status.blockedOn .stayOut = false)
    (kept : roused (config.status t) = true → roused status = true) : Relay (config.setStatus t status) := by
  intro idle other stays
  have different : other ≠ t := by
    rintro rfl
    simp [awake] at stays
  obtain ⟨next, ready⟩ := relay idle other (by simpa [Function.update_of_ne different] using stays)
  refine ⟨next, ?_⟩
  by_cases moved : next = t
  · subst moved
    simpa using kept ready
  · simpa [Function.update_of_ne moved] using ready

theorem Served.wake (served : Served recipe config) {cond : Cond} {mutex : Mutex} {place : Place}
    (blocked : config.status t = .blocked cond mutex place) :
    Served recipe (config.setStatus t (.woken mutex place)) :=
  served.setStatus (by simp [sleeps]) (by simp [blocked]) (by simp [starves, Status.blockedOn]) (by simp [blocked])

theorem Relay.advance (relay : Relay config) {place next : Place} (here : config.status t = .ready place)
    (kept : place.relays = true → next.relays = true) : Relay (config.setStatus t (.ready next)) :=
  relay.setStatus rfl (by simpa [roused, here] using kept)

theorem Relay.access (relay : Relay config) {memory : Memory} {place next : Place}
    (here : config.status t = .ready place) (same : memory.eating = config.memory.eating)
    (kept : place.relays = true → next.relays = true) :
    Relay ((config.setMemory memory).setStatus t (.ready next)) :=
  (relay.setMemory same).advance here kept

theorem Relay.wake (relay : Relay config) {cond : Cond} {mutex : Mutex} {place : Place}
    (blocked : config.status t = .blocked cond mutex place) : Relay (config.setStatus t (.woken mutex place)) :=
  relay.setStatus rfl (by simp [roused, blocked])

/-- A thread that is about to signal is itself awake after the signal, and so is the thread that it wakes. -/
theorem Relay.signal (relay : Relay config) {place next : Place} (here : config.status t = .ready place)
    (kept : place.relays = true → next.relays = true) (cond : Cond) :
    (Instr.signal cond next : Instr Memory Place Mutex Cond).Ensures config t Relay := by
  have moved : Relay (config.setStatus t (.ready next)) := relay.advance here kept
  refine ⟨fun _ => moved, fun target mutex there blocked => ?_⟩
  have different : target ≠ t := by
    rintro rfl
    simp [here] at blocked
  exact moved.wake (by simpa [Function.update_of_ne different] using blocked)

/-- The signal for the animals that stay out changes nothing for the bread. -/
theorem Served.signalStay (served : Served recipe config) {eaten : Nat}
    (here : config.status t = .ready (.animal (.signalStay eaten))) :
    (Instr.signal .stayOut (.animal (.unlockKitchen eaten)) : Instr Memory Place Mutex Cond).Ensures config t
      (Served recipe) := by
  have moved : Served recipe (config.setStatus t (.ready (.animal (.unlockKitchen eaten)))) :=
    served.advance here (.of_plain rfl rfl rfl rfl)
  refine ⟨fun _ => moved, fun target mutex there blocked => ?_⟩
  have different : target ≠ t := by
    rintro rfl
    simp [here] at blocked
  exact moved.wake (by simpa [Function.update_of_ne different] using blocked)

variable [Fintype A] {allowed : History (Option A) Memory Place Mutex Cond → State A → Option A → Prop}
  {history : History (Option A) Memory Place Mutex Cond}

theorem eats_of_hopes {place : Place} (hopes : place.hopes = true) : place.eats = true := by
  cases place with
  | hen place => cases hopes
  | animal place => cases place <;> first | rfl | cases hopes

/-- A thread that returns from its wait tests again. -/
theorem awake_of_waitsOn {place : Place} (waits : place.waitsOn.isSome = true) :
    place.naps = false ∧ place.begs = false := by
  cases place with
  | hen place => cases place <;> first | exact ⟨rfl, rfl⟩ | cases waits
  | animal place => cases place <;> first | exact ⟨rfl, rfl⟩ | cases waits

/-- An animal that starves hopes for bread. -/
theorem hopes_of_starves (reached : Run (code recipe) start allowed history config)
    (starving : starves (config.status t) = true) : (config.status t).place.hopes = true := by
  have position := located reached t
  cases status : config.status t with
  | ready place =>
      rw [status] at starving
      cases place with
      | hen place => cases place <;> cases starving
      | animal place => cases place <;> first | rfl | cases starving
  | blocked cond mutex place =>
      rw [status] at starving position
      have bread : cond = .eatingBread := by simpa [starves, Status.blockedOn] using starving
      have waits := position.2
      simp only [bread] at waits
      cases place with
      | hen place => cases place <;> cases waits
      | animal place => cases place <;> first | rfl | cases waits
  | woken mutex place =>
      rw [status] at starving
      cases starving

/-- Two animals that hope for bread are the same animal. -/
theorem starves_unique (reached : Run (code recipe) start allowed history config) {first second : Option A}
    (firstStarves : starves (config.status first) = true) (secondEats : (config.status second).place.eats = true) :
    first = second :=
  eats_unique reached (eats_of_hopes (hopes_of_starves reached firstStarves)) secondEats

/-- A hen that has seen bread bakes more than nothing. -/
theorem loaves_pos (reached : Run (code recipe) start allowed history config)
    (bread : 0 < config.memory.numLoaves) : 0 < recipe.loaves := by
  by_contra none
  have conserved := taken_add_numLoaves reached
  have nothing : recipe.loaves = 0 := by omega
  simp only [nothing, Nat.cast_zero, zero_mul] at conserved
  omega

/-- The signal of the hen leaves no animal that starves. -/
theorem serve (reached : Run (code recipe) start allowed history config) {batch : Nat}
    (here : config.status none = .ready (.hen (.signalEating batch)))
    (heeded : ∀ other, (config.status other).runs Place.begs = false) :
    (Instr.signal .eatingBread (.hen (.lastTest batch)) : Instr Memory Place Mutex Cond).Ensures config none
      (Served recipe) := by
  constructor
  · intro idle
    refine .of_awake (by simp [sleeps, Place.naps]) fun other starving => ?_
    by_cases hen : other = none
    · subst hen
      simp [starves, Status.blockedOn, Place.begs] at starving
    · simp [starves, Function.update_of_ne hen, idle other, heeded other] at starving
  · intro target mutex place blocked
    have different : none ≠ target := by
      rintro rfl
      simp [here] at blocked
    have targetStarves : starves (config.status target) = true := by simp [starves, blocked, Status.blockedOn]
    refine .of_awake (by simp [sleeps, Place.naps, Function.update_of_ne different]) fun other starving => ?_
    by_cases woken : other = target
    · subst woken
      simp [starves, Status.blockedOn] at starving
    · by_cases hen : other = none
      · subst hen
        simp [Function.update_of_ne woken, starves, Status.blockedOn, Place.begs] at starving
      · simp only [Config.setStatus_status, Function.update_of_ne woken, Function.update_of_ne hen] at starving
        exact absurd (starves_unique reached starving
          (eats_of_hopes (hopes_of_starves reached targetStarves))) woken

/-- After the signal of an animal the hen is awake. -/
theorem Served.complain (served : Served recipe config) (reached : Run (code recipe) start allowed history config)
    {eaten : Nat} (here : config.status t = .ready (.animal (.signalBaking eaten)))
    (heeded : (config.status none).runs Place.naps = false) :
    (Instr.signal .bakingBread (.animal (.breadTest eaten)) : Instr Memory Place Mutex Cond).Ensures config t
      (Served recipe) := by
  have different := (ne_none_of_animal reached here).symm
  have mine : starves (.ready (.animal (.breadTest eaten))) = false := rfl
  constructor
  · intro idle
    have awake : sleeps (config.status none) = false := by
      cases status : config.status none with
      | blocked cond mutex place =>
          have quiet := idle none
          rw [status, bakingBread_of_blocked reached status] at quiet
          simp [Status.blockedOn] at quiet
      | ready place => simpa [sleeps, status] using heeded
      | woken mutex place => rfl
    refine .of_awake (by simpa [Function.update_of_ne different] using awake) fun other starving => ?_
    by_cases moved : other = t
    · subst moved
      simp [mine] at starving
    · simp only [Config.setStatus_status, Function.update_of_ne moved] at starving
      simpa [Function.update_of_ne different] using served.bread other starving
  · intro target mutex place blocked
    obtain rfl := eq_none_of_bakingBread reached blocked
    refine .of_awake (by simp [sleeps]) fun other starving => ?_
    by_cases hen : other = none
    · subst hen
      simp [starves, Status.blockedOn] at starving
    · by_cases moved : other = t
      · subst moved
        simp [Function.update_of_ne hen, mine] at starving
      · simp only [Config.setStatus_status, Function.update_of_ne hen, Function.update_of_ne moved] at starving
        simpa [blocked] using served.bread other starving

/-- An animal that takes a loaf is the only one that hopes. -/
theorem Served.take (served : Served recipe config) (reached : Run (code recipe) start allowed history config)
    {eaten : Nat} {value : Int} (here : config.status t = .ready (.animal (.takeWrite eaten value)))
    {memory : Memory}
    (taken : memory = { config.memory with numLoaves := value - 1 }) :
    Served recipe ((config.setMemory memory).setStatus t (.ready (.animal (.leave (eaten + 1))))) := by
  subst taken
  have different := (ne_none_of_animal reached here).symm
  have mine : (config.status t).place.eats = true := by simp [here, Place.eats, AnimalPlace.eats]
  refine ⟨fun asleep => ⟨(served.hen ?_).1, fun other hopes => ?_⟩, fun other starving => ?_⟩
  · simpa [Function.update_of_ne different] using asleep
  · by_cases moved : other = t
    · subst moved
      simp [Place.hopes] at hopes
    · simp only [Config.setStatus_status, Function.update_of_ne moved] at hopes
      exact absurd (eats_unique reached (eats_of_hopes hopes) mine) moved
  · by_cases moved : other = t
    · subst moved
      simp [starves, Status.blockedOn, Place.begs] at starving
    · simp only [Config.setStatus_status, Function.update_of_ne moved] at starving
      exact absurd (starves_unique reached starving mine) moved

section Moves
variable (before : Run (code recipe) start (fun _ => Heeded) history config) (served : Served recipe config)
  (heeded : Heeded config t)
include before served heeded

/-- The hen keeps the animals served. -/
theorem hen_served {place : HenPlace} (here : config.status t = .ready (.hen place)) :
    (code recipe t (.hen place)).Ensures config t (Served recipe) := by
  obtain rfl := eq_none_of_hen before here
  cases place with
  | lockHen =>
      intro _
      exact (served.setOwner _ _).advance here (.of_plain rfl rfl rfl rfl)
  | loopTest batch | lastTest batch =>
      intro after next effect
      cases effect
      refine served.advance here ?_
      simp only
      split <;> exact (.of_plain rfl rfl rfl rfl)
  | bakeRead batch =>
      intro after next effect
      cases effect
      exact served.access here rfl (.of_plain rfl rfl rfl rfl)
  | bakeWrite batch value =>
      intro after next effect
      cases effect
      exact .of_awake (by simp [sleeps, Place.naps]) fun _ _ => .inr (by simp [Place.serves])
  | signalEating batch => exact serve before here (heeded.2 (by simp [here, Place.serves]))
  | waitTest batch =>
      intro after next effect
      cases effect
      simp only
      split
      · next bread =>
          refine served.setStatus (fun _ _ => .inr ⟨loaves_pos before bread, bread⟩) (by simp [Place.hopes])
            (by simp [starves, Status.blockedOn, Place.begs]) ?_
          simp [here, Place.serves]
      · exact served.advance here (.of_plain rfl rfl rfl rfl)
  | condWait batch =>
      exact (served.setOwner _ _).setStatus (fun _ _ => .inl (by simp [here, sleeps, Place.naps]))
        (by simp [Place.hopes]) (by simp [starves, Status.blockedOn]) (by simp [here, Place.serves])
  | unlockHen batch => exact (served.setOwner _ _).advance here (.of_plain rfl rfl rfl rfl)
  | done batch => trivial

/-- An animal keeps the animals served. -/
theorem animal_served {place : AnimalPlace} (here : config.status t = .ready (.animal place)) :
    (code recipe t (.animal place)).Ensures config t (Served recipe) := by
  cases place with
  | lockKitchen eaten | lockEnd eaten =>
      intro _
      exact (served.setOwner _ _).advance here (.of_plain rfl rfl rfl rfl)
  | unlockKitchen eaten | unlockEnd eaten =>
      exact (served.setOwner _ _).advance here (.of_plain rfl rfl rfl rfl)
  | eatTest eaten | crowdTest eaten | stayTest eaten | hungryTest eaten =>
      intro after next effect
      cases effect
      refine served.advance here ?_
      simp only
      split <;> exact (.of_plain rfl rfl rfl rfl)
  | enter eaten | startEating eaten | takeRead eaten | leave eaten | stopEating eaten =>
      intro after next effect
      cases effect
      exact served.access here rfl (.of_plain rfl rfl rfl rfl)
  | condStay eaten =>
      exact (served.setOwner _ _).setStatus (fun hen => absurd hen (ne_none_of_animal before here))
        (by simp [Place.hopes]) (by simp [starves, Status.blockedOn]) (by simp [here, Place.serves])
  | condBread eaten =>
      exact (served.setOwner _ _).setStatus (fun hen => absurd hen (ne_none_of_animal before here))
        (fun _ => by simp [here, Place.hopes]) (fun _ => .inl (by simp [here, starves, Place.begs]))
        (by simp [here, Place.serves])
  | breadTest eaten =>
      intro after next effect
      cases effect
      simp only
      split
      · next empty =>
          exact served.setStatus (fun hen => absurd hen (ne_none_of_animal before here))
            (fun _ => by simp [here, Place.hopes])
            (fun _ => .inr (le_antisymm empty (supplied before t).1)) (by simp [here, Place.serves])
      · exact served.advance here (.of_plain rfl rfl rfl rfl)
  | takeWrite eaten value =>
      intro after next effect
      cases effect
      exact served.take before here rfl
  | signalBaking eaten => exact served.complain before here (heeded.1 (by simp [here, Place.complains]))
  | signalStay eaten => exact served.signalStay here
  | wakeAll eaten => exact (served.wakeAll _).advance (by simpa using here) (.of_plain rfl rfl rfl rfl)
  | done eaten => trivial

end Moves

theorem served (reached : Run (code recipe) start (fun _ => Heeded) history config) : Served recipe config := by
  refine Run.invariant (Served recipe) ?_ ?_ ?_ ?_ reached
  · refine .of_awake rfl fun t starving => ?_
    cases t <;> cases starving
  · intro history config t place before served heeded here
    cases place with
    | hen place => exact hen_served before served heeded here
    | animal place => exact animal_served before served heeded here
  · intro _ config t mutex place before served here _
    have waits := (located before t).2
    rw [here] at waits
    obtain ⟨notNaps, notBegs⟩ := awake_of_waitsOn waits
    exact (served.setOwner _ _).setStatus (by simp [sleeps, notNaps]) (by simp [here])
      (by simp [starves, Status.blockedOn, notBegs]) (by simp [here])
  · intro _ config t cond mutex place before served here
    exact served.wake here

/-- An animal that signals `stayOut` wakes an animal that stays out, if there is one. -/
theorem relay_of_signalStay (reached : Run (code recipe) start allowed history config) {eaten : Nat}
    (here : config.status t = .ready (.animal (.signalStay eaten))) :
    (Instr.signal .stayOut (.animal (.unlockKitchen eaten)) : Instr Memory Place Mutex Cond).Ensures config t
      Relay := by
  constructor
  · intro idle _ other stays
    by_cases moved : other = t
    · subst moved
      simp [Status.blockedOn] at stays
    · simp [Function.update_of_ne moved, idle other] at stays
  · intro target mutex place blocked _ _ _
    have waits := (located reached target).2
    simp only [blocked] at waits
    have relays : place.relays = true := by
      cases place with
      | hen place => cases place <;> cases waits
      | animal place => cases place <;> first | rfl | cases waits
    exact ⟨target, by simp [roused, relays]⟩

theorem relay (reached : Run (code recipe) start allowed history config) : Relay config := by
  refine Run.invariant Relay ?_ ?_ ?_ ?_ reached
  · intro _ t stays
    cases t <;> cases stays
  · intro history config t place before relay _ here
    have entry := (alone before t).2
    rw [here] at entry
    cases place with
    | hen place =>
        cases place with
        | lockHen => exact fun _ => (relay.setOwner _ _).advance here (by simp [Place.relays])
        | condWait batch => exact (relay.setOwner _ _).setStatus rfl (by simp [roused, here, Place.relays])
        | signalEating batch => exact relay.signal here (by simp [Place.relays]) _
        | unlockHen batch => exact (relay.setOwner _ _).advance here (by simp [Place.relays])
        | done batch => trivial
        | _ =>
            intro after next effect
            cases effect
            exact relay.access here rfl (by simp [Place.relays])
    | animal place =>
        cases place with
        | lockKitchen eaten | lockEnd eaten =>
            exact fun _ => (relay.setOwner _ _).advance here (by simp [Place.relays])
        | unlockKitchen eaten | unlockEnd eaten => exact (relay.setOwner _ _).advance here (by simp [Place.relays])
        | stayTest eaten =>
            intro after next effect
            cases effect
            simp only
            split
            · next busy =>
                intro idle
                simp [busy] at idle
            · exact relay.access here rfl fun _ => rfl
        | condStay eaten =>
            intro idle
            simp only [Entry] at entry
            simp [entry] at idle
        | startEating eaten =>
            intro after next effect
            cases effect
            intro idle
            simp only [Entry] at entry
            simp [entry] at idle
        | condBread eaten => exact (relay.setOwner _ _).setStatus rfl (by simp [roused, here, Place.relays])
        | stopEating eaten =>
            intro after next effect
            cases effect
            exact fun _ _ _ => ⟨t, by simp [roused, Place.relays]⟩
        | signalBaking eaten => exact relay.signal here (by simp [Place.relays]) _
        | signalStay eaten => exact relay_of_signalStay before here
        | wakeAll eaten =>
            intro _ other stays
            by_cases moved : other = t
            · subst moved
              simp [Status.blockedOn] at stays
            · simp [Function.update_of_ne moved] at stays
        | done eaten => trivial
        | _ =>
            intro after next effect
            cases effect
            exact relay.access here rfl (by simp [Place.relays])
  · intro _ config t mutex place _ relay here _
    exact (relay.setOwner _ _).setStatus rfl (by simp [roused, here])
  · intro _ config t cond mutex place _ relay here
    exact relay.wake here

theorem eaten_le (reached : Run (code recipe) start allowed history config) (t : Option A) :
    (config.status t).place.eaten ≤ recipe.loavesToEat := by
  have bounds := within reached t
  cases place : (config.status t).place with
  | hen there => exact Nat.zero_le _
  | animal there =>
      simp only [place] at bounds
      cases there <;> first | exact bounds | exact Nat.le_of_lt bounds | exact Nat.le_of_eq bounds

theorem eaten_lt_of_hopes (reached : Run (code recipe) start allowed history config)
    (hopes : (config.status t).place.hopes = true) : (config.status t).place.eaten < recipe.loavesToEat := by
  have bounds := within reached t
  cases place : (config.status t).place with
  | hen there =>
      rw [place] at hopes
      cases hopes
  | animal there =>
      rw [place] at hopes
      simp only [place] at bounds
      cases there <;> first | exact bounds | cases hopes

/-- While an animal hopes for bread, the animals have not taken all their loaves. -/
theorem taken_lt_of_hopes (reached : Run (code recipe) start allowed history config)
    (hopes : (config.status t).place.hopes = true) : taken config < Fintype.card A * recipe.loavesToEat := by
  cases t with
  | none =>
      have isHen := (located reached none).1
      cases place : (config.status none).place with
      | hen there =>
          rw [place] at hopes
          cases hopes
      | animal there =>
          rw [place] at isHen
          cases isHen
  | some animal =>
      calc taken config < ∑ _animal : A, recipe.loavesToEat :=
            Finset.sum_lt_sum (fun other _ => eaten_le reached (some other))
              ⟨animal, Finset.mem_univ _, eaten_lt_of_hopes reached hopes⟩
        _ = Fintype.card A * recipe.loavesToEat := by simp

section
variable (reached : Run (code recipe) start (fun _ => Heeded) history config)
  (stalled : Stalled (code recipe) config)
include reached stalled

/-- A hen that runs in a stalled state has baked all batches. -/
theorem baked_of_stalled {place : Place} (here : config.status none = .ready place) :
    baked config = recipe.batches := by
  have isHen := (located reached none).1
  have bounds := within reached none
  have exits := stalled.exits here
  simp only [here, Status.place_ready] at isHen bounds
  simp only [baked, here, Status.place_ready]
  cases place with
  | hen place => cases place <;> first | exact bounds | cases exits
  | animal place => cases isHen

/-- A hen that does not run in a stalled state sleeps and has not baked all batches. -/
theorem baked_lt_of_stalled (idle : ∀ place, config.status none ≠ .ready place) :
    sleeps (config.status none) = true ∧ baked config < recipe.batches := by
  have position := located reached none
  have bounds := within reached none
  cases status : config.status none with
  | ready place => exact absurd status (idle place)
  | woken mutex place => exact absurd status stalled.not_woken
  | blocked cond mutex place =>
      rw [status] at position bounds
      refine ⟨rfl, ?_⟩
      obtain ⟨isHen, waits⟩ := position
      simp only [baked, status, Status.place_blocked]
      cases place with
      | hen place => cases place <;> first | exact bounds.2 | cases waits
      | animal place => cases isHen

/-- No animal hopes for bread in a stalled state. -/
theorem not_hopes_of_stalled (enough : Fintype.card A * recipe.loavesToEat = recipe.batches * recipe.loaves)
    (t : Option A) : (config.status t).place.hopes = false := by
  by_contra hungry
  have hopes : (config.status t).place.hopes = true := by simpa using hungry
  have starving : starves (config.status t) = true := by
    have waits := (located reached t).2
    cases status : config.status t with
    | ready place =>
        have exits := stalled.exits status
        rw [status] at hopes
        cases place with
        | hen place => cases hopes
        | animal place => cases place <;> first | cases hopes; done | cases exits
    | woken mutex place => exact absurd status stalled.not_woken
    | blocked cond mutex place =>
        rw [status] at waits hopes
        cases place with
        | hen place => cases hopes
        | animal place =>
            cases place <;> cases waits
            · cases hopes
            · rfl
  have empty : config.memory.numLoaves = 0 := by
    rcases (served reached).bread t starving with empty | due
    · exact empty
    · obtain ⟨place, here, serves⟩ := (Status.runs_iff _ _).mp due
      have exits := stalled.exits here
      cases place with
      | hen place => cases place <;> first | cases serves; done | cases exits
      | animal place => cases serves
  by_cases running : ∃ place, config.status none = .ready place
  · obtain ⟨place, here⟩ := running
    have conserved := taken_add_numLoaves reached
    have fewer := taken_lt_of_hopes reached hopes
    rw [empty, baked_of_stalled reached stalled here, add_zero] at conserved
    have total : taken config = recipe.loaves * recipe.batches := by
      exact_mod_cast conserved
    rw [mul_comm] at total
    omega
  · push Not at running
    have asleep := (baked_lt_of_stalled reached stalled running).1
    have bread := ((served reached).hen asleep).2 t hopes
    omega

/-- Every animal has returned in a stalled state. -/
theorem eaten_of_stalled (enough : Fintype.card A * recipe.loavesToEat = recipe.batches * recipe.loaves)
    (animal : A) :
    (∃ place, config.status (some animal) = .ready place) ∧
      (config.status (some animal)).place.eaten = recipe.loavesToEat := by
  have idle : config.memory.eating = 0 := by
    rw [eating_eq reached, tally_indicator_eq_zero_iff]
    intro t
    have waits := (located reached t).2
    have satisfied := not_hopes_of_stalled reached stalled enough t
    cases status : config.status t with
    | ready place =>
        have exits := stalled.exits status
        cases place with
        | hen place => rfl
        | animal place => cases place <;> first | rfl | cases exits
    | woken mutex place => exact absurd status stalled.not_woken
    | blocked cond mutex place =>
        rw [status] at waits satisfied
        cases place with
        | hen place => rfl
        | animal place =>
            cases place <;> cases waits
            · rfl
            · cases satisfied
  have position := located reached (some animal)
  have bounds := within reached (some animal)
  have satisfied := not_hopes_of_stalled reached stalled enough (some animal)
  cases status : config.status (some animal) with
  | ready place =>
      have exits := stalled.exits status
      rw [status] at position
      simp only [status, Status.place_ready] at bounds
      refine ⟨⟨place, rfl⟩, ?_⟩
      cases place with
      | hen place => cases position.1
      | animal place => cases place <;> first | exact bounds | cases exits
  | woken mutex place => exact absurd status stalled.not_woken
  | blocked cond mutex place =>
      exfalso
      have stays : (config.status (some animal)).blockedOn .stayOut = true := by
        rw [status] at position satisfied ⊢
        obtain ⟨isHen, waits⟩ := position
        cases place with
        | hen place => cases isHen
        | animal place =>
            cases place <;> cases waits
            · rfl
            · cases satisfied
      obtain ⟨other, ready⟩ := relay reached idle (some animal) stays
      cases next : config.status other with
      | ready place =>
          have exits := stalled.exits next
          simp only [roused, next, Status.isBlocked_ready, Status.place_ready, Bool.not_false,
            Bool.true_and] at ready
          cases place with
          | hen place => cases ready
          | animal place => cases place <;> first | cases ready; done | cases exits
      | woken mutex place => exact stalled.not_woken next
      | blocked cond mutex place => simp [roused, next] at ready

end

/-- In every run in which each signal is heeded, the hen and the animals never stall. -/
theorem not_stalled_of_heeded (enough : Fintype.card A * recipe.loavesToEat = recipe.batches * recipe.loaves)
    (reached : Run (code recipe) start (fun _ => Heeded) history config) : ¬ Stalled (code recipe) config := by
  intro stalled
  have full := eaten_of_stalled reached stalled enough
  by_cases running : ∃ place, config.status none = .ready place
  · obtain ⟨t, unfinished⟩ := stalled.1
    have blocked := stalled.2 t unfinished
    obtain ⟨place, here⟩ : ∃ place, config.status t = .ready place := by
      cases t with
      | none => exact running
      | some animal => exact (full animal).1
    rw [here] at blocked
    cases blocked
  · push Not at running
    obtain ⟨asleep, fewer⟩ := baked_lt_of_stalled reached stalled running
    have positive := ((served reached).hen asleep).1
    have nonneg := (supplied reached none).1
    have conserved := taken_add_numLoaves reached
    have total : taken config = recipe.batches * recipe.loaves := by
      rw [← enough]
      simp [taken, full]
    have less : recipe.loaves * baked config < recipe.loaves * recipe.batches :=
      Nat.mul_lt_mul_of_pos_left fewer positive
    rw [total, mul_comm recipe.batches] at conserved
    have upper : ((recipe.loaves * recipe.batches : Nat) : Int) ≤ (recipe.loaves * baked config : Nat) := by
      push_cast at conserved ⊢
      omega
    omega

end

/-- The hen sleeps, and the first animal eats. -/
theorem heeded_first_loaf :
    Fintype.card (Fin 3) * Recipe.source.loavesToEat = Recipe.source.batches * Recipe.source.loaves ∧
    ∃ history config, Run (code Recipe.source) (start : State (Fin 3)) (fun _ => Heeded) history config ∧
      (config.status none).isBlocked = true ∧ (config.status (some 0)).place.eaten = 1 ∧
      ¬ Stalled (code Recipe.source) config := by
  refine ⟨by decide, ?_⟩
  obtain ⟨history, config, reached, holds⟩ := exists_run (code Recipe.source) (start : State (Fin 3))
    (fun _ => Heeded) (turns 8 none ++ turns 9 (some 0))
    (fun config => (config.status none).isBlocked && (config.status (some 0)).place.eaten == 1) (by decide)
  rw [Bool.and_eq_true, beq_iff_eq] at holds
  exact ⟨history, config, reached, holds.1, holds.2, not_stalled_of_heeded (by decide) reached⟩

/-- The hen signals the first animal between its test and its wait, and then all four threads wait. -/
theorem hen_stalls :
    Fintype.card (Fin 3) * Recipe.source.loavesToEat = Recipe.source.batches * Recipe.source.loaves ∧
    ∃ config, Reachable (code Recipe.source) (start : State (Fin 3)) config ∧
      Stalled (code Recipe.source) config := by
  refine ⟨by decide, ?_⟩
  obtain ⟨config, reached, stalled⟩ := exists_reachable (code Recipe.source) (start : State (Fin 3))
    (turns 8 (some 0) ++ turns 8 none ++ turns 1 (some 0) ++ turns 6 (some 1) ++ turns 6 (some 2))
    (fun config => Stalled (code Recipe.source) config) (by decide)
  exact ⟨config, reached, by simpa using stalled⟩

end OSLabs.LittleRedHen
