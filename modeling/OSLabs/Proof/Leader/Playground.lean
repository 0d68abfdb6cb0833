import OSLabs.Construction.Leader
import OSLabs.Proof.Pthread.Frame
import OSLabs.Proof.Pthread.Local
import OSLabs.Proof.Pthread.Placed
import OSLabs.Proof.Pthread.Tally

namespace OSLabs.Leader
open Pthread

namespace Place

def isLeader : Place → Bool
  | .leader _ => true
  | .follower _ => false

/-- The leader has executed `leaderPlay = 1` and not yet `leaderPlay = 0`. -/
def plays : Place → Bool
  | .leader (.wakeFollowers _) | .leader (.unlockEnter _) | .leader (.lockLeave _) | .leader (.leave _) => true
  | _ => false

/-- The leader has broadcast and not yet executed `leaderPlay = 0`. -/
def hasWoken : Place → Bool
  | .leader (.unlockEnter _) | .leader (.lockLeave _) | .leader (.leave _) => true
  | _ => false

/-- The leader takes no shift. -/
def idles : Place → Bool
  | .leader (.loopTest _) | .leader .done => true
  | _ => false

end Place

section
variable {F : Type} [DecidableEq F] [Fintype F] {shifts : Nat}
  {allowed : History (Option F) Memory Place Mutex Cond → State F → Option F → Prop}
  {history : History (Option F) Memory Place Mutex Cond} {config : State F}

/-- Each thread stays in its function. -/
theorem isLeader_eq (reached : Run (code shifts) start allowed history config) (t : Option F) :
    (config.places t).isLeader = t.isNone := by
  refine reached.placed (fun _ places _ => (∀ t : Option F, (places t).isLeader = t.isNone)) ?_ ?_ ?_ t
  · intro t
    cases t <;> rfl
  · intro _ _ _ sorted _
    exact sorted
  · intro _ config t place after next _ sorted _ here effect other
    by_cases hit : other = t
    · subst hit
      rw [Function.update_self, ← sorted other, Config.places_of_ready here]
      cases place with
      | leader place => cases place <;> cases effect <;> rfl
      | follower place => cases place <;> cases effect <;> rfl
    · rw [Function.update_of_ne hit]
      exact sorted other

/-- The counter is the number of followers in the playground. -/
theorem population (reached : Run (code shifts) start allowed history config) :
    config.memory.numFollowersInPlayground = config.number fun _ => Place.lingers := by
  rw [← tally_weigh]
  refine reached.counted Memory.numFollowersInPlayground (weigh fun _ => Place.lingers) ?_ ?_
  · symm
    apply tally_eq_zero
    intro t
    cases t <;> rfl
  · intro t place memory after next effect
    cases place with
    | leader place => cases place <;> cases effect <;> rfl
    | follower place =>
        cases place with
        | playTest | lingerTest =>
            cases effect
            split <;> rfl
        | join | part =>
            cases effect
            simp [weigh, Place.lingers]
        | lockWork | unlockWork | lockPlay | condLinger | unlockPlay =>
            cases effect
            rfl

/-- The variable is set while the leader plays. -/
theorem leaderPlay_eq_one (reached : Run (code shifts) start allowed history config)
    (plays : (config.places none).plays = true) : config.memory.leaderPlay = 1 := by
  have always := reached.placed
    (fun _ (places : Option F → Place) memory => ((places none).plays = true →
      memory.leaderPlay = (1 : Int))) ?_ ?_ ?_
  · exact always plays
  · intro plays
    cases plays
  · intro _ _ _ holds _
    exact holds
  intro _ config t place after next before holds _ here effect plays
  have sorted := isLeader_eq before t
  rw [Config.places_of_ready here] at sorted
  cases t with
  | none =>
      rw [Config.places_of_ready here] at holds
      rw [Function.update_self] at plays
      cases place with
      | leader place =>
          cases place with
          | loopTest i =>
              cases effect
              by_cases more : i < shifts <;> simp [more, Place.plays] at plays
          | enter i =>
              cases effect
              rfl
          | wakeFollowers i | unlockEnter i | lockLeave i =>
              cases effect
              exact holds rfl
          | lockEnter i | leave i | unlockLeave i | done => cases effect <;> cases plays
      | follower place => cases sorted
  | some f =>
      rw [Function.update_of_ne (Option.some_ne_none f).symm] at plays
      have same : after.leaderPlay = config.memory.leaderPlay := by
        cases place with
        | leader place => cases sorted
        | follower place => cases place <;> cases effect <;> rfl
      rw [same]
      exact holds plays

end

section
variable {F : Type} [DecidableEq F] [Fintype F] {shifts : Nat}
  {history : History (Option F) Memory Place Mutex Cond} {config : State F}

/-- After the broadcast no follower waits or is about to wait, until the leader leaves. -/
theorem nobody_waits (reached : Run (code shifts) start (fun _ => Patient) history config)
    (woken : (config.places none).hasWoken = true) (t : Option F) :
    (config.status t).awaits .linger Place.isCond = false := by
  by_contra waits
  have fact : (config.places none).hasWoken = false := by
    refine reached.awaited .linger Place.isCond (fun _ places _ => (places none).hasWoken = false)
      ?_ ?_ ?_ ?_ ?_ t (by simpa using waits)
    · intro waiter
      cases waiter <;> rfl
    · intro _ config t mutex place before here
      have resumes := before.resumes (fun t => ⟨_, rfl⟩) t
      rw [here] at resumes
      obtain ⟨there, cond, instr⟩ := resumes
      cases there with
      | leader there => cases there <;> cases instr
      | follower there => cases there <;> cases instr; rfl
    · intro t place mutex next instr
      cases place with
      | leader place => cases place <;> cases instr
      | follower place => cases place <;> cases instr; rfl
    · intro _ config t place after next before _ here effect about
      have sorted := isLeader_eq before t
      rw [Config.places_of_ready here] at sorted
      cases t with
      | none =>
          cases place with
          | leader place => cases place <;> cases effect <;> cases about
          | follower place => cases sorted
      | some f =>
          rw [Function.update_of_ne (Option.some_ne_none f).symm]
          by_contra entered
          have one : config.memory.leaderPlay = 1 := by
            apply leaderPlay_eq_one before
            cases there : config.places none with
            | leader there' =>
                rw [there] at entered
                cases there' <;> first | rfl | exact absurd rfl entered
            | follower there' =>
                rw [there] at entered
                exact absurd rfl entered
          cases place with
          | leader place => cases sorted
          | follower place =>
              cases place with
              | lingerTest =>
                  cases effect
                  simp [one, Place.isCond] at about
              | playTest =>
                  cases effect
                  simp [one, Place.isCond] at about
              | lockWork | unlockWork | lockPlay | join | condLinger | part | unlockPlay =>
                  cases effect
                  cases about
    · intro _ config t place after next waiter before permitted here effect awaits still fact
      have sorted := isLeader_eq before t
      rw [Config.places_of_ready here] at sorted
      cases t with
      | some f =>
          rw [Function.update_of_ne (Option.some_ne_none f).symm]
          exact fact
      | none =>
          rw [Function.update_self]
          rw [Config.places_of_ready here] at fact
          cases place with
          | follower place => cases sorted
          | leader place =>
              cases place with
              | wakeFollowers i =>
                  cases effect
                  have about := still rfl
                  rw [permitted.1 (by rw [here]; rfl) waiter] at about
                  cases about
              | loopTest i =>
                  cases effect
                  by_cases more : i < shifts <;> simp [more, Place.hasWoken]
              | lockEnter i | enter i | leave i | unlockLeave i =>
                  cases effect
                  rfl
              | unlockEnter i | lockLeave i => cases fact
              | done => cases effect
  rw [fact] at woken
  cases woken

/-- When the leader leaves, the playground is empty. -/
theorem empty_of_leave (reached : Run (code shifts) start (fun _ => Patient) history config)
    (patient : Patient config none) (leaves : (config.status none).runs Place.isLeave = true) (t : Option F) :
    (config.status t).place.lingers = false := by
  by_contra lingers
  have blocked := patient.2 leaves t (by simpa using lingers)
  have woken : (config.places none).hasWoken = true := by
    obtain ⟨place, here, leaving⟩ := (Status.runs_iff _ _).mp leaves
    rw [Config.places_of_ready here]
    cases place with
    | leader place => cases place <;> first | rfl | cases leaving
    | follower place => cases leaving
  have waits := nobody_waits reached woken t
  cases status : config.status t with
  | ready place | woken mutex place =>
      rw [status] at blocked
      cases blocked
  | blocked cond mutex place =>
      rw [status] at waits
      cases cond
      cases waits

end

section
variable {F : Type} [DecidableEq F] [Fintype F] {shifts : Nat}
  {allowed : History (Option F) Memory Place Mutex Cond → State F → Option F → Prop}
  {history : History (Option F) Memory Place Mutex Cond} {config : State F}

/-- A follower that lingers and does not part still lingers. -/
theorem lingers_of_no_part (reached : Run (code shifts) start allowed history config)
    {middle earlier : History (Option F) Memory Place Mutex Cond} {entered : State F} {f : F}
    (split : history = middle ++ (entered, none) :: earlier)
    (lingers : (entered.status (some f)).place.lingers = true)
    (remains : ∀ entry ∈ middle, entry.2 = some f → (entry.1.status (some f)).runs Place.isPart = false) :
    (config.places (some f)).lingers = true := by
  refine reached.placed (fun history (places : Option F → Place) _ =>
    (∀ middle, history = middle ++ (entered, none) :: earlier →
      (∀ entry ∈ middle, entry.2 = some f → (entry.1.status (some f)).runs Place.isPart = false) →
      (places (some f)).lingers = true)) ?_ ?_ ?_ middle split remains
  · intro middle split
    simp at split
  · intro history config t holds _ middle split remains
    cases middle with
    | nil =>
        simp only [List.nil_append, List.cons.injEq, Prod.mk.injEq] at split
        obtain ⟨⟨rfl, rfl⟩, rfl⟩ := split
        exact lingers
    | cons entry middle =>
        simp only [List.cons_append, List.cons.injEq] at split
        exact holds middle split.2 fun other member => remains other (List.mem_cons_of_mem _ member)
  · intro history config t place after next before holds _ here effect middle split remains
    cases middle with
    | nil =>
        simp only [List.nil_append, List.cons.injEq, Prod.mk.injEq] at split
        obtain ⟨⟨rfl, rfl⟩, rfl⟩ := split
        rw [Function.update_of_ne (Option.some_ne_none f)]
        exact lingers
    | cons entry middle =>
        simp only [List.cons_append, List.cons.injEq] at split
        obtain ⟨rfl, split⟩ := split
        have still := holds middle split fun other member => remains other (List.mem_cons_of_mem _ member)
        by_cases mine : t = some f
        · subst mine
          have part := remains _ List.mem_cons_self rfl
          rw [here] at part
          rw [Config.places_of_ready here] at still
          rw [Function.update_self]
          cases place with
          | leader place => cases still
          | follower place =>
              cases place with
              | lingerTest =>
                  cases effect
                  by_cases away : config.memory.leaderPlay = 0 <;> simp [away, Place.lingers]
              | condLinger =>
                  cases effect
                  rfl
              | part => cases part
              | lockWork | unlockWork | lockPlay | playTest | join | unlockPlay => cases still
        · rw [Function.update_of_ne (Ne.symm mine)]
          exact still

end

/-- A patient leader clears the playground. -/
theorem cleared_of_patient {F : Type} [DecidableEq F] [Fintype F] {shifts : Nat}
    {history : History (Option F) Memory Place Mutex Cond} {config : State F}
    (reached : Run (code shifts) start (fun _ => Patient) history config) : Cleared history := by
  intro later middle earlier entered left f split _ leaves lingers
  by_contra stays
  rw [split] at reached
  obtain ⟨before, patient⟩ := reached.of_append
  have still : (left.places (some f)).lingers = true := by
    refine lingers_of_no_part before rfl lingers fun entry member mine => ?_
    by_contra parts
    exact stays ⟨entry, member, mine, by simpa using parts⟩
  have empty := empty_of_leave before patient leaves (some f)
  rw [Config.places, empty] at still
  cases still

/-- A leader without shifts never enters. -/
theorem idles_of_no_shift {F : Type} [DecidableEq F] [Fintype F]
    {allowed : History (Option F) Memory Place Mutex Cond → State F → Option F → Prop}
    {history : History (Option F) Memory Place Mutex Cond} {config : State F}
    (reached : Run (code 0) start allowed history config) : (config.places none).idles = true := by
  refine reached.placed (fun _ (places : Option F → Place) _ => (places none).idles = true) rfl
    (fun _ _ _ idles _ => idles) ?_
  intro _ config t place after next _ idles _ here effect
  by_cases hit : t = none
  · subst hit
    rw [Config.places_of_ready here] at idles
    rw [Function.update_self]
    cases place with
    | leader place =>
        cases place with
        | loopTest i =>
            cases effect
            rfl
        | done => cases effect
        | _ => cases idles
    | follower place => cases idles
  · rw [Function.update_of_ne (Ne.symm hit)]
    exact idles

/-- The follower lingered when the leader entered and has not moved since, and the leader has left. -/
def outlasts {F : Type} (f : F) : History (Option F) Memory Place Mutex Cond → Bool
  | (left, none) :: (_, none) :: (_, none) :: (_, none) :: (entered, none) :: _ =>
      (left.status none).runs Place.isLeave && (entered.status none).runs Place.isEnter &&
        (entered.status (some f)).place.lingers
  | _ => false

theorem not_cleared_of_outlasts {F : Type} {f : F} {history : History (Option F) Memory Place Mutex Cond}
    (stays : outlasts f history = true) : ¬ Cleared history := by
  intro cleared
  match history, stays with
  | (left, none) :: (a, none) :: (b, none) :: (c, none) :: (entered, none) :: earlier, stays =>
      simp only [outlasts, Bool.and_eq_true] at stays
      obtain ⟨⟨leaves, enters⟩, lingers⟩ := stays
      obtain ⟨entry, member, mine, _⟩ :=
        cleared [] [(a, none), (b, none), (c, none)] earlier entered left f rfl enters leaves lingers
      simp only [List.mem_cons, List.not_mem_nil, or_false] at member
      rcases member with rfl | rfl | rfl <;> cases mine

/-- The leader enters, broadcasts and leaves while the only follower sleeps in its wait. -/
theorem exists_outlasts_alone (shifts : Nat) : ∃ history config,
    Run (code (shifts + 1)) (start : State Unit) (fun _ _ _ => True) history config ∧ outlasts () history = true :=
  exists_run_history (code (shifts + 1)) (start : State Unit) (fun _ _ _ => True)
    (turns 7 (some ()) ++ turns 7 none) (fun history _ => outlasts () history) rfl

/-- With a follower and a shift of the leader, the follower can outlast the shift. -/
theorem exists_outlasts {F : Type} [DecidableEq F] [Fintype F] (f : F) (shifts : Nat) : ∃ history config,
    Run (code (shifts + 1)) (start : State F) (fun _ _ _ => True) history config ∧ outlasts f history = true := by
  obtain ⟨inner, small, run, stays⟩ := exists_outlasts_alone shifts
  have injective : Function.Injective (Option.map fun _ : Unit => f) := Option.map_injective fun _ _ _ => rfl
  have frames : Frames (Option.map fun _ : Unit => f) (start : State F).status (start : State Unit) start := by
    refine ⟨rfl, fun _ => rfl, fun t => ?_, fun _ _ => rfl, fun t _ => ?_⟩
    · cases t <;> rfl
    · cases t <;> rfl
  have begun : Run (code (shifts + 1)) (start : State F) (fun _ _ _ => True) [] start := .start
  obtain ⟨later, config, reached, _, entries⟩ := frames.run_history injective (fun _ _ _ _ _ => trivial) begun run
  refine ⟨_, config, reached, ?_⟩
  match inner, stays, later, entries with
  | (left, none) :: (_, none) :: (_, none) :: (_, none) :: (entered, none) :: _, stays,
      (_, _) :: (_, _) :: (_, _) :: (_, _) :: (_, _) :: _,
      .cons ⟨rfl, leaves⟩ (.cons ⟨rfl, _⟩ (.cons ⟨rfl, _⟩ (.cons ⟨rfl, _⟩ (.cons ⟨rfl, enters⟩ _)))) =>
      have leader := leaves.status none
      have entering := enters.status none
      have lingering := enters.status (some ())
      simp only [Option.map_none, Option.map_some] at leader entering lingering
      simpa only [outlasts, Option.map_none, List.cons_append, leader, entering, lingering] using stays

/-- The counter is always the number of followers in the playground, and a patient leader clears the playground.
With arbitrary interleavings the leader always clears it exactly when there is no follower or no shift. -/
theorem playground {F : Type} [DecidableEq F] [Fintype F] (shifts : Nat) :
    (∀ history config, Run (code shifts) (start : State F) (fun _ _ _ => True) history config →
      config.memory.numFollowersInPlayground = config.number fun _ => Place.lingers) ∧
    (∀ history config, Run (code shifts) (start : State F) (fun _ => Patient) history config → Cleared history) ∧
    ((∀ history config, Run (code shifts) (start : State F) (fun _ _ _ => True) history config → Cleared history) ↔
      IsEmpty F ∨ shifts = 0) := by
  refine ⟨fun _ _ reached => population reached, fun _ _ reached => cleared_of_patient reached, ?_, ?_⟩
  · intro always
    by_contra neither
    rw [not_or, not_isEmpty_iff] at neither
    obtain ⟨⟨f⟩, some⟩ := neither
    obtain ⟨shifts, rfl⟩ := Nat.exists_eq_succ_of_ne_zero some
    obtain ⟨history, config, reached, stays⟩ := exists_outlasts f shifts
    exact not_cleared_of_outlasts stays (always history config reached)
  · rintro (nobody | rfl) history config reached
    · intro _ _ _ _ _ f
      exact nobody.elim f
    · intro later middle earlier entered left f split enters
      have member : (entered, none) ∈ history := by simp [split]
      obtain ⟨before, run⟩ := reached.of_mem member
      obtain ⟨place, here, entering⟩ := (Status.runs_iff _ _).mp enters
      have idles := idles_of_no_shift run
      rw [Config.places_of_ready here] at idles
      cases place with
      | leader place => cases place <;> first | cases idles; done | cases entering
      | follower place => cases idles

/-- The only follower stays although the leader enters, broadcasts and leaves. -/
theorem clearing_fails : ∃ history config, Run (code 1) (start : State Unit) (fun _ _ _ => True) history config ∧
    ¬ Cleared history := by
  obtain ⟨history, config, reached, stays⟩ := exists_outlasts_alone 0
  exact ⟨history, config, reached, not_cleared_of_outlasts stays⟩

end OSLabs.Leader
