import OSLabs.Proof.Lunch.Groups

namespace OSLabs.Lunch
open Pthread

section
variable {T : Type} [DecidableEq T] [Fintype T] {history : History T Memory Place Mutex Cond} {config : State T}

/-- While a friend runs elsewhere inside a section of `mutex`, nobody has woken the current group. -/
theorem not_isNextGroup (reached : Run code start (fun _ => OwnGroup) history config) {t : T} {place : Place}
    (here : config.status t = .ready place) (locked : place.locked = true) (elsewhere : place.isNextGroup = false)
    (other : T) : (config.places other).isNextGroup = false := by
  have runs : (config.status other).runs Place.isNextGroup = false :=
    (owned reached).runs_eq_false here held_of_isNextGroup locked elsewhere
  have guard := guarded reached other
  rw [Config.places]
  cases status : config.status other with
  | ready there =>
      rw [status] at runs
      exact runs
  | blocked cond which there | woken which there =>
      rw [status] at guard
      cases there <;> first | cases guard; done | rfl

/-- A friend waits only for the current group, which nobody has woken. -/
theorem waits_for_current (reached : Run code start (fun _ => OwnGroup) history config) {t : T}
    (awaits : (config.status t).awaits .waiting Place.isCondWait = true) :
    (config.places t).myGroup = some config.memory.groupNum ∧
      ∀ other, (config.places other).isNextGroup = false := by
  refine reached.awaited .waiting Place.isCondWait
    (fun waiter places memory => (places waiter).myGroup = some memory.groupNum ∧
      ∀ other, (places other).isNextGroup = false) (fun _ => rfl) ?_ ?_ ?_ ?_ t awaits
  · intro _ config t which place before woken
    have guard := guarded before t
    rw [woken] at guard
    cases place <;> first | rfl | cases guard
  · intro t place which next waits
    cases place <;> first | rfl | cases waits
  · intro _ config t place after next before _ here effect entering
    cases place with
    | groupTest size group =>
        cases effect
        by_cases current : config.memory.groupNum = group
        · simp only [current, ↓reduceIte]
          refine ⟨by rw [Function.update_self]; rfl, fun other => ?_⟩
          exact update_eq_false Place.isNextGroup rfl (not_isNextGroup before here rfl rfl other)
        · simp only [current, ↓reduceIte] at entering
          cases entering
    | sizeTest size group =>
        cases effect
        by_cases same : size = config.memory.groupSize <;> simp only [same, ↓reduceIte] at entering <;>
          cases entering
    | _ => cases effect <;> cases entering
  · intro _ config t place after next waiter before _ here effect awaits woken fact
    have located := Config.places_of_ready here
    have kept : next.myGroup = place.myGroup → next.isNextGroup = false → after.groupNum = config.memory.groupNum →
        (Function.update config.places t next waiter).myGroup = some after.groupNum ∧
          ∀ other, (Function.update config.places t next other).isNextGroup = false := by
      intro same quiet unchanged
      rw [myGroup_update (by rw [located, same]), unchanged]
      exact ⟨fact.1, fun other => update_eq_false Place.isNextGroup (by simp [quiet]) (fact.2 other)⟩
    cases place with
    | arrive =>
        cases effect
        have different : waiter ≠ t := by
          rintro rfl
          rw [here] at awaits
          cases awaits
        rw [Function.update_of_ne different]
        exact ⟨fact.1, fun other => update_eq_false Place.isNextGroup rfl (fact.2 other)⟩
    | nextGroup size group =>
        exfalso
        have none := fact.2 t
        rw [located] at none
        cases none
    | wakeGroup size group =>
        have runs := woken (by cases effect; rfl)
        rw [(owned before).runs_eq_false here held_of_isCondWait rfl rfl] at runs
        cases runs
    | sizeTest size group | groupTest size group =>
        cases effect
        refine kept ?_ ?_ rfl
        · split <;> rfl
        · split <;> rfl
    | done size group => cases effect
    | _ =>
        cases effect
        exact kept rfl rfl rfl

theorem not_stalled (reached : Run code start (fun _ => OwnGroup) history config) : ¬ Stalled code config := by
  intro stalled
  have accounts := accounts reached
  obtain ⟨t, blocked⟩ := stalled.exists_blocked
  have awaits : (config.status t).awaits .waiting Place.isCondWait = true := by
    cases status : config.status t with
    | blocked cond which place =>
        cases cond
        rfl
    | ready place | woken which place =>
        rw [status] at blocked
        cases blocked
  have current := (waits_for_current reached awaits).1
  have some : 0 < config.memory.groupSize := by
    have number : (config.memory.groupSize : Int) = config.number (isMember config.memory.groupNum) :=
      accounts.size.trans (tally_weigh _ config)
    have positive : 0 < config.number (isMember config.memory.groupNum) :=
      number_pos (show isMember config.memory.groupNum t (config.status t).place = true by
        rw [isMember, ← Config.places, current]
        exact decide_eq_true rfl)
    omega
  obtain ⟨other, decides⟩ := accounts.decider some
  have guard := guarded reached other
  rw [Config.places] at decides
  cases status : config.status other with
  | ready place =>
      have exits := stalled.exits status
      rw [status] at decides
      cases place <;> first | cases exits; done | cases decides
  | blocked cond which place | woken which place =>
      rw [status] at decides guard
      cases place <;> first | cases guard; done | cases decides

/-- No friend inside a section of `mutex` waits for a mutex. -/
theorem not_stuck (reached : Run code start (fun _ => OwnGroup) history config) : ¬ Stuck code config := by
  refine (owned reached).not_stuck ?_ ?_ (not_stalled reached)
  · intro t place first second _ _
    cases first
    cases second
    rfl
  · intro t place which _ holds
    cases place <;> first | rfl | cases holds

/-- A friend that closes a group closes the current one. -/
theorem eq_groupNum_of_closes (reached : Run code start (fun _ => OwnGroup) history config) {t : T} {group : Nat}
    (closes : (config.status t).place.closes group = true) : group = config.memory.groupNum := by
  have guard := guarded reached t
  cases status : config.status t with
  | ready place =>
      rw [status] at closes guard
      cases place with
      | wakeGroup size mine | nextGroup size mine =>
          have same : mine = group := by simpa [Place.closes] using closes
          rw [← same]
          exact guard.2
      | _ => cases closes
  | blocked cond which place | woken which place =>
      rw [status] at closes guard
      cases place <;> first | cases closes | cases guard

/-- Each group is decided at most once. -/
theorem decided_le_one (reached : Run code start (fun _ => OwnGroup) history config) (group : Nat) :
    decided config.memory group ≤ 1 := by
  have count := (accounts reached).decided group
  have closing : tally (indicator (Place.closes group)) config ≤ 1 :=
    tally_indicator_le_one fun first second firstCloses secondCloses =>
      (owned reached).unique (holds_of_closes reached firstCloses) (holds_of_closes reached secondCloses)
  by_cases current : group = config.memory.groupNum
  · rw [if_neg (by omega), zero_add] at count
    have same : (decided config.memory group : Int) ≤ 1 := count.trans_le closing
    omega
  · have none : tally (indicator (Place.closes group)) config = 0 := by
      apply (tally_indicator_eq_zero_iff _).mpr
      intro t
      by_contra closes
      exact current (eq_groupNum_of_closes reached (by simpa using closes))
    have quiet : ∑ t, indicator (Place.closes group) t (config.places t) = 0 := none
    rw [quiet] at count
    split at count <;> omega

/-- While nobody closes a group, the decided groups are the groups before the current one. -/
theorem decided_eq (reached : Run code start (fun _ => OwnGroup) history config)
    (none : ∀ t, (config.status t).holds held .mutex = true → ∀ group, (config.places t).closes group = false)
    (group : Nat) :
    decided config.memory group = if 1 ≤ group ∧ group < config.memory.groupNum then 1 else 0 := by
  have count := (accounts reached).decided group
  have quiet : ∑ t, indicator (Place.closes group) t (config.places t) = 0 := by
    apply Finset.sum_eq_zero
    intro t _
    have idle : (config.places t).closes group = false := by
      by_contra closes
      have closes : (config.places t).closes group = true := by simpa using closes
      rw [none t (holds_of_closes reached closes)] at closes
      cases closes
    simp [indicator, idle]
  rw [quiet, add_zero] at count
  exact_mod_cast count

end

/-- The decisions of the groups in one configuration. -/
structure GroupDecision {T : Type} [Fintype T] (config : State T) : Prop where
  /-- No group is decided twice. -/
  once : ∀ group, decided config.memory group ≤ 1
  /-- Outside the sections of `mutex`, exactly the groups before the current one are decided. -/
  exactly : config.owner .mutex = none → ∀ group,
    decided config.memory group = if 1 ≤ group ∧ group < config.memory.groupNum then 1 else 0
  /-- The printed size of a group is the number of friends with this group. -/
  sizes : ∀ decision ∈ config.memory.decisions, decision.size = members config decision.group
  /-- A friend leaves only after its own group has been decided. -/
  leaves : ∀ t group, (config.status t).place.leaves = true → (config.status t).place.myGroup = some group →
    decided config.memory group = 1

section
variable {T : Type} [DecidableEq T] [Fintype T]

theorem groupDecision {history : History T Memory Place Mutex Cond} {config : State T}
    (reached : Run code start (fun _ => OwnGroup) history config) : GroupDecision config where
  once := decided_le_one reached
  exactly free := by
    apply decided_eq reached
    intro t holds
    rw [(owned reached).free free t] at holds
    cases holds
  sizes decision printed := by
    have size := ((accounts reached).sizes decision printed).2
    have number : ∑ t, weigh (isMember decision.group) t (config.places t) = members config decision.group :=
      tally_weigh _ config
    rw [number] at size
    exact_mod_cast size
  leaves t group gone member := by
    have accounts := accounts reached
    have count := accounts.decided group
    have early : 1 ≤ group ∧ group < config.memory.groupNum :=
      ⟨(accounts.groups t group member).1, accounts.left t group gone member⟩
    have closing : 0 ≤ ∑ t, indicator (Place.closes group) t (config.places t) :=
      Finset.sum_nonneg fun t _ => indicator_nonneg _ t _
    have once := decided_le_one reached group
    rw [if_pos early] at count
    omega

/-- A friend that meets the size of another group announces its own group once more. -/
theorem decides_again {history : History T Memory Place Mutex Cond} {config : State T}
    (reached : Run code start (fun _ => OwnGroup) history config) {t : T} (strays : ¬ OwnGroup config t) :
    ∃ next group, follow code config (turns 2 t) = some next ∧ decided next.memory group = 2 := by
  obtain ⟨place, here, meets⟩ := (Status.runs_iff _ _).mp (by simpa [OwnGroup] using strays)
  cases place with
  | sizeTest size group =>
      obtain ⟨same, other⟩ : size = config.memory.groupSize ∧ group ≠ config.memory.groupNum := by
        simpa [Place.meetsOther] using meets
      have bounds := (accounts reached).groups t group (by rw [Config.places_of_ready here]; rfl)
      have once := decided_eq reached (by
        intro holder holds mine
        have self : holder = t := (owned reached).unique holds (by rw [here]; rfl)
        rw [self, Config.places_of_ready here]
        rfl) group
      rw [if_pos (by omega)] at once
      have passes : fire code config (.run t) = some (config.setStatus t (.ready (.announce size group))) := by
        simp [fire, here, code, friend, perform, same]
        rfl
      have announces : ∃ next, fire code (config.setStatus t (.ready (.announce size group))) (.run t) =
        some next ∧
          next.memory.decisions = ⟨group, size⟩ :: config.memory.decisions := by
        simp [fire, code, friend, perform]
      obtain ⟨next, fired, printed⟩ := announces
      refine ⟨next, group, ?_, ?_⟩
      · simp only [turns, List.replicate, follow, passes, Option.bind_some, fired]
      · simp only [decided] at once
        simp [decided, printed, once]
  | _ => cases meets

end

/-- In every run in which no friend meets the size of another group,
the decisions are right and nobody waits for ever.
A friend that meets the size of another group decides its own group once more. -/
theorem decision_of_ownGroup {T : Type} [DecidableEq T] [Fintype T] {history : History T Memory Place Mutex Cond}
    {config : State T} (reached : Run code start (fun _ => OwnGroup) history config) :
    GroupDecision config ∧ ¬ Stalled code config ∧ ¬ Stuck code config ∧
      ∀ t, ¬ OwnGroup config t →
        ∃ next group, follow code config (turns 2 t) = some next ∧ decided next.memory group = 2 :=
  ⟨groupDecision reached, not_stalled reached, not_stuck reached, fun _ => decides_again reached⟩

/-- Two friends go to lunch in one group of two. -/
theorem two_friends_decide : ∃ history config,
    Run code (start : State (Fin 2)) (fun _ => OwnGroup) history config ∧
    (∀ t, Finished code config t) ∧ config.memory.decisions = [⟨1, 2⟩] ∧ GroupDecision config := by
  obtain ⟨history, config, reached, holds⟩ := exists_run code (start : State (Fin 2)) (fun _ => OwnGroup)
    (turns 3 0 ++ turns 3 1 ++ turns 4 0 ++ turns 7 1 ++ turns 4 0)
    (fun config => decide (∀ t, Finished code config t) && decide (config.memory.decisions = [⟨1, 2⟩])) (by decide)
  rw [Bool.and_eq_true, decide_eq_true_eq, decide_eq_true_eq] at holds
  exact ⟨history, config, reached, holds.1, holds.2, (decision_of_ownGroup reached).1⟩

/-- A late friend of the first group meets the size of the second group:
the first group is decided twice, once with a wrong size, and the second group leaves undecided. -/
theorem decision_fails : ∃ config, Reachable code (start : State (Fin 3)) config ∧ (∀ t, Finished code config t) ∧
    decided config.memory 1 = 2 ∧ ⟨1, 1⟩ ∈ config.memory.decisions ∧ members config 1 = 2 ∧
    (config.status 2).place.myGroup = some 2 ∧ decided config.memory 2 = 0 ∧ ¬ GroupDecision config := by
  obtain ⟨config, reached, holds⟩ := exists_reachable code (start : State (Fin 3))
    (turns 3 0 ++ turns 3 1 ++ turns 7 1 ++ turns 3 2 ++ turns 7 0 ++ turns 5 2)
    (fun config => decide ((∀ t, Finished code config t) ∧ decided config.memory 1 = 2 ∧
      ⟨1, 1⟩ ∈ config.memory.decisions ∧ members config 1 = 2 ∧ (config.status 2).place.myGroup = some 2 ∧
      decided config.memory 2 = 0)) (by decide)
  obtain ⟨finished, twice, printed, two, second, never⟩ := of_decide_eq_true holds
  refine ⟨config, reached, finished, twice, printed, two, second, never, fun decision => ?_⟩
  have once := decision.once 1
  omega

end OSLabs.Lunch
