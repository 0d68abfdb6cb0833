import OSLabs.Construction.Lunch
import OSLabs.Proof.Pthread.Local
import OSLabs.Proof.Pthread.Tally
import OSLabs.Proof.Pthread.Progress

namespace OSLabs.Lunch
open Pthread

namespace Place

/-- The friend is inside a section of `mutex`. -/
def locked : Place → Bool
  | .lockArrival | .lockDecision _ _ | .done _ _ => false
  | _ => true

/-- The friend has announced the decision of this group and not yet opened the next group. -/
def closes (group : Nat) : Place → Bool
  | .wakeGroup _ mine | .nextGroup _ mine => mine = group
  | _ => false

/-- The friend has seen this size and this group and has not yet found another size. -/
def decides (size group : Nat) : Place → Bool
  | .unlockArrival mySize mine | .lockDecision mySize mine | .sizeTest mySize mine | .announce mySize mine
  | .wakeGroup mySize mine | .nextGroup mySize mine => mySize = size && mine = group
  | _ => false

/-- The friend is about to wait. -/
def isCondWait : Place → Bool
  | .condWait _ _ => true
  | _ => false

/-- The friend has woken its group and not yet opened the next one. -/
def isNextGroup : Place → Bool
  | .nextGroup _ _ => true
  | _ => false

/-- The wait of a friend continues here. -/
def isGroupTest : Place → Bool
  | .groupTest _ _ => true
  | _ => false

end Place

/-- These places hold these mutexes. -/
def held (place : Place) (_ : Mutex) : Bool := place.locked

theorem held_of_isCondWait (place : Place) (waits : place.isCondWait = true) : held place .mutex = true := by
  cases place <;> first | rfl | cases waits

theorem held_of_isNextGroup (place : Place) (opens : place.isNextGroup = true) : held place .mutex = true := by
  cases place <;> first | rfl | cases opens

/-- The friend that decides a group decides the current group with its size. -/
def Guard {T : Type} (_ : T) (status : Status Place Mutex Cond) (memory : Memory) : Prop :=
  match status with
  | .ready (.announce size group) | .ready (.wakeGroup size group) | .ready (.nextGroup size group) =>
      size = memory.groupSize ∧ group = memory.groupNum
  | .ready (.condWait _ group) => memory.groupNum = group
  | .ready _ => True
  | .blocked _ _ place | .woken _ place => place.isGroupTest = true

/-- The weight of a friend in the members of a group. -/
def isMember {T : Type} (group : Nat) (_ : T) (place : Place) : Bool := place.myGroup = some group

/-- The accounts of the groups, which each section of `mutex` keeps. -/
structure Accounts {T : Type} [Fintype T] (places : T → Place) (memory : Memory) : Prop where
  first : 1 ≤ memory.groupNum
  groups : ∀ t group, (places t).myGroup = some group → 1 ≤ group ∧ group ≤ memory.groupNum
  size : (memory.groupSize : Int) = ∑ t, weigh (isMember memory.groupNum) t (places t)
  sizes : ∀ decision ∈ memory.decisions, decision.group ≤ memory.groupNum ∧
    (decision.size : Int) = ∑ t, weigh (isMember decision.group) t (places t)
  decided : ∀ group, (decided memory group : Int) = (if 1 ≤ group ∧ group < memory.groupNum then 1 else 0) +
    ∑ t, indicator (Place.closes group) t (places t)
  left : ∀ t group, (places t).leaves = true → (places t).myGroup = some group → group < memory.groupNum
  decider : 0 < memory.groupSize → ∃ t, (places t).decides memory.groupSize memory.groupNum = true

section
variable {T : Type}

theorem code_respects (t : T) (place : Place) : (code t place).Respects held place := by
  cases place with
  | lockArrival | unlockArrival size group | lockDecision size group | unlockDecision size group =>
      funext which
      cases which
      rfl
  | sizeTest size group | groupTest size group =>
      intro before after next effect
      cases effect
      split <;> rfl
  | arrive | announce size group | nextGroup size group | leave size group =>
      intro before after next effect
      cases effect
      rfl
  | condWait size group => exact ⟨rfl, rfl⟩
  | wakeGroup size group => rfl
  | done size group => trivial

theorem start_owned : Owned (fun _ => held) (start : State T) := by
  refine ⟨fun which t => ?_, fun t => trivial⟩
  simp [start, Status.holds, held, Place.locked]

/-- Only the owner of `mutex` can lose its guard. -/
theorem guard_stable (t : T) (status : Status Place Mutex Cond) (memory memory' : Memory)
    (free : status.holds held .mutex = false) (guard : Guard t status memory) : Guard t status memory' := by
  cases status with
  | ready place => cases place <;> trivial
  | blocked cond which place => exact guard
  | woken which place => exact guard

/-- A friend that keeps its group changes no group. -/
theorem myGroup_update [DecidableEq T] {places : T → Place} {t : T} {next : Place}
    (same : next.myGroup = (places t).myGroup) (other : T) :
    (Function.update places t next other).myGroup = (places other).myGroup := by
  by_cases hit : other = t
  · subst hit
    rw [Function.update_self, same]
  · rw [Function.update_of_ne hit]

/-- A friend that keeps its group keeps the members of every group. -/
theorem sum_isMember_update [DecidableEq T] [Fintype T] {places : T → Place} {t : T} {next : Place}
    (same : next.myGroup = (places t).myGroup) (group : Nat) :
    ∑ other, weigh (isMember group) other (Function.update places t next other) =
      ∑ other, weigh (isMember group) other (places other) := by
  rw [sum_update]
  simp [weigh, isMember, same]

section Accounting
variable [DecidableEq T] [Fintype T] {places : T → Place} {memory : Memory} {t : T} {next : Place}

/-- Where a friend has moved without leaving, the friends that leave are the same. -/
theorem Accounts.left_update (accounts : Accounts places memory) (stays : next.leaves = false) {other : T}
    {group : Nat}
    (gone : (Function.update places t next other).leaves = true)
    (member : (Function.update places t next other).myGroup = some group) : group < memory.groupNum := by
  by_cases hit : other = t
  · subst hit
    rw [Function.update_self, stays] at gone
    cases gone
  · rw [Function.update_of_ne hit] at gone member
    exact accounts.left other group gone member

/-- A friend that only moves on keeps the accounts. -/
theorem Accounts.move (accounts : Accounts places memory) (same : next.myGroup = (places t).myGroup)
    (closes : ∀ group, next.closes group = (places t).closes group)
    (leaves : next.leaves = true → ∀ group, next.myGroup = some group → group < memory.groupNum)
    (decides : (places t).decides memory.groupSize memory.groupNum = true →
      next.decides memory.groupSize memory.groupNum = true) :
    Accounts (Function.update places t next) memory where
  first := accounts.first
  groups other group member := by
    rw [myGroup_update same] at member
    exact accounts.groups other group member
  size := by rw [sum_isMember_update same, accounts.size]
  sizes decision printed := by
    rw [sum_isMember_update same]
    exact accounts.sizes decision printed
  decided group := by
    rw [accounts.decided, sum_update]
    simp [indicator, closes]
  left other group gone member := by
    by_cases hit : other = t
    · subst hit
      rw [Function.update_self] at gone member
      exact leaves gone group member
    · rw [Function.update_of_ne hit] at gone member
      exact accounts.left other group gone member
  decider some := by
    obtain ⟨other, holds⟩ := accounts.decider some
    refine ⟨other, ?_⟩
    by_cases hit : other = t
    · subst hit
      rw [Function.update_self]
      exact decides holds
    · rwa [Function.update_of_ne hit]

/-- An arriving friend joins the current group, which is undecided. -/
theorem Accounts.arrive (accounts : Accounts places memory) (here : places t = .arrive)
    (earlier : ∀ decision ∈ memory.decisions, decision.group < memory.groupNum) :
    Accounts (Function.update places t (.unlockArrival (memory.groupSize + 1) memory.groupNum))
      { memory with groupSize := memory.groupSize + 1 } := by
  have joined : ∀ group, ∑ other, weigh (isMember group) other (Function.update places t
      (.unlockArrival (memory.groupSize + 1) memory.groupNum) other) =
      ∑ other, weigh (isMember group) other (places other) + if group = memory.groupNum then 1 else 0 := by
    intro group
    rw [sum_update, here]
    simp [weigh, isMember, Place.myGroup, eq_comm]
  refine ⟨accounts.first, fun other group member => ?_, ?_, fun decision printed => ?_, fun group => ?_,
    fun other group gone member => ?_, fun _ => ⟨t, ?_⟩⟩
  · by_cases hit : other = t
    · subst hit
      rw [Function.update_self] at member
      cases member
      exact ⟨accounts.first, le_rfl⟩
    · rw [Function.update_of_ne hit] at member
      exact accounts.groups other group member
  · rw [joined, if_pos rfl, ← accounts.size]
    rfl
  · rw [joined, if_neg (Nat.ne_of_lt (earlier decision printed)), add_zero]
    exact accounts.sizes decision printed
  · have count : (Lunch.decided memory group : Int) = _ := accounts.decided group
    rw [sum_update, here]
    simp only [Lunch.decided] at count ⊢
    rw [count]
    simp [indicator, Place.closes]
  · exact accounts.left_update rfl gone member
  · simp [Place.decides]

/-- A friend announces the decision of the current group with its size. -/
theorem Accounts.announce (accounts : Accounts places memory)
    (here : places t = .announce memory.groupSize memory.groupNum) :
    Accounts (Function.update places t (.wakeGroup memory.groupSize memory.groupNum))
      { memory with decisions := ⟨memory.groupNum, memory.groupSize⟩ :: memory.decisions } := by
  have same : (Place.wakeGroup memory.groupSize memory.groupNum).myGroup = (places t).myGroup := by rw [here]; rfl
  refine ⟨accounts.first, fun other group member => ?_, ?_, fun decision printed => ?_, fun group => ?_,
    fun other group gone member => ?_, fun _ => ⟨t, ?_⟩⟩
  · rw [myGroup_update same] at member
    exact accounts.groups other group member
  · rw [sum_isMember_update same]
    exact accounts.size
  · rw [sum_isMember_update same]
    rcases List.mem_cons.mp printed with rfl | older
    · exact ⟨le_rfl, accounts.size⟩
    · exact accounts.sizes decision older
  · have count := accounts.decided group
    rw [sum_update, here]
    simp only [Lunch.decided, List.countP_cons] at count ⊢
    rw [Nat.cast_add, count]
    simp [indicator, Place.closes]
    omega
  · exact accounts.left_update rfl gone member
  · simp [Place.decides]

/-- The friend that has decided a group opens the next one. -/
theorem Accounts.nextGroup (accounts : Accounts places memory)
    (here : places t = .nextGroup memory.groupSize memory.groupNum) :
    Accounts (Function.update places t (.leave memory.groupSize memory.groupNum))
      { memory with groupSize := 0, groupNum := memory.groupNum + 1 } := by
  have same : (Place.leave memory.groupSize memory.groupNum).myGroup = (places t).myGroup := by rw [here]; rfl
  refine ⟨Nat.le_succ_of_le accounts.first, fun other group member => ?_, ?_, fun decision printed => ?_,
    fun group => ?_, fun other group gone member => ?_, by simp⟩
  · rw [myGroup_update same] at member
    have bounds := accounts.groups other group member
    exact ⟨bounds.1, Nat.le_succ_of_le bounds.2⟩
  · rw [sum_isMember_update same]
    refine (Finset.sum_eq_zero fun other _ => ?_).symm
    have new : (places other).myGroup ≠ some (memory.groupNum + 1) := by
      intro member
      have bounds := accounts.groups other _ member
      omega
    simp [weigh, isMember, new]
  · rw [sum_isMember_update same]
    have older := accounts.sizes decision printed
    exact ⟨Nat.le_succ_of_le older.1, older.2⟩
  · have count : (Lunch.decided memory group : Int) = _ := accounts.decided group
    have first := accounts.first
    rw [sum_update, here]
    simp only [Lunch.decided] at count ⊢
    rw [count]
    generalize ∑ other, indicator (Place.closes group) other (places other) = closing
    simp only [indicator, Place.closes, decide_eq_true_eq]
    split <;> split <;> split <;> first | omega | simp_all
  · by_cases hit : other = t
    · subst hit
      rw [Function.update_self] at member
      cases member
      exact Nat.lt_succ_self _
    · rw [Function.update_of_ne hit] at gone member
      exact Nat.lt_succ_of_lt (accounts.left other group gone member)

end Accounting

variable [DecidableEq T] [Fintype T] {history : History T Memory Place Mutex Cond} {config : State T}

theorem owned {allowed : History T Memory Place Mutex Cond → State T → T → Prop}
    (reached : Run code start allowed history config) : Owned (fun _ => held) config := by
  refine reached.owned code_respects start_owned ?_
  intro _ _ t place which next _ _ _ unlocks unheld
  cases place <;> cases unlocks <;> cases unheld

theorem guarded (reached : Run code start (fun _ => OwnGroup) history config) : Everywhere Guard config := by
  refine Run.everywhere Guard ?_ ?_ ?_ ?_ reached
  · intro t
    trivial
  · intro t cond which place memory guard
    exact guard
  · intro t which place memory guard
    cases place <;> trivial
  · intro history config t place before all own here
    have guard := all t
    rw [here] at guard
    have others : place.locked = true → ∀ memory other, other ≠ t → Guard other (config.status other) memory :=
      fun locked memory other different =>
        all.undisturbed (owned before) guard_stable here (locked : held place .mutex = true) memory different
    cases place with
    | lockArrival | lockDecision size group => exact fun _ => trivial
    | unlockArrival size group | unlockDecision size group => trivial
    | condWait size group => rfl
    | wakeGroup size group => exact guard
    | done size group => trivial
    | arrive | leave size group =>
        intro after next effect
        cases effect
        exact ⟨trivial, others rfl _⟩
    | nextGroup size group =>
        intro after next effect
        cases effect
        exact ⟨trivial, others rfl _⟩
    | announce size group =>
        intro after next effect
        cases effect
        exact ⟨guard, others rfl _⟩
    | sizeTest size group =>
        intro after next effect
        cases effect
        refine ⟨?_, others rfl _⟩
        split
        · next same =>
            rw [OwnGroup, here] at own
            have current : group = config.memory.groupNum := by simpa [Place.meetsOther, same] using own
            exact ⟨same, current⟩
        · trivial
    | groupTest size group =>
        intro after next effect
        cases effect
        refine ⟨?_, others rfl _⟩
        split
        · next same => exact same
        · trivial

/-- A friend that closes a group holds `mutex`. -/
theorem holds_of_closes (reached : Run code start (fun _ => OwnGroup) history config) {t : T} {group : Nat}
    (closes : (config.places t).closes group = true) : (config.status t).holds held .mutex = true := by
  have guard := guarded reached t
  rw [Config.places] at closes
  cases status : config.status t with
  | ready place =>
      rw [status] at closes
      cases place <;> first | rfl | cases closes
  | blocked cond which place | woken which place =>
      rw [status] at closes guard
      cases place <;> first | cases closes | cases guard

/-- The current group is undecided while another friend holds `mutex`. -/
theorem group_lt_of_printed (reached : Run code start (fun _ => OwnGroup) history config)
    (accounts : Accounts config.places config.memory)
    (none : ∀ t, (config.status t).holds held .mutex = true → ∀ group, (config.places t).closes group = false)
    {decision : Decision} (printed : decision ∈ config.memory.decisions) :
    1 ≤ decision.group ∧ decision.group < config.memory.groupNum := by
  have count := accounts.decided decision.group
  have quiet : ∑ t, indicator (Place.closes decision.group) t (config.places t) = 0 := by
    apply Finset.sum_eq_zero
    intro t _
    have idle : (config.places t).closes decision.group = false := by
      by_contra closes
      have closes : (config.places t).closes decision.group = true := by simpa using closes
      rw [none t (holds_of_closes reached closes)] at closes
      cases closes
    simp [indicator, idle]
  have positive : 0 < decided config.memory decision.group :=
    List.countP_pos_iff.mpr ⟨decision, printed, by simp⟩
  rw [quiet, add_zero] at count
  by_contra outside
  rw [if_neg outside] at count
  omega

theorem accounts (reached : Run code start (fun _ => OwnGroup) history config) :
    Accounts config.places config.memory := by
  refine reached.placed (fun _ places memory => Accounts places memory) ?_ (fun _ _ _ holds _ => holds) ?_
  · refine ⟨le_rfl, nofun, ?_, nofun, fun group => ?_, nofun, nofun⟩
    · simp [start, Memory.start, Config.places, weigh, isMember, Place.myGroup]
    · simp [start, Memory.start, Config.places, decided, indicator, Place.closes]
      omega
  · intro history config t place after next before accounts _ here effect
    have located := Config.places_of_ready here
    have guard := guarded before t
    rw [here] at guard
    cases place with
    | arrive =>
        cases effect
        refine accounts.arrive located fun decision printed => ?_
        refine (group_lt_of_printed before accounts ?_ printed).2
        intro other holds group
        have same : other = t := (owned before).unique holds (by rw [here]; rfl)
        rw [same, located]
        rfl
    | announce size group =>
        cases effect
        obtain ⟨rfl, rfl⟩ := guard
        exact accounts.announce located
    | nextGroup size group =>
        cases effect
        obtain ⟨rfl, rfl⟩ := guard
        exact accounts.nextGroup located
    | done size group => cases effect
    | lockArrival | unlockArrival size group | lockDecision size group | wakeGroup size group | condWait size group =>
        cases effect
        refine accounts.move ?_ (fun group => ?_) (by simp [Place.leaves]) (fun decides => ?_)
        · rw [located]
          rfl
        · rw [located]
          rfl
        · rw [located] at decides
          exact decides
    | leave size group | unlockDecision size group =>
        cases effect
        refine accounts.move ?_ (fun group => ?_) (fun _ group member => ?_) (fun decides => ?_)
        · rw [located]
          rfl
        · rw [located]
          rfl
        · exact accounts.left t group (by rw [located]; rfl) (by rw [located]; exact member)
        · rw [located] at decides
          cases decides
    | sizeTest size group =>
        cases effect
        refine accounts.move ?_ (fun group => ?_) ?_ (fun decides => ?_)
        · rw [located]
          split <;> rfl
        · rw [located]
          split <;> rfl
        · split <;> simp [Place.leaves]
        · rw [located] at decides
          simp only [Place.decides, Bool.and_eq_true, decide_eq_true_eq] at decides
          simp [Place.decides, decides]
    | groupTest size group =>
        have bounds := accounts.groups t group (by rw [located]; rfl)
        cases effect
        refine accounts.move ?_ (fun group => ?_) ?_ (fun decides => ?_)
        · rw [located]
          split <;> rfl
        · rw [located]
          split <;> rfl
        · split
          · simp [Place.leaves]
          · next other =>
              intro _ mine member
              cases member
              omega
        · rw [located] at decides
          cases decides

end

end OSLabs.Lunch
