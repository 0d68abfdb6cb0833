import OSLabs.Proof.Process.Measure

namespace OSLabs.Process

variable {L E O : Type}

/-- The process with the number one has forked all the others and has waited for so many of them.
Its child `k` has the number `k + 2`. -/
structure Crew (fits : Nat → Status L E → Prop) (config : Config L E O) (started ended : Nat) : Prop where
  numbered : config.Numbered
  quiet : config.Quiet
  fresh : config.fresh = started + 2
  children : config.children 1 + ended = started
  root : config.status 0 = none ∧ config.parent 1 = 0
  parents : ∀ k < started, config.parent (k + 2) = 1
  members : ∀ k < started, ∃ status, config.status (k + 2) = some status ∧ fits k status

section
variable {fits : Nat → Status L E → Prop} {config next : Config L E O} {started ended : Nat}

theorem crew_initial (first : L) : Crew fits (Config.initial first : Config L E O) 0 0 where
  numbered := numbered_initial first
  quiet := quiet_initial first
  fresh := rfl
  children := by simp [Config.children, Config.unreaped, Config.initial]
  root := ⟨rfl, rfl⟩
  parents := by simp
  members := by simp

/-- Every other process is one of the children. -/
theorem Crew.exists_child (crew : Crew fits config started ended) {pid : Nat} {status : Status L E}
    (here : config.status pid = some status) (notMain : pid ≠ 1) :
    ∃ k, k < started ∧ pid = k + 2 ∧ fits k status := by
  have inRange := crew.numbered.lt here
  rw [crew.fresh] at inRange
  have positive : pid ≠ 0 := by
    rintro rfl
    simp [crew.root.1] at here
  obtain ⟨k, rfl⟩ : ∃ k, pid = k + 2 := ⟨pid - 2, by omega⟩
  obtain ⟨same, there, holds⟩ := crew.members k (by omega)
  obtain rfl : same = status := Option.some.inj (there.symm.trans here)
  exact ⟨k, by omega, rfl, holds⟩

/-- The crew does not depend on what was printed and executed. -/
theorem Crew.congr (crew : Crew fits config started ended) (fresh : next.fresh = config.fresh)
    (parent : next.parent = config.parent) (status : next.status = config.status)
    (pending : next.pending = config.pending) (disposition : next.disposition = config.disposition) :
    Crew fits next started ended where
  numbered := crew.numbered.of_status fresh status
  quiet := by
    rw [Config.Quiet, pending, disposition]
    exact crew.quiet
  fresh := fresh.trans crew.fresh
  children := by
    rw [children_congr fresh fun child _ => by simp [Config.unreaped, parent, status]]
    exact crew.children
  root := by
    rw [status, parent]
    exact crew.root
  parents := by
    rw [parent]
    exact crew.parents
  members := by
    rw [status]
    exact crew.members

/-- The first process goes on. -/
theorem Crew.setMain (crew : Crew fits config started ended) (status : Status L E) :
    Crew fits (config.setStatus 1 status) started ended where
  numbered := by
    have fresh := crew.fresh
    exact crew.numbered.setStatus (by omega)
  quiet := crew.quiet
  fresh := crew.fresh
  children := by
    have same : (config.setStatus 1 status).children 1 = config.children 1 := by
      refine children_congr rfl fun pid _ => ?_
      by_cases isMain : pid = 1
      · simp [Config.unreaped, isMain, crew.root.2]
      · simp [Config.unreaped, isMain]
    rw [same]
    exact crew.children
  root := by simpa using crew.root
  parents := crew.parents
  members k below := by simpa using crew.members k below

/-- A child goes on and is still to be waited for. -/
theorem Crew.setChild (crew : Crew fits config started ended) {k : Nat} {before after : Status L E}
    (here : config.status (k + 2) = some before) (kept : after.isReaped = before.isReaped) (holds : fits k after) :
    Crew fits (config.setStatus (k + 2) after) started ended where
  numbered := crew.numbered.setStatus (crew.numbered.lt here)
  quiet := crew.quiet
  fresh := crew.fresh
  children := by
    rw [children_setStatus here kept]
    exact crew.children
  root := by simpa using crew.root
  parents := crew.parents
  members j below := by
    by_cases same : j = k
    · exact ⟨after, by simp [same], same ▸ holds⟩
    · simpa [same] using crew.members j below

/-- The first process forks the next child. -/
theorem Crew.fork (crew : Crew fits config started ended) {child : L} (holds : fits started (.running child))
    (after : L) :
    Crew fits ((config.spawn 1 child).setPlace 1 after) (started + 1) ended := by
  have fresh := crew.fresh
  refine Crew.setMain ⟨crew.numbered.spawn 1 child, crew.quiet.spawn child, by simp [fresh], ?_, ?_, ?_, ?_⟩ _
  · have grown := children_spawn config 1 child 1
    have children := crew.children
    rw [if_pos rfl] at grown
    omega
  · simpa [fresh] using crew.root
  · intro k below
    by_cases last : k = started
    · simp [last, fresh]
    · simpa [fresh, last] using crew.parents k (by omega)
  · intro k below
    by_cases last : k = started
    · exact ⟨_, by simp [last, fresh], last ▸ holds⟩
    · simpa [fresh, last] using crew.members k (by omega)

/-- The first process waits for a child. -/
theorem Crew.reap (crew : Crew fits config started ended) {k : Nat} {status : Status L E}
    {termination : Termination}
    (there : config.status (k + 2) = some status) (unreaped : status.isReaped = false)
    (holds : fits k (.reaped termination)) (after : L) :
    Crew fits ((config.setStatus (k + 2) (.reaped termination)).setPlace 1 after) started (ended + 1) := by
  have inRange := crew.numbered.lt there
  have below : k < started := by
    have fresh := crew.fresh
    omega
  refine Crew.setMain ⟨crew.numbered.setStatus inRange, crew.quiet, crew.fresh, ?_, ?_, crew.parents, ?_⟩ _
  · have fewer := children_reap crew.numbered there unreaped (crew.parents k below) termination 1
    have children := crew.children
    rw [if_pos rfl] at fewer
    omega
  · simpa using crew.root
  · intro j inCrew
    by_cases same : j = k
    · exact ⟨_, by simp [same], same ▸ holds⟩
    · simpa [same] using crew.members j inCrew

/-- A child that the first process may wait for is one of the children. -/
theorem Crew.child_of_parent (crew : Crew fits config started ended) {child : Nat} {status : Status L E}
    (parent : config.parent child = 1) (there : config.status child = some status) :
    ∃ k, k < started ∧ child = k + 2 ∧ fits k status := by
  refine crew.exists_child there ?_
  rintro rfl
  simp [crew.root.2] at parent

/-- While the first process has not waited for all children, one of them is left. -/
theorem Crew.exists_unreaped (crew : Crew fits config started ended) (more : ended < started) :
    ∃ k status, k < started ∧ config.status (k + 2) = some status ∧ status.isReaped = false ∧ fits k status := by
  have children := crew.children
  obtain ⟨child, status, parent, there, unreaped⟩ := Process.exists_unreaped (show config.children 1 ≠ 0 by omega)
  obtain ⟨k, below, rfl, holds⟩ := crew.child_of_parent parent there
  exact ⟨k, status, below, there, unreaped, holds⟩

/-- When the first process has waited for all children, each of them has been reaped. -/
theorem Crew.exists_reaped (crew : Crew fits config started ended) (all : ended = started) {k : Nat}
    (below : k < started) :
    ∃ termination, config.status (k + 2) = some (.reaped termination) ∧ fits k (.reaped termination) := by
  have children := crew.children
  have none := (children_eq_zero crew.numbered).mp (show config.children 1 = 0 by omega) (k + 2)
  obtain ⟨status, there, holds⟩ := crew.members k below
  simp only [Config.unreaped, crew.parents k below, BEq.rfl, Bool.true_and, there, Option.any_some] at none
  cases status with
  | reaped termination => exact ⟨termination, there, holds⟩
  | _ => cases none

end

end OSLabs.Process
