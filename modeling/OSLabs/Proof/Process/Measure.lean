import OSLabs.Proof.Process.Run

namespace OSLabs.Process

section
variable {L E O : Type} {config : Config L E O} {pid : Nat}

/-- The sum of the weights of all processes. -/
def total (weight : Status L E → Nat) (config : Config L E O) : Nat :=
  ∑ pid ∈ Finset.range config.fresh, (config.status pid).elim 0 weight

variable (weight : Status L E → Nat)

/-- A process that changes its status changes the total by what its weight changes. -/
theorem total_setStatus (numbered : config.Numbered) {before : Status L E} (after : Status L E)
    (here : config.status pid = some before) :
    total weight (config.setStatus pid after) + weight before = total weight config + weight after := by
  have member : pid ∈ Finset.range config.fresh := Finset.mem_range.mpr (numbered.lt here)
  have others : ∀ other ∈ (Finset.range config.fresh).erase pid,
      ((config.setStatus pid after).status other).elim 0 weight = (config.status other).elim 0 weight := by
    intro other isOther
    rw [Config.setStatus_status, Function.update_of_ne (Finset.ne_of_mem_erase isOther)]
  unfold total
  rw [Config.setStatus_fresh, ← Finset.add_sum_erase _ _ member, Finset.sum_congr rfl others,
    ← Finset.add_sum_erase (Finset.range config.fresh) (fun pid => (config.status pid).elim 0 weight) member]
  simp only [Config.setStatus_status, Function.update_self, here, Option.elim_some]
  omega

/-- A process that gets a smaller weight lowers the total. -/
theorem total_setStatus_lt (numbered : config.Numbered) {before after : Status L E}
    (here : config.status pid = some before) (less : weight after < weight before) :
    total weight (config.setStatus pid after) < total weight config := by
  have changed := total_setStatus weight numbered after here
  omega

/-- A new process adds its weight. -/
theorem total_spawn (config : Config L E O) (pid : Nat) (child : L) :
    total weight (config.spawn pid child) = total weight config + weight (.running child) := by
  unfold total
  have others : ∀ other ∈ Finset.range config.fresh,
      ((config.spawn pid child).status other).elim 0 weight = (config.status other).elim 0 weight := by
    intro other inRange
    rw [Config.spawn_status, Function.update_of_ne (Finset.mem_range.mp inRange).ne]
  rw [Config.spawn_fresh, Finset.sum_range_succ, Finset.sum_congr rfl others, Config.spawn_status,
    Function.update_self]
  rfl

/-- A process that forks exchanges its weight for that of its next place and that of the new process. -/
theorem total_fork (numbered : config.Numbered) {before : L} (child after : L)
    (here : config.status pid = some (.running before)) :
    total weight ((config.spawn pid child).setPlace pid after) + weight (.running before) =
      total weight config + weight (.running child) + weight (.running after) := by
  have there : (config.spawn pid child).status pid = some (.running before) := by
    rw [Config.spawn_status, Function.update_of_ne (numbered.lt here).ne, here]
  have moved := total_setStatus weight (numbered.spawn pid child) (.running after) there
  rw [total_spawn] at moved
  exact moved

/-- A process that reaps another exchanges both weights. -/
theorem total_reap (numbered : config.Numbered) {child : Nat} {before : L} {termination : Termination} (after : L)
    (here : config.status pid = some (.running before))
    (zombie : config.status child = some (.zombie termination)) :
    total weight ((config.setStatus child (.reaped termination)).setPlace pid after) +
        weight (.running before) + weight (.zombie termination) =
      total weight config + weight (.reaped termination) + weight (.running after) := by
  have distinct : pid ≠ child := by
    rintro rfl
    rw [here] at zombie
    cases zombie
  have there : (config.setStatus child (.reaped termination)).status pid = some (.running before) := by
    rw [Config.setStatus_status, Function.update_of_ne distinct, here]
  have reaped := total_setStatus weight numbered (.reaped termination) zombie
  have moved : total weight ((config.setStatus child (.reaped termination)).setPlace pid after) + _ = _ :=
    total_setStatus weight (numbered.setStatus (numbered.lt zombie)) (.running after) there
  omega

/-- A fork lowers the total when the two places after it weigh less than the place before. -/
theorem total_fork_lt (numbered : config.Numbered) {before child after : L}
    (here : config.status pid = some (.running before))
    (less : weight (.running child) + weight (.running after) < weight (.running before)) :
    total weight ((config.spawn pid child).setPlace pid after) < total weight config := by
  have changed := total_fork weight numbered child after here
  omega

/-- A wait lowers the total when both processes weigh less after it. -/
theorem total_reap_lt (numbered : config.Numbered) {child : Nat} {before after : L} {termination : Termination}
    (here : config.status pid = some (.running before)) (zombie : config.status child = some (.zombie termination))
    (less : weight (.reaped termination) + weight (.running after) <
      weight (.running before) + weight (.zombie termination)) :
    total weight ((config.setStatus child (.reaped termination)).setPlace pid after) < total weight config := by
  have changed := total_reap weight numbered after here zombie
  omega

/-- The total depends only on the statuses. -/
theorem total_congr {first second : Config L E O} (fresh : first.fresh = second.fresh)
    (status : first.status = second.status) : total weight first = total weight second := by
  unfold total
  rw [fresh, status]

end

end OSLabs.Process
