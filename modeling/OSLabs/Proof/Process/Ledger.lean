import OSLabs.Proof.Process.Measure

namespace OSLabs.Process

open Transition

variable {L E O : Type}

/-- The only signals that wait are those that the end of a child sends. -/
def Config.OnlyChld (config : Config L E O) : Prop := ∀ pid, ∀ signal ∈ config.pending pid, signal = .chld

/-- The instruction sends a signal. -/
def Instr.kills : Instr L E O → Bool
  | .kill _ _ _ => true
  | _ => false

/-- A process at this instruction owes an amount of executions that it pays or hands on. -/
def Instr.Balanced (owed : L → Nat) (counts : E → Bool) (amount : Nat) : Instr L E O → Prop
  | .jump next | .print _ next | .kill _ _ next | .signal _ _ next => owed next = amount
  | .fork child next => ∀ pid, owed child + owed (next pid) = amount
  | .exec image failed => (if counts image then 1 else 0) = amount ∧ owed failed = 0
  | .wait next | .waitpid _ next => ∀ word, owed (next word) = amount
  | .exit _ | .crash _ _ => amount = 0

/-- Every instruction of the program is balanced, and a handler owes what the interrupted place owes. -/
structure Program.Balanced (program : Program L E O) (owed : L → Nat) (counts : E → Bool) : Prop where
  code : ∀ place, (program.code place).Balanced owed counts (owed place)
  handler : ∀ signal place, owed (program.handler signal place) = owed place

/-- Only a process that runs the program owes something. -/
def Status.owed (owed : L → Nat) : Status L E → Nat
  | .running place => owed place
  | _ => 0

/-- The number of executions that count. -/
def Config.executed (counts : E → Bool) (config : Config L E O) : Nat :=
    config.execs.countP fun entry => counts entry.2

section
variable {program : Program L E O} {config next : Config L E O} {owed : L → Nat} {counts : E → Bool} {pid : Nat}

@[simp] theorem status_owed_running (place : L) : (Status.running place : Status L E).owed owed = owed place := rfl
@[simp] theorem status_owed_executing (image : E) : (Status.executing image : Status L E).owed owed = 0 := rfl
@[simp] theorem status_owed_zombie (termination : Termination) :
    (Status.zombie termination : Status L E).owed owed = 0 := rfl
@[simp] theorem status_owed_reaped (termination : Termination) :
    (Status.reaped termination : Status L E).owed owed = 0 := rfl

theorem executed_call (image : E) :
    (config.call pid image).executed counts = config.executed counts + if counts image then 1 else 0 := by
  simp [Config.executed, List.countP_cons]

/-- What does not change the executions does not change their number. -/
theorem executed_congr (same : next.execs = config.execs) : next.executed counts = config.executed counts := by
  unfold Config.executed
  rw [same]

theorem onlyChld_initial (first : L) : (Config.initial first : Config L E O).OnlyChld :=
  fun _ _ member => absurd member List.not_mem_nil

theorem Config.OnlyChld.of_pending (only : config.OnlyChld) (same : next.pending = config.pending) :
    next.OnlyChld := by
  unfold Config.OnlyChld
  rw [same]
  exact only

theorem Config.OnlyChld.spawn (only : config.OnlyChld) (pid : Nat) (child : L) :
    (config.spawn pid child).OnlyChld := by
  intro other signal member
  by_cases same : other = config.fresh
  · simp [same] at member
  · exact only other signal (by simpa [same] using member)

theorem Config.OnlyChld.unpend (only : config.OnlyChld) (signal : Signal) :
    (config.unpend pid signal).OnlyChld := by
  intro other another member
  by_cases same : other = pid
  · subst same
    exact only other another (List.mem_of_mem_erase (by simpa using member))
  · exact only other another (by simpa [same] using member)

theorem Config.OnlyChld.send (only : config.OnlyChld) (pid : Nat) : (config.send pid .chld).OnlyChld := by
  unfold Config.send
  split
  · exact only
  · intro other signal member
    by_cases same : other = pid
    · subst same
      simp only [Function.update_self, List.mem_cons] at member
      exact member.elim id (only other signal)
    · exact only other signal (by simpa [same] using member)

theorem Config.OnlyChld.finish (only : config.OnlyChld) (termination : Termination) :
    (config.finish pid termination).OnlyChld :=
  (only.of_pending rfl : (config.setStatus pid (.zombie termination)).OnlyChld).send (config.parent pid)

/-- A program that sends no signal lets only the ends of children wait. -/
theorem Config.OnlyChld.fire (only : config.OnlyChld) (silent : ∀ place, (program.code place).kills = false)
    {move : Move} (fired : Process.fire program config move = some next) : next.OnlyChld := by
  cases move with
  | run pid =>
      obtain ⟨place, here, performed⟩ := exists_of_run fired
      have isSilent := silent place
      cases instr : program.code place <;> simp only [instr, perform] at performed isSilent
      case jump | print | exec =>
        obtain rfl := Option.some.inj performed
        exact only
      case signal =>
        obtain rfl := Option.some.inj performed
        exact only.of_pending (by simp)
      case fork child after =>
        obtain rfl := Option.some.inj performed
        exact only.spawn pid child
      case wait after =>
        split at performed
        · obtain rfl := Option.some.inj performed
          exact only
        · cases performed
      case waitpid child after =>
        split at performed
        · cases performed
        · obtain rfl := Option.some.inj performed
          exact only
      case kill => cases isSilent
      case exit | crash =>
        obtain rfl := Option.some.inj performed
        exact only.finish _
  | refuse pid =>
      obtain ⟨_, _, _, _, _, rfl⟩ := exists_of_refuse fired
      exact only
  | reap pid child =>
      obtain ⟨_, _, _, _, _, _, _, rfl⟩ := exists_of_reap fired
      exact only
  | deliver pid signal =>
      obtain ⟨_, _, _, _, ⟨_, rfl⟩ | ⟨_, rfl⟩ | ⟨_, _, rfl⟩⟩ := exists_of_deliver fired
      · exact only.unpend signal
      · exact only.unpend signal
      · exact (only.unpend signal).finish _
  | terminate pid termination =>
      obtain ⟨_, _, rfl⟩ := exists_of_terminate fired
      exact only.finish _

/-- A process that goes on changes the total by what it pays. -/
theorem total_owed_setStatus (between : Config L E O) (after : Status L E) (paid : Nat)
    (numbered : config.Numbered)
    (fresh : between.fresh = config.fresh) (status : between.status = config.status) {before : Status L E}
    (here : config.status pid = some before) (pays : after.owed owed + paid = before.owed owed) :
    total (Status.owed owed) (between.setStatus pid after) + paid = total (Status.owed owed) config := by
  have moved := total_setStatus (Status.owed owed) numbered after here
  have same : total (Status.owed owed) (between.setStatus pid after) =
      total (Status.owed owed) (config.setStatus pid after) := total_congr _ fresh (by simp [status])
  omega

/-- The end of a process that owes nothing changes neither what is owed nor what has been executed. -/
theorem total_owed_finish (numbered : config.Numbered) {before : Status L E} (termination : Termination)
    (here : config.status pid = some before) (nothing : before.owed owed = 0) :
    total (Status.owed owed) (config.finish pid termination) + (config.finish pid termination).executed counts =
      total (Status.owed owed) config + config.executed counts := by
  have moved := total_owed_setStatus config (.zombie termination) 0 numbered rfl rfl here
    (show (Status.zombie termination : Status L E).owed owed + 0 = before.owed owed by simp [nothing])
  have same : total (Status.owed owed) (config.finish pid termination) =
      total (Status.owed owed) (config.setStatus pid (.zombie termination)) := total_congr _ (by simp) (by simp)
  have paid : (config.finish pid termination).executed counts = config.executed counts :=
    executed_congr (Config.finish_execs _ _ _)
  omega

/-- What is owed and what has been executed add up to the same number after every move. -/
theorem Program.Balanced.fire (balanced : program.Balanced owed counts) (numbered : config.Numbered)
    (only : config.OnlyChld) {move : Move} (fired : Process.fire program config move = some next) :
    total (Status.owed owed) next + next.executed counts =
      total (Status.owed owed) config + config.executed counts := by
  have goesOn : ∀ {pid place after} {between : Config L E O}, between.fresh = config.fresh →
      between.status = config.status → between.execs = config.execs → config.status pid = some (.running place) →
      owed after = owed place → total (Status.owed owed) (between.setPlace pid after) +
        (between.setPlace pid after).executed counts =
          total (Status.owed owed) config + config.executed counts := by
    intro pid place after between fresh status execs here same
    have moved := total_owed_setStatus between (.running after) 0 numbered fresh status here same
    have paid : (between.setPlace pid after).executed counts = config.executed counts := executed_congr execs
    rw [paid]
    exact congrArg (· + config.executed counts) moved
  cases move with
  | run pid =>
      obtain ⟨place, here, performed⟩ := exists_of_run fired
      have law := balanced.code place
      cases instr : program.code place <;> simp only [instr, perform] at performed law
      case jump | print =>
        obtain rfl := Option.some.inj performed
        exact goesOn rfl rfl rfl here law
      case kill | signal =>
        obtain rfl := Option.some.inj performed
        exact goesOn (by simp) (by simp) (by simp) here law
      case wait | waitpid =>
        split at performed
        · cases performed <;> exact goesOn rfl rfl rfl here (law none)
        · cases performed <;> exact goesOn rfl rfl rfl here (law none)
      case fork child after =>
        obtain rfl := Option.some.inj performed
        have changed := total_fork (Status.owed owed) numbered child (after config.fresh) here
        have shared := law config.fresh
        have paid : ((config.spawn pid child).setPlace pid (after config.fresh)).executed counts =
            config.executed counts := executed_congr rfl
        simp only [status_owed_running] at changed
        omega
      case exec image failed =>
        obtain rfl := Option.some.inj performed
        have moved :=
          total_owed_setStatus (config.call pid image) (.executing image) (owed place) numbered rfl rfl here
          (Nat.zero_add _)
        have paid : ((config.call pid image).setStatus pid (.executing image)).executed counts =
            config.executed counts + if counts image then 1 else 0 := executed_call image
        rw [paid, law.1]
        omega
      case exit | crash =>
        obtain rfl := Option.some.inj performed
        exact total_owed_finish numbered _ here law
  | refuse pid =>
      obtain ⟨place, image, failed, here, instr, rfl⟩ := exists_of_refuse fired
      have law := balanced.code place
      simp only [instr, Instr.Balanced] at law
      have moved :=
        total_owed_setStatus (config.call pid image) (.running failed) (owed place) numbered rfl rfl here
        (show owed failed + owed place = owed place by omega)
      have paid : ((config.call pid image).setPlace pid failed).executed counts =
          config.executed counts + if counts image then 1 else 0 := executed_call image
      rw [paid, law.1]
      unfold Config.setPlace
      omega
  | reap pid child =>
      obtain ⟨place, termination, after, here, zombie, awaits, parent, rfl⟩ := exists_of_reap fired
      have law := balanced.code place
      have kept : owed (after (some termination.word)) = owed place := by
        cases instr : program.code place <;> simp only [instr, Instr.awaits] at awaits law
        case wait next =>
          obtain rfl := Option.some.inj awaits
          exact law _
        case waitpid other next =>
          split at awaits
          · obtain rfl := Option.some.inj awaits
            exact law _
          · cases awaits
        all_goals cases awaits
      have changed := total_reap (Status.owed owed) numbered (after (some termination.word)) here zombie
      have paid :
        ((config.setStatus child (.reaped termination)).setPlace pid (after (some termination.word))).executed
          counts = config.executed counts := executed_congr rfl
      simp only [status_owed_running, status_owed_zombie, status_owed_reaped] at changed
      omega
  | deliver pid signal =>
      obtain ⟨place, here, waiting, _, ⟨_, rfl⟩ | ⟨_, rfl⟩ | ⟨_, deadly, rfl⟩⟩ := exists_of_deliver fired
      · exact goesOn rfl rfl rfl here (balanced.handler signal place)
      · rfl
      · rw [only pid signal waiting] at deadly
        exact absurd deadly (by decide)
  | terminate pid termination =>
      obtain ⟨image, here, rfl⟩ := exists_of_terminate fired
      exact total_owed_finish numbered _ here rfl

/-- In every run what is owed and what has been executed add up to what the first process owed at its start. -/
theorem Program.Balanced.reachable (balanced : program.Balanced owed counts)
    (silent : ∀ place, (program.code place).kills = false) {first : L} {allowed : Config L E O → Move → Prop}
    (reached : Reachable (Process.fire program) allowed (.initial first) config) :
    total (Status.owed owed) config + config.executed counts = owed first := by
  have holds := reached.invariant
    (fun config => config.Numbered ∧ config.OnlyChld ∧
      total (Status.owed owed) config + config.executed counts = owed first)
    ⟨numbered_initial first, onlyChld_initial
      first, by simp [total, Config.executed, Config.initial, Finset.sum_range_succ]⟩
    fun move holds _ fired =>
      ⟨holds.1.fire fired, holds.2.1.fire silent fired, (balanced.fire holds.1 holds.2.1 fired).trans holds.2.2⟩
  exact holds.2.2

/-- Nothing is owed when no place of a process owes something. -/
theorem total_owed_eq_zero (none : ∀ pid place, config.status pid = some (.running place) → owed place = 0) :
    total (Status.owed owed) config = 0 := by
  apply Finset.sum_eq_zero
  intro pid _
  cases here : config.status pid with
  | none => rfl
  | some status =>
      cases status with
      | running place => exact none pid place here
      | _ => rfl

end

end OSLabs.Process
