import OSLabs.Construction.Process
import OSLabs.Proof.Transition.Run
import Mathlib.Algebra.BigOperators.Group.Finset.Basic
import Mathlib.Algebra.BigOperators.Group.Finset.Piecewise

namespace OSLabs.Process

open Transition

section Words

/-- A signal has no exit code in its word, so that `WEXITSTATUS` alone takes the child for a success. -/
@[simp] theorem wExitStatus_killed (signal : Signal) (core : Bool) :
    wExitStatus (Termination.killed signal core).word = 0 := by
  have bounds := signal.inRange
  cases core <;> simp only [wExitStatus, Termination.word] <;> simp <;> omega

@[simp] theorem wExitStatus_exited (code : Fin 256) : wExitStatus (Termination.exited code).word = code := by
  have bound := code.isLt
  simp only [wExitStatus, Termination.word]
  omega

@[simp] theorem wIfExited_exited (code : Fin 256) : wIfExited (Termination.exited code).word = true := by
  simp only [wIfExited, Termination.word, beq_iff_eq]
  omega

@[simp] theorem wIfExited_killed (signal : Signal) (core : Bool) :
    wIfExited (Termination.killed signal core).word = false := by
  have bounds := signal.inRange
  cases core <;> simp only [wIfExited, Termination.word, beq_eq_false_iff_ne] <;> simp <;> omega

end Words

variable {L E O : Type} {program : Program L E O} {config next : Config L E O}

namespace Config

section Updates

variable (config : Config L E O) (pid : Nat)

@[simp] theorem setStatus_fresh (status : Status L E) : (config.setStatus pid status).fresh = config.fresh := rfl
@[simp] theorem setStatus_parent (status : Status L E) :
    (config.setStatus pid status).parent = config.parent := rfl
@[simp] theorem setStatus_status (status : Status L E) :
    (config.setStatus pid status).status = Function.update config.status pid (some status) := rfl
@[simp] theorem setStatus_disposition (status : Status L E) :
    (config.setStatus pid status).disposition = config.disposition := rfl
@[simp] theorem setStatus_pending (status : Status L E) :
    (config.setStatus pid status).pending = config.pending := rfl
@[simp] theorem setStatus_output (status : Status L E) :
    (config.setStatus pid status).output = config.output := rfl
@[simp] theorem setStatus_execs (status : Status L E) : (config.setStatus pid status).execs = config.execs := rfl

@[simp] theorem setPlace_fresh (place : L) : (config.setPlace pid place).fresh = config.fresh := rfl
@[simp] theorem setPlace_parent (place : L) : (config.setPlace pid place).parent = config.parent := rfl
@[simp] theorem setPlace_status (place : L) :
    (config.setPlace pid place).status = Function.update config.status pid (some (.running place)) := rfl
@[simp] theorem setPlace_disposition (place : L) :
    (config.setPlace pid place).disposition = config.disposition := rfl
@[simp] theorem setPlace_pending (place : L) : (config.setPlace pid place).pending = config.pending := rfl
@[simp] theorem setPlace_output (place : L) : (config.setPlace pid place).output = config.output := rfl
@[simp] theorem setPlace_execs (place : L) : (config.setPlace pid place).execs = config.execs := rfl

@[simp] theorem print_fresh (line : O) : (config.print line).fresh = config.fresh := rfl
@[simp] theorem print_parent (line : O) : (config.print line).parent = config.parent := rfl
@[simp] theorem print_status (line : O) : (config.print line).status = config.status := rfl
@[simp] theorem print_disposition (line : O) : (config.print line).disposition = config.disposition := rfl
@[simp] theorem print_pending (line : O) : (config.print line).pending = config.pending := rfl
@[simp] theorem print_output (line : O) : (config.print line).output = line :: config.output := rfl
@[simp] theorem print_execs (line : O) : (config.print line).execs = config.execs := rfl

@[simp] theorem call_fresh (image : E) : (config.call pid image).fresh = config.fresh := rfl
@[simp] theorem call_parent (image : E) : (config.call pid image).parent = config.parent := rfl
@[simp] theorem call_status (image : E) : (config.call pid image).status = config.status := rfl
@[simp] theorem call_disposition (image : E) : (config.call pid image).disposition = config.disposition := rfl
@[simp] theorem call_pending (image : E) : (config.call pid image).pending = config.pending := rfl
@[simp] theorem call_output (image : E) : (config.call pid image).output = config.output := rfl
@[simp] theorem call_execs (image : E) : (config.call pid image).execs = (pid, image) :: config.execs := rfl

@[simp] theorem unpend_fresh (signal : Signal) : (config.unpend pid signal).fresh = config.fresh := rfl
@[simp] theorem unpend_parent (signal : Signal) : (config.unpend pid signal).parent = config.parent := rfl
@[simp] theorem unpend_status (signal : Signal) : (config.unpend pid signal).status = config.status := rfl
@[simp] theorem unpend_disposition (signal : Signal) :
    (config.unpend pid signal).disposition = config.disposition := rfl
@[simp] theorem unpend_pending (signal : Signal) :
    (config.unpend pid signal).pending = Function.update config.pending pid
      ((config.pending pid).erase signal) := rfl
@[simp] theorem unpend_output (signal : Signal) : (config.unpend pid signal).output = config.output := rfl
@[simp] theorem unpend_execs (signal : Signal) : (config.unpend pid signal).execs = config.execs := rfl

@[simp] theorem spawn_fresh (child : L) : (config.spawn pid child).fresh = config.fresh + 1 := rfl
@[simp] theorem spawn_parent (child : L) :
    (config.spawn pid child).parent = Function.update config.parent config.fresh pid := rfl
@[simp] theorem spawn_status (child : L) :
    (config.spawn pid child).status = Function.update config.status config.fresh (some (.running child)) := rfl
@[simp] theorem spawn_disposition (child : L) :
    (config.spawn pid child).disposition =
      Function.update config.disposition config.fresh (config.disposition pid) := rfl
@[simp] theorem spawn_pending (child : L) :
    (config.spawn pid child).pending = Function.update config.pending config.fresh [] := rfl
@[simp] theorem spawn_output (child : L) : (config.spawn pid child).output = config.output := rfl
@[simp] theorem spawn_execs (child : L) : (config.spawn pid child).execs = config.execs := rfl

/-- Sending a signal changes only the pending signals. -/
theorem send_eq (signal : Signal) : ∃ pending, config.send pid signal = { config with pending := pending } := by
  unfold send
  split
  · exact ⟨config.pending, rfl⟩
  · exact ⟨_, rfl⟩

@[simp] theorem send_fresh (signal : Signal) : (config.send pid signal).fresh = config.fresh := by
  obtain ⟨_, same⟩ := config.send_eq pid signal
  rw [same]

@[simp] theorem send_parent (signal : Signal) : (config.send pid signal).parent = config.parent := by
  obtain ⟨_, same⟩ := config.send_eq pid signal
  rw [same]

@[simp] theorem send_status (signal : Signal) : (config.send pid signal).status = config.status := by
  obtain ⟨_, same⟩ := config.send_eq pid signal
  rw [same]

@[simp] theorem send_disposition (signal : Signal) :
    (config.send pid signal).disposition = config.disposition := by
  obtain ⟨_, same⟩ := config.send_eq pid signal
  rw [same]

@[simp] theorem send_output (signal : Signal) : (config.send pid signal).output = config.output := by
  obtain ⟨_, same⟩ := config.send_eq pid signal
  rw [same]

@[simp] theorem send_execs (signal : Signal) : (config.send pid signal).execs = config.execs := by
  obtain ⟨_, same⟩ := config.send_eq pid signal
  rw [same]

/-- Sending a signal does not change what waits for another process. -/
theorem send_pending_of_ne {other : Nat} (different : other ≠ pid) (signal : Signal) :
    (config.send pid signal).pending other = config.pending other := by
  unfold send
  split
  · rfl
  · exact Function.update_of_ne different _ _

/-- Setting a disposition changes only the dispositions. -/
theorem setDisposition_eq (signal : Signal) (disposition : Disposition) :
    ∃ dispositions, config.setDisposition pid signal disposition =
      { config with disposition := dispositions } := by
  unfold setDisposition
  split
  · exact ⟨config.disposition, rfl⟩
  · exact ⟨_, rfl⟩

@[simp] theorem setDisposition_fresh (signal : Signal) (disposition : Disposition) :
    (config.setDisposition pid signal disposition).fresh = config.fresh := by
  obtain ⟨_, same⟩ := config.setDisposition_eq pid signal disposition
  rw [same]

@[simp] theorem setDisposition_parent (signal : Signal) (disposition : Disposition) :
    (config.setDisposition pid signal disposition).parent = config.parent := by
  obtain ⟨_, same⟩ := config.setDisposition_eq pid signal disposition
  rw [same]

@[simp] theorem setDisposition_status (signal : Signal) (disposition : Disposition) :
    (config.setDisposition pid signal disposition).status = config.status := by
  obtain ⟨_, same⟩ := config.setDisposition_eq pid signal disposition
  rw [same]

@[simp] theorem setDisposition_pending (signal : Signal) (disposition : Disposition) :
    (config.setDisposition pid signal disposition).pending = config.pending := by
  obtain ⟨_, same⟩ := config.setDisposition_eq pid signal disposition
  rw [same]

@[simp] theorem setDisposition_output (signal : Signal) (disposition : Disposition) :
    (config.setDisposition pid signal disposition).output = config.output := by
  obtain ⟨_, same⟩ := config.setDisposition_eq pid signal disposition
  rw [same]

@[simp] theorem setDisposition_execs (signal : Signal) (disposition : Disposition) :
    (config.setDisposition pid signal disposition).execs = config.execs := by
  obtain ⟨_, same⟩ := config.setDisposition_eq pid signal disposition
  rw [same]

@[simp] theorem finish_fresh (termination : Termination) :
    (config.finish pid termination).fresh = config.fresh := by
  simp [finish]

@[simp] theorem finish_parent (termination : Termination) :
    (config.finish pid termination).parent = config.parent := by
  simp [finish]

@[simp] theorem finish_status (termination : Termination) :
    (config.finish pid termination).status = Function.update config.status pid (some (.zombie termination)) := by
  simp [finish]

@[simp] theorem finish_disposition (termination : Termination) :
    (config.finish pid termination).disposition = config.disposition := by
  simp [finish]

@[simp] theorem finish_output (termination : Termination) :
    (config.finish pid termination).output = config.output := by
  simp [finish]

@[simp] theorem finish_execs (termination : Termination) :
    (config.finish pid termination).execs = config.execs := by
  simp [finish]

theorem finish_pending_of_ne {other : Nat} (different : other ≠ config.parent pid) (termination : Termination) :
    (config.finish pid termination).pending other = config.pending other :=
  send_pending_of_ne (config.setStatus pid (.zombie termination)) (config.parent pid) different .chld

end Updates

end Config

section Moves

variable {pid child : Nat} {place : L} {signal : Signal} {termination : Termination}

/-- A process that moves performs the instruction at its place. -/
theorem exists_of_run (fired : fire program config (.run pid) = some next) :
    ∃ place, config.status pid = some (.running place) ∧ perform config pid (program.code place) = some next := by
  simp only [fire] at fired
  split at fired
  · next place here => exact ⟨place, here, fired⟩
  · cases fired

/-- A process whose `exec` fails goes on behind it. -/
theorem exists_of_refuse (fired : fire program config (.refuse pid) = some next) :
    ∃ place image failed, config.status pid = some (.running place) ∧ program.code place = .exec image failed ∧
      next = (config.call pid image).setPlace pid failed := by
  simp only [fire] at fired
  split at fired
  · next place here =>
      split at fired
      · next image failed instr => exact ⟨place, image, failed, here, instr, (Option.some.inj fired).symm⟩
      · cases fired
  · cases fired

/-- A process that reaps a child goes on with the word of the child. -/
theorem exists_of_reap (fired : fire program config (.reap pid child) = some next) :
    ∃ place termination after, config.status pid = some (.running place) ∧
      config.status child = some (.zombie termination) ∧ (program.code place).awaits child = some after ∧
      config.parent child = pid ∧
      next = (config.setStatus child (.reaped termination)).setPlace pid (after (some termination.word)) := by
  simp only [fire] at fired
  split at fired
  · next place termination here zombie =>
      split at fired
      · next after awaits =>
          split at fired
          · next parent =>
              exact ⟨place, termination, after, here, zombie, awaits, parent, (Option.some.inj fired).symm⟩
          · cases fired
      · cases fired
  · cases fired

/-- A pending signal that is not blocked runs the handler, is dropped, or kills the process. -/
theorem exists_of_deliver (fired : fire program config (.deliver pid signal) = some next) :
    ∃ place, config.status pid = some (.running place) ∧ signal ∈ config.pending pid ∧
      program.blocks place signal = false ∧
      (config.disposition pid signal = .caught ∧
          next = (config.unpend pid signal).setPlace pid (program.handler signal place) ∨
        (config.disposition pid signal).discards signal = true ∧ next = config.unpend pid signal ∨
        config.disposition pid signal = .default ∧ Disposition.default.discards signal = false ∧
          next = (config.unpend pid signal).finish pid (.killed signal false)) := by
  simp only [fire] at fired
  split at fired
  · next place here =>
      split at fired
      · next waiting =>
          refine ⟨place, here, waiting.1, waiting.2, ?_⟩
          cases held : config.disposition pid signal with
          | caught => exact .inl ⟨rfl, by simpa [held, eq_comm] using fired⟩
          | ignore => exact .inr (.inl ⟨rfl, by simpa [held, Disposition.discards, eq_comm] using fired⟩)
          | default =>
              simp only [held] at fired
              split at fired
              · next discards => exact .inr (.inl ⟨discards, (Option.some.inj fired).symm⟩)
              · next deadly => exact .inr (.inr ⟨rfl, by simpa using deadly, (Option.some.inj fired).symm⟩)
      · cases fired
  · cases fired

/-- Only a process that executes an image ends by such a move. -/
theorem exists_of_terminate (fired : fire program config (.terminate pid termination) = some next) :
    ∃ image, config.status pid = some (.executing image) ∧ next = config.finish pid termination := by
  simp only [fire] at fired
  split at fired
  · next image here => exact ⟨image, here, (Option.some.inj fired).symm⟩
  · cases fired

/-- The move of a process at a known place. -/
theorem fire_run (here : config.status pid = some (.running place)) :
    fire program config (.run pid) = perform config pid (program.code place) := by
  simp only [fire, here]

theorem fire_reap {after : Option Nat → L} (here : config.status pid = some (.running place))
    (zombie : config.status child = some (.zombie termination))
    (awaits : (program.code place).awaits child = some after) (parent : config.parent child = pid) :
    fire program config (.reap pid child) =
      some ((config.setStatus child (.reaped termination)).setPlace pid (after (some termination.word))) := by
  simp only [fire, here, zombie, awaits, parent, ↓reduceIte]

theorem fire_deliver_default (here : config.status pid = some (.running place))
    (waiting : signal ∈ config.pending pid)
    (unblocked : program.blocks place signal = false) (default : config.disposition pid signal = .default)
    (deadly : Disposition.default.discards signal = false) :
    fire program config (.deliver pid signal) =
      some ((config.unpend pid signal).finish pid (.killed signal false)) := by
  simp [fire, here, waiting, unblocked, default, deadly]

theorem fire_terminate {image : E} (here : config.status pid = some (.executing image)) :
    fire program config (.terminate pid termination) = some (config.finish pid termination) := by
  simp only [fire, here]

/-- A process at a known place takes its next step. -/
theorem reachable_run {first : Config L E O} (pid : Nat) (place : L) (next : Config L E O)
    (reached : Reachable (fire program) Free first config) (here : config.status pid = some (.running place))
    (performed : perform config pid (program.code place) = some next) : Reachable (fire program) Free first next :=
  reached.step (.run pid) trivial ((fire_run here).trans performed)

/-- A process that is to execute an image executes it to its end. -/
theorem reachable_execute {first : Config L E O} {image : E} {failed : L} (pid : Nat) (termination : Termination)
    (reached : Reachable (fire program) Free first config) (here : config.status pid = some (.running place))
    (instr : program.code place = .exec image failed) :
    Reachable (fire program) Free first
      (((config.call pid image).setStatus pid (.executing image)).finish pid termination) := by
  have performed : perform config pid (program.code place) =
      some ((config.call pid image).setStatus pid (.executing image)) := by rw [instr, perform]
  have running : ((config.call pid image).setStatus pid (.executing image)).status pid =
    some (.executing image) := by simp
  exact (reachable_run pid place _ reached here performed).step (.terminate pid termination) trivial
    (fire_terminate running)

/-- A process that waits reaps a child that has ended. -/
theorem reachable_reap {first : Config L E O} (pid child : Nat) (after : Option Nat → L)
    (reached : Reachable (fire program) Free first config) (here : config.status pid = some (.running place))
    (zombie : config.status child = some (.zombie termination))
    (awaits : (program.code place).awaits child = some after) (parent : config.parent child = pid) :
    Reachable (fire program) Free first
      ((config.setStatus child (.reaped termination)).setPlace pid (after (some termination.word))) :=
  reached.step (.reap pid child) trivial (fire_reap here zombie awaits parent)

end Moves

section Invariants

variable {pid : Nat}

/-- A process that is alive has not been waited for. -/
theorem exists_of_alive (alive : config.alive pid = true) :
    ∃ status, config.status pid = some status ∧ status.isAlive = true ∧ status.isReaped = false := by
  simp only [Config.alive, Option.any_eq_true] at alive
  obtain ⟨status, here, isAlive⟩ := alive
  refine ⟨status, here, isAlive, ?_⟩
  cases status with
  | running | executing | zombie => rfl
  | reaped => cases isAlive

/-- The numbers from `fresh` on name no process. -/
def Config.Numbered (config : Config L E O) : Prop := ∀ pid, config.fresh ≤ pid → config.status pid = none

theorem Config.Numbered.lt (numbered : config.Numbered) {status : Status L E}
    (here : config.status pid = some status) :
    pid < config.fresh := by
  by_contra outside
  simp [numbered pid (Nat.le_of_not_lt outside)] at here

theorem Config.Numbered.setStatus (numbered : config.Numbered) {status : Status L E}
    (inRange : pid < config.fresh) :
    (config.setStatus pid status).Numbered := by
  intro other outside
  have different : other ≠ pid := (inRange.trans_le outside).ne'
  rw [Config.setStatus_status, Function.update_of_ne different]
  exact numbered other outside

theorem Config.Numbered.of_status (numbered : config.Numbered) (fresh : next.fresh = config.fresh)
    (status : next.status = config.status) : next.Numbered := by
  intro other outside
  rw [status]
  exact numbered other (fresh ▸ outside)

theorem Config.Numbered.spawn (numbered : config.Numbered) (pid : Nat) (child : L) :
    (config.spawn pid child).Numbered := by
  intro other outside
  have above : config.fresh < other := outside
  rw [Config.spawn_status, Function.update_of_ne above.ne']
  exact numbered other above.le

theorem Config.Numbered.finish (numbered : config.Numbered) (inRange : pid < config.fresh)
    (termination : Termination) :
    (config.finish pid termination).Numbered := by
  have kept : (config.setStatus pid (.zombie termination)).Numbered := numbered.setStatus inRange
  exact kept.of_status (by simp) (by simp)

theorem numbered_initial (first : L) : (Config.initial first : Config L E O).Numbered := by
  intro pid outside
  have different : pid ≠ 1 := by
    rintro rfl
    exact absurd outside (Nat.not_succ_le_self 1)
  simp [Config.initial, Function.update_of_ne different]

/-- Every move keeps the numbering. -/
theorem Config.Numbered.fire (numbered : config.Numbered) {move : Move}
    (fired : Process.fire program config move = some next) : next.Numbered := by
  cases move with
  | run pid =>
      obtain ⟨place, here, performed⟩ := exists_of_run fired
      have inRange := numbered.lt here
      cases instr : program.code place <;> simp only [instr, perform] at performed
      case jump after =>
        obtain rfl := Option.some.inj performed
        exact numbered.setStatus inRange
      case print line after =>
        obtain rfl := Option.some.inj performed
        exact (numbered.of_status rfl rfl : (config.print line).Numbered).setStatus inRange
      case fork child after =>
        obtain rfl := Option.some.inj performed
        exact (numbered.spawn pid child).setStatus (Nat.lt_succ_of_lt inRange)
      case exec image failed =>
        obtain rfl := Option.some.inj performed
        exact (numbered.of_status rfl rfl : (config.call pid image).Numbered).setStatus inRange
      case wait after =>
        split at performed
        · obtain rfl := Option.some.inj performed
          exact numbered.setStatus inRange
        · cases performed
      case waitpid child after =>
        split at performed
        · cases performed
        · obtain rfl := Option.some.inj performed
          exact numbered.setStatus inRange
      case kill other signal after =>
        obtain rfl := Option.some.inj performed
        exact (numbered.of_status (by simp) (by simp) : (config.send other signal).Numbered).setStatus (by simpa)
      case signal signal disposition after =>
        obtain rfl := Option.some.inj performed
        exact (numbered.of_status (by simp) (by simp) :
          (config.setDisposition pid signal disposition).Numbered).setStatus (by simpa)
      case exit code =>
        obtain rfl := Option.some.inj performed
        exact numbered.finish inRange _
      case crash signal core =>
        obtain rfl := Option.some.inj performed
        exact numbered.finish inRange _
  | refuse pid =>
      obtain ⟨place, image, failed, here, _, rfl⟩ := exists_of_refuse fired
      exact (numbered.of_status rfl rfl : (config.call pid image).Numbered).setStatus (numbered.lt here)
  | reap pid child =>
      obtain ⟨place, termination, after, here, zombie, _, _, rfl⟩ := exists_of_reap fired
      exact (numbered.setStatus (numbered.lt zombie)).setStatus (numbered.lt here)
  | deliver pid signal =>
      obtain ⟨place, here, _, _, ⟨_, rfl⟩ | ⟨_, rfl⟩ | ⟨_, _, rfl⟩⟩ := exists_of_deliver fired
      · exact (numbered.of_status rfl rfl : (config.unpend pid signal).Numbered).setStatus (numbered.lt here)
      · exact numbered.of_status rfl rfl
      · exact (numbered.of_status rfl rfl : (config.unpend pid signal).Numbered).finish (numbered.lt here) _
  | terminate pid termination =>
      obtain ⟨image, here, rfl⟩ := exists_of_terminate fired
      exact numbered.finish (numbered.lt here) _

/-- No signal is pending, and every signal has its default action. -/
def Config.Quiet (config : Config L E O) : Prop :=
  (∀ pid, config.pending pid = []) ∧ ∀ pid signal, config.disposition pid signal = .default

theorem quiet_initial (first : L) : (Config.initial first : Config L E O).Quiet :=
  ⟨fun _ => rfl, fun _ _ => rfl⟩

/-- A parent that discards `SIGCHLD` does not notice the end of a child. -/
theorem finish_eq_setStatus (discards : (config.disposition (config.parent pid) .chld).discards .chld = true)
    (termination : Termination) : config.finish pid termination = config.setStatus pid (.zombie termination) := by
  have discarded :
    ((config.setStatus pid (.zombie termination)).disposition (config.parent pid) .chld).discards .chld =
      true := discards
  simp only [Config.finish, Config.send, discarded, Bool.true_or, ↓reduceIte]

/-- Where every signal has its default action, the end of a child is not noticed. -/
theorem Config.Quiet.finish_eq (quiet : config.Quiet) (termination : Termination) :
    config.finish pid termination = config.setStatus pid (.zombie termination) := by
  apply finish_eq_setStatus
  rw [quiet.2]
  rfl

theorem Config.Quiet.spawn (quiet : config.Quiet) (child : L) : (config.spawn pid child).Quiet := by
  refine ⟨fun other => ?_, fun other signal => ?_⟩
  · by_cases same : other = config.fresh
    · simp [same]
    · simp [Function.update_of_ne same, quiet.1 other]
  · by_cases same : other = config.fresh
    · simp [same, quiet.2 pid signal]
    · simp [Function.update_of_ne same, quiet.2 other signal]

end Invariants

section Children

variable {pid child other : Nat}

/-- Configurations whose children have the same standing have as many children. -/
theorem children_congr (fresh : next.fresh = config.fresh)
    (same : ∀ child < config.fresh, next.unreaped pid child = config.unreaped pid child) :
    next.children pid = config.children pid := by
  unfold Config.children
  rw [fresh]
  exact congrArg Finset.card (Finset.filter_congr fun child inRange => by
    rw [same child (Finset.mem_range.mp inRange)])

/-- A process that goes on without being reaped stays the same child. -/
theorem unreaped_setStatus {before after : Status L E} (here : config.status child = some before)
    (kept : after.isReaped = before.isReaped) (pid other : Nat) :
    (config.setStatus child after).unreaped pid other = config.unreaped pid other := by
  unfold Config.unreaped
  by_cases same : other = child
  · subst same
    simp [here, kept]
  · simp [Function.update_of_ne same]

theorem children_setStatus {before after : Status L E} (here : config.status child = some before)
    (kept : after.isReaped = before.isReaped) (pid : Nat) :
    (config.setStatus child after).children pid = config.children pid :=
  children_congr rfl fun other _ => unreaped_setStatus here kept pid other

/-- A new process is one more child of its parent. -/
theorem children_spawn (config : Config L E O) (pid : Nat) (place : L) (other : Nat) :
    (config.spawn pid place).children other = config.children other + if other = pid then 1 else 0 := by
  have before : ∀ child ∈ Finset.range config.fresh,
      ((config.spawn pid place).unreaped other child = true ↔ config.unreaped other child = true) := by
    intro child inRange
    have different : child ≠ config.fresh := (Finset.mem_range.mp inRange).ne
    simp [Config.unreaped, Function.update_of_ne different]
  have last : (config.spawn pid place).unreaped other config.fresh = decide (other = pid) := by
    simp [Config.unreaped, Status.isReaped, eq_comm, Bool.beq_eq_decide_eq]
  unfold Config.children
  rw [Config.spawn_fresh, Finset.range_add_one, Finset.filter_insert, Finset.filter_congr before, last]
  by_cases same : other = pid
  · simp [same]
  · simp [same]

/-- A reaped process is one child less of its parent. -/
theorem children_reap {status : Status L E} (numbered : config.Numbered) (here : config.status child = some status)
    (unreaped : status.isReaped = false) (parent : config.parent child = pid) (termination : Termination)
    (other : Nat) :
    (config.setStatus child (.reaped termination)).children other + (if other = pid then 1 else 0) =
      config.children other := by
  by_cases same : other = pid
  · subst same
    have member : child ∈ (Finset.range config.fresh).filter fun child => config.unreaped other child = true := by
      simp [numbered.lt here, Config.unreaped, parent, here, unreaped]
    have erased : (Finset.range config.fresh).filter (fun one =>
        (config.setStatus child (.reaped termination)).unreaped other one = true) =
        ((Finset.range config.fresh).filter fun one => config.unreaped other one = true).erase child := by
      ext one
      by_cases isChild : one = child
      · simp [isChild, Config.unreaped, Status.isReaped]
      · simp [isChild, Config.unreaped]
    simp only [↓reduceIte]
    unfold Config.children
    rw [Config.setStatus_fresh, erased]
    exact Finset.card_erase_add_one member
  · simp only [same, ↓reduceIte, Nat.add_zero]
    refine children_congr rfl fun one _ => ?_
    by_cases isChild : one = child
    · have different : (pid == other) = false := beq_eq_false_iff_ne.mpr (Ne.symm same)
      simp [isChild, Config.unreaped, parent, different]
    · simp [Config.unreaped, Function.update_of_ne isChild]

/-- A process with children left has one that has not been reaped. -/
theorem exists_unreaped (present : config.children pid ≠ 0) :
    ∃ child status, config.parent child = pid ∧ config.status child = some status ∧ status.isReaped = false := by
  obtain ⟨child, member⟩ := Finset.card_ne_zero.mp present
  have unreaped := (Finset.mem_filter.mp member).2
  simp only [Config.unreaped, Bool.and_eq_true, beq_iff_eq, Option.any_eq_true, Bool.not_eq_true'] at unreaped
  obtain ⟨parent, status, here, isUnreaped⟩ := unreaped
  exact ⟨child, status, parent, here, isUnreaped⟩

/-- A process has no children left exactly when all of them have been reaped. -/
theorem children_eq_zero (numbered : config.Numbered) :
    config.children pid = 0 ↔ ∀ child, config.unreaped pid child = false := by
  simp only [Config.children, Finset.card_eq_zero, Finset.filter_eq_empty_iff, Finset.mem_range]
  constructor
  · intro none child
    by_cases inRange : child < config.fresh
    · exact Bool.eq_false_iff.mpr (none inRange)
    · simp [Config.unreaped, numbered child (Nat.le_of_not_lt inRange)]
  · intro all child _
    simp [all child]

end Children

end OSLabs.Process
