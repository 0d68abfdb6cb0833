import OSLabs.Construction.Commander
import OSLabs.Proof.Process.Run

namespace OSLabs.Commander

open Transition Process

/-- The processes of the commander. -/
abbrev State := Config Place Unit Kind

section Commands

variable {first second : List Command} {spawned k : Nat}

@[simp] theorem kinds_fire (pid : Nat) (rest : List Command) : kinds (.fire pid :: rest) = kinds rest := rfl

theorem kinds_cons {command : Command} {kind : Kind} (isKind : command.kind = some kind) (rest : List Command) :
    kinds (command :: rest) = kind :: kinds rest := by
  simp [kinds, isKind]

theorem named_cons {command : Command} {kind : Kind} (isKind : command.kind = some kind) (spawned : Nat)
    (rest : List Command) : named spawned (command :: rest) = named (spawned + 1) rest := by
  cases command with
  | fire => cases isKind
  | _ => rfl

theorem hits_cons {command : Command} {kind : Kind} (isKind : command.kind = some kind) (rest : List Command)
    (k : Nat) :
    hits (command :: rest) k = hits rest k := by
  cases command with
  | fire => cases isKind
  | _ => simp [hits]

theorem kinds_append (first second : List Command) : kinds (first ++ second) = kinds first ++ kinds second :=
  List.filterMap_append

theorem hits_append (first second : List Command) (k : Nat) :
    hits (first ++ second) k = hits first k + hits second k := List.count_append

/-- A command fires or spawns a unit. -/
theorem Command.fires_or_spawns (command : Command) :
    (∃ pid, command = .fire pid) ∨ ∃ kind, command.kind = some kind := by
  cases command with
  | fire pid => exact .inl ⟨pid, rfl⟩
  | _ => exact .inr ⟨_, rfl⟩

/-- A sequence of commands names units if both parts do, and the second part may name the units of the first. -/
theorem named_append (spawned : Nat) (first second : List Command) :
    named spawned (first ++ second) = (named spawned first && named (spawned + (kinds first).length) second) := by
  induction first generalizing spawned with
  | nil => simp [named, kinds]
  | cons command rest inductionHypothesis =>
      rcases command.fires_or_spawns with ⟨pid, rfl⟩ | ⟨kind, isKind⟩
      · simp [named, inductionHypothesis, Bool.and_assoc]
      · rw [List.cons_append, named_cons isKind, named_cons isKind, inductionHypothesis, kinds_cons isKind,
          List.length_cons, Nat.add_right_comm, Nat.add_assoc]

/-- A unit that has not been spawned has not been hit. -/
theorem hits_eq_zero (isNamed : named spawned first = true) (unborn : spawned + (kinds first).length ≤ k) :
    hits first k = 0 := by
  induction first generalizing spawned with
  | nil => rfl
  | cons command rest inductionHypothesis =>
      rcases command.fires_or_spawns with ⟨pid, rfl⟩ | ⟨kind, isKind⟩
      · simp only [named, Bool.and_eq_true, decide_eq_true_eq] at isNamed
        have others := inductionHypothesis isNamed.2 unborn
        have different : pid ≠ k + 2 := by
          rw [kinds_fire] at unborn
          omega
        simpa [hits, List.count_cons, different] using others
      · rw [named_cons isKind] at isNamed
        rw [kinds_cons isKind, List.length_cons] at unborn
        rw [hits_cons isKind]
        exact inductionHypothesis isNamed (by omega)

end Commands

/-- A place of a unit whose `hit_count` is zero. -/
def Place.unhit : Place → Bool
  | .unitSignal _ 0 | .report _ 0 | .hold _ 0 => true
  | _ => false

/-- A unit that has not been hit blocks no signal. -/
theorem unhit_unblocked {place : Place} {signal : Signal} (unhit : place.unhit = true) :
    program.blocks place signal = false := by
  cases place with
  | handleKill => cases unhit
  | _ => rfl

/-- A unit that has been hit so often is dead or about to die. -/
def UnitFits (hits : Nat) (pending : List Signal) : Option (Status Place Unit) → Prop
  | some (.running place) => place.unhit = true ∧ (pending = [] ∧ hits = 0 ∨ pending = [.kill] ∧ 1 ≤ hits)
  | some (.zombie _) => pending = [] ∧ 1 ≤ hits
  | _ => False

/-- What the shell does with the remaining commands. -/
def ShellFits (rest : List Command) : Option (Status Place Unit) → Prop
  | some (.running (.prompt hitCount commands)) | some (.running (.shellSignal _ hitCount commands)) =>
      hitCount = 0 ∧ commands = rest
  | some (.zombie _) => True
  | _ => False

/-- The invariant when the shell has carried out the commands before the rest. -/
structure Standing (before rest : List Command) (config : State) : Prop where
  numbered : config.Numbered
  fresh : config.fresh = (kinds before).length + 2
  default : ∀ pid signal, config.disposition pid signal = .default
  root : config.status 0 = none
  others : ∀ pid, pid < 2 ∨ config.fresh ≤ pid → config.pending pid = []
  shell : ShellFits rest (config.status 1)
  units : ∀ k < (kinds before).length, UnitFits (hits before k) (config.pending (k + 2)) (config.status (k + 2))

section
variable {before rest : List Command} {config next : State}

theorem Standing.finish_eq (standing : Standing before rest config) (pid : Nat) (termination : Termination) :
    config.finish pid termination = config.setStatus pid (.zombie termination) := by
  apply finish_eq_setStatus
  rw [standing.default]
  rfl

/-- A move of the shell that reaches no other process keeps the invariant. -/
theorem Standing.of_shell (standing : Standing before rest config) {status : Status Place Unit}
    (shell : ShellFits rest (some status)) : Standing before rest (config.setStatus 1 status) := by
  have fresh := standing.fresh
  refine ⟨standing.numbered.setStatus (by omega), fresh,
    standing.default, by simpa using standing.root, standing.others,
    by simpa using shell, fun k below => ?_⟩
  simpa using standing.units k below

/-- A move of a unit keeps the invariant. -/
theorem Standing.of_unit (standing : Standing before rest config) {k : Nat} (below : k < (kinds before).length)
    {status : Status Place Unit} (fits : UnitFits (hits before k) (config.pending (k + 2)) (some status)) :
    Standing before rest (config.setStatus (k + 2) status) := by
  have fresh := standing.fresh
  refine ⟨standing.numbered.setStatus (by omega), fresh,
    standing.default, by simpa using standing.root, standing.others,
    by simpa using standing.shell, fun j inRange => ?_⟩
  by_cases same : j = k
  · subst same
    simpa using fits
  · simpa [same] using standing.units j inRange

/-- Printing changes nothing that the invariant speaks of. -/
theorem Standing.print (standing : Standing before rest config) (line : Kind) :
    Standing before rest (config.print line) :=
  ⟨standing.numbered, standing.fresh, standing.default, standing.root, standing.others, standing.shell,
    standing.units⟩

/-- The shell spawns a unit. -/
theorem Standing.spawn {command : Command} {kind : Kind} (isKind : command.kind = some kind)
    (isNamed : named 0 before = true) (standing : Standing before (command :: rest) config) :
    Standing (before ++ [command]) rest
      ((config.spawn 1 (.unitSignal kind 0)).setPlace 1 (.shellSignal kind 0 rest)) := by
  have fresh := standing.fresh
  have more : (kinds (before ++ [command])).length = (kinds before).length + 1 := by
    rw [kinds_append, kinds_cons isKind]
    simp [kinds]
  have noHit (k : Nat) : hits (before ++ [command]) k = hits before k := by
    rw [hits_append, hits_cons isKind]
    rfl
  refine ⟨(standing.numbered.spawn 1 _).setStatus (by simp; omega), ?_, fun pid signal => ?_, ?_,
    fun pid outside => ?_, ?_,
    fun k below => ?_⟩
  · rw [more]
    simp [fresh]
  · by_cases same : pid = config.fresh
    · simp [same, standing.default 1 signal]
    · simp [Function.update_of_ne same, standing.default pid signal]
  · simpa [fresh] using standing.root
  · by_cases same : pid = config.fresh
    · simp [same]
    · simp only [Config.setPlace_fresh, Config.spawn_fresh] at outside
      simpa [Function.update_of_ne same] using standing.others pid (by omega)
  · rw [Config.setPlace_status, Function.update_self]
    exact ⟨rfl, rfl⟩
  · rw [noHit]
    rw [more] at below
    by_cases last : k = (kinds before).length
    · subst last
      have unhit : hits before (kinds before).length = 0 := hits_eq_zero isNamed (by omega)
      simp [fresh, UnitFits, Place.unhit, unhit]
    · simpa [fresh, last] using standing.units k (by omega)

/-- The shell fires at a unit. -/
theorem Standing.fire {k : Nat} (standing : Standing before (.fire (k + 2) :: rest) config)
    (below : k < (kinds before).length) :
    Standing (before ++ [Command.fire (k + 2)]) rest
      ((config.send (k + 2) .kill).setPlace 1 (.prompt 0 rest)) := by
  have fresh := standing.fresh
  have same : kinds (before ++ [Command.fire (k + 2)]) = kinds before := by
    rw [kinds_append]
    simp [kinds, Command.kind]
  have others (pid : Nat) (different : pid ≠ k + 2) :
      (config.send (k + 2) .kill).pending pid = config.pending pid := by
    unfold Config.send
    split
    · rfl
    · simp [Function.update_of_ne different]
  have one (j : Nat) : hits (before ++ [Command.fire (k + 2)]) j = hits before j + if j = k then 1 else 0 := by
    rw [hits_append]
    by_cases equal : j = k
    · simp [hits, equal]
    · simp [hits, equal, Ne.symm equal]
  refine ⟨?_, ?_, ?_, ?_, fun pid outside => ?_, ?_, fun j inRange => ?_⟩
  · exact (standing.numbered.of_status (by simp) (by simp) : (config.send (k + 2) .kill).Numbered).setStatus
      (by simp; omega)
  · simpa [same] using fresh
  · simpa using standing.default
  · simpa using standing.root
  · have different : pid ≠ k + 2 := by
      simp only [Config.setPlace_fresh, Config.send_fresh] at outside
      omega
    simpa [others pid different] using standing.others pid (by simpa using outside)
  · rw [Config.setPlace_status, Function.update_self]
    exact ⟨rfl, rfl⟩
  · rw [same] at inRange
    have fits := standing.units j inRange
    simp only [Config.setPlace_status, Config.setPlace_pending, Config.send_status, one]
    rw [Function.update_of_ne (by omega)]
    by_cases equal : j = k
    · subst equal
      cases there : config.status (j + 2) with
      | none => simp [there, UnitFits] at fits
      | some status =>
          rw [there] at fits
          cases status with
          | running place =>
              refine ⟨fits.1, .inr ⟨?_, by simp⟩⟩
              rcases fits.2 with ⟨none, _⟩ | ⟨pending, _⟩
              · simp [Config.send, Config.alive, there, Status.isAlive, standing.default,
                  Disposition.discards, none,
                  Signal.kill, Signal.chld, Signal.cont, Signal.urg, Signal.winch]
              · simp [Config.send, pending]
          | zombie termination =>
              refine ⟨?_, Nat.le_add_right_of_le fits.2⟩
              simp [Config.send, Config.alive, there, Status.isAlive, fits.1]
          | executing | reaped => exact fits.elim
    · simpa [others (j + 2) (by omega), equal] using fits

/-- The processes of the commander neither wait nor call `exec`. -/
theorem program_plain (place : Place) : (∀ child, (program.code place).awaits child = none) ∧
    ∀ image failed, program.code place ≠ .exec image failed := by
  cases place with
  | prompt hitCount commands =>
      cases commands with
      | nil => simp [program, Instr.awaits]
      | cons command rest =>
          cases command <;> simp [program, Instr.awaits, infantry, cavalry, armored, spawnUnit, Commander.fire]
  | hold kind hitCount => cases kind <;> simp [program, Instr.awaits, Commander.hold]
  | shellSignal | unitSignal | report | leave | handleKill => simp [program, Instr.awaits]

/-- Every process but the shell is a unit. -/
theorem Standing.exists_unit (standing : Standing before rest config) {pid : Nat} {status : Status Place Unit}
    (here : config.status pid = some status) (notShell : pid ≠ 1) :
    ∃ k, k < (kinds before).length ∧ pid = k + 2 ∧
      UnitFits (hits before k) (config.pending pid) (some status) := by
  have inRange := standing.numbered.lt here
  rw [standing.fresh] at inRange
  have positive : pid ≠ 0 := by
    rintro rfl
    simp [standing.root] at here
  obtain ⟨k, rfl⟩ : ∃ k, pid = k + 2 := ⟨pid - 2, by omega⟩
  have fits := standing.units k (by omega)
  rw [here] at fits
  exact ⟨k, by omega, rfl, fits⟩

/-- A unit that holds its position goes on without a change. -/
theorem Standing.unit_run (standing : Standing before rest config) {k : Nat} {place : Place}
    (below : k < (kinds before).length) (here : config.status (k + 2) = some (.running place))
    (performed : perform config (k + 2) (program.code place) = some next) : Standing before rest next := by
  have fits := standing.units k below
  rw [here] at fits
  obtain ⟨unhit, pending⟩ := fits
  cases place with
  | unitSignal kind hitCount =>
      cases hitCount with
      | zero =>
          obtain rfl := Option.some.inj performed
          exact standing.of_unit below ⟨rfl, pending⟩
      | succ => cases unhit
  | report kind hitCount =>
      cases hitCount with
      | zero =>
          obtain rfl := Option.some.inj performed
          exact (standing.print kind).of_unit below ⟨rfl, pending⟩
      | succ => cases unhit
  | hold kind hitCount =>
      cases hitCount with
      | zero =>
          cases kind with
          | infantry | cavalry | armored =>
              obtain rfl := Option.some.inj performed
              exact standing.of_unit below ⟨rfl, pending⟩
      | succ => cases unhit
  | _ => cases unhit

/-- A signal that is delivered kills a unit that has been hit. -/
theorem Standing.deliver (standing : Standing before rest config) {pid : Nat} {signal : Signal}
    (fired : Process.fire program config (.deliver pid signal) = some next) :
    Standing before rest next ∧ ∃ k, pid = k + 2 ∧ signal = .kill ∧
      next = (config.unpend (k + 2) .kill).setStatus (k + 2) (.zombie (.killed .kill false)) := by
  obtain ⟨place, here, waiting, _, effect⟩ := exists_of_deliver fired
  have notShell : pid ≠ 1 := by
    rintro rfl
    simp [standing.others 1 (by omega)] at waiting
  obtain ⟨k, below, rfl, fits⟩ := standing.exists_unit here notShell
  obtain ⟨pending, hit⟩ : config.pending (k + 2) = [.kill] ∧ 1 ≤ hits before k := by
    rcases fits.2 with ⟨none, _⟩ | hit
    · simp [none] at waiting
    · exact hit
  obtain rfl : signal = .kill := by simpa [pending] using waiting
  rcases effect with ⟨caught, _⟩ | ⟨discards, _⟩ | ⟨_, _, rfl⟩
  · simp [standing.default] at caught
  · rw [standing.default] at discards
    exact absurd discards (by decide)
  · have unpended (j : Nat) (different : j ≠ k + 2) :
        (config.unpend (k + 2) .kill).pending j = config.pending j := by
      simp [Function.update_of_ne different]
    have fresh := standing.fresh
    have noNotice : (config.unpend (k + 2) .kill).finish (k + 2) (.killed .kill false) =
        (config.unpend (k + 2) .kill).setStatus (k + 2) (.zombie (.killed .kill false)) := by
      apply finish_eq_setStatus
      rw [Config.unpend_disposition, standing.default]
      rfl
    rw [noNotice]
    refine ⟨⟨(standing.numbered.of_status rfl rfl : (config.unpend (k + 2) .kill).Numbered).setStatus
      (by simp; omega),
      fresh, standing.default, by simpa using standing.root, fun pid outside => ?_, by simpa using standing.shell,
      fun j inRange => ?_⟩, k, rfl, rfl, rfl⟩
    · have different : pid ≠ k + 2 := by
        simp only [Config.setStatus_fresh, Config.unpend_fresh] at outside
        omega
      rw [Config.setStatus_pending, unpended pid different]
      exact standing.others pid outside
    · by_cases same : j = k
      · subst same
        rw [Config.setStatus_status, Function.update_self]
        exact ⟨by simp [pending], hit⟩
      · rw [Config.setStatus_pending, unpended (j + 2) (by omega)]
        simpa [same] using standing.units j inRange

/-- Every permitted move keeps the invariant, or the shell carries out the next command. -/
theorem Standing.step (standing : Standing before rest config) (isNamed : named 0 (before ++ rest) = true)
    {move : Move}
    (fired : Process.fire program config move = some next) :
    Standing before rest next ∨ ∃ command later, rest = command :: later ∧
      Standing (before ++ [command]) later next := by
  rw [named_append, Bool.and_eq_true, Nat.zero_add] at isNamed
  cases move with
  | run pid =>
      obtain ⟨place, here, performed⟩ := exists_of_run fired
      by_cases isShell : pid = 1
      · subst isShell
        have shell := standing.shell
        rw [here] at shell
        cases place with
        | prompt hitCount commands =>
            obtain ⟨rfl, rfl⟩ := shell
            cases commands with
            | nil =>
                obtain rfl := Option.some.inj performed
                rw [standing.finish_eq]
                exact .inl (standing.of_shell trivial)
            | cons command later =>
                right
                refine ⟨command, later, rfl, ?_⟩
                cases command with
                | fire pid =>
                    obtain rfl := Option.some.inj performed
                    have target := isNamed.2
                    simp only [named, Bool.and_eq_true, decide_eq_true_eq] at target
                    obtain ⟨k, rfl⟩ : ∃ k, pid = k + 2 := ⟨pid - 2, by omega⟩
                    exact standing.fire (by omega)
                | infantry | cavalry | armored =>
                    obtain rfl := Option.some.inj performed
                    exact standing.spawn rfl isNamed.1
        | shellSignal kind hitCount commands =>
            obtain ⟨rfl, rfl⟩ := shell
            obtain rfl := Option.some.inj performed
            exact .inl (standing.of_shell ⟨rfl, rfl⟩)
        | unitSignal | report | hold | leave | handleKill => exact shell.elim
      · obtain ⟨k, below, rfl, _⟩ := standing.exists_unit here isShell
        exact .inl (standing.unit_run below here performed)
  | refuse pid =>
      obtain ⟨place, image, failed, _, instr, _⟩ := exists_of_refuse fired
      exact absurd instr ((program_plain place).2 image failed)
  | reap pid child =>
      obtain ⟨place, _, _, _, _, awaits, _⟩ := exists_of_reap fired
      simp [(program_plain place).1 child] at awaits
  | deliver pid signal => exact .inl (standing.deliver fired).1
  | terminate pid termination =>
      obtain ⟨image, here, _⟩ := exists_of_terminate fired
      by_cases isShell : pid = 1
      · have shell := standing.shell
        rw [← isShell, here] at shell
        exact shell.elim
      · obtain ⟨k, _, _, fits⟩ := standing.exists_unit here isShell
        exact fits.elim

/-- Every reachable configuration meets the invariant for some split of the commands. -/
theorem exists_standing {commands : List Command} (isNamed : named 0 commands = true)
    (reached : Reachable (Process.fire program) Prompt (start commands) config) :
    ∃ before rest, commands = before ++ rest ∧ Standing before rest config := by
  have first : Standing [] commands (start commands) :=
    ⟨numbered_initial _, rfl, fun _ _ => rfl, rfl, fun _ _ => rfl, ⟨rfl, rfl⟩, by simp [kinds]⟩
  refine reached.invariant (fun config => ∃ before rest, commands = before ++ rest ∧ Standing before rest config)
    ⟨[], commands, rfl, first⟩ fun move holds _ fired => ?_
  obtain ⟨before, rest, rfl, standing⟩ := holds
  rcases standing.step isNamed fired with same | ⟨command, later, rfl, after⟩
  · exact ⟨before, rest, rfl, same⟩
  · exact ⟨before ++ [command], later, by simp, after⟩

/-- When all commands have been carried out, exactly the units that have been hit are dead. -/
theorem dead_iff {commands : List Command} (isNamed : named 0 commands = true)
    (reached : Reachable (Process.fire program) Prompt (start commands) config) (finished : Over config) {k : Nat}
    (below : k < (kinds commands).length) : Dead config k ↔ 1 ≤ hits commands k := by
  obtain ⟨before, rest, rfl, standing⟩ := exists_standing isNamed reached
  obtain ⟨⟨hitCount, here⟩, delivered⟩ := finished
  have shell := standing.shell
  rw [here] at shell
  obtain rfl : rest = [] := shell.2.symm
  rw [List.append_nil] at below ⊢
  have fits := standing.units k below
  have fresh := standing.fresh
  rw [delivered (k + 2) (by omega)] at fits
  cases there : config.status (k + 2) with
  | none => simp [there, UnitFits] at fits
  | some status =>
      rw [there] at fits
      cases status with
      | running place =>
          have unhit : hits before k = 0 := by simpa using fits.2
          simp [Dead, there, unhit]
      | zombie termination =>
          constructor
          · exact fun _ => fits.2
          · exact fun _ => ⟨termination, there⟩
      | executing | reaped => exact fits.elim

/-- After a hit the only pending signal is the one for the unit, which can be delivered at once. -/
theorem exists_delivered (standing : Standing before rest config) {k : Nat} (below : k < (kinds before).length)
    (others : ∀ pid < config.fresh, pid ≠ k + 2 → config.pending pid = []) :
    ∃ next, Reachable (Process.fire program) Prompt config next ∧ Standing before rest next ∧ Delivered next ∧
      next.status 1 = config.status 1 := by
  by_cases none : config.pending (k + 2) = []
  · refine ⟨config, .refl, standing, fun pid inRange => ?_, rfl⟩
    by_cases same : pid = k + 2
    · rw [same, none]
    · exact others pid inRange same
  · have fits := standing.units k below
    cases there : config.status (k + 2) with
    | none => simp [there, UnitFits] at fits
    | some status =>
        rw [there] at fits
        cases status with
        | running place =>
            have pending : config.pending (k + 2) = [.kill] := (fits.2.resolve_left fun empty => none empty.1).1
            have fired : Process.fire program config (.deliver (k + 2) .kill) =
                some ((config.unpend (k + 2) .kill).finish (k + 2) (.killed .kill false)) :=
              fire_deliver_default there (by simp [pending]) (unhit_unblocked fits.1)
                (standing.default (k + 2) .kill)
                (by decide)
            have after := (standing.deliver fired).1
            refine ⟨_, Reachable.refl.step (.deliver (k + 2) .kill) (fun same => by cases same) fired, after,
              ?_, by simp⟩
            intro pid inRange
            by_cases same : pid = k + 2
            · simp [same, Config.finish, Config.send, pending, standing.default, Disposition.discards]
            · have none := others pid (by simpa using inRange) same
              simp [Function.update_of_ne same, Config.finish, Config.send, standing.default,
                Disposition.discards, none]
        | zombie termination => exact absurd fits.1 none
        | executing | reaped => exact fits.elim

/-- The shell can carry out the remaining commands. -/
theorem exists_over (here : config.status 1 = some (.running (.prompt 0 rest))) (delivered : Delivered config)
    (isNamed : named 0 (before ++ rest) = true) (standing : Standing before rest config) :
    ∃ final, Reachable (Process.fire program) Prompt config final ∧ Over final := by
  induction rest generalizing before config with
  | nil => exact ⟨config, .refl, ⟨0, here⟩, delivered⟩
  | cons command later inductionHypothesis =>
      have split : named 0 before = true ∧ named (kinds before).length (command :: later) = true := by
        rw [named_append, Bool.and_eq_true, Nat.zero_add] at isNamed
        exact isNamed
      have again : named 0 ((before ++ [command]) ++ later) = true := by simpa using isNamed
      have permitted : Prompt config (.run 1) := fun _ => delivered
      rcases command.fires_or_spawns with ⟨pid, rfl⟩ | ⟨kind, isKind⟩
      · have target := split.2
        simp only [named, Bool.and_eq_true, decide_eq_true_eq] at target
        obtain ⟨k, rfl⟩ : ∃ k, pid = k + 2 := ⟨pid - 2, by omega⟩
        have below : k < (kinds before).length := by omega
        have fired : Process.fire program config (.run 1) =
            some ((config.send (k + 2) .kill).setPlace 1 (.prompt 0 later)) := fire_run here
        have after := standing.fire below
        have same : kinds (before ++ [Command.fire (k + 2)]) = kinds before := by
          rw [kinds_append]
          simp [kinds, Command.kind]
        obtain ⟨next, reached, holds, allDelivered, shell⟩ := exists_delivered after (k := k) (by rwa [same])
          fun pid inRange different => by
            have none := delivered pid (by simpa using inRange)
            unfold Config.send
            split
            · exact none
            · simpa [Function.update_of_ne different] using none
        obtain ⟨final, continued, finished⟩ := inductionHypothesis (by rw [shell]; simp) allDelivered again holds
        exact ⟨final, ((Reachable.refl.step (.run 1) permitted fired).trans reached).trans continued, finished⟩
      · have spawned : Process.fire program config (.run 1) =
            some ((config.spawn 1 (.unitSignal kind 0)).setPlace 1 (.shellSignal kind 0 later)) := by
          rw [fire_run here]
          cases command with
          | fire => cases isKind
          | _ => exact Option.some.inj isKind ▸ rfl
        have after := standing.spawn isKind split.1
        have unsent :
            Delivered ((config.spawn 1 (.unitSignal kind 0)).setPlace 1 (.shellSignal kind 0 later)) := by
          intro pid inRange
          by_cases same : pid = config.fresh
          · simp [same]
          · have below : pid < config.fresh := Nat.lt_of_le_of_ne (Nat.le_of_lt_succ inRange) same
            simpa [Function.update_of_ne same] using delivered pid below
        have isSignal : ((config.spawn 1 (.unitSignal kind 0)).setPlace 1 (.shellSignal kind 0 later)).status 1 =
            some (.running (.shellSignal kind 0 later)) := by simp
        have signalled : Process.fire program
            ((config.spawn 1 (.unitSignal kind 0)).setPlace 1 (.shellSignal kind 0 later)) (.run 1) =
              some (((config.spawn 1 (.unitSignal kind 0)).setPlace 1 (.shellSignal kind 0 later)).setPlace 1
                (.prompt 0 later)) := fire_run isSignal
        have ready : Standing (before ++ [command]) later
            (((config.spawn 1 (.unitSignal kind 0)).setPlace 1 (.shellSignal kind 0 later)).setPlace 1
              (.prompt 0 later)) := after.of_shell ⟨rfl, rfl⟩
        have stillUnsent : Delivered (((config.spawn 1 (.unitSignal kind 0)).setPlace 1
            (.shellSignal kind 0 later)).setPlace 1 (.prompt 0 later)) := unsent
        obtain ⟨final, continued, finished⟩ := inductionHypothesis (by simp) stillUnsent again ready
        exact ⟨final, ((Reachable.refl.step (.run 1) permitted spawned).step (.run 1) (fun _ =>
          unsent) signalled).trans
          continued, finished⟩

/-- Every unit withstands what its kind withstands if
and only if no cavalry unit was hit exactly once or twice and no armored unit was hit.
Every sequence of commands can be carried out. -/
theorem units_right (commands : List Command) (isNamed : named 0 commands = true) :
    ((∀ config, Reachable (Process.fire program) Prompt (start commands) config → Over config →
      UnitsRight commands config) ↔
      ∀ k kind, (kinds commands)[k]? = some kind →
        (kind = .cavalry → hits commands k ≠ 1 ∧ hits commands k ≠ 2) ∧ (kind = .armored → hits commands k = 0)) ∧
    ∃ config, Reachable (Process.fire program) Prompt (start commands) config ∧ Over config := by
  have first : Standing [] commands (start commands) :=
    ⟨numbered_initial _, rfl, fun _ _ => rfl, rfl, fun _ _ => rfl, ⟨rfl, rfl⟩, by simp [kinds]⟩
  have ready : (start commands).status 1 = some (.running (.prompt 0 commands)) := rfl
  obtain ⟨final, reachedFinal, overFinal⟩ := exists_over ready (fun _ _ => rfl) (by rwa [List.nil_append]) first
  refine ⟨⟨fun right k kind isKind => ?_, fun spared config reached finished k kind isKind => ?_⟩,
    final, reachedFinal, overFinal⟩
  · obtain ⟨below, _⟩ := List.getElem?_eq_some_iff.mp isKind
    have dead := dead_iff isNamed reachedFinal overFinal below
    have unit := right final reachedFinal overFinal k kind isKind
    refine ⟨?_, ?_⟩
    · rintro rfl
      have alive := mt dead.mpr
      simp only [UnitRight] at unit
      refine ⟨fun once => ?_, fun twice => ?_⟩
      · exact unit.1 (by omega) (dead.mpr (by omega))
      · exact unit.1 (by omega) (dead.mpr (by omega))
    · rintro rfl
      have alive := mt dead.mpr unit
      omega
  · obtain ⟨below, _⟩ := List.getElem?_eq_some_iff.mp isKind
    have dead := dead_iff isNamed reached finished below
    have spare := spared k kind isKind
    cases kind with
    | infantry => exact dead
    | cavalry =>
        have hit := spare.1 rfl
        refine ⟨fun few isDead => ?_, fun many => dead.mpr (by omega)⟩
        have atLeast := dead.mp isDead
        omega
    | armored =>
        intro isDead
        have atLeast := dead.mp isDead
        have none := spare.2 rfl
        omega

/-- A cavalry unit dies after one hit. -/
theorem cavalry_dies : ∃ config : State,
    Reachable (Process.fire program) Prompt (start [.cavalry, .fire 2]) config ∧ Over config ∧ Dead config 0 ∧
      ¬ UnitsRight [.cavalry, .fire 2] config := by
  obtain ⟨config, reached, holds⟩ := exists_reachable (Process.fire program) Prompt (start [.cavalry, .fire 2])
    [.run 1, .run 1, .run 1, .deliver 2 .kill]
    (fun config => decide (config.status 1 = some (.running (.prompt 0 []))) && decide (Delivered config) &&
      decide (config.status 2 = some (.zombie (.killed .kill false)))) (by decide)
  simp only [Bool.and_eq_true, decide_eq_true_eq] at holds
  obtain ⟨⟨prompt, delivered⟩, zombie⟩ := holds
  have dead : Dead config 0 := ⟨_, zombie⟩
  exact ⟨config, reached, ⟨⟨0, prompt⟩, delivered⟩, dead, fun right => (right 0 .cavalry rfl).1 (by decide) dead⟩

/-- With one unit of each kind, of which the infantry unit is hit. -/
theorem units_right_three :
    (∀ config, Reachable (Process.fire program) Prompt (start [.infantry, .cavalry, .armored, .fire 2]) config →
      Over config → UnitsRight [.infantry, .cavalry, .armored, .fire 2] config) ↔
      ∀ k kind, (kinds [.infantry, .cavalry, .armored, .fire 2])[k]? = some kind →
        (kind = .cavalry → hits [.infantry, .cavalry, .armored, .fire 2] k ≠ 1 ∧
          hits [.infantry, .cavalry, .armored, .fire 2] k ≠ 2) ∧
        (kind = .armored → hits [.infantry, .cavalry, .armored, .fire 2] k = 0) :=
  (units_right [.infantry, .cavalry, .armored, .fire 2] (by decide)).1

end

end OSLabs.Commander
