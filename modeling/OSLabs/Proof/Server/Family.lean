import OSLabs.Construction.Server
import OSLabs.Proof.Process.Run

namespace OSLabs.Server

open Transition Process

/-- The processes that a process at this place has still to wait for. -/
def Place.watched : Place → List Nat
  | .read _ children => children
  | .waitForeground pid _ children => pid :: children
  | .closeKill remaining => remaining
  | .closeWait child remaining => child :: remaining
  | .install grandchildren | .waitGrandchild grandchildren => grandchildren
  | .handleKill remaining _ => remaining
  | .handleWait grandchild remaining _ => grandchild :: remaining
  | _ => []

/-- The places of the worker. -/
def Place.isWorker : Place → Bool
  | .read _ _ | .waitForeground _ _ _ | .closeKill _ | .closeWait _ _ => true
  | _ => false

/-- The places of a child that carries out a background command. -/
def Place.isChild : Place → Bool
  | .background _ | .install _ | .waitGrandchild _ | .leave _ | .handleKill _ _ | .handleWait _ _ _ => true
  | _ => false

/-- The places of a child behind its call of `signal`. -/
def Place.installed : Place → Bool
  | .waitGrandchild _ | .leave _ | .handleKill _ _ | .handleWait _ _ _ => true
  | _ => false

/-- What the requests still to be served and the number of background children have in common during a session. -/
structure Course (orphans : Prop) (course : List Request → Nat → Prop) : Prop where
  background : ∀ {command rest count}, course (.background command :: rest) count → course rest (count + 1)
  foreground : ∀ {command argument rest count}, course (.foreground command argument :: rest) count →
    course rest count
  closes : ¬ orphans → ∀ count, ¬ course [] count

/-- The session can have had a background command. -/
def Busy (course : List Request → Nat → Prop) : Prop := ∃ requests count, course requests (count + 1)

/-- The lists of a place fit the course of the session and name no worker. -/
def Place.Sound (course : List Request → Nat → Prop) : Place → Prop
  | .read requests children => course requests children.length ∧ 1 ∉ children
  | .waitForeground _ requests children =>
      (∃ command argument, course (.foreground command argument :: requests) children.length) ∧ 1 ∉ children
  | .closeKill remaining => 1 ∉ remaining
  | .closeWait child remaining => child ≠ 1 ∧ 1 ∉ remaining
  | .background _ => Busy course
  | .install grandchildren => grandchildren.length ≤ 1 ∧ 1 ∉ grandchildren ∧ Busy course
  | .waitGrandchild grandchildren | .leave grandchildren => grandchildren.length ≤ 1 ∧ 1 ∉ grandchildren
  | .handleKill remaining interrupted => 1 ∉ remaining ∧ interrupted.installed = true ∧ interrupted.Sound course
  | .handleWait grandchild remaining interrupted =>
      grandchild ≠ 1 ∧ 1 ∉ remaining ∧ interrupted.installed = true ∧ interrupted.Sound course
  | .execute _ | .execFailed => True

/-- A process is awaited by its parent, or orphans are allowed and it is not a child of a running worker. -/
def Tended (orphans : Prop) (config : State) (pid : Nat) : Prop :=
  (∃ place, config.status (config.parent pid) = some (.running place) ∧ pid ∈ place.watched) ∨
    orphans ∧ (config.parent pid = 1 → ∀ place, config.status 1 ≠ some (.running place))

/-- A process fits the place where it is. -/
structure Fits (course : List Request → Nat → Prop) (config : State) (pid : Nat) (place : Place) : Prop where
  worker : place.isWorker = true ↔ pid = 1
  child : place.isChild = true → config.parent pid = 1
  disposition : config.disposition pid .term = if place.installed then .caught else .default
  sound : place.Sound course

/-- The invariant of the worker and its descendants. -/
structure Standing (orphans : Prop) (course : List Request → Nat → Prop) (config : State) : Prop where
  numbered : config.Numbered
  root : config.status 0 = none ∧ config.parent 1 = 0
  chld : ∀ pid, config.disposition pid .chld = .default
  pending : ∀ pid, ∀ signal ∈ config.pending pid, signal = .term ∧ pid ≠ 1
  places : ∀ pid place, config.status pid = some (.running place) → Fits course config pid place
  tended : ∀ pid status, config.status pid = some status → status.isReaped = false → pid ≠ 1 →
    Tended orphans config pid

section Updates

variable {orphans : Prop} {course : List Request → Nat → Prop} {config next : State} {pid : Nat}

theorem Fits.congr {place : Place} (fits : Fits course config pid place) (parent : next.parent = config.parent)
    (disposition : next.disposition pid = config.disposition pid) : Fits course next pid place where
  worker := fits.worker
  child := by simpa [parent] using fits.child
  disposition := by simpa [disposition] using fits.disposition
  sound := fits.sound

/-- The process that changes its status may only stop to watch what it need not wait for. -/
theorem Standing.update (next : State) (after : Status Place Image) {before : Status Place Image}
    (standing : Standing orphans course config)
    (here : config.status pid = some before) (fresh : next.fresh = config.fresh)
    (parent : next.parent = config.parent)
    (status : next.status = Function.update config.status pid (some after))
    (disposition : ∀ other, other ≠ pid → next.disposition other = config.disposition other)
    (chld : next.disposition pid .chld = .default)
    (pending : ∀ other, ∀ signal ∈ next.pending other, signal = .term ∧ other ≠ 1)
    (unreaped : after.isReaped = false → before.isReaped = false)
    (fits : ∀ place, after = .running place → (∃ place, before = .running place) ∧ Fits course next pid place)
    (keeps : ∀ place child, before = .running place → config.unreaped pid child = true → (orphans → pid = 1) →
      child ∈ place.watched → (∃ place, after = .running place ∧ child ∈ place.watched) ∨
        orphans ∧ ∀ place, after ≠ .running place) : Standing orphans course next where
  numbered := by
    intro other outside
    rw [status, Function.update_of_ne (by have := standing.numbered.lt here; omega)]
    exact standing.numbered other (by omega)
  root := by
    have positive : pid ≠ 0 := by
      rintro rfl
      rw [standing.root.1] at here
      cases here
    rw [status, Function.update_of_ne (Ne.symm positive), parent]
    exact standing.root
  chld other := by
    by_cases same : other = pid
    · rw [same]
      exact chld
    · rw [disposition other same]
      exact standing.chld other
  pending := pending
  places other place running := by
    by_cases same : other = pid
    · subst same
      rw [status, Function.update_self] at running
      exact (fits place (Option.some.inj running)).2
    · rw [status, Function.update_of_ne same] at running
      exact (standing.places other place running).congr parent (disposition other same)
  tended child current there isUnreaped notWorker := by
    obtain ⟨old, was, wasUnreaped⟩ : ∃ old, config.status child = some old ∧ old.isReaped = false := by
      by_cases same : child = pid
      · subst same
        rw [status, Function.update_self] at there
        obtain rfl := Option.some.inj there
        exact ⟨before, here, unreaped isUnreaped⟩
      · rw [status, Function.update_of_ne same] at there
        exact ⟨current, there, isUnreaped⟩
    have tended := standing.tended child old was wasUnreaped notWorker
    unfold Tended at tended ⊢
    rw [parent, status]
    by_cases isParent : config.parent child = pid
    · have isChild : config.unreaped pid child = true := by simp [Config.unreaped, isParent, was, wasUnreaped]
      subst isParent
      rw [Function.update_self]
      by_cases spared : orphans ∧ config.parent child ≠ 1
      · exact Or.inr ⟨spared.1, fun isWorker => absurd isWorker spared.2⟩
      · rcases tended with ⟨place, running, member⟩ | ⟨allowed, ended⟩
        · have watching : before = .running place := Option.some.inj (here.symm.trans running)
          have required : orphans → config.parent child = 1 :=
            fun allowed => by_contra fun other => spared ⟨allowed, other⟩
          rcases keeps place child watching isChild required member with ⟨next, goesOn, kept⟩ | ⟨allowed, ended⟩
          · exact Or.inl ⟨next, by rw [goesOn], kept⟩
          · refine Or.inr ⟨allowed, fun isWorker place running => ?_⟩
            rw [isWorker, Function.update_self] at running
            exact ended place (Option.some.inj running)
        · have isWorker : config.parent child = 1 := by_contra fun other => spared ⟨allowed, other⟩
          refine Or.inr ⟨allowed, fun _ place running => ?_⟩
          rw [isWorker, Function.update_self] at running
          obtain ⟨⟨place, was⟩, _⟩ := fits place (Option.some.inj running)
          exact ended isWorker place (by rw [← isWorker, here, was])
    · rw [Function.update_of_ne isParent]
      rcases tended with watched | ⟨allowed, ended⟩
      · exact Or.inl watched
      · refine Or.inr ⟨allowed, fun isWorker place => ?_⟩
        rw [Function.update_of_ne (isWorker ▸ isParent)]
        exact ended isWorker place

/-- The configuration differs only in pending signals, which are as they may be, and in what was executed. -/
structure Alike (config between : State) : Prop where
  fresh : between.fresh = config.fresh
  parent : between.parent = config.parent
  status : between.status = config.status
  disposition : between.disposition = config.disposition
  pending : ∀ other, ∀ signal ∈ between.pending other, signal = .term ∧ other ≠ 1

theorem Standing.alike (standing : Standing orphans course config) : Alike config config :=
  ⟨rfl, rfl, rfl, rfl, standing.pending⟩

theorem Standing.alike_call (standing : Standing orphans course config) (image : Image) :
    Alike config (config.call pid image) :=
  ⟨rfl, rfl, rfl, rfl, standing.pending⟩

theorem Standing.alike_unpend (standing : Standing orphans course config) (pid : Nat) (signal : Signal) :
    Alike config (config.unpend pid signal) := by
  refine ⟨rfl, rfl, rfl, rfl, fun other another member => ?_⟩
  by_cases same : other = pid
  · subst same
    exact standing.pending other another (List.mem_of_mem_erase (by simpa using member))
  · exact standing.pending other another (by simpa [same] using member)

theorem Standing.alike_send (standing : Standing orphans course config) {target : Nat} (notWorker : target ≠ 1) :
    Alike config (config.send target .term) := by
  refine ⟨by simp, by simp, by simp, by simp, fun other signal member => ?_⟩
  unfold Config.send at member
  split at member
  · exact standing.pending other signal member
  · by_cases same : other = target
    · subst same
      simp only [Function.update_self, List.mem_cons] at member
      rcases member with isTerm | member
      · exact ⟨isTerm, notWorker⟩
      · exact standing.pending other signal member
    · exact standing.pending other signal (by simpa [same] using member)

/-- A process goes on at another place. -/
theorem Standing.setPlace {between : State} {place after : Place} (standing : Standing orphans course config)
    (alike : Alike config between) (here : config.status pid = some (.running place))
    (fits : Fits course config pid after)
    (keeps : ∀ child, config.unreaped pid child = true → (orphans → pid = 1) → child ∈ place.watched →
      child ∈ after.watched) : Standing orphans course (between.setPlace pid after) := by
  apply standing.update (between.setPlace pid after) (.running after) here alike.fresh alike.parent
    (by rw [Config.setPlace_status, alike.status]) (fun other _ => congrFun alike.disposition other)
    (by simpa [alike.disposition] using standing.chld pid) alike.pending (fun _ => rfl)
  · intro next goesOn
    cases goesOn
    exact ⟨⟨place, rfl⟩, fits.congr alike.parent (congrFun alike.disposition pid)⟩
  · intro next child watching isChild required member
    cases watching
    exact Or.inl ⟨after, rfl, keeps child isChild required member⟩

/-- A process that has nobody to wait for ends, or it starts to execute an image. -/
theorem Standing.setStatus {between : State} {before after : Status Place Image}
    (standing : Standing orphans course config) (alike : Alike config between)
    (here : config.status pid = some before)
    (unreaped : after.isReaped = false → before.isReaped = false) (stops : ∀ place, after ≠ .running place)
    (alone : ¬ orphans → ∀ place, before = .running place → place.watched = []) :
    Standing orphans course (between.setStatus pid after) := by
  apply standing.update (between.setStatus pid after) after here alike.fresh alike.parent
    (by rw [Config.setStatus_status, alike.status]) (fun other _ => congrFun alike.disposition other)
    (by simpa [alike.disposition] using standing.chld pid) alike.pending unreaped
  · intro next goesOn
    exact absurd goesOn (stops next)
  · intro place child watching isChild required member
    by_cases allowed : orphans
    · exact Or.inr ⟨allowed, stops⟩
    · simp [alone allowed place watching] at member

/-- A process that has nobody to wait for ends. -/
theorem Standing.finish {between : State} {before : Status Place Image} (standing : Standing orphans course config)
    (alike : Alike config between) (here : config.status pid = some before) (alive : before.isReaped = false)
    (alone : ¬ orphans → ∀ place, before = .running place → place.watched = []) (termination : Termination) :
    Standing orphans course (between.finish pid termination) := by
  have discards : ((between.disposition (between.parent pid) .chld).discards .chld) = true := by
    rw [alike.disposition, standing.chld]
    rfl
  rw [finish_eq_setStatus discards]
  exact standing.setStatus alike here (fun _ => alive) (by simp) alone

/-- A child that has ended is waited for. -/
theorem Standing.reap {child : Nat} {termination : Termination} (standing : Standing orphans course config)
    (zombie : config.status child = some (.zombie termination)) :
    Standing orphans course (config.setStatus child (.reaped termination)) :=
  standing.setStatus standing.alike zombie (fun isUnreaped => by cases isUnreaped) (by simp) (by simp)

/-- A process forks a child that it waits for later. -/
theorem Standing.spawn {place after child : Place} (standing : Standing orphans course config)
    (here : config.status pid = some (.running place)) (fits : Fits course config pid after)
    (born : Fits course (config.spawn pid child) config.fresh child) (awaits : config.fresh ∈ after.watched)
    (keeps : ∀ other, other ∈ place.watched → other ∈ after.watched) :
    Standing orphans course ((config.spawn pid child).setPlace pid after) := by
  have inRange := standing.numbered.lt here
  have positive : pid ≠ 0 := by
    rintro rfl
    rw [standing.root.1] at here
    cases here
  have notPid : config.fresh ≠ pid := inRange.ne'
  have notWorker : (1 : Nat) ≠ config.fresh := by omega
  have statusOf : ∀ other, other ≠ pid → other ≠ config.fresh →
      ((config.spawn pid child).setPlace pid after).status other = config.status other := by
    intro other notSelf notFresh
    simp [notSelf, notFresh]
  constructor
  · exact (standing.numbered.spawn pid child).setStatus (Nat.lt_succ_of_lt inRange)
  · rw [statusOf 0 (Ne.symm positive) (by omega)]
    simpa [notWorker] using standing.root
  · intro other
    by_cases isFresh : other = config.fresh
    · simpa [isFresh] using standing.chld pid
    · simpa [isFresh] using standing.chld other
  · intro other signal member
    by_cases isFresh : other = config.fresh
    · simp [isFresh] at member
    · exact standing.pending other signal (by simpa [isFresh] using member)
  · intro other next running
    by_cases isPid : other = pid
    · subst isPid
      obtain rfl : after = next := by simpa using running
      refine ⟨fits.worker, fun isChild => ?_, ?_, fits.sound⟩
      · simpa [Ne.symm notPid] using fits.child isChild
      · simpa [Ne.symm notPid] using fits.disposition
    · by_cases isFresh : other = config.fresh
      · subst isFresh
        obtain rfl : child = next := by simpa [isPid] using running
        exact born.congr rfl rfl
      · rw [statusOf other isPid isFresh] at running
        have there := standing.places other next running
        exact ⟨there.worker, by simpa [isFresh] using there.child, by simpa [isFresh] using there.disposition, there.sound⟩
  · intro other current there isUnreaped notFirst
    by_cases isFresh : other = config.fresh
    · subst isFresh
      exact Or.inl ⟨after, by simp, awaits⟩
    · obtain ⟨old, was, wasUnreaped⟩ : ∃ old, config.status other = some old ∧ old.isReaped = false := by
        by_cases isPid : other = pid
        · exact ⟨_, isPid ▸ here, rfl⟩
        · rw [statusOf other isPid isFresh] at there
          exact ⟨current, there, isUnreaped⟩
      have sameParent : ((config.spawn pid child).setPlace pid after).parent other = config.parent other := by
        simp [isFresh]
      have tended := standing.tended other old was wasUnreaped notFirst
      unfold Tended at tended ⊢
      rw [sameParent]
      rcases tended with ⟨watcher, running, member⟩ | ⟨allowed, ended⟩
      · by_cases isParent : config.parent other = pid
        · rw [isParent, here] at running
          cases running
          exact Or.inl ⟨after, by simp [isParent], keeps other member⟩
        · have notNew : config.parent other ≠ config.fresh := (standing.numbered.lt running).ne
          exact Or.inl ⟨watcher, by rw [statusOf _ isParent notNew, running], member⟩
      · refine Or.inr ⟨allowed, fun isWorker => ?_⟩
        have notRunning := ended isWorker
        have isOther : (1 : Nat) ≠ pid := by
          rintro rfl
          exact notRunning place here
        rw [statusOf 1 isOther notWorker]
        exact notRunning

end Updates

section Steps

variable {orphans : Prop} {course : List Request → Nat → Prop} {config next : State} {pid : Nat} {place : Place}

/-- A child that has been waited for is no longer one of those to wait for. -/
theorem mem_of_over {child other : Nat} {remaining : List Nat} (member : child ∈ other :: remaining)
    (isChild : config.unreaped pid child = true) (finished : config.unreaped pid other = false) :
    child ∈ remaining := by
  refine (List.mem_cons.mp member).resolve_left ?_
  rintro rfl
  rw [finished] at isChild
  cases isChild

/-- A process fits another place that is as well installed. -/
theorem Fits.move {after : Place} (fits : Fits course config pid place) (worker : after.isWorker = place.isWorker)
    (child : after.isChild = true → place.isChild = true) (installed : after.installed = place.installed)
    (sound : after.Sound course) : Fits course config pid after where
  worker := by rw [worker, fits.worker]
  child isChild := fits.child (child isChild)
  disposition := by rw [installed, fits.disposition]
  sound := sound

/-- A new process has not installed the handler, as the process that forks it has not. -/
theorem Fits.born {child : Place} (fits : Fits course config pid place) (notInstalled : place.installed = false)
    (notFirst : config.fresh ≠ 1) (notWorker : child.isWorker = false) (fresh : child.installed = false)
    (ofWorker : child.isChild = true → pid = 1) (sound : child.Sound course) :
    Fits course (config.spawn pid child) config.fresh child where
  worker := by simp [notWorker, notFirst]
  child isChild := by simp [ofWorker isChild]
  disposition := by simp [fresh, fits.disposition, notInstalled]
  sound := sound

theorem Standing.fresh_ne_one (standing : Standing orphans course config)
    (here : config.status pid = some (.running place)) : config.fresh ≠ 1 := by
  have inRange := standing.numbered.lt here
  rintro isOne
  have isZero : pid = 0 := by omega
  rw [isZero, standing.root.1] at here
  cases here

/-- A step of the worker keeps the invariant. -/
theorem Standing.runWorker (standing : Standing orphans course config) (isCourse : Course orphans course)
    (here : config.status 1 = some (.running place)) (isWorker : place.isWorker = true)
    (performed : perform config 1 (program.code place) = some next) : Standing orphans course next := by
  have fits := standing.places 1 place here
  have notFirst := standing.fresh_ne_one here
  cases place with
  | read requests children =>
      obtain ⟨holds, notMember⟩ := fits.sound
      cases requests with
      | nil =>
          obtain rfl := Option.some.inj performed
          exact standing.finish standing.alike here rfl
            (fun strict => absurd holds (isCourse.closes strict _)) _
      | cons request rest =>
          cases request with
          | close =>
              obtain rfl := Option.some.inj performed
              exact standing.setPlace standing.alike here
                (fits.move rfl (fun isChild => by cases isChild) rfl notMember)
                fun _ _ _ member => member
          | background command =>
              obtain rfl := Option.some.inj performed
              have sound : (Place.read rest (children ++ [config.fresh])).Sound course := by
                refine ⟨by simpa using isCourse.background holds, ?_⟩
                simpa [notMember] using Ne.symm notFirst
              exact standing.spawn here (fits.move rfl (fun isChild => by cases isChild) rfl sound)
                (fits.born rfl notFirst rfl rfl (fun _ => rfl) ⟨rest, _, isCourse.background holds⟩)
                  (by simp [Place.watched])
                fun other member => List.mem_append_left _ member
          | foreground command argument =>
              obtain rfl := Option.some.inj performed
              have sound : (Place.waitForeground config.fresh rest children).Sound course :=
                ⟨⟨command, argument, holds⟩, notMember⟩
              exact standing.spawn here (fits.move rfl (fun isChild => by cases isChild) rfl sound)
                (fits.born rfl notFirst rfl rfl (fun isChild => by cases isChild) trivial)
                  (by simp [Place.watched])
                fun other member => List.mem_cons_of_mem _ member
  | waitForeground child rest children =>
      obtain ⟨⟨command, argument, holds⟩, notMember⟩ := fits.sound
      simp only [program, perform] at performed
      split at performed
      · next none =>
          obtain rfl := Option.some.inj performed
          have sound : (Place.read rest children).Sound course := ⟨isCourse.foreground holds, notMember⟩
          refine standing.setPlace standing.alike here
            (fits.move rfl (fun isChild => by cases isChild) rfl sound) ?_
          intro other isChild _ _
          simp [(children_eq_zero standing.numbered).mp none other] at isChild
      · cases performed
  | closeKill remaining =>
      cases remaining with
      | nil =>
          obtain rfl := Option.some.inj performed
          exact standing.finish standing.alike here rfl (fun _ place same => by cases same; rfl) _
      | cons child rest =>
          obtain rfl := Option.some.inj performed
          have notMember : 1 ∉ child :: rest := fits.sound
          rw [List.mem_cons, not_or] at notMember
          exact standing.setPlace (standing.alike_send (Ne.symm notMember.1)) here
            (fits.move rfl (fun isChild => by cases isChild) rfl ⟨Ne.symm notMember.1, notMember.2⟩)
            fun _ _ _ member => member
  | closeWait child remaining =>
      simp only [program, perform] at performed
      split at performed
      · cases performed
      · next ended =>
          obtain rfl := Option.some.inj performed
          exact standing.setPlace standing.alike here
            (fits.move rfl (fun isChild => by cases isChild) rfl fits.sound.2)
            fun _ isChild _ member => mem_of_over member isChild (by simpa using ended)
  | background | install | waitGrandchild | leave | handleKill | handleWait | execute | execFailed =>
      cases isWorker

theorem Place.not_isWorker_of_installed {place : Place} (installed : place.installed = true) :
    place.isWorker = false := by
  cases place <;> first | rfl | cases installed

/-- Installing the handler changes the disposition together with the place. -/
theorem Standing.install {grandchildren : List Nat} (standing : Standing orphans course config)
    (here : config.status pid = some (.running (.install grandchildren))) :
    Standing orphans course ((config.setDisposition pid .term .caught).setPlace pid
      (.waitGrandchild grandchildren)) := by
  have fits := standing.places pid _ here
  have caught : (config.setDisposition pid .term .caught).disposition =
      Function.update config.disposition pid (Function.update (config.disposition pid) .term .caught) := rfl
  apply standing.update ((config.setDisposition pid .term .caught).setPlace pid (.waitGrandchild grandchildren))
    (.running (.waitGrandchild grandchildren)) here rfl rfl rfl
  · intro other different
    rw [Config.setPlace_disposition, caught, Function.update_of_ne different]
  · rw [Config.setPlace_disposition, caught, Function.update_self, Function.update_of_ne (by decide)]
    exact standing.chld pid
  · exact standing.pending
  · exact fun _ => rfl
  · intro next goesOn
    cases goesOn
    refine ⟨⟨_, rfl⟩, fits.worker, fun _ => fits.child rfl, ?_, fits.sound.1, fits.sound.2.1⟩
    rw [Config.setPlace_disposition, caught, Function.update_self, Function.update_self]
    rfl
  · intro next child watching _ _ member
    cases watching
    exact Or.inl ⟨_, rfl, member⟩

/-- A step of another process keeps the invariant. -/
theorem Standing.runOther (standing : Standing orphans course config)
    (here : config.status pid = some (.running place))
    (notWorker : place.isWorker = false) (performed : perform config pid (program.code place) = some next) :
    Standing orphans course next := by
  have fits := standing.places pid place here
  have notFirst := standing.fresh_ne_one here
  cases place with
  | background command =>
      obtain rfl := Option.some.inj performed
      have sound : (Place.install [config.fresh]).Sound course :=
        ⟨Nat.le_refl 1, by simpa using Ne.symm notFirst, fits.sound⟩
      exact standing.spawn here (fits.move rfl (fun _ => rfl) rfl sound)
        (fits.born rfl notFirst rfl rfl (fun isChild => by cases isChild) trivial) (by simp [Place.watched])
        fun other member => by cases member
  | install grandchildren =>
      obtain rfl := Option.some.inj performed
      exact standing.install here
  | waitGrandchild grandchildren =>
      simp only [program, perform] at performed
      split at performed
      · next none =>
          obtain rfl := Option.some.inj performed
          refine standing.setPlace standing.alike here (fits.move rfl (fun _ => rfl) rfl fits.sound) ?_
          intro other isChild _ _
          simp [(children_eq_zero standing.numbered).mp none other] at isChild
      · cases performed
  | leave grandchildren =>
      obtain rfl := Option.some.inj performed
      exact standing.finish standing.alike here rfl (fun _ place same => by cases same; rfl) _
  | handleKill remaining interrupted =>
      cases remaining with
      | nil =>
          obtain rfl := Option.some.inj performed
          obtain ⟨_, installed, sound⟩ := fits.sound
          have kept : Fits course config pid interrupted :=
            fits.move (Place.not_isWorker_of_installed installed) (fun _ => rfl) installed sound
          exact standing.setPlace standing.alike here kept fun other _ _ member => by cases member
      | cons grandchild rest =>
          obtain rfl := Option.some.inj performed
          obtain ⟨notMember, installed, sound⟩ := fits.sound
          rw [List.mem_cons, not_or] at notMember
          exact standing.setPlace (standing.alike_send (Ne.symm notMember.1)) here
            (fits.move rfl (fun _ => rfl) rfl ⟨Ne.symm notMember.1, notMember.2, installed, sound⟩)
              fun _ _ _ member => member
  | handleWait grandchild remaining interrupted =>
      simp only [program, perform] at performed
      split at performed
      · cases performed
      · next ended =>
          obtain rfl := Option.some.inj performed
          exact standing.setPlace standing.alike here (fits.move rfl (fun _ => rfl) rfl fits.sound.2)
            fun _ isChild _ member => mem_of_over member isChild (by simpa using ended)
  | execute image =>
      obtain rfl := Option.some.inj performed
      exact standing.setStatus (standing.alike_call image) here (fun _ => rfl) (by simp)
        (fun _ place same => by cases same; rfl)
  | execFailed =>
      obtain rfl := Option.some.inj performed
      exact standing.finish standing.alike here rfl (fun _ place same => by cases same; rfl) _
  | read | waitForeground | closeKill | closeWait => cases notWorker

/-- Only one place calls `exec`. -/
theorem eq_execute {image : Image} {failed : Place} (instr : program.code place = .exec image failed) :
    place = .execute image ∧ failed = .execFailed := by
  cases place with
  | execute =>
      cases instr
      exact ⟨rfl, rfl⟩
  | read requests children =>
      rcases requests with _ | ⟨_ | _ | _, rest⟩ <;> cases instr
  | closeKill remaining => cases remaining <;> cases instr
  | handleKill remaining interrupted => cases remaining <;> cases instr
  | _ => cases instr

/-- An `exec` that fails keeps the invariant. -/
theorem Standing.refuse (standing : Standing orphans course config)
    (fired : fire program config (.refuse pid) = some next) :
    Standing orphans course next := by
  obtain ⟨place, image, failed, here, instr, rfl⟩ := exists_of_refuse fired
  obtain ⟨rfl, rfl⟩ := eq_execute instr
  exact standing.setPlace (standing.alike_call image) here
    ((standing.places pid _ here).move rfl (fun isChild => by cases isChild) rfl trivial)
      fun _ _ _ member => by cases member

/-- A child that the worker or another process reaps is one that it watches. -/
theorem Standing.mem_watched (standing : Standing orphans course config) {child : Nat} {termination : Termination}
    (here : config.status pid = some (.running place)) (zombie : config.status child = some (.zombie termination))
    (parent : config.parent child = pid) (required : orphans → pid = 1) : child ∈ place.watched := by
  have notFirst : child ≠ 1 := by
    rintro rfl
    rw [standing.root.2] at parent
    rw [← parent, standing.root.1] at here
    cases here
  rcases standing.tended child _ zombie rfl notFirst with ⟨watcher, running, member⟩ | ⟨allowed, ended⟩
  · rw [parent, here] at running
    cases running
    exact member
  · exact absurd (required allowed ▸ here) (ended (parent.trans (required allowed)) place)

/-- A process that reaps a child it watches keeps the invariant. -/
theorem Standing.reapStep {child : Nat} (standing : Standing orphans course config)
    (isCourse : Course orphans course)
    (undisturbed : Undisturbed config (.reap pid child))
    (fired : fire program config (.reap pid child) = some next) :
    Standing orphans course next := by
  obtain ⟨place, termination, after, here, zombie, awaits, parent, rfl⟩ := exists_of_reap fired
  have fits := standing.places pid place here
  have reaped := standing.reap zombie
  have distinct : pid ≠ child := by
    rintro rfl
    rw [here] at zombie
    cases zombie
  have there : (config.setStatus child (.reaped termination)).status pid = some (.running place) := by
    simp [distinct, here]
  have finished : (config.setStatus child (.reaped termination)).unreaped pid child = false := by
    simp [Config.unreaped, Status.isReaped]
  have watched : (orphans → pid = 1) → child ∈ place.watched := standing.mem_watched here zombie parent
  cases place with
  | waitForeground other rest children =>
      cases awaits
      obtain ⟨⟨command, argument, holds⟩, notMember⟩ := fits.sound
      have isWorker : pid = 1 := fits.worker.mp rfl
      have sound : (Place.read rest children).Sound course := ⟨isCourse.foreground holds, notMember⟩
      have kept : Fits course config pid (.read rest children) :=
        fits.move rfl (fun isChild => by cases isChild) rfl sound
      have notBackground : child ∉ children := by
        subst isWorker
        exact undisturbed child rfl other rest children here
      have isForeground : child = other :=
        (List.mem_cons.mp (watched fun _ => isWorker)).resolve_right notBackground
      exact reaped.setPlace reaped.alike there (kept.congr rfl rfl) fun _ isChild _ member =>
        mem_of_over member isChild (isForeground ▸ finished)
  | closeWait other remaining =>
      simp only [program, Instr.awaits, Option.ite_none_right_eq_some, Option.some.injEq] at awaits
      obtain ⟨rfl, rfl⟩ := awaits
      have kept : Fits course config pid (.closeKill remaining) :=
        fits.move rfl (fun isChild => by cases isChild) rfl fits.sound.2
      exact reaped.setPlace reaped.alike there (kept.congr rfl rfl) fun _ isChild _ member =>
        mem_of_over member isChild finished
  | waitGrandchild grandchildren =>
      cases awaits
      have kept : Fits course config pid (.leave grandchildren) := fits.move rfl (fun _ => rfl) rfl fits.sound
      refine reaped.setPlace reaped.alike there (kept.congr rfl rfl) fun one isChild required member => ?_
      obtain ⟨short, _⟩ := fits.sound
      have same : one = child := by
        obtain ⟨only, rfl⟩ : ∃ only, grandchildren = [only] := by
          cases grandchildren with
          | nil => cases member
          | cons first later =>
              have none : later = [] := List.length_eq_zero_iff.mp (by simpa using short)
              exact ⟨first, by rw [none]⟩
        exact (List.mem_singleton.mp member).trans (List.mem_singleton.mp (watched required)).symm
      rw [same, finished] at isChild
      cases isChild
  | handleWait other remaining interrupted =>
      simp only [program, Instr.awaits, Option.ite_none_right_eq_some, Option.some.injEq] at awaits
      obtain ⟨rfl, rfl⟩ := awaits
      have kept : Fits course config pid (.handleKill remaining interrupted) :=
        fits.move rfl (fun _ => rfl) rfl fits.sound.2
      exact reaped.setPlace reaped.alike there (kept.congr rfl rfl) fun _ isChild _ member =>
        mem_of_over member isChild finished
  | read requests children => rcases requests with _ | ⟨_ | _ | _, rest⟩ <;> cases awaits
  | closeKill remaining | handleKill remaining _ => cases remaining <;> cases awaits
  | background | install | leave | execute | execFailed => cases awaits

/-- A signal keeps the invariant when it comes to no child that cannot handle it. -/
theorem Standing.deliver {signal : Signal} (standing : Standing orphans course config)
    (careful : ¬ orphans → Installed config (.deliver pid signal))
    (fired : fire program config (.deliver pid signal) = some next) : Standing orphans course next := by
  obtain ⟨place, here, waiting, unblocked, effect⟩ := exists_of_deliver fired
  obtain ⟨rfl, notWorker⟩ := standing.pending pid signal waiting
  have fits := standing.places pid place here
  have disposition := fits.disposition
  have alike := standing.alike_unpend pid .term
  rcases effect with ⟨caught, rfl⟩ | ⟨discards, rfl⟩ | ⟨default, _, rfl⟩
  · have installed : place.installed = true := by
      by_contra other
      simp [other, caught] at disposition
    cases place with
    | waitGrandchild grandchildren =>
        have sound : (Place.handleKill grandchildren (.waitGrandchild grandchildren)).Sound course :=
          ⟨fits.sound.2, rfl, fits.sound⟩
        exact standing.setPlace alike here (fits.move rfl (fun _ => rfl) rfl sound) fun _ _ _ member => member
    | leave grandchildren =>
        have sound : (Place.handleKill grandchildren (.leave grandchildren)).Sound course :=
          ⟨fits.sound.2, rfl, fits.sound⟩
        exact standing.setPlace alike here (fits.move rfl (fun _ => rfl) rfl sound)
          fun _ _ _ member => by cases member
    | handleKill | handleWait => cases unblocked
    | read | waitForeground | closeKill | closeWait | background | install | execute | execFailed =>
        cases installed
  · rw [disposition] at discards
    split at discards <;> cases discards
  · have notInstalled : place.installed = false := by
      by_contra other
      simp [other, default] at disposition
    refine standing.finish alike here rfl (fun strict watcher same => ?_) _
    cases same
    cases place with
    | install grandchildren => exact absurd here (careful strict pid rfl grandchildren)
    | read | waitForeground | closeKill | closeWait => exact absurd (fits.worker.mp rfl) notWorker
    | waitGrandchild | leave | handleKill | handleWait => cases notInstalled
    | background | execute | execFailed => rfl

/-- Every permitted move keeps the invariant. -/
theorem Standing.step (standing : Standing orphans course config) (isCourse : Course orphans course) {move : Move}
    (undisturbed : Undisturbed config move) (careful : ¬ orphans → Installed config move)
    (fired : fire program config move = some next) : Standing orphans course next := by
  cases move with
  | run pid =>
      obtain ⟨place, here, performed⟩ := exists_of_run fired
      cases isWorker : place.isWorker with
      | true =>
          obtain rfl := (standing.places pid place here).worker.mp isWorker
          exact standing.runWorker isCourse here isWorker performed
      | false => exact standing.runOther here isWorker performed
  | refuse pid => exact standing.refuse fired
  | reap pid child => exact standing.reapStep isCourse undisturbed fired
  | deliver pid signal => exact standing.deliver careful fired
  | terminate pid termination =>
      obtain ⟨image, here, rfl⟩ := exists_of_terminate fired
      exact standing.finish standing.alike here rfl (fun _ place same => by cases same) _

/-- The start meets the invariant of every course of its requests. -/
theorem standing_start {requests : List Request} (holds : course requests 0) :
    Standing orphans course (start requests) where
  numbered := numbered_initial _
  root := ⟨rfl, rfl⟩
  chld _ := rfl
  pending _ _ member := by cases member
  places pid place running := by
    by_cases isWorker : pid = 1
    · subst isWorker
      obtain rfl : Place.read requests [] = place := by simpa [start, Config.initial] using running
      have notChild (isChild : (Place.read requests []).isChild = true) :
        (start requests).parent 1 = 1 := by cases isChild
      exact ⟨by simp [Place.isWorker], notChild, rfl, holds, List.not_mem_nil⟩
    · simp [start, Config.initial, isWorker] at running
  tended pid status here _ notWorker := by
    simp [start, Config.initial, notWorker] at here

/-- Every run of permitted moves meets the invariant of each course of its requests. -/
theorem Standing.reachable {requests : List Request} {allowed : State → Move → Prop}
    (isCourse : Course orphans course)
    (holds : course requests 0)
    (permits : ∀ config move, Standing orphans course config → allowed config move →
      Undisturbed config move ∧ (¬ orphans → Installed config move))
    (reached : Reachable (fire program) allowed (start requests) config) : Standing orphans course config :=
  reached.invariant (Standing orphans course) (standing_start holds) fun move standing permitted fired =>
    standing.step isCourse (permits _ move standing permitted).1 (permits _ move standing permitted).2 fired

end Steps

end OSLabs.Server
