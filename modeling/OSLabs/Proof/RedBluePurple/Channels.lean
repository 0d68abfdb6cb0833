import OSLabs.Construction.RedBluePurple
import OSLabs.Proof.Pthread.Local

namespace OSLabs.RedBluePurple
open Pthread

/-- The command that the thread runs and the commands after it. -/
def Place.commands : Place → List Command
  | .red _ rest => .red :: rest
  | .blue _ rest => .blue :: rest
  | .purple _ rest => .purple :: rest
  | .white rest => .white :: rest
  | .done => []

@[simp] theorem Place.commands_call (program : List Command) : (Place.call program).commands = program := by
  cases program with
  | nil => rfl
  | cons command rest => cases command <;> rfl

/-- These places hold these mutexes. A purple command holds only `mutex`. -/
def held : Place → Mutex → Bool
  | .red .lockRed _ => fun _ => false
  | .red _ _ => fun which => which = .lock
  | .blue .lockBlue _ => fun _ => false
  | .blue _ _ => fun which => which = .mutex
  | .purple .unlockFirst _ | .purple .lockBlue _ => fun _ => false
  | .purple _ _ => fun which => which = .mutex
  | .white _ | .done => fun _ => false

theorem held_call (program : List Command) : held (.call program) = fun _ => false := by
  cases program with
  | nil => rfl
  | cons command rest => cases command <;> rfl

/-- Every thread runs, and its commands are commands of its program. -/
def Follows {T : Type} (program : T → List Command) (t : T) (status : Status Place Mutex Empty) (_ : Unit) :
    Prop :=
  match status with
  | .ready place => ∀ command ∈ place.commands, command ∈ program t
  | _ => False

section
variable {T : Type} {program : T → List Command}

theorem code_respects (t : T) (place : Place) : (code t place).Respects held place := by
  cases place with
  | red place rest =>
      cases place with
      | lockRed =>
          funext which
          cases which <;> rfl
      | startRed | endRed =>
          intro before after next effect
          cases effect
          rfl
      | unlockRed =>
          show held (.call rest) = _
          rw [held_call]
          funext which
          cases which <;> rfl
  | blue place rest =>
      cases place with
      | lockBlue =>
          funext which
          cases which <;> rfl
      | startBlue | endBlue =>
          intro before after next effect
          cases effect
          rfl
      | unlockBlue =>
          show held (.call rest) = _
          rw [held_call]
          funext which
          cases which <;> rfl
  | purple place rest =>
      cases place with
      | unlockFirst | lockBlue | unlockRed =>
          funext which
          cases which <;> rfl
      | startBlue | startRed | endRed | endBlue =>
          intro before after next effect
          cases effect
          rfl
      | unlockBlue =>
          show held (.call rest) = _
          rw [held_call]
          funext which
          cases which <;> rfl
  | white rest =>
      intro before after next effect
      cases effect
      exact held_call rest
  | done => trivial

theorem start_kept : Kept (fun _ => held) (start program) := ⟨nofun, fun _ => trivial⟩

theorem start_owned : Owned (fun _ => held) (start program) := by
  refine ⟨fun which t => ?_, fun t => trivial⟩
  simp [start, Status.holds, held_call]

variable [DecidableEq T] [Fintype T] {allowed : History T Unit Place Mutex Empty → State T → T → Prop}
  {history : History T Unit Place Mutex Empty} {config : State T}

theorem follows (reached : Run code (start program) allowed history config) :
    Everywhere (Follows program) config := by
  refine Run.everywhere (Follows program) ?_ ?_ ?_ ?_ reached
  · intro t command member
    simpa [start] using member
  · intro t cond which place memory impossible
    exact impossible
  · intro t which place memory impossible
    exact impossible.elim
  · intro history config t place _ all _ here
    have mine := all t
    rw [here] at mine
    have later : ∀ rest : List Command, (∀ command ∈ rest, command ∈ place.commands) →
        Follows program t (.ready (.call rest)) () := by
      intro rest subset command member
      rw [Place.commands_call] at member
      exact mine command (subset command member)
    cases place with
    | red place rest =>
        cases place with
        | lockRed => exact fun _ => mine
        | startRed | endRed =>
            intro after next effect
            cases effect
            exact ⟨mine, fun other _ => all other⟩
        | unlockRed => exact later rest fun command member => List.mem_cons_of_mem _ member
    | blue place rest =>
        cases place with
        | lockBlue => exact fun _ => mine
        | startBlue | endBlue =>
            intro after next effect
            cases effect
            exact ⟨mine, fun other _ => all other⟩
        | unlockBlue => exact later rest fun command member => List.mem_cons_of_mem _ member
    | purple place rest =>
        cases place with
        | unlockFirst | unlockRed => exact mine
        | lockBlue => exact fun _ => mine
        | startBlue | startRed | endRed | endBlue =>
            intro after next effect
            cases effect
            exact ⟨mine, fun other _ => all other⟩
        | unlockBlue => exact later rest fun command member => List.mem_cons_of_mem _ member
    | white rest =>
        intro after next effect
        cases effect
        exact ⟨later rest fun command member => List.mem_cons_of_mem _ member, fun other _ => all other⟩
    | done => trivial

/-- Every thread runs at its place. -/
theorem ready_place (reached : Run code (start program) allowed history config) (t : T) :
    config.status t = .ready (config.status t).place := by
  have mine := follows reached t
  cases status : config.status t with
  | ready place => rfl
  | blocked cond which place | woken which place =>
      rw [status] at mine
      exact mine.elim

/-- A thread runs only commands of its program. -/
theorem mem_program (reached : Run code (start program) allowed history config) {t : T} {command : Command}
    (member : command ∈ (config.status t).place.commands) : command ∈ program t := by
  have mine := follows reached t
  rw [ready_place reached t] at mine
  exact mine command member

/-- A thread that holds `lock` runs a red command. -/
theorem red_of_holds (reached : Run code (start program) allowed history config) {t : T}
    (holds : (config.status t).holds held .lock = true) :
    ∃ place rest, config.status t = .ready (.red place rest) := by
  have taken := Status.held_of_holds holds
  rw [ready_place reached t]
  cases place : (config.status t).place with
  | red inner rest => exact ⟨inner, rest, rfl⟩
  | blue inner rest =>
      rw [place] at taken
      cases inner <;> cases taken
  | purple inner rest =>
      rw [place] at taken
      cases inner <;> cases taken
  | white rest | done =>
      rw [place] at taken
      cases taken

/-- Each mutex is owned by exactly the thread that holds it, if the thread with the red commands is the one
with the purple commands. -/
theorem owned (disjoint : ∀ s t, .red ∈ program s → .purple ∈ program t → s = t)
    (reached : Run code (start program) allowed history config) : Owned (fun _ => held) config := by
  refine reached.owned code_respects start_owned ?_
  intro _ config t place which next before _ here unlocks unheld
  have purple : ∃ inner rest, place = .purple inner rest ∧ which = .lock := by
    cases place with
    | red inner rest => cases inner <;> cases unlocks; cases unheld
    | blue inner rest => cases inner <;> cases unlocks; cases unheld
    | purple inner rest => cases inner <;> cases unlocks <;> first | exact ⟨_, rest, rfl, rfl⟩ | cases unheld
    | white rest | done => cases unlocks
  obtain ⟨inner, rest, rfl, rfl⟩ := purple
  cases owner : config.owner .lock with
  | none => rfl
  | some s =>
      exfalso
      obtain ⟨redPlace, redRest, there⟩ :=
        red_of_holds before ((before.kept code_respects start_kept).owner .lock s owner)
      have red : .red ∈ program s := mem_program before (t := s) (by rw [there]; exact List.mem_cons_self)
      have purple : .purple ∈ program t := mem_program before (t := t) (by rw [here]; exact List.mem_cons_self)
      have same := disjoint s t red purple
      rw [same, here] at there
      cases there

/-- A thread that outputs to the blue channel holds `mutex`. -/
theorem holds_of_inBlue (reached : Run code (start program) allowed history config) {t : T}
    (inBlue : (config.status t).place.inBlue = true) : (config.status t).holds held .mutex = true := by
  rw [ready_place reached t]
  cases place : (config.status t).place with
  | blue inner rest => cases inner <;> first | rfl | (rw [place] at inBlue; cases inBlue)
  | purple inner rest => cases inner <;> first | rfl | (rw [place] at inBlue; cases inBlue)
  | red inner rest => rw [place] at inBlue; cases inner <;> cases inBlue
  | white rest | done => rw [place] at inBlue; cases inBlue

/-- A thread that outputs to the red channel holds `lock` in a red command or `mutex` in a purple command. -/
theorem holds_of_inRed (reached : Run code (start program) allowed history config) {t : T}
    (inRed : (config.status t).place.inRed = true) :
    (.red ∈ program t ∧ (config.status t).holds held .lock = true) ∨
      (.purple ∈ program t ∧ (config.status t).holds held .mutex = true) := by
  have member : ∀ command ∈ (config.status t).place.commands, command ∈ program t :=
    fun command => mem_program reached
  rw [ready_place reached t]
  cases place : (config.status t).place with
  | red inner rest =>
      rw [place] at member inRed
      refine .inl ⟨member .red List.mem_cons_self, ?_⟩
      cases inner <;> first | rfl | cases inRed
  | purple inner rest =>
      rw [place] at member inRed
      refine .inr ⟨member .purple List.mem_cons_self, ?_⟩
      cases inner <;> first | rfl | cases inRed
  | blue inner rest => rw [place] at inRed; cases inner <;> cases inRed
  | white rest | done => rw [place] at inRed; cases inRed

/-- The owner of a mutex runs and is not at a lock, so not all unfinished threads are blocked on a mutex. -/
theorem not_deadlocked (reached : Run code (start program) allowed history config) :
    ¬ ((∃ t, ¬ Finished code config t) ∧ ∀ t, ¬ Finished code config t → BlockedOnMutex config t) := by
  rintro ⟨⟨t, unfinished⟩, blocked⟩
  obtain ⟨_, which, _, _, _, taken⟩ := blocked t unfinished
  obtain ⟨holder, owner⟩ := Option.ne_none_iff_exists'.mp taken
  have holds := Status.held_of_holds ((reached.kept code_respects start_kept).owner which holder owner)
  have here := ready_place reached holder
  generalize (config.status holder).place = place at holds here
  have working : (code holder place).isExit = false ∧ ∀ other next, code holder place ≠ .lock other next := by
    cases place with
    | red inner rest => cases inner <;> first | cases holds | exact ⟨rfl, nofun⟩
    | blue inner rest => cases inner <;> first | cases holds | exact ⟨rfl, nofun⟩
    | purple inner rest => cases inner <;> first | cases holds | exact ⟨rfl, nofun⟩
    | white rest | done => cases holds
  obtain ⟨there, other, next, otherHere, locks, _⟩ := blocked holder (by simp [Finished, here, working.1])
  rw [here] at otherHere
  cases otherHere
  exact working.2 other next locks

/-- The rule about the channels holds if the thread with the red commands is the one with the purple commands. -/
theorem channelRule (disjoint : ∀ s t, .red ∈ program s → .purple ∈ program t → s = t)
    (reached : Run code (start program) allowed history config) : ChannelRule config where
  red first second firstRed secondRed := by
    have owned := owned disjoint reached
    rcases holds_of_inRed reached firstRed with ⟨red, holds⟩ | ⟨purple, holds⟩ <;>
      rcases holds_of_inRed reached secondRed with ⟨otherRed, otherHolds⟩ | ⟨otherPurple, otherHolds⟩
    · exact owned.unique holds otherHolds
    · exact disjoint first second red otherPurple
    · exact (disjoint second first otherRed purple).symm
    · exact owned.unique holds otherHolds
  blue first second firstBlue secondBlue :=
    (owned disjoint reached).unique (holds_of_inBlue reached firstBlue) (holds_of_inBlue reached secondBlue)
  alive := not_deadlocked reached

end

end OSLabs.RedBluePurple
