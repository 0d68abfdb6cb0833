import OSLabs.Proof.RedBluePurple.Channels
import OSLabs.Proof.Pthread.Frame

namespace OSLabs.RedBluePurple
open Pthread

/-- A thread that runs alone at the begin of its commands. -/
def alone (program : List Command) : State Unit := Config.initial () fun _ => .call program

/-- Two threads alone, the first one at a red command and the second one at a purple command. -/
def pair (afterRed afterPurple : List Command) : State Bool :=
  Config.initial () fun first => .call (if first then .red :: afterRed else .purple :: afterPurple)

/-- A thread that runs alone completes its next command. -/
theorem exists_follow_command (command : Command) (rest : List Command) :
    ∃ count, follow code (alone (command :: rest)) (turns count ()) = some (alone rest) := by
  cases command with
  | red =>
      refine ⟨4, congrArg some (Config.eq_initial rfl (fun which => ?_) fun _ => rfl)⟩
      cases which <;> rfl
  | blue =>
      refine ⟨4, congrArg some (Config.eq_initial rfl (fun which => ?_) fun _ => rfl)⟩
      cases which <;> rfl
  | purple =>
      refine ⟨8, congrArg some (Config.eq_initial rfl (fun which => ?_) fun _ => rfl)⟩
      cases which <;> rfl
  | white => exact ⟨1, congrArg some (Config.eq_initial rfl (fun which => rfl) fun _ => rfl)⟩

/-- A thread that runs alone completes any prefix of its commands. -/
theorem reachable_alone (before after : List Command) :
    Reachable code (alone (before ++ after)) (alone after) := by
  suffices prefixed : ∀ start : State Unit, Reachable code start (alone (before ++ after)) →
      Reachable code start (alone after) from prefixed _ (.refl _ _)
  intro start
  induction before with
  | nil => exact id
  | cons command rest ih =>
      intro reachable
      obtain ⟨count, followed⟩ := exists_follow_command command (rest ++ after)
      exact ih (reachable.follow followed)

/-- The purple command frees `lock` under the red command, and both output to the red channel. -/
theorem pair_overlaps (afterRed afterPurple : List Command) : ∃ small,
    Reachable code (pair afterRed afterPurple) small ∧ (small.status true).place.inRed = true ∧
      (small.status false).place.inRed = true :=
  ⟨_, (Reachable.refl _ _).follow (show follow code (pair afterRed afterPurple) (turns 2 true ++
    turns 4 false) = some _
    from rfl), rfl, rfl⟩

section
variable {T : Type} [DecidableEq T] [Fintype T] {program : T → List Command}

/-- While nobody holds a mutex, a thread can complete any prefix of its commands and change no other thread. -/
theorem exists_advance {config : State T} {t : T} {before after : List Command}
    (reachable : Reachable code (start program) config) (free : ∀ which, config.owner which = none)
    (here : config.status t = .ready (.call (before ++ after))) :
    ∃ next, Reachable code (start program) next ∧ (∀ which, next.owner which = none) ∧
      next.status t = .ready (.call after) ∧ ∀ other, other ≠ t → next.status other = config.status other := by
  obtain ⟨history, reached⟩ := reachable
  have frames : Frames (fun _ : Unit => t) config.status (alone (before ++ after)) config :=
    frames_alone free here fun other _ => by rw [ready_place reached other]; rfl
  obtain ⟨inner, run⟩ := reachable_alone before after
  obtain ⟨later, next, reached, frames⟩ := frames.run (fun _ _ _ => rfl) (fun _ _ _ _ _ => trivial) reached run
  refine ⟨next, ⟨later, reached⟩, fun which => ?_, frames.status (), fun other different => ?_⟩
  · rw [frames.owner]
    rfl
  · exact frames.others other fun _ same => different same.symm

/-- A thread with a red command and another one with a purple command can output to the red channel together. -/
theorem exists_overlap {s t : T} (red : .red ∈ program s) (purple : .purple ∈ program t) (different : s ≠ t) :
    ∃ config, Reachable code (start program) config ∧ (config.status s).place.inRed = true ∧
      (config.status t).place.inRed = true := by
  obtain ⟨beforeRed, afterRed, redProgram⟩ := List.append_of_mem red
  obtain ⟨beforePurple, afterPurple, purpleProgram⟩ := List.append_of_mem purple
  obtain ⟨middle, reachable, free, here, others⟩ :=
    exists_advance (Reachable.refl code (start program)) (fun _ => rfl)
    (show (start program).status t = .ready (.call (beforePurple ++ .purple :: afterPurple)) by
      rw [← purpleProgram]
      rfl)
  obtain ⟨config, reachable, free, there, others'⟩ := exists_advance reachable free
    (show middle.status s = .ready (.call (beforeRed ++ .red :: afterRed)) by
      rw [others s different, ← redProgram]
      rfl)
  obtain ⟨history, reached⟩ := reachable
  have embedding : Function.Injective fun first : Bool => if first then s else t := by
    intro first second same
    cases first <;> cases second <;> first | rfl | simp_all
  have frames : Frames (fun first : Bool => if first then s else t) config.status
      (pair afterRed afterPurple) config := by
    refine ⟨rfl, free, fun first => ?_, fun _ _ => rfl, fun other _ => ?_⟩
    · cases first with
      | true => exact there
      | false =>
          show config.status t = _
          rw [others' t (Ne.symm different), here]
          rfl
    · rw [ready_place reached other]
      rfl
  obtain ⟨small, ⟨inner, run⟩, first, second⟩ := pair_overlaps afterRed afterPurple
  obtain ⟨later, next, reached, frames⟩ := frames.run embedding (fun _ _ _ _ _ => trivial) reached run
  refine ⟨next, ⟨later, reached⟩, ?_, ?_⟩
  · have status := frames.status true
    rw [← status] at first
    exact first
  · have status := frames.status false
    rw [← status] at second
    exact second

end

/-- The rule about the channels holds in every reachable configuration exactly when no thread has a red command
while another thread has a purple command. -/
theorem channelRule_iff {T : Type} [DecidableEq T] [Fintype T] (program : T → List Command) :
    (∀ config, Reachable code (start program) config → ChannelRule config) ↔
      ∀ s t, .red ∈ program s → .purple ∈ program t → s = t := by
  constructor
  · intro rule s t red purple
    by_contra different
    obtain ⟨config, reachable, first, second⟩ := exists_overlap red purple different
    exact different ((rule config reachable).red s t first second)
  · rintro disjoint config ⟨history, reached⟩
    exact channelRule disjoint reached

/-- In the program of `main`, the first thread and the third thread output to the red channel together. -/
theorem main_overlaps : ∃ config, Reachable code (start main) config ∧ (config.status 0).place.inRed = true ∧
    (config.status 2).place.inRed = true ∧ ¬ ChannelRule config := by
  obtain ⟨config, reachable, holds⟩ := exists_reachable code (start main) (turns 4 2 ++ turns 2 0 ++ turns 4 2)
    (fun config => (config.status 0).place.inRed && (config.status 2).place.inRed) (by decide)
  rw [Bool.and_eq_true] at holds
  refine ⟨config, reachable, holds.1, holds.2, fun rule => ?_⟩
  have same := rule.red 0 2 holds.1 holds.2
  cases same

end OSLabs.RedBluePurple
