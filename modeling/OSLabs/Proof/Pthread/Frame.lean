import OSLabs.Proof.Pthread.Run

namespace OSLabs.Pthread

/-- The same choice of the scheduler for the threads of a larger system. -/
def Move.map {R T : Type} (embed : R → T) : Move R → Move T
  | .run thread => .run (embed thread)
  | .signal thread target => .signal (embed thread) (embed target)
  | .spurious thread => .spurious (embed thread)

@[simp] theorem Move.map_thread {R T : Type} (embed : R → T) (move : Move R) :
    (move.map embed).thread = embed move.thread := by
  cases move <;> rfl

/-- A small system inside a larger one: the threads outside it keep their statuses and are not blocked. -/
structure Frames {R T S L M C : Type} (embed : R → T) (rest : T → Status L M C) (small : Config R S L M C)
    (config : Config T S L M C) : Prop where
  memory : config.memory = small.memory
  owner : ∀ mutex, config.owner mutex = (small.owner mutex).map embed
  status : ∀ thread, config.status (embed thread) = small.status thread
  others : ∀ thread, (∀ inner, embed inner ≠ thread) → config.status thread = rest thread
  calm : ∀ thread, (∀ inner, embed inner ≠ thread) → (rest thread).isBlocked = false

/-- A configuration of running threads in which every mutex is free is known by its memory and the places. -/
theorem Config.eq_initial {T S L M C : Type} {config : Config T S L M C} {memory : S} {first : T → L}
    (stored : config.memory = memory) (free : ∀ mutex, config.owner mutex = none)
    (here : ∀ thread, config.status thread = .ready (first thread)) : config = Config.initial memory first := by
  obtain ⟨before, owner, status⟩ := config
  have owners : owner = fun _ => none := funext free
  have statuses : status = fun thread => .ready (first thread) := funext here
  have memories : before = memory := stored
  rw [owners, statuses, memories]
  rfl

/-- A thread that runs while every mutex is free and nobody else is blocked is a small system of its own. -/
theorem frames_alone {T S L M C : Type} {config : Config T S L M C} {thread : T} {place : L}
    (free : ∀ mutex, config.owner mutex = none) (here : config.status thread = .ready place)
    (calm : ∀ other, other ≠ thread → (config.status other).isBlocked = false) :
    Frames (fun _ : Unit => thread) config.status (Config.initial config.memory fun _ => place) config where
  memory := rfl
  owner := free
  status _ := here
  others _ _ := rfl
  calm other outside := calm other (Ne.symm (outside ()))

/-- A wakeup does not change a thread that is not blocked. -/
theorem Status.wake_of_not_blocked {L M C : Type} [DecidableEq C] {status : Status L M C} (cond : C)
    (calm : status.isBlocked = false) : status.wake cond = status := by
  cases status with
  | ready place | woken mutex place => rfl
  | blocked here mutex place => cases calm

/-- A thread that is not blocked is not blocked on a condition variable. -/
theorem Status.blockedOn_of_not_blocked {L M C : Type} [DecidableEq C] {status : Status L M C} (cond : C)
    (calm : status.isBlocked = false) : status.blockedOn cond = false := by
  cases status with
  | ready place | woken mutex place => rfl
  | blocked here mutex place => cases calm

section
variable {R T S L M C : Type}
  {embed : R → T} {rest : T → Status L M C} {small : Config R S L M C} {config : Config T S L M C}

namespace Frames

theorem setMemory (frames : Frames embed rest small config) (memory : S) :
    Frames embed rest (small.setMemory memory) (config.setMemory memory) :=
  ⟨rfl, frames.owner, frames.status, frames.others, frames.calm⟩

theorem setOwner [DecidableEq M] (frames : Frames embed rest small config) (mutex : M) (owner : Option R) :
    Frames embed rest (small.setOwner mutex owner) (config.setOwner mutex (owner.map embed)) := by
  refine ⟨frames.memory, fun other => ?_, frames.status, frames.others, frames.calm⟩
  by_cases same : other = mutex
  · subst same
    simp
  · simpa [Function.update_of_ne same] using frames.owner other

theorem setStatus [DecidableEq R] [DecidableEq T] (injective : Function.Injective embed)
    (frames : Frames embed rest small config) (thread : R) (status : Status L M C) :
    Frames embed rest (small.setStatus thread status) (config.setStatus (embed thread) status) := by
  refine ⟨frames.memory, frames.owner, fun other => ?_, fun other outside => ?_, frames.calm⟩
  · by_cases same : other = thread
    · subst same
      simp
    · simpa [Function.update_of_ne same, Function.update_of_ne (injective.ne same)] using frames.status other
  · simpa [Function.update_of_ne (Ne.symm (outside thread))] using frames.others other outside

theorem wakeAll [DecidableEq C] (frames : Frames embed rest small config) (cond : C) :
    Frames embed rest (small.wakeAll cond) (config.wakeAll cond) := by
  refine ⟨frames.memory, frames.owner, fun thread => ?_, fun thread outside => ?_, frames.calm⟩
  · rw [Config.wakeAll_status, Config.wakeAll_status, frames.status]
  · rw [Config.wakeAll_status, frames.others thread outside,
      Status.wake_of_not_blocked cond (frames.calm thread outside)]

/-- A mutex that is free in the small system is free. -/
theorem free (frames : Frames embed rest small config) {mutex : M} (free : small.owner mutex = none) :
    config.owner mutex = none := by
  rw [frames.owner, free, Option.map_none]

/-- A condition variable without blocked threads in the small system has none. -/
theorem idle [DecidableEq C] (frames : Frames embed rest small config) {cond : C}
    (idle : ∀ target, (small.status target).blockedOn cond = false) (target : T) :
    (config.status target).blockedOn cond = false := by
  by_cases inside : ∃ inner, embed inner = target
  · obtain ⟨inner, rfl⟩ := inside
    rw [frames.status]
    exact idle inner
  · have outside : ∀ inner, embed inner ≠ target := fun inner same => inside ⟨inner, same⟩
    rw [frames.others target outside]
    exact Status.blockedOn_of_not_blocked cond (frames.calm target outside)

/-- The larger system has at least as many threads that pass a test. -/
theorem number_le [Fintype R] [Fintype T] (injective : Function.Injective embed)
    (frames : Frames embed rest small config) (test : L → Bool) :
    small.number (fun _ => test) ≤ config.number fun _ => test := by
  refine Finset.card_le_card_of_injOn embed (fun thread passes => ?_) injective.injOn
  simp only [Finset.coe_filter, Finset.mem_univ, true_and, Set.mem_ofPred_eq] at passes ⊢
  rwa [frames.status]

/-- A stalled small system in which the other threads are finished is stalled. -/
theorem stalled {code : T → L → Instr S L M C} (frames : Frames embed rest small config)
    (stalled : Stalled (fun thread => code (embed thread)) small)
    (finished : ∀ thread, (∀ inner, embed inner ≠ thread) → Finished code config thread) :
    Stalled code config := by
  have same : ∀ inner, Finished code config (embed inner) ↔
      Finished (fun thread => code (embed thread)) small inner := by
    intro inner
    rw [Finished, Finished, frames.status]
  obtain ⟨⟨inner, unfinished⟩, blocked⟩ := stalled
  refine ⟨⟨embed inner, fun done => unfinished ((same inner).mp done)⟩, fun thread running => ?_⟩
  by_cases inside : ∃ inner, embed inner = thread
  · obtain ⟨inner, rfl⟩ := inside
    rw [frames.status]
    exact blocked inner fun done => running ((same inner).mpr done)
  · exact absurd (finished thread fun inner same => inside ⟨inner, same⟩) running

end Frames

variable [DecidableEq R] [Fintype R] [DecidableEq T] [Fintype T] [DecidableEq M] [DecidableEq C]
  {code : T → L → Instr S L M C}

/-- An instruction of the small system has the same effect in the larger one. -/
theorem Frames.perform (injective : Function.Injective embed) (frames : Frames embed rest small config)
    {thread : R}
    {instr : Instr S L M C} {next : Config R S L M C} (done : Pthread.perform small thread instr = some next) :
    ∃ after, Pthread.perform config (embed thread) instr = some after ∧ Frames embed rest next after := by
  cases instr with
  | access update =>
      cases done
      refine ⟨_, rfl, ?_⟩
      rw [frames.memory]
      exact (frames.setMemory _).setStatus injective thread _
  | lock mutex place =>
      simp only [Pthread.perform] at done
      split at done
      · next free =>
          cases done
          refine ⟨_, by simp only [Pthread.perform, frames.free free]; rfl, ?_⟩
          exact (frames.setOwner mutex (some thread)).setStatus injective thread _
      · cases done
  | unlock mutex place | wait cond mutex place =>
      cases done
      exact ⟨_, rfl, (frames.setOwner mutex none).setStatus injective thread _⟩
  | signal cond place =>
      simp only [Pthread.perform] at done
      split at done
      · next idle =>
          cases done
          exact ⟨_, if_pos (frames.idle idle), frames.setStatus injective thread _⟩
      · cases done
  | broadcast cond place =>
      cases done
      exact ⟨_, rfl, (frames.wakeAll cond).setStatus injective thread _⟩
  | exit => cases done

/-- A move of the small system is a move of the larger one. -/
theorem Frames.fire (injective : Function.Injective embed) (frames : Frames embed rest small config)
    {move : Move R}
    {next : Config R S L M C} (fired : Pthread.fire (fun thread => code (embed thread)) small move = some next) :
    ∃ after, Pthread.fire code config (move.map embed) = some after ∧ Frames embed rest next after := by
  cases move with
  | run thread =>
      simp only [Move.map, Pthread.fire] at fired ⊢
      rw [frames.status]
      cases here : small.status thread with
      | ready place =>
          rw [here] at fired
          exact frames.perform injective fired
      | woken mutex place =>
          rw [here] at fired
          exact frames.perform injective fired
      | blocked cond mutex place =>
          rw [here] at fired
          cases fired
  | signal thread target =>
      simp only [Move.map, Pthread.fire] at fired ⊢
      rw [frames.status]
      cases here : small.status thread with
      | ready place =>
          simp only [here] at fired
          cases instr : code (embed thread) place with
          | signal cond place' =>
              simp only [instr] at fired
              split at fired
              · next blocked =>
                  cases fired
                  refine ⟨_, by simp only [instr, frames.status, blocked, ↓reduceIte]; rfl, ?_⟩
                  exact (frames.setStatus injective thread _).setStatus injective target _
              · cases fired
          | _ => simp [instr] at fired
      | woken mutex place | blocked cond mutex place => simp [here] at fired
  | spurious thread =>
      simp only [Move.map, Pthread.fire] at fired ⊢
      rw [frames.status]
      cases here : small.status thread with
      | blocked cond mutex place =>
          simp only [here] at fired
          cases fired
          exact ⟨_, rfl, frames.setStatus injective thread _⟩
      | ready place | woken mutex place => simp [here] at fired

/-- A run of the small system continues a run of the larger one, and their histories correspond. -/
theorem Frames.run_history (injective : Function.Injective embed) {first last : Config R S L M C}
    {conditions : Config R S L M C → R → Prop} {condition : Config T S L M C → T → Prop}
    (lifts : ∀ small config thread, Frames embed rest small config → conditions small thread →
      condition config (embed thread))
    {start : Config T S L M C} {earlier : History T S L M C}
    (reached : Run code start (fun _ => condition) earlier config) (frames : Frames embed rest first config)
    {history : History R S L M C}
    (inner : Run (fun thread => code (embed thread)) first (fun _ => conditions) history last) :
    ∃ later after, Run code start (fun _ => condition) (later ++ earlier) after ∧ Frames embed rest last after ∧
      List.Forall₂ (fun inner outer => embed inner.2 = outer.2 ∧ Frames embed rest inner.1 outer.1)
        history later := by
  induction inner with
  | start => exact ⟨[], config, reached, frames, .nil⟩
  | @step history small next move before permitted fired ih =>
      obtain ⟨later, after, reached, frames, entries⟩ := ih
      obtain ⟨final, stepped, framed⟩ := frames.fire injective fired
      have permitted : condition after (move.map embed).thread := by
        rw [Move.map_thread]
        exact lifts small after move.thread frames permitted
      exact ⟨_ :: later, final, .step (move.map embed) reached permitted stepped, framed,
        .cons ⟨(Move.map_thread embed move).symm, frames⟩ entries⟩

/-- A run of the small system continues a run of the larger one. -/
theorem Frames.run (injective : Function.Injective embed) {first last : Config R S L M C}
    {conditions : Config R S L M C → R → Prop} {condition : Config T S L M C → T → Prop}
    (lifts : ∀ small config thread, Frames embed rest small config → conditions small thread →
      condition config (embed thread))
    {start : Config T S L M C} {earlier : History T S L M C}
    (reached : Run code start (fun _ => condition) earlier config) (frames : Frames embed rest first config)
    {history : History R S L M C}
    (inner : Run (fun thread => code (embed thread)) first (fun _ => conditions) history last) :
    ∃ later after, Run code start (fun _ => condition) later after ∧ Frames embed rest last after := by
  obtain ⟨later, after, run, framed, _⟩ := frames.run_history injective lifts reached inner
  exact ⟨_, after, run, framed⟩

end

/-- While every thread runs and every mutex is free, one thread can go on as it does alone. -/
theorem Reachable.solo {T S L M C : Type} [DecidableEq T] [Fintype T] [DecidableEq M] [DecidableEq C]
    {code : T → L → Instr S L M C} {start : Config T S L M C} {memory after : S} {first : T → L} {thread : T}
    {next : L}
    (reached : Reachable code start (Config.initial memory first))
    (alone : Reachable (fun _ : Unit => code thread) (Config.initial memory fun _ => first thread)
      (Config.initial after fun _ => next)) :
    Reachable code start (Config.initial after (Function.update first thread next)) := by
  obtain ⟨history, reached⟩ := reached
  obtain ⟨inner, run⟩ := alone
  have frames : Frames (fun _ : Unit => thread) (Config.initial memory first : Config T S L M C).status
      (Config.initial memory fun _ => first thread) (Config.initial memory first) :=
    frames_alone (fun _ => rfl) rfl fun other _ => rfl
  obtain ⟨later, config, reached, framed⟩ := frames.run (fun _ _ _ => rfl) (fun _ _ _ _ _ => trivial) reached run
  have ends : config = Config.initial after (Function.update first thread next) := by
    refine Config.eq_initial framed.memory (fun mutex => framed.free rfl) fun other => ?_
    by_cases hit : other = thread
    · subst hit
      rw [framed.status (), Function.update_self]
      rfl
    · rw [framed.others other fun _ => Ne.symm hit, Function.update_of_ne hit]
      rfl
  exact ⟨later, ends ▸ reached⟩

/-- Threads that run the same code to its end, one after the other. -/
theorem exists_run_solos {T S L M C : Type} [DecidableEq T] [Fintype T] [DecidableEq M] [DecidableEq C]
    {alone : L → Instr S L M C} (memories : Nat → S) {first last : L} {condition : Config T S L M C → T → Prop}
    (solo : ∀ count, Reachable (fun _ : Unit => alone) (Config.initial (memories count) fun _ => first)
      (Config.initial (memories (count + 1)) fun _ => last))
    (permits : ∀ config thread, (∀ other, other ≠ thread →
      config.status other = .ready first ∨ config.status other = .ready last) → condition config thread)
    (finished : Finset T) :
    ∃ history, Run (fun _ => alone) (Config.initial (memories 0) fun _ => first) (fun _ => condition) history
      (Config.initial (memories finished.card) fun thread => if thread ∈ finished then last else first) := by
  induction finished using Finset.induction_on with
  | empty => exact ⟨[], by simpa using Run.start⟩
  | @insert thread finished fresh ih =>
      obtain ⟨earlier, reached⟩ := ih
      obtain ⟨inner, run⟩ := solo finished.card
      have here : (Config.initial (memories finished.card) fun thread =>
        if thread ∈ finished then last else first :
          Config T S L M C).status thread = .ready first := by simp [fresh]
      have frames := frames_alone (fun _ => rfl) here fun other _ => rfl
      have calm : ∀ small config (inner : Unit), Frames (fun _ : Unit => thread)
          (fun thread => .ready (if thread ∈ finished then last else first)) small config → True →
          condition config thread := by
        intro small config inner framed _
        refine permits config thread fun other different => ?_
        rw [framed.others other fun _ => different.symm]
        by_cases done : other ∈ finished <;> simp [done]
      obtain ⟨later, config, reached, framed⟩ := frames.run (fun _ _ _ => rfl) calm reached run
      have ends : config = Config.initial (memories (insert thread finished).card)
          fun other => if other ∈ insert thread finished then last else first := by
        refine Config.eq_initial (by rw [framed.memory, Finset.card_insert_of_notMem fresh]; rfl)
          (fun mutex => framed.free rfl) fun other => ?_
        by_cases hit : other = thread
        · subst hit
          rw [framed.status ()]
          simp
        · rw [framed.others other fun _ => Ne.symm hit]
          simp [hit]
      exact ⟨later, ends ▸ reached⟩

/-- Some threads of a system can stall as they do alone, after the other threads have run to their ends. -/
theorem exists_stalled_of_small {R T S L M C : Type} [DecidableEq R] [Fintype R] [DecidableEq T] [Fintype T]
    [DecidableEq M] [DecidableEq C] (alone : L → Instr S L M C) (embed : R ↪ T) (memories : Nat → S)
    {first last : L}
    (exits : (alone last).isExit = true)
    {conditions : Config R S L M C → R → Prop} {condition : Config T S L M C → T → Prop}
    (solo : ∀ count, Reachable (fun _ : Unit => alone) (Config.initial (memories count) fun _ => first)
      (Config.initial (memories (count + 1)) fun _ => last))
    (permits : ∀ config thread, (∀ other, other ≠ thread →
      config.status other = .ready first ∨ config.status other = .ready last) → condition config thread)
    (lifts : ∀ small config thread, Frames embed (fun _ => .ready last) small config → conditions small thread →
      condition config (embed thread))
    (stalls : ∀ count, ∃ history small, Run (fun _ : R => alone) (Config.initial (memories count) fun _ => first)
      (fun _ => conditions) history small ∧ Stalled (fun _ => alone) small) :
    ∃ history config, Run (fun _ : T => alone) (Config.initial (memories 0) fun _ => first) (fun _ => condition)
      history config ∧ Stalled (fun _ => alone) config := by
  obtain ⟨others, isOther⟩ : ∃ others : Finset T, ∀ thread, thread ∈ others ↔ ∀ inner, embed inner ≠ thread :=
    ⟨Finset.univ.filter fun thread => ∀ inner, embed inner ≠ thread, fun thread => by simp⟩
  obtain ⟨earlier, before⟩ := exists_run_solos memories solo permits others
  obtain ⟨inner, small, run, stalled⟩ := stalls others.card
  have frames : Frames embed (fun _ => .ready last) (Config.initial (memories others.card) fun _ => first)
      (Config.initial (memories others.card) fun thread => if thread ∈ others then last else first :
        Config T S L M C) := by
    refine ⟨rfl, fun _ => rfl, fun thread => ?_, fun thread outside => ?_, fun _ _ => rfl⟩
    · have inside : embed thread ∉ others := fun outside => (isOther _).mp outside thread rfl
      simp [inside]
    · simp [(isOther thread).mpr outside]
  obtain ⟨history, config, reached, framed⟩ := frames.run embed.injective lifts before run
  refine ⟨history, config, reached, framed.stalled stalled fun thread outside => ?_⟩
  rw [Finished, framed.others thread outside]
  exact exits

end OSLabs.Pthread
