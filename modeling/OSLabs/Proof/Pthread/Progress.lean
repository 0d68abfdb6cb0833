import OSLabs.Proof.Pthread.Mutex

namespace OSLabs.Pthread

/-- A thread in a wait holds no mutex when no place holds two mutexes. -/
theorem Owned.ready_of_holds {T S L M C : Type} [DecidableEq M] {config : Config T S L M C}
    {held : T → L → M → Bool} (owned : Owned held config)
    (single : ∀ thread place first second, held thread place first = true →
      held thread place second = true → first = second)
    {thread : T} {mutex : M} (holds : (config.status thread).holds (held thread) mutex = true) :
    ∃ place, config.status thread = .ready place ∧ held thread place mutex = true := by
  have relocks := owned.relocks thread
  cases status : config.status thread with
  | ready place => exact ⟨place, rfl, by simpa [status, Status.holds] using holds⟩
  | blocked cond released place | woken released place =>
      simp only [status, Status.Relocks, Status.holds] at relocks holds
      by_cases same : mutex = released
      · simp [same] at holds
      · rw [Function.update_of_ne same] at holds
        exact absurd (single thread place mutex released holds relocks) same

section
variable {T S L M C : Type} [DecidableEq T] [Fintype T] [DecidableEq M] [DecidableEq C]
  {code : T → L → Instr S L M C} {config : Config T S L M C}

/-- A thread at an instruction that needs no mutex can move. -/
theorem exists_fire_of_isFree {thread : T} {place : L} (here : config.status thread = .ready place)
    (free : (code thread place).isFree = true) :
    ∃ move next, fire code config move = some next ∧ ∀ other, move ≠ .spurious other := by
  cases instr : code thread place with
  | signal cond next =>
      by_cases idle : ∀ target, (config.status target).blockedOn cond = false
      · refine ⟨.run thread, config.setStatus thread (.ready next), ?_, by simp⟩
        simp only [fire, here, instr, perform, idle, implies_true, ↓reduceIte]
      · push Not at idle
        obtain ⟨target, waits⟩ := idle
        obtain ⟨mutex, there, blocked⟩ := (Status.blockedOn_iff _ _).mp (by simpa using waits)
        refine ⟨.signal thread target,
          (config.setStatus thread (.ready next)).setStatus target (.woken mutex there), ?_, by simp⟩
        simp [fire, here, instr, blocked, Status.blockedOn]
  | access update | unlock mutex next | wait cond mutex next | broadcast cond next =>
      exact ⟨.run thread, _, by simp only [fire, here, instr, perform]; rfl, by simp⟩
  | lock mutex next => simp [instr, Instr.isFree] at free
  | exit => simp [instr, Instr.isFree] at free

/-- A configuration that is not stalled is not stuck when each holder of a mutex can move. -/
theorem Owned.not_stuck {held : T → L → M → Bool} (owned : Owned held config)
    (single : ∀ thread place first second, held thread place first = true →
      held thread place second = true → first = second)
    (released : ∀ thread place mutex, config.status thread = .ready place →
      held thread place mutex = true → (code thread place).isFree = true)
    (alive : ¬ Stalled code config) : ¬ Stuck code config := by
  rintro ⟨unfinished, idle⟩
  have immobile : ∀ move next, fire code config move = some next → (∀ other, move ≠ .spurious other) → False := by
    intro move next fired genuine
    obtain ⟨other, spurious⟩ := idle move next fired
    exact genuine other spurious
  have noFree : ∀ thread place, config.status thread = .ready place → (code thread place).isFree ≠ true := by
    intro thread place here free
    obtain ⟨move, next, fired, genuine⟩ := exists_fire_of_isFree here free
    exact immobile move next fired genuine
  have unowned : ∀ mutex, config.owner mutex = none := by
    intro mutex
    cases owner : config.owner mutex with
    | none => rfl
    | some holder =>
        obtain ⟨place, here, holds⟩ := owned.ready_of_holds single ((owned.owner mutex holder).mp owner)
        exact absurd (released holder place mutex here holds) (noFree holder place here)
  refine alive ⟨unfinished, fun thread running => ?_⟩
  cases status : config.status thread with
  | blocked cond mutex place => rfl
  | woken mutex place =>
      exfalso
      refine immobile (.run thread) ((config.setOwner mutex (some thread)).setStatus thread (.ready place)) ?_
        (by simp)
      simp only [fire, status, perform, unowned]
  | ready place =>
      exfalso
      cases instr : code thread place with
      | lock mutex next =>
          refine immobile (.run thread) ((config.setOwner mutex (some thread)).setStatus thread (.ready next)) ?_
            (by simp)
          simp only [fire, status, instr, perform, unowned]
      | exit => exact running (by simp [Finished, status, instr, Instr.isExit])
      | _ => exact noFree thread place status (by simp [instr, Instr.isFree])

end

end OSLabs.Pthread
