import OSLabs.Proof.Pthread.Placed

namespace OSLabs.Pthread

/-- The status of a thread after its instruction. -/
def Instr.resume {S L M C : Type} (next : L) : Instr S L M C → Status L M C
  | .wait cond mutex _ => .blocked cond mutex next
  | _ => .ready next

/-- While a thread awaits, a fact about the places and the memory holds or some thread is alert. -/
def Attended {T S L M C : Type} (awaits alert : T → Status L M C → Bool) (fact : (T → L) → S → Prop)
    (config : Config T S L M C) : Prop :=
  ∀ waiter, awaits waiter (config.status waiter) = true →
    fact config.places config.memory ∨ ∃ thread, alert thread (config.status thread) = true

/-- The waiters are still attended when one thread has this status and the memory this value. -/
def Attends {T S L M C : Type} [DecidableEq T] (awaits alert : T → Status L M C → Bool) (fact : (T → L) → S → Prop)
    (config : Config T S L M C) (thread : T) (memory : S) (status : Status L M C) : Prop :=
  (∃ waiter, waiter ≠ thread ∧ awaits waiter (config.status waiter) = true) ∨ awaits thread status = true →
    fact (Function.update config.places thread status.place) memory ∨ alert thread status = true ∨
      ∃ other, other ≠ thread ∧ alert other (config.status other) = true

/-- A signal or broadcast of the thread leaves no other thread blocked that awaits. -/
def Unblocked {T S L M C : Type} [DecidableEq C] (awaits : T → Status L M C → Bool) (config : Config T S L M C)
    (thread : T) (instr : Instr S L M C) (next : L) : Prop :=
  ∀ cond, instr = .signal cond next ∨ instr = .broadcast cond next →
    ∀ waiter, waiter ≠ thread → awaits waiter (config.status waiter) = true →
      (config.status waiter).blockedOn cond = false

section
variable {T S L M C : Type} {awaits alert : T → Status L M C → Bool} {fact : (T → L) → S → Prop}
  {config : Config T S L M C} {thread : T} {memory : S} {status : Status L M C}

/-- An alert thread keeps the waiters attended. -/
theorem attended_of_alert (thread : T) (alarm : alert thread (config.status thread) = true) :
    Attended awaits alert fact config :=
  fun _ _ => .inr ⟨thread, alarm⟩

variable [DecidableEq T]

/-- An alert thread attends the waiters. -/
theorem attends_of_alert (alarm : alert thread status = true) :
    Attends awaits alert fact config thread memory status :=
  fun _ => .inr (.inl alarm)

/-- The fact attends the waiters. -/
theorem attends_of_fact (holds : fact (Function.update config.places thread status.place) memory) :
    Attends awaits alert fact config thread memory status :=
  fun _ => .inl holds

/-- A step that begins no wait, stops no alarm and keeps the fact attends the waiters as before. -/
theorem Attended.keep (attended : Attended awaits alert fact config)
    (entered : awaits thread status = true → awaits thread (config.status thread) = true)
    (kept : alert thread (config.status thread) = true → alert thread status = true)
    (same : fact config.places config.memory → fact (Function.update config.places thread status.place) memory) :
    Attends awaits alert fact config thread memory status := by
  intro waiting
  have before : ∃ waiter, awaits waiter (config.status waiter) = true := by
    rcases waiting with ⟨waiter, _, waits⟩ | mine
    · exact ⟨waiter, waits⟩
    · exact ⟨thread, entered mine⟩
  obtain ⟨waiter, waits⟩ := before
  rcases attended waiter waits with holds | ⟨other, alarm⟩
  · exact .inl (same holds)
  · by_cases hit : other = thread
    · exact .inr (.inl (kept (hit ▸ alarm)))
    · exact .inr (.inr ⟨other, hit, alarm⟩)

/-- This is `Attended.keep` for a running thread that is not alert. -/
theorem Attended.keep_ready {place : L} (attended : Attended awaits alert fact config)
    (here : config.status thread = .ready place) (same : awaits thread status = awaits thread (.ready place))
    (quiet : alert thread (.ready place) = false)
    (kept : fact config.places config.memory → fact (Function.update config.places thread status.place) memory) :
    Attends awaits alert fact config thread memory status := by
  refine attended.keep (fun waits => ?_) (fun alarm => ?_) kept
  · rw [here, ← same]
    exact waits
  · rw [here, quiet] at alarm
    cases alarm

/-- When no thread awaits after a step, the waiters are attended. -/
theorem attends_of_none (others : ∀ waiter, waiter ≠ thread → awaits waiter (config.status waiter) = false)
    (mine : awaits thread status = false) : Attends awaits alert fact config thread memory status := by
  rintro (⟨waiter, different, waits⟩ | waits)
  · rw [others waiter different] at waits
    cases waits
  · rw [mine] at waits
    cases waits

/-- A move to an attended status keeps the waiters attended. -/
theorem Attends.attended (attends : Attends awaits alert fact config thread memory status) :
    Attended awaits alert fact ((config.setMemory memory).setStatus thread status) := by
  intro waiter waits
  have waiting : (∃ waiter, waiter ≠ thread ∧ awaits waiter (config.status waiter) = true) ∨
      awaits thread status = true := by
    by_cases hit : waiter = thread
    · subst hit
      exact .inr (by simpa using waits)
    · exact .inl ⟨waiter, hit, by simpa [Function.update_of_ne hit] using waits⟩
  rcases attends waiting with holds | alarm | ⟨other, different, alarm⟩
  · exact .inl (by simpa using holds)
  · exact .inr ⟨thread, by simpa using alarm⟩
  · exact .inr ⟨other, by simpa [Function.update_of_ne different] using alarm⟩

/-- A thread that stays at its place, awaits nothing and stays alert keeps the waiters attended. -/
theorem Attended.setStatus (attended : Attended awaits alert fact config)
    (stays : (config.status thread).place = status.place) (calm : awaits thread status = false)
    (kept : alert thread (config.status thread) = true → alert thread status = true) :
    Attended awaits alert fact (config.setStatus thread status) := by
  have attends : Attends awaits alert fact config thread config.memory status := by
    refine attended.keep (fun waits => ?_) kept fun holds => ?_
    · rw [calm] at waits
      cases waits
    · rwa [Config.update_places stays]
  exact attends.attended

/-- A broadcast keeps the waiters attended when blocked threads are not alert and woken threads do not await. -/
theorem Attends.wakeAll [DecidableEq C] {cond : C}
    (quiet : ∀ thread cond mutex place, alert thread (.blocked cond mutex place) = false)
    (awake : ∀ thread mutex place, awaits thread (.woken mutex place) = false)
    (attends : Attends awaits alert fact config thread config.memory status) :
    Attended awaits alert fact ((config.wakeAll cond).setStatus thread status) := by
  have calmed : Attends awaits alert fact (config.wakeAll cond) thread config.memory status := by
    intro waiting
    have before : (∃ waiter, waiter ≠ thread ∧ awaits waiter (config.status waiter) = true) ∨
        awaits thread status = true := by
      rcases waiting with ⟨waiter, different, waits⟩ | mine
      · refine .inl ⟨waiter, different, ?_⟩
        rw [Config.wakeAll_status] at waits
        cases here : config.status waiter with
        | blocked there mutex place =>
            simp only [here, Status.wake] at waits
            split at waits
            · rw [awake] at waits
              cases waits
            · exact waits
        | ready place | woken mutex place => simpa [here] using waits
      · exact .inr mine
    rcases attends before with holds | alarm | ⟨other, different, alarm⟩
    · exact .inl (by simpa using holds)
    · exact .inr (.inl alarm)
    · refine .inr (.inr ⟨other, different, ?_⟩)
      rw [Config.wakeAll_status]
      cases here : config.status other with
      | blocked there mutex place =>
          rw [here, quiet] at alarm
          cases alarm
      | ready place | woken mutex place => simpa [here] using alarm
  exact calmed.attended

end

/-- The waiters are attended in every run when each wakeup makes its thread alert and when each instruction
attends the waiters that it does not wake. -/
theorem Run.attended {T S L M C : Type} [DecidableEq T] [Fintype T] [DecidableEq M] [DecidableEq C]
    {code : T → L → Instr S L M C} {start : Config T S L M C}
    {allowed : History T S L M C → Config T S L M C → T → Prop}
    (awaits alert : T → Status L M C → Bool) (fact : (T → L) → S → Prop)
    (initial : ∀ thread, awaits thread (start.status thread) = false)
    (rouses : ∀ history config thread cond mutex place, Run code start allowed history config →
      config.status thread = .blocked cond mutex place → awaits thread (.blocked cond mutex place) = true →
      alert thread (.woken mutex place) = true)
    (quiet : ∀ thread cond mutex place, alert thread (.blocked cond mutex place) = false)
    (resumes : ∀ thread mutex place, alert thread (.woken mutex place) = true → alert thread (.ready place) = true)
    (shared : ∀ thread other cond mutex place mutex' place', awaits thread (.blocked cond mutex place) = true →
      awaits other (.blocked cond mutex' place') = true)
    (awake : ∀ thread mutex place, awaits thread (.woken mutex place) = false)
    (retests : ∀ history config thread mutex place, Run code start allowed history config →
      config.status thread = .woken mutex place → awaits thread (.ready place) = false)
    (run : ∀ history config thread place after next, Run code start allowed history config →
      Attended awaits alert fact config → allowed history config thread → config.status thread = .ready place →
      (code thread place).effect config.memory = some (after, next) →
      Unblocked awaits config thread (code thread place) next →
      Attends awaits alert fact config thread after ((code thread place).resume next))
    {history : History T S L M C} {config : Config T S L M C}
    (reached : Run code start allowed history config) : Attended awaits alert fact config := by
  refine Run.invariant (Attended awaits alert fact) ?_ ?_ ?_ ?_ reached
  · intro waiter waits
    rw [initial waiter] at waits
    cases waits
  · intro history config thread place before attended permitted here
    have attends := fun after next => run history config thread place after next before attended permitted here
    cases instr : code thread place with
    | access update =>
        simp only [instr, Instr.effect, Unblocked, Option.some.injEq, reduceCtorEq, false_or, IsEmpty.forall_iff,
          implies_true, forall_const] at attends
        intro memory next effect
        exact (attends memory next effect).attended
    | lock mutex next =>
        simp only [instr, Instr.effect, Unblocked, Option.some.injEq, reduceCtorEq, false_or, IsEmpty.forall_iff,
          implies_true, forall_const] at attends
        intro free
        exact (attends config.memory next rfl).attended
    | unlock mutex next =>
        simp only [instr, Instr.effect, Unblocked, Option.some.injEq, reduceCtorEq, false_or, IsEmpty.forall_iff,
          implies_true, forall_const] at attends
        exact (attends config.memory next rfl).attended
    | wait cond mutex next =>
        simp only [instr, Instr.effect, Unblocked, Option.some.injEq, reduceCtorEq, false_or, IsEmpty.forall_iff,
          implies_true, forall_const] at attends
        exact (attends config.memory next rfl).attended
    | signal cond next =>
        simp only [instr, Instr.effect, Unblocked, Option.some.injEq, Instr.signal.injEq, reduceCtorEq,
          or_false] at attends
        refine ⟨fun idle => ?_, fun target mutex there blocked => ?_⟩
        · refine (attends config.memory next rfl fun other same waiter _ _ => ?_).attended
          rw [← same.1]
          exact idle waiter
        · have different : target ≠ thread := by
            rintro rfl
            simp [here] at blocked
          cases waits : awaits target (.blocked cond mutex there) with
          | true =>
              exact attended_of_alert target
                (by simpa using rouses _ _ target cond mutex there before blocked waits)
          | false =>
              have moved : Attended awaits alert fact (config.setStatus thread (.ready next)) := by
                refine (attends config.memory next rfl fun other same waiter _ waiting => ?_).attended
                rw [← same.1, Status.blockedOn_eq_false_iff]
                intro mutex' place' here'
                rw [here'] at waiting
                rw [shared waiter target cond mutex' place' mutex there waiting] at waits
                cases waits
              refine moved.setStatus (by simp [Function.update_of_ne different, blocked])
                (awake target mutex there)
                fun alarm => ?_
              simp [Function.update_of_ne different, blocked, quiet] at alarm
    | broadcast cond next =>
        simp only [instr, Instr.effect, Unblocked, Option.some.injEq, Instr.broadcast.injEq, reduceCtorEq,
          false_or] at attends
        by_cases found : ∃ waiter, waiter ≠ thread ∧ awaits waiter (config.status waiter) = true ∧
            (config.status waiter).blockedOn cond = true
        · obtain ⟨waiter, different, waits, blocked⟩ := found
          obtain ⟨mutex, there, here'⟩ := (Status.blockedOn_iff _ _).mp blocked
          rw [here'] at waits
          refine attended_of_alert waiter ?_
          simpa [Function.update_of_ne different, here'] using rouses _ _ waiter cond mutex
            there before here' waits
        · refine (attends config.memory next rfl fun other same waiter different waits => ?_).wakeAll quiet awake
          rw [← same.1]
          by_contra blocked
          exact found ⟨waiter, different, waits, by simpa using blocked⟩
    | exit => trivial
  · intro history config thread mutex place before attended here _
    have kept : Attended awaits alert fact (config.setOwner mutex (some thread)) := attended
    refine kept.setStatus (by simp [here]) (retests history config thread mutex place before here) fun alarm => ?_
    rw [Config.setOwner_status, here] at alarm
    exact resumes thread mutex place alarm
  · intro history config thread cond mutex place before attended here
    cases waits : awaits thread (config.status thread) with
    | true =>
        rw [here] at waits
        exact attended_of_alert thread (by simpa using rouses _ _ thread cond mutex place before here waits)
    | false =>
        refine attended.setStatus (by simp [here]) (awake thread mutex place) fun alarm => ?_
        rw [here, quiet] at alarm
        cases alarm

end OSLabs.Pthread
