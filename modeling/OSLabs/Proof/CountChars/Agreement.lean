import OSLabs.Proof.CountChars.Sum

namespace OSLabs.CountChars

open Transition Spawn

section
variable {n : Nat} {N : Type} {names : Fin n → N × N} {config next : State n N}

/-- When main is done, every thread is done. -/
theorem Standing.finished (standing : Standing names config) (done : config.place .main = some (.main .done))
    (i : Fin n) : (∃ info, config.place (.func i) = some (.func (.done info))) ∧
      config.place (.count i) = some (.count .done) := by
  obtain ⟨place, main⟩ := standing.main
  obtain rfl : place = .done := by simpa [main.here] using done
  obtain ⟨info, returned⟩ := main.joined i i.isLt
  exact ⟨⟨info, returned⟩, standing.counted i info returned⟩

variable [DecidableEq N] {files : N → List UInt8} {unset : Info N} {allowed : State n N → Thread n → Prop}

/-- The end of a run that keeps the invariants agrees with the sequential phase. -/
theorem agrees_of_done (standing : Standing names config) (logged : Logged names config)
    (summed : Separate names → Summed names (transformAll names files) config)
    (done : config.place .main = some (.main .done)) : Agrees names files config.memory := by
  have funcs (i : Fin n) : contribution Place.written (G := Multiset (N × N)) (fun i => {names i}) i
      (config.place (.func i)) = {names i} := by
    obtain ⟨info, returned⟩ := (standing.finished done i).1
    rw [returned]
    rfl
  have counts {G : Type} [Zero G] (value : Fin n → G) (i : Fin n) :
      contribution Place.counted value i (config.place (.count i)) = value i := by
    rw [(standing.finished done i).2]
    rfl
  refine ⟨?_, ?_, fun separate => ?_⟩
  · apply Multiset.coe_eq_coe.mp
    rw [logged.handed, ← sum_singleton]
    exact Finset.sum_congr rfl fun i _ => funcs i
  · apply Multiset.coe_eq_coe.mp
    rw [logged.counted, ← sum_singleton]
    exact Finset.sum_congr rfl fun i _ => counts _ i
  · rw [(summed separate).sum, seqSum_eq separate]
    exact Finset.sum_congr rfl fun i _ => counts _ i

/-- Where every reachable configuration meets the invariant of the threads, every run ends in agreement. -/
theorem agrees_of_standing
    (standing : ∀ {config}, Reachable (fire (code names)) allowed (start names files unset) config →
      Standing names config)
    (reached : Reachable (fire (code names)) allowed (start names files unset) config)
    (done : config.place .main = some (.main .done)) : Agrees names files config.memory := by
  have logged : Logged names config := by
    obtain ⟨_, run⟩ := reached
    refine run.invariant (Logged names) ⟨?_, ?_⟩ fun thread before holds _ fired =>
      holds.step (standing ⟨_, before⟩) fired
    · simp [start, contribution]
    · simp [start, contribution]
  refine agrees_of_done (standing reached) logged (fun separate => ?_) done
  obtain ⟨_, run⟩ := reached
  refine run.invariant (Summed names (transformAll names files)) ⟨?_, ?_, ?_⟩
    fun thread before holds _ fired => holds.step separate (standing ⟨_, before⟩) fired
  · exact fun _ => rfl
  · simp [start]
  · simp [start, contribution]

/-- Main has created the first threads and no thread has run. -/
structure Primed (names : Fin n → N × N) (k : Nat) (config : State n N) : Prop where
  main : config.place .main = some (.main (.createLoop k))
  created : ∀ i : Fin n, i.val < k → config.place (.func i) = some (.func .readFileName)
  absent : ∀ i : Fin n, k ≤ i.val → config.place (.func i) = none
  counts : ∀ i, config.place (.count i) = none
  last : ∀ i : Fin n, i.val + 1 = k → config.memory.information.names = names i
  handed : config.memory.handed = []

/-- Main can create one more thread at once. -/
theorem Primed.step {k : Nat} (primed : Primed names k config) (inRange : k < n) :
    ∃ next, Reachable (fire (code names)) Free config next ∧ Primed names (k + 1) next := by
  let information : Info N := ⟨(names ⟨k, inRange⟩).1, (names ⟨k, inRange⟩).2, k⟩
  let next := (((config.setMemory { config.memory with information := information }).setPlace
    .main (.main (.create k))).setPlace (.func ⟨k, inRange⟩) (.func .readFileName)).setPlace
    .main (.main (.createLoop (k + 1)))
  have driven : drive (fire (code names)) Free config [.main, .main, .main, .main, .main] = some next := by
    simp [drive, Free, fire, primed.main, code, OSLabs.CountChars.main, inRange, perform, Config.setPlace,
      Config.setMemory, next, information]
  refine ⟨next, reachable_of_drive driven, by simp [next], ?_, ?_, ?_, ?_, primed.handed⟩
  · intro i below
    by_cases same : i = ⟨k, inRange⟩
    · simp [next, same]
    · have different : i.val ≠ k := fun equal => same (Fin.ext equal)
      simpa [next, Function.update_of_ne, same] using primed.created i (by omega)
  · intro i above
    have different : i ≠ ⟨k, inRange⟩ := by
      rintro rfl
      exact absurd above (Nat.not_succ_le_self k)
    simpa [next, Function.update_of_ne, different] using primed.absent i (by omega)
  · intro i
    simpa [next] using primed.counts i
  · intro i last
    obtain rfl : i = ⟨k, inRange⟩ := Fin.ext (by simpa using last)
    rfl

/-- Main can create all threads before any of them runs. -/
theorem exists_primed (names : Fin n → N × N) (files : N → List UInt8) (unset : Info N) (k : Nat)
    (within : k ≤ n) :
    ∃ config, Reachable (fire (code names)) Free (start names files unset) config ∧ Primed names k config := by
  induction k with
  | zero =>
      refine ⟨_, .refl, by simp [start], by simp, by simp [start], by simp [start], by simp, rfl⟩
  | succ k inductionHypothesis =>
      obtain ⟨config, reached, primed⟩ := inductionHypothesis (by omega)
      obtain ⟨next, continued, holds⟩ := primed.step (by omega)
      exact ⟨next, reached.trans continued, holds⟩

/-- All threads have been created, and the first of them have done their work on the last task. -/
structure Worked (task : N × N) (k : Nat) (config : State n N) : Prop where
  main : config.place .main = some (.main (.createLoop n))
  returned : ∀ i : Fin n, i.val < k → ∃ info, config.place (.func i) = some (.func (.done info))
  waiting : ∀ i : Fin n, k ≤ i.val → config.place (.func i) = some (.func .readFileName)
  last : config.memory.information.names = task
  handed : config.memory.handed = List.replicate k task

/-- A thread can transform its file at once. -/
theorem exists_transformed (names : Fin n → N × N) {i : Fin n}
    (here : config.place (.func i) = some (.func .readFileName)) :
    ∃ next, Reachable (fire (code names)) Free config next ∧
      next.place (.func i) = some (.func (.createCount config.memory.information)) ∧
      (∀ other, other ≠ .func i → next.place other = config.place other) ∧
      next.memory.information = config.memory.information ∧
      next.memory.handed = config.memory.information.names :: config.memory.handed := by
  let info : Info N :=
    ⟨config.memory.information.fileName, config.memory.information.ofName, config.memory.information.id⟩
  let first : State n N := config.setPlace (.func i) (.func (.readOfName info.fileName))
  have readsFileName : Reachable (fire (code names)) Free config first :=
    reachable_step (.func i) _ first .refl here rfl
  let second : State n N := first.setPlace (.func i) (.func (.readId info.fileName info.ofName))
  have readsOfName :=
    reachable_step (.func i) (.func (.readOfName info.fileName)) second readsFileName (by simp [first]) rfl
  let third : State n N := second.setPlace (.func i) (.func (.setData info))
  have readsId := reachable_step (.func i) (.func (.readId info.fileName info.ofName)) third readsOfName
    (by simp [second]) rfl
  let fourth : State n N :=
    (third.setMemory { config.memory with data := Function.update config.memory.data i info }).setPlace
    (.func i) (.func (.openFiles info))
  have setsData := reachable_step (.func i) (.func (.setData info)) fourth readsId (by simp [third]) rfl
  let fifth : State n N := (fourth.setMemory { fourth.memory with
    files := Function.update config.memory.files info.ofName [] }).setPlace (.func i) (.func (.writeOutput info))
  have opensFiles := reachable_step (.func i) (.func (.openFiles info)) fifth setsData (by simp [fourth]) rfl
  let last : State n N := (fifth.setMemory { fifth.memory with
    files := Function.update fifth.memory.files info.ofName (transformFile (fifth.memory.files info.fileName))
    handed := info.names :: config.memory.handed }).setPlace (.func i) (.func (.createCount info))
  have writesOutput := reachable_step (.func i) (.func (.writeOutput info)) last opensFiles (by simp [fifth]) rfl
  refine ⟨last, writesOutput, by simp [last, info], fun other different => ?_, rfl, rfl⟩
  simp [last, fifth, fourth, third, second, first, different]

/-- A thread can have its output counted at once. -/
theorem exists_counted (names : Fin n → N × N) {i : Fin n} {info : Info N}
    (here : config.place (.func i) = some (.func (.createCount info))) :
    ∃ next, Reachable (fire (code names)) Free config next ∧
      next.place (.func i) = some (.func (.done info)) ∧
      (∀ other, other ≠ .func i → other ≠ .count i → next.place other = config.place other) ∧
      next.memory.information = config.memory.information ∧ next.memory.handed = config.memory.handed := by
  let created : State n N :=
    (config.setPlace (.count i) (.count .readOfName)).setPlace (.func i) (.func (.joinCount info))
  have creates : Reachable (fire (code names)) Free config created :=
    reachable_step (.func i) _ created .refl here rfl
  let ofName : N := (config.memory.data i).ofName
  let second : State n N := created.setPlace (.count i) (.count (.readId ofName))
  have readsOfName := reachable_step (.count i) (.count .readOfName) second creates (by simp [created]) rfl
  let id : Nat := (config.memory.data i).id
  let third : State n N := second.setPlace (.count i) (.count (.countFile ofName id))
  have readsId := reachable_step (.count i) (.count (.readId ofName)) third readsOfName (by simp [second]) rfl
  let counted : State n N := (third.setMemory { config.memory with
    sum := config.memory.sum + countE (config.memory.files ofName)
    counted := ((config.memory.data i).fileName, ofName) :: config.memory.counted }).setPlace
      (.count i) (.count .done)
  have counts := reachable_step (.count i) (.count (.countFile ofName id)) counted readsId (by simp [third]) rfl
  have returned : counted.returned (code names) (.count i) = true := by
    simp [counted, Config.returned, code, threadCount, Instr.isExit]
  let last : State n N := counted.setPlace (.func i) (.func (.done info))
  have joins := reachable_step (.func i) (.func (.joinCount info)) last counts
    (by simp [counted, third, second, created]) (by simp [code, threadFunc, perform, returned, last])
  refine ⟨last, joins, by simp [last], fun other notFunc notCount => ?_, rfl, rfl⟩
  simp [last, counted, third, second, created, notFunc, notCount]

/-- A thread can do its whole work at once. -/
theorem exists_worked (names : Fin n → N × N) {i : Fin n}
    (here : config.place (.func i) = some (.func .readFileName)) :
    ∃ next, Reachable (fire (code names)) Free config next ∧
      next.place (.func i) = some (.func (.done config.memory.information)) ∧
      (∀ other, other ≠ .func i → other ≠ .count i → next.place other = config.place other) ∧
      next.memory.information = config.memory.information ∧
      next.memory.handed = config.memory.information.names :: config.memory.handed := by
  obtain ⟨between, first, there, others, information, handed⟩ := exists_transformed names here
  obtain ⟨next, second, done, others', information', handed'⟩ := exists_counted names there
  refine ⟨next, first.trans second, done, ?_, information'.trans information, handed'.trans handed⟩
  intro other notFunc notCount
  rw [others' other notFunc notCount, others other notFunc]

/-- The next thread can work on the last task. -/
theorem Worked.step (names : Fin n → N × N) {task : N × N} {k : Nat} (worked : Worked task k config)
    (inRange : k < n) :
    ∃ next, Reachable (fire (code names)) Free config next ∧ Worked task (k + 1) next := by
  obtain ⟨next, reached, returned, others, information, handed⟩ :=
    exists_worked names (worked.waiting ⟨k, inRange⟩ (Nat.le_refl k))
  refine ⟨next, reached, ?_, ?_, ?_, ?_, ?_⟩
  · rw [others _ (by simp) (by simp), worked.main]
  · intro i below
    by_cases same : i = ⟨k, inRange⟩
    · exact ⟨_, same ▸ returned⟩
    · have different : i.val ≠ k := fun equal => same (Fin.ext equal)
      rw [others _ (by simpa using same) (by simp)]
      exact worked.returned i (by omega)
  · intro i above
    have different : i ≠ ⟨k, inRange⟩ := by
      rintro rfl
      exact absurd above (Nat.not_succ_le_self k)
    rw [others _ (by simpa using different) (by simp)]
    exact worked.waiting i (by omega)
  · rw [information, worked.last]
  · rw [handed, worked.last, worked.handed]
    rfl

/-- Where all threads have returned, main can join them. -/
theorem exists_joined (names : Fin n → N × N) (config : State n N) (k : Nat)
    (here : config.place .main = some (.main (.joinLoop k)))
    (returned : ∀ i : Fin n, ∃ info, config.place (.func i) = some (.func (.done info))) (within : k ≤ n) :
    ∃ next, Reachable (fire (code names)) Free config next ∧ next.place .main = some (.main .done) ∧
      next.memory = config.memory := by
  induction rounds : n - k generalizing k config with
  | zero =>
      obtain rfl : n = k := by omega
      exact ⟨_, Reachable.refl.step .main trivial
        (fire_access _ here (code_joinLoop_last names (Nat.lt_irrefl n))),
        by simp, rfl⟩
  | succ rounds inductionHypothesis =>
      have inRange : k < n := by omega
      obtain ⟨info, done⟩ := returned ⟨k, inRange⟩
      have fired :=
        fire_join _ here (code_joinLoop names inRange) (by simp [Config.returned, done, code, threadFunc,
        Instr.isExit])
      obtain ⟨next, reached, finished, same⟩ := inductionHypothesis
        (config.setPlace .main (.main (.joinLoop (k + 1)))) (k + 1) (by simp) (by simpa using returned)
        inRange (by omega)
      exact ⟨next, (Reachable.refl.step .main trivial fired).trans reached, finished, same⟩

/-- There is a run in which every thread works on the last task. -/
theorem exists_last_only (names : Fin (n + 1) → N × N) (files : N → List UInt8) (unset : Info N) :
    ∃ config, Reachable (fire (code names)) Free (start names files unset) config ∧
      config.place .main = some (.main .done) ∧
      config.memory.handed = List.replicate (n + 1) (names (Fin.last n)) := by
  obtain ⟨primed, reached, created⟩ := exists_primed names files unset (n + 1) (Nat.le_refl _)
  have first : Worked (names (Fin.last n)) 0 primed :=
    ⟨created.main, by simp, fun i _ => created.created i i.isLt, created.last (Fin.last n) rfl, created.handed⟩
  have working : ∀ k ≤ n + 1, ∃ config, Reachable (fire (code names)) Free (start names files unset) config ∧
      Worked (names (Fin.last n)) k config := by
    intro k within
    induction k with
    | zero => exact ⟨primed, reached, first⟩
    | succ k inductionHypothesis =>
        obtain ⟨config, before, worked⟩ := inductionHypothesis (by omega)
        obtain ⟨next, continued, holds⟩ := worked.step names (by omega)
        exact ⟨next, before.trans continued, holds⟩
  obtain ⟨config, before, worked⟩ := working (n + 1) (Nat.le_refl _)
  have fired : fire (code names) config .main = some (config.setPlace .main (.main (.joinLoop 0))) :=
    fire_access _ worked.main (code_createLoop_last names (Nat.lt_irrefl _))
  obtain ⟨final, continued, done, same⟩ := exists_joined names
    (config.setPlace .main (.main (.joinLoop 0))) 0 (by simp)
    (fun i => by simpa using worked.returned i i.isLt) (Nat.zero_le _)
  refine ⟨final, (before.step .main trivial fired).trans continued, done, ?_⟩
  rw [same]
  exact worked.handed

/-- Runs in which main overwrites no unread name agree with the sequential phase,
and all runs agree exactly when all tasks have the same names. -/
theorem tasks_agree (names : Fin n → N × N) (files : N → List UInt8) (unset : Info N) :
    (∀ config, Reachable (fire (code names)) Settled (start names files unset) config →
      config.place .main = some (.main .done) → Agrees names files config.memory) ∧
    ((∀ config, Reachable (fire (code names)) Free (start names files unset) config →
      config.place .main = some (.main .done) → Agrees names files config.memory) ↔ ∀ i j, names i = names j) := by
  refine ⟨fun config reached => ?_, fun agrees => ?_, fun same config reached => ?_⟩
  · refine agrees_of_standing (standing ?_ ?_) reached
    · intro config i j settled setting unread
      exact absurd (settled.1 i setting _ _ unread) (by simp [Place.fileNameUnread])
    · intro config i j there settled setting created unread
      exact absurd (settled.2 i setting _ _ created) (by simp [unread])
  · cases n with
    | zero => exact fun i => i.elim0
    | succ n =>
        obtain ⟨config, reached, done, handed⟩ := exists_last_only names files unset
        have perm := (agrees config reached done).1
        have isLast (i : Fin (n + 1)) : names i = names (Fin.last n) := by
          have member : names i ∈ config.memory.handed := perm.mem_iff.mpr ((List.mem_ofFn' names _).mpr ⟨i, rfl⟩)
          rw [handed] at member
          exact List.eq_of_mem_replicate member
        exact fun i j => (isLast i).trans (isLast j).symm
  · refine agrees_of_standing (standing ?_ ?_) reached
    · exact fun _ i j _ _ _ => congrArg Prod.fst (same i j)
    · exact fun _ i j _ _ _ _ _ => congrArg Prod.snd (same i j)

/-- The tasks of two files whose outputs have other names. -/
def twoTasks (i : Fin 2) : Nat × Nat := (i.val, i.val + 2)

/-- The first file encodes one `e`, and the others are empty. -/
def oneLetter (name : Nat) : List UInt8 := if name = 0 then [54, 53, 10] else []

/-- Two threads that read the names only after main has created both of them work on the second file twice, and the
`e` of the first file is not counted. -/
theorem second_task_twice : ∃ config : State 2 Nat,
    Reachable (fire (code twoTasks)) Free (start twoTasks oneLetter ⟨0, 0, 0⟩) config ∧
    config.place .main = some (.main .done) ∧ config.memory.handed = [(1, 3), (1, 3)] ∧
    config.memory.sum = 0 ∧ seqSum twoTasks oneLetter = 1 ∧ ¬ Agrees twoTasks oneLetter config.memory := by
  -- Main creates both threads before one of them reads a name.
  obtain ⟨config, reached, holds⟩ := exists_reachable (fire (code twoTasks)) Free
    (start twoTasks oneLetter ⟨0, 0, 0⟩)
    ([(11, .main), (7, .func 0), (3, .count 0), (1, .func 0), (7, .func 1), (3, .count 1), (1, .func 1),
      (3, .main)].flatMap fun turn => List.replicate turn.1 turn.2)
    (fun config => decide (config.place .main = some (.main .done)) &&
      decide (config.memory.handed = [(1, 3), (1, 3)]) && decide (config.memory.sum = 0)) (by decide +kernel)
  simp only [Bool.and_eq_true, decide_eq_true_eq] at holds
  obtain ⟨⟨done, handed⟩, sum⟩ := holds
  refine ⟨config, reached, done, handed, sum, by decide, fun agrees => ?_⟩
  have perm := agrees.1
  rw [handed] at perm
  exact absurd perm (by decide)

end

end OSLabs.CountChars
