import OSLabs.Construction.CountChars
import OSLabs.Proof.Spawn.Run

namespace OSLabs.CountChars

open Transition Spawn

/-- The number of threads that main has created. -/
def MainPlace.created (n : Nat) : MainPlace → Nat
  | .createLoop i | .setFileName i | .setOfName i | .setId i | .create i => i
  | .joinLoop _ | .done => n

/-- The number of threads that main has joined. -/
def MainPlace.joined (n : Nat) : MainPlace → Nat
  | .joinLoop k => k
  | .done => n
  | _ => 0

/-- Main is inside the body of the creation loop. -/
def MainPlace.inLoop : MainPlace → Option Nat
  | .setFileName i | .setOfName i | .setId i | .create i => some i
  | _ => none

/-- Main has set the file name of the next task. -/
def MainPlace.fileNameSet : MainPlace → Option Nat
  | .setOfName i | .setId i | .create i => some i
  | _ => none

/-- Main has set both file names of the next task. -/
def MainPlace.ofNameSet : MainPlace → Option Nat
  | .setId i | .create i => some i
  | _ => none

section
variable {n : Nat} {N : Type} [DecidableEq N] (names : Fin n → N × N) {i : Nat}

theorem code_setFileName (inRange : i < n) : code names .main (.main (.setFileName i)) = .access fun memory =>
    ({ memory with information := { memory.information with fileName := (names ⟨i, inRange⟩).1 } },
      .main (.setOfName i)) := by
  simp [code, main, inRange]

theorem code_setOfName (inRange : i < n) : code names .main (.main (.setOfName i)) = .access fun memory =>
    ({ memory with information := { memory.information with ofName := (names ⟨i, inRange⟩).2 } },
      .main (.setId i)) := by
  simp [code, main, inRange]

theorem code_create (inRange : i < n) : code names .main (.main (.create i)) =
    .create (.func ⟨i, inRange⟩) (.func .readFileName) (.main (.createLoop (i + 1))) := by
  simp [code, main, inRange]

theorem code_createLoop_last (outside : ¬ i < n) :
    code names .main (.main (.createLoop i)) = .access fun memory => (memory, .main (.joinLoop 0)) := by
  simp [code, main, outside]

theorem code_joinLoop (inRange : i < n) : code names .main (.main (.joinLoop i)) =
    .join (.func ⟨i, inRange⟩) (.main (.joinLoop (i + 1))) := by
  simp [code, main, inRange]

theorem code_joinLoop_last (outside : ¬ i < n) :
    code names .main (.main (.joinLoop i)) = .access fun memory => (memory, .main .done) := by
  simp [code, main, outside]

end

section
variable {n : Nat} {N : Type} {names : Fin n → N × N} {config next : State n N}

/-- What the thread of a task with these names has read. -/
def FuncFits (task : N × N) (memory : Memory n N) (i : Fin n) : FuncPlace N → Prop
  | .readFileName => memory.information.fileName = task.1 ∧ memory.information.ofName = task.2
  | .readOfName fileName => fileName = task.1 ∧ memory.information.ofName = task.2
  | .readId fileName ofName => fileName = task.1 ∧ ofName = task.2
  | .setData info => info.names = task
  | .openFiles info | .writeOutput info | .createCount info | .joinCount info | .done info =>
      info.names = task ∧ (memory.data i).names = task

/-- What the counting thread of a task with these names has read. -/
def CountFits (task : N × N) : CountPlace N → Prop
  | .readOfName | .done => True
  | .readId ofName | .countFile ofName _ => ofName = task.2

/-- The thread has created its counting thread. -/
def FuncPlace.counting : FuncPlace N → Bool
  | .joinCount _ | .done _ => true
  | _ => false

/-- Main has reached this place. -/
structure MainStanding (names : Fin n → N × N) (config : State n N) (place : MainPlace) : Prop where
  here : config.place .main = some (.main place)
  bound : place.created n ≤ n
  inLoop : ∀ i, place.inLoop = some i → i < n
  fileName : ∀ i : Fin n, place.fileNameSet = some i.val → config.memory.information.fileName = (names i).1
  ofName : ∀ i : Fin n, place.ofNameSet = some i.val → config.memory.information.ofName = (names i).2
  created : ∀ i : Fin n, (config.place (.func i)).isSome = true ↔ i.val < place.created n
  joined : ∀ i : Fin n, i.val < place.joined n → ∃ info, config.place (.func i) = some (.func (.done info))

/-- The invariant of the threads. -/
structure Standing (names : Fin n → N × N) (config : State n N) : Prop where
  main : ∃ place, MainStanding names config place
  funcs : ∀ i place, config.place (.func i) = some place →
    ∃ there, place = .func there ∧ FuncFits (names i) config.memory i there
  counts : ∀ i place, config.place (.count i) = some place →
    ∃ there, place = .count there ∧ CountFits (names i) there
  counting : ∀ i, (config.place (.count i)).isSome = true ↔
    ∃ there, config.place (.func i) = some (.func there) ∧ there.counting = true
  counted : ∀ i info, config.place (.func i) = some (.func (.done info)) →
    config.place (.count i) = some (.count .done)

/-- What a thread has read depends on `information` only while it has not read it. -/
theorem FuncFits.of_memory {task : N × N} {memory after : Memory n N} {i : Fin n} {place : FuncPlace N}
    (fits : FuncFits task memory i place)
    (fileName : place = .readFileName → after.information.fileName = task.1)
    (ofName : (Place.func place).ofNameUnread = true → after.information.ofName = task.2)
    (data : after.data i = memory.data i) : FuncFits task after i place := by
  cases place with
  | readFileName => exact ⟨fileName rfl, ofName rfl⟩
  | readOfName name => exact ⟨fits.1, ofName rfl⟩
  | readId | setData => exact fits
  | openFiles | writeOutput | createCount | joinCount | done => exact ⟨fits.1, by rw [data]; exact fits.2⟩

/-- A thread at a place has read what fits there. -/
theorem Standing.func_fits (standing : Standing names config) {i : Fin n} {there : FuncPlace N}
    (here : config.place (.func i) = some (.func there)) : FuncFits (names i) config.memory i there := by
  obtain ⟨inner, same, fits⟩ := standing.funcs i _ here
  obtain rfl : there = inner := by simpa using same
  exact fits

theorem Standing.count_fits (standing : Standing names config) {i : Fin n} {there : CountPlace N}
    (here : config.place (.count i) = some (.count there)) : CountFits (names i) there := by
  obtain ⟨inner, same, fits⟩ := standing.counts i _ here
  obtain rfl : there = inner := by simpa using same
  exact fits

/-- While its counting thread exists, the `data` of a thread has the names of its task. -/
theorem Standing.data_names (standing : Standing names config) {i : Fin n}
    (created : (config.place (.count i)).isSome = true) : (config.memory.data i).names = names i := by
  obtain ⟨there, here, counting⟩ := (standing.counting i).mp created
  have fits := standing.func_fits here
  cases there with
  | joinCount | done => exact fits.2
  | _ => cases counting

/-- A thread that moves on without creating its counting thread keeps the invariant. -/
theorem Standing.move (standing : Standing names config) {i : Fin n} {there after : FuncPlace N}
    {memory : Memory n N}
    (here : config.place (.func i) = some (.func there)) (runs : ∀ info, there ≠ .done info)
    (still : after.counting = there.counting)
    (joined : ∀ info, after = .done info → config.place (.count i) = some (.count .done))
    (information : memory.information = config.memory.information)
    (data : ∀ j, j ≠ i → memory.data j = config.memory.data j) (fits : FuncFits (names i) memory i after) :
    Standing names ((config.setMemory memory).setPlace (.func i) (.func after)) := by
  refine ⟨?_, ?_, ?_, ?_, ?_⟩
  · obtain ⟨place, main⟩ := standing.main
    refine ⟨place, by simpa using main.here, main.bound, main.inLoop, ?_, ?_, ?_, ?_⟩
    · simpa [information] using main.fileName
    · simpa [information] using main.ofName
    · intro other
      by_cases same : other = i
      · subst same
        rw [← main.created other, here]
        simp
      · simpa [Function.update_of_ne, same] using main.created other
    · intro other isJoined
      obtain ⟨info, done⟩ := main.joined other isJoined
      have different : other ≠ i := by
        rintro rfl
        rw [here] at done
        exact runs info (by simpa using done)
      exact ⟨info, by simpa [Function.update_of_ne, different] using done⟩
  · intro other place created
    by_cases same : other = i
    · subst same
      obtain rfl : Place.func after = place := by simpa using created
      exact ⟨after, rfl, fits⟩
    · obtain ⟨inner, rfl, known⟩ :=
        standing.funcs other place (by simpa [Function.update_of_ne, same] using created)
      refine ⟨inner, rfl, known.of_memory ?_ ?_ (data other same)⟩
      · rintro rfl
        simpa [information] using known.1
      · intro unread
        rw [Config.setPlace_memory, Config.setMemory_memory, information]
        cases inner with
        | readFileName | readOfName => exact known.2
        | _ => cases unread
  · intro other place created
    exact standing.counts other place (by simpa using created)
  · intro other
    by_cases same : other = i
    · subst same
      have before := standing.counting other
      simp only [here, Option.some.injEq, Place.func.injEq, exists_eq_left'] at before
      simpa [still] using before
    · simpa [Function.update_of_ne, same] using standing.counting other
  · intro other info done
    by_cases same : other = i
    · subst same
      simpa using joined info (by simpa using done)
    · simpa using standing.counted other info (by simpa [Function.update_of_ne, same] using done)

/-- A counting thread that moves keeps the invariant. -/
theorem Standing.count_move (standing : Standing names config) {i : Fin n} {there after : CountPlace N}
    {memory : Memory n N} (here : config.place (.count i) = some (.count there)) (before : there ≠ .done)
    (information : memory.information = config.memory.information) (data : memory.data = config.memory.data)
    (fits : CountFits (names i) after) :
    Standing names ((config.setMemory memory).setPlace (.count i) (.count after)) := by
  refine ⟨?_, ?_, ?_, ?_, ?_⟩
  · obtain ⟨place, main⟩ := standing.main
    exact ⟨place, by simpa using main.here, main.bound, main.inLoop, by simpa [information] using main.fileName,
      by simpa [information] using main.ofName, by simpa using main.created, by simpa using main.joined⟩
  · intro other place created
    obtain ⟨inner, rfl, known⟩ := standing.funcs other place (by simpa using created)
    refine ⟨inner, rfl, known.of_memory ?_ ?_ (by simp [data])⟩
    · rintro rfl
      simpa [information] using known.1
    · intro unread
      rw [Config.setPlace_memory, Config.setMemory_memory, information]
      cases inner with
      | readFileName | readOfName => exact known.2
      | _ => cases unread
  · intro other place created
    by_cases same : other = i
    · subst same
      obtain rfl : Place.count after = place := by simpa using created
      exact ⟨after, rfl, fits⟩
    · exact standing.counts other place (by simpa [Function.update_of_ne, same] using created)
  · intro other
    by_cases same : other = i
    · subst same
      have created := standing.counting other
      rw [here] at created
      simpa using created
    · simpa [Function.update_of_ne, same] using standing.counting other
  · intro other info done
    have finished := standing.counted other info (by simpa using done)
    have different : other ≠ i := by
      rintro rfl
      rw [here] at finished
      exact before (by simpa using finished)
    simpa [Function.update_of_ne, different] using finished

/-- A thread that creates its counting thread keeps the invariant. -/
theorem Standing.create_count (standing : Standing names config) {i : Fin n} {info : Info N}
    (here : config.place (.func i) = some (.func (.createCount info))) :
    Standing names ((config.setPlace (.count i) (.count .readOfName)).setPlace (.func i)
    (.func (.joinCount info))) := by
  have fits := standing.func_fits here
  refine ⟨?_, ?_, ?_, ?_, ?_⟩
  · obtain ⟨place, main⟩ := standing.main
    refine ⟨place, by simpa using main.here, main.bound, main.inLoop, main.fileName, main.ofName, ?_, ?_⟩
    · intro other
      by_cases same : other = i
      · subst same
        rw [← main.created other, here]
        simp
      · simpa [Function.update_of_ne, same] using main.created other
    · intro other isJoined
      obtain ⟨after, done⟩ := main.joined other isJoined
      have different : other ≠ i := by
        rintro rfl
        simp [here] at done
      exact ⟨after, by simpa [Function.update_of_ne, different] using done⟩
  · intro other place created
    by_cases same : other = i
    · subst same
      obtain rfl : Place.func (.joinCount info) = place := by simpa using created
      exact ⟨_, rfl, fits⟩
    · exact standing.funcs other place (by simpa [Function.update_of_ne, same] using created)
  · intro other place created
    by_cases same : other = i
    · subst same
      obtain rfl : Place.count .readOfName = place := by simpa using created
      exact ⟨_, rfl, trivial⟩
    · exact standing.counts other place (by simpa [Function.update_of_ne, same] using created)
  · intro other
    by_cases same : other = i
    · subst same
      simp [FuncPlace.counting]
    · simpa [Function.update_of_ne, same] using standing.counting other
  · intro other after done
    have different : other ≠ i := by
      rintro rfl
      simp at done
    simpa [Function.update_of_ne, different] using
      standing.counted other after (by simpa [Function.update_of_ne, different] using done)

/-- Main keeps the invariant when it moves on with the same threads. -/
theorem Standing.advance (standing : Standing names config) {place after : MainPlace} {information : Info N}
    (main : MainStanding names config place)
    (created : after.created n = place.created n) (inLoop : ∀ i, after.inLoop = some i → i < n)
    (fileName : ∀ i : Fin n, after.fileNameSet = some i.val → information.fileName = (names i).1)
    (ofName : ∀ i : Fin n, after.ofNameSet = some i.val → information.ofName = (names i).2)
    (joined : ∀ i : Fin n, i.val < after.joined n → ∃ info, config.place (.func i) = some (.func (.done info)))
    (fileNameUnread : ∀ i, config.place (.func i) = some (.func .readFileName) →
      information.fileName = (names i).1)
    (ofNameUnread : ∀ i there, config.place (.func i) = some (.func there) →
      (Place.func there).ofNameUnread = true → information.ofName = (names i).2) :
    Standing names ((config.setMemory { config.memory with information := information }).setPlace .main
      (.main after)) := by
  refine ⟨⟨after, by simp, by simpa [created] using main.bound, inLoop, fileName, ofName, ?_, ?_⟩, ?_, ?_, ?_, ?_⟩
  · intro i
    simpa [created] using main.created i
  · intro i isJoined
    simpa using joined i isJoined
  · intro i place there
    have before : config.place (.func i) = some place := by simpa using there
    obtain ⟨inner, rfl, fits⟩ := standing.funcs i place before
    refine ⟨inner, rfl, fits.of_memory ?_ (ofNameUnread i inner before) rfl⟩
    rintro rfl
    exact fileNameUnread i before
  · intro i place there
    exact standing.counts i place (by simpa using there)
  · intro i
    simpa using standing.counting i
  · intro i info done
    simpa using standing.counted i info (by simpa using done)

/-- Main creates the next thread. -/
theorem Standing.create_func (standing : Standing names config) {i : Nat}
    (main : MainStanding names config (.create i))
    (inRange : i < n) : Standing names
      ((config.setPlace (.func ⟨i, inRange⟩) (.func .readFileName)).setPlace .main
        (.main (.createLoop (i + 1)))) := by
  have absent : config.place (.func ⟨i, inRange⟩) = none := by
    simpa [MainPlace.created] using main.created ⟨i, inRange⟩
  refine ⟨⟨.createLoop (i + 1), by simp, inRange, by simp [MainPlace.inLoop], by simp [MainPlace.fileNameSet],
    by simp [MainPlace.ofNameSet], ?_, ?_⟩, ?_, ?_, ?_, ?_⟩
  · intro j
    have before := main.created j
    simp only [MainPlace.created] at before ⊢
    by_cases same : j = ⟨i, inRange⟩
    · subst same
      simp
    · have different : j.val ≠ i := fun equal => same (Fin.ext equal)
      simp [Function.update_of_ne, same, before]
      omega
  · intro j isJoined
    simp [MainPlace.joined] at isJoined
  · intro j place there
    by_cases same : j = ⟨i, inRange⟩
    · subst same
      obtain rfl : Place.func .readFileName = place := by simpa using there
      exact ⟨_, rfl, main.fileName ⟨i, inRange⟩ rfl, main.ofName ⟨i, inRange⟩ rfl⟩
    · exact standing.funcs j place (by simpa [Function.update_of_ne, same] using there)
  · intro j place there
    exact standing.counts j place (by simpa using there)
  · intro j
    by_cases same : j = ⟨i, inRange⟩
    · subst same
      have before := standing.counting ⟨i, inRange⟩
      simp only [absent, reduceCtorEq, false_and, exists_false, iff_false] at before
      simpa [FuncPlace.counting] using before
    · simpa [Function.update_of_ne, same] using standing.counting j
  · intro j info done
    have different : j ≠ ⟨i, inRange⟩ := by
      rintro rfl
      simp at done
    simpa using standing.counted j info (by simpa [Function.update_of_ne, different] using done)

variable [DecidableEq N]

/-- A thread of `threadFunc` that has returned is done. -/
theorem Standing.done_of_returned (standing : Standing names config) {i : Fin n}
    (returned : config.returned (code names) (.func i) = true) :
    ∃ info, config.place (.func i) = some (.func (.done info)) := by
  obtain ⟨place, there, exits⟩ := exists_of_returned returned
  obtain ⟨inner, rfl, _⟩ := standing.funcs i place there
  cases inner with
  | done info => exact ⟨info, there⟩
  | _ => cases exits

/-- A step of `threadCount` keeps the invariant. -/
theorem Standing.count_step (standing : Standing names config) {i : Fin n} {there : CountPlace N}
    (here : config.place (.count i) = some (.count there))
    (fired : fire (code names) config (.count i) = some next) :
    Standing names next := by
  have data := standing.data_names (i := i) (by simp [here])
  cases there with
  | readOfName =>
      obtain rfl := eq_of_access here fired rfl
      exact standing.count_move here (by simp) rfl rfl (congrArg Prod.snd data)
  | readId ofName =>
      obtain rfl := eq_of_access here fired rfl
      have fits : ofName = (names i).2 := standing.count_fits here
      exact standing.count_move here (by simp) rfl rfl fits
  | countFile ofName threadID =>
      obtain rfl := eq_of_access here fired rfl
      exact standing.count_move here (by simp) rfl rfl trivial
  | done => simp [fire, here, code, threadCount, perform] at fired

/-- A step of `threadFunc` keeps the invariant. -/
theorem Standing.func_step (standing : Standing names config) {i : Fin n} {there : FuncPlace N}
    (here : config.place (.func i) = some (.func there)) (fired : fire (code names) config (.func i) = some next) :
    Standing names next := by
  have fits := standing.func_fits here
  cases there with
  | readFileName =>
      obtain rfl := eq_of_access here fired rfl
      exact standing.move here (by simp) rfl (by simp) rfl (fun _ _ => rfl) fits
  | readOfName fileName =>
      obtain rfl := eq_of_access here fired rfl
      exact standing.move here (by simp) rfl (by simp) rfl (fun _ _ => rfl) fits
  | readId fileName ofName =>
      obtain rfl := eq_of_access here fired rfl
      exact standing.move here (by simp) rfl (by simp) rfl (fun _ _ => rfl) (Prod.ext fits.1 fits.2)
  | setData info =>
      obtain rfl := eq_of_access here fired rfl
      refine standing.move here (by simp) rfl (by simp) rfl (fun other different =>
        Function.update_of_ne different _ _)
        ⟨fits, ?_⟩
      show (Function.update config.memory.data i info i).names = names i
      rw [Function.update_self]
      exact fits
  | openFiles info =>
      obtain rfl := eq_of_access here fired rfl
      exact standing.move here (by simp) rfl (by simp) rfl (fun _ _ => rfl) fits
  | writeOutput info =>
      obtain rfl := eq_of_access here fired rfl
      exact standing.move here (by simp) rfl (by simp) rfl (fun _ _ => rfl) fits
  | createCount info =>
      obtain rfl := eq_of_create here fired rfl
      exact standing.create_count here
  | joinCount info =>
      obtain ⟨returned, rfl⟩ := returned_of_join here fired rfl
      refine standing.move here (by simp) rfl (fun _ _ => ?_) rfl (fun _ _ => rfl) fits
      obtain ⟨place, there, exits⟩ := exists_of_returned returned
      obtain ⟨inner, rfl, _⟩ := standing.counts i place there
      cases inner with
      | done => exact there
      | _ => cases exits
  | done info => simp [fire, here, code, threadFunc, perform] at fired

/-- A step of `main` keeps the invariant, provided that main overwrites no name that a thread has still to read
with another name. -/
theorem Standing.main_step (standing : Standing names config)
    (laterFile : ∀ i j : Fin n, config.place .main = some (.main (.setFileName i)) →
      config.place (.func j) = some (.func .readFileName) → (names i).1 = (names j).1)
    (laterOf : ∀ (i j : Fin n) (there : FuncPlace N), config.place .main = some (.main (.setOfName i)) →
      config.place (.func j) = some (.func there) → (Place.func there).ofNameUnread = true →
      (names i).2 = (names j).2)
    (fired : fire (code names) config .main = some next) : Standing names next := by
  obtain ⟨place, main⟩ := standing.main
  have here := main.here
  have fileNameKept (i : Fin n) (created : config.place (.func i) = some (.func .readFileName)) :
      config.memory.information.fileName = (names i).1 := (standing.func_fits created).1
  have ofNameKept (i : Fin n) (there : FuncPlace N) (created : config.place (.func i) = some (.func there))
      (unread : (Place.func there).ofNameUnread = true) : config.memory.information.ofName = (names i).2 := by
    have fits := standing.func_fits created
    cases there with
    | readFileName | readOfName => exact fits.2
    | _ => cases unread
  have noneJoined (after : MainPlace) (zero : after.joined n = 0) (i : Fin n) (isJoined : i.val < after.joined n) :
      ∃ info, config.place (.func i) = some (.func (.done info)) := by omega
  cases place with
  | createLoop i =>
      obtain rfl := eq_of_access here fired rfl
      by_cases inRange : i < n
      · simp only [inRange, ↓reduceIte]
        refine standing.advance main rfl (fun j same => ?_) (by simp [MainPlace.fileNameSet])
          (by simp [MainPlace.ofNameSet]) (noneJoined _ rfl) fileNameKept ofNameKept
        obtain rfl : i = j := by simpa [MainPlace.inLoop] using same
        exact inRange
      · have bound : i ≤ n := main.bound
        obtain rfl : i = n := by omega
        simp only [inRange, ↓reduceIte]
        exact standing.advance main rfl (by simp [MainPlace.inLoop]) (by simp [MainPlace.fileNameSet])
          (by simp [MainPlace.ofNameSet]) (noneJoined _ rfl) fileNameKept ofNameKept
  | setFileName i =>
      have inRange : i < n := main.inLoop i rfl
      obtain rfl := eq_of_access here fired (code_setFileName names inRange)
      refine standing.advance main rfl (fun _ => main.inLoop _) (fun j same => ?_) (by simp [MainPlace.ofNameSet])
        (noneJoined _ rfl) (fun j created => laterFile ⟨i, inRange⟩ j here created) ofNameKept
      obtain rfl : j = ⟨i, inRange⟩ := Fin.ext (by simpa [MainPlace.fileNameSet, eq_comm] using same)
      rfl
  | setOfName i =>
      have inRange : i < n := main.inLoop i rfl
      obtain rfl := eq_of_access here fired (code_setOfName names inRange)
      refine standing.advance main rfl (fun _ => main.inLoop _) (fun j => main.fileName j) (fun j same => ?_)
        (noneJoined _ rfl) fileNameKept (fun j there created => laterOf ⟨i, inRange⟩ j there here created)
      obtain rfl : j = ⟨i, inRange⟩ := Fin.ext (by simpa [MainPlace.ofNameSet, eq_comm] using same)
      rfl
  | setId i =>
      obtain rfl := eq_of_access here fired rfl
      exact standing.advance main rfl (fun _ => main.inLoop _) (fun j => main.fileName j) (fun j => main.ofName j)
        (noneJoined _ rfl) fileNameKept ofNameKept
  | create i =>
      have inRange : i < n := main.inLoop i rfl
      obtain rfl := eq_of_create here fired (code_create names inRange)
      exact standing.create_func main inRange
  | joinLoop k =>
      by_cases inRange : k < n
      · obtain ⟨returned, rfl⟩ := returned_of_join here fired (code_joinLoop names inRange)
        refine standing.advance main rfl (by simp [MainPlace.inLoop]) (by simp [MainPlace.fileNameSet])
          (by simp [MainPlace.ofNameSet]) ?_ fileNameKept ofNameKept
        intro j isJoined
        by_cases last : j.val = k
        · obtain rfl : j = ⟨k, inRange⟩ := Fin.ext last
          exact standing.done_of_returned returned
        · have isBefore : j.val < k + 1 := isJoined
          exact main.joined j (show j.val < k by omega)
      · obtain rfl := eq_of_access here fired (code_joinLoop_last names inRange)
        refine standing.advance main rfl (by simp [MainPlace.inLoop]) (by simp [MainPlace.fileNameSet])
          (by simp [MainPlace.ofNameSet]) ?_ fileNameKept ofNameKept
        intro j _
        exact main.joined j (show j.val < k by omega)
  | done => simp [fire, here, code, OSLabs.CountChars.main, perform] at fired

/-- Every reachable configuration meets the invariant, provided that main never overwrites a name that a thread has
still to read with another name. -/
theorem standing {allowed : State n N → Thread n → Prop} {files : N → List UInt8} {unset : Info N}
    (laterFile : ∀ config (i j : Fin n), allowed config .main →
      config.place .main = some (.main (.setFileName i)) →
      config.place (.func j) = some (.func .readFileName) → (names i).1 = (names j).1)
    (laterOf : ∀ config (i j : Fin n) (there : FuncPlace N), allowed config .main →
      config.place .main = some (.main (.setOfName i)) → config.place (.func j) = some (.func there) →
      (Place.func there).ofNameUnread = true → (names i).2 = (names j).2)
    (reached : Reachable (fire (code names)) allowed (start names files unset) config) :
    Standing names config := by
  refine reached.invariant (Standing names) ?_ ?_
  · refine ⟨⟨.createLoop 0, by simp [start], Nat.zero_le n, ?_, ?_, ?_, ?_, ?_⟩, ?_, ?_, ?_, ?_⟩
    all_goals simp [start, MainPlace.inLoop, MainPlace.fileNameSet, MainPlace.ofNameSet, MainPlace.created,
      MainPlace.joined]
  · intro config next thread holds permitted fired
    obtain ⟨place, here, _⟩ := exists_of_fire fired
    cases thread with
    | main =>
        exact holds.main_step (fun i j => laterFile config i j permitted)
          (fun i j there => laterOf config i j there permitted) fired
    | func i =>
        obtain ⟨inner, rfl, _⟩ := holds.funcs i place here
        exact holds.func_step here fired
    | count i =>
        obtain ⟨inner, rfl, _⟩ := holds.counts i place here
        exact holds.count_step here fired

end

end OSLabs.CountChars
