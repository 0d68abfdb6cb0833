import OSLabs.Proof.CountChars.Tasks
import Mathlib.Algebra.BigOperators.Group.Multiset.Basic
import Mathlib.Data.Fintype.BigOperators

namespace OSLabs.CountChars

open Transition Spawn

/-- The thread has written the output file of its task. -/
def FuncPlace.written {N : Type} : FuncPlace N → Bool
  | .createCount _ | .joinCount _ | .done _ => true
  | _ => false

def Place.written {N : Type} : Place N → Bool
  | .func place => place.written
  | _ => false

/-- The counting thread has counted the output file of its task. -/
def Place.counted {N : Type} : Place N → Bool
  | .count .done => true
  | _ => false

/-- What the threads at places of the set contribute. -/
def contribution {I N G : Type} [Zero G] (inSet : Place N → Bool) (value : I → G) (i : I) : Option (Place N) → G
  | some place => if inSet place then value i else 0
  | none => 0

section
variable {n : Nat} {N : Type} {names : Fin n → N × N} {config next : State n N} {base : N → List UInt8}

/-- What the counting thread of a task with a transformed file adds to the sum. -/
def taskSum (names : Fin n → N × N) (base : N → List UInt8) (i : Fin n) : Nat :=
  countE (transformFile (base (names i).1))

/-- The logs name the tasks of the threads that have passed the logged step. -/
structure Logged (names : Fin n → N × N) (config : State n N) : Prop where
  handed : (config.memory.handed : Multiset (N × N)) =
    ∑ i, contribution Place.written (fun i => {names i}) i (config.place (.func i))
  counted : (config.memory.counted : Multiset (N × N)) =
    ∑ i, contribution Place.counted (fun i => {names i}) i (config.place (.count i))

/-- The input files are unchanged, the written output files are right, and the sum has what was counted. -/
structure Summed (names : Fin n → N × N) (base : N → List UInt8) (config : State n N) : Prop where
  inputs : ∀ i, config.memory.files (names i).1 = base (names i).1
  outputs : ∀ i place, config.place (.func i) = some place → place.written = true →
    config.memory.files (names i).2 = transformFile (base (names i).1)
  sum : config.memory.sum = ∑ i, contribution Place.counted (taskSum names base) i (config.place (.count i))

theorem sum_singleton (names : Fin n → N × N) : (∑ i, {names i} : Multiset (N × N)) = List.ofFn names := by
  rw [Finset.sum_eq_multiset_sum, ← Fin.univ_val_map]
  conv_rhs => rw [← Multiset.sum_map_singleton (Multiset.map names Finset.univ.val), Multiset.map_map]
  rfl

theorem func_injective : Function.Injective (Thread.func (n := n)) := fun _ _ same => by simpa using same

theorem count_injective : Function.Injective (Thread.count (n := n)) := fun _ _ same => by simpa using same

/-- A thread that is created outside the set contributes nothing. -/
theorem contribution_of_created {I G : Type} [Zero G] {inSet : Place N → Bool} {value : I → G} {i : I}
    {before after : Option (Place N)} {fresh : Place N}
    (same : after = before ∨ before = none ∧ after = some fresh) (outside : inSet fresh = false) :
    contribution inSet value i after = contribution inSet value i before := by
  rcases same with rfl | ⟨rfl, rfl⟩
  · rfl
  · simp [contribution, outside]

/-- A thread that moves and logs what it gains keeps the logs. -/
theorem Logged.move (logged : Logged names config) {i : Fin n} {there after : FuncPlace N} {memory : Memory n N}
    {gain : Multiset (N × N)} (here : config.place (.func i) = some (.func there))
    (grows : contribution Place.written (fun i => {names i}) i (some (.func after)) =
      contribution Place.written (fun i => {names i}) i (some (.func there)) + gain)
    (handed : (memory.handed : Multiset (N × N)) = config.memory.handed + gain)
    (counted : memory.counted = config.memory.counted) :
    Logged names ((config.setMemory memory).setPlace (.func i) (.func after)) := by
  refine ⟨?_, ?_⟩
  · rw [Config.setPlace_memory, Config.setMemory_memory, handed, logged.handed]
    exact (sum_setPlace func_injective _ (config.setMemory memory) i (.func after)
      (by rw [Config.setMemory_place, here, grows])).symm
  · simpa [counted] using logged.counted

/-- A counting thread that moves and logs what it gains keeps the logs. -/
theorem Logged.count_move (logged : Logged names config) {i : Fin n} {there after : CountPlace N}
    {memory : Memory n N}
    {gain : Multiset (N × N)} (here : config.place (.count i) = some (.count there))
    (grows : contribution Place.counted (fun i => {names i}) i (some (.count after)) =
      contribution Place.counted (fun i => {names i}) i (some (.count there)) + gain)
    (counted : (memory.counted : Multiset (N × N)) = config.memory.counted + gain)
    (handed : memory.handed = config.memory.handed) :
    Logged names ((config.setMemory memory).setPlace (.count i) (.count after)) := by
  refine ⟨?_, ?_⟩
  · simpa [handed] using logged.handed
  · rw [Config.setPlace_memory, Config.setMemory_memory, counted, logged.counted]
    exact (sum_setPlace count_injective _ (config.setMemory memory) i (.count after)
      (by rw [Config.setMemory_place, here, grows])).symm

/-- A counting thread that moves and adds what it gains keeps the sum. -/
theorem Summed.count_move (summed : Summed names base config) {i : Fin n} {there after : CountPlace N}
    {memory : Memory n N} {gain : Nat} (here : config.place (.count i) = some (.count there))
    (grows : contribution Place.counted (taskSum names base) i (some (.count after)) =
      contribution Place.counted (taskSum names base) i (some (.count there)) + gain)
    (files : memory.files = config.memory.files) (sum : memory.sum = config.memory.sum + gain) :
    Summed names base ((config.setMemory memory).setPlace (.count i) (.count after)) := by
  refine ⟨?_, ?_, ?_⟩
  · rw [Config.setPlace_memory, Config.setMemory_memory, files]
    exact summed.inputs
  · intro j place created
    rw [Config.setPlace_memory, Config.setMemory_memory, files]
    exact summed.outputs j place (by simpa using created)
  · rw [Config.setPlace_memory, Config.setMemory_memory, sum, summed.sum]
    exact (sum_setPlace count_injective _ (config.setMemory memory) i (.count after)
      (by rw [Config.setMemory_place, here, grows])).symm

variable [DecidableEq N]

/-- A step of main changes neither the files nor the logs, and moves no other thread. -/
theorem Standing.main_effect (standing : Standing names config)
    (fired : fire (code names) config .main = some next) :
    next.memory.files = config.memory.files ∧ next.memory.sum = config.memory.sum ∧
      next.memory.handed = config.memory.handed ∧ next.memory.counted = config.memory.counted ∧
      (∀ i, next.place (.count i) = config.place (.count i)) ∧
      ∀ i, next.place (.func i) = config.place (.func i) ∨
        config.place (.func i) = none ∧ next.place (.func i) = some (.func .readFileName) := by
  obtain ⟨place, main⟩ := standing.main
  have here := main.here
  cases place with
  | createLoop i =>
      obtain rfl := eq_of_access here fired rfl
      simp
  | setFileName i =>
      have inRange : i < n := main.inLoop i rfl
      obtain rfl := eq_of_access here fired (code_setFileName names inRange)
      simp
  | setOfName i =>
      have inRange : i < n := main.inLoop i rfl
      obtain rfl := eq_of_access here fired (code_setOfName names inRange)
      simp
  | setId i =>
      obtain rfl := eq_of_access here fired rfl
      simp
  | create i =>
      have inRange : i < n := main.inLoop i rfl
      obtain rfl := eq_of_create here fired (code_create names inRange)
      refine ⟨rfl, rfl, rfl, rfl, by simp, fun j => ?_⟩
      by_cases same : j = ⟨i, inRange⟩
      · subst same
        right
        simpa [MainPlace.created] using main.created ⟨i, inRange⟩
      · left
        simp [Function.update_of_ne, same]
  | joinLoop k =>
      by_cases inRange : k < n
      · obtain ⟨_, rfl⟩ := returned_of_join here fired (code_joinLoop names inRange)
        simp
      · obtain rfl := eq_of_access here fired (code_joinLoop_last names inRange)
        simp
  | done => simp [fire, here, code, OSLabs.CountChars.main, perform] at fired

/-- A step keeps the logs. -/
theorem Logged.step (standing : Standing names config) (logged : Logged names config) {thread : Thread n}
    (fired : fire (code names) config thread = some next) : Logged names next := by
  obtain ⟨place, here, _⟩ := exists_of_fire fired
  cases thread with
  | main =>
      obtain ⟨_, _, handed, counted, counts, funcs⟩ := standing.main_effect fired
      refine ⟨?_, ?_⟩
      · rw [handed, logged.handed]
        exact (Finset.sum_congr rfl fun i _ => contribution_of_created (funcs i) rfl).symm
      · rw [counted, logged.counted]
        simp only [counts]
  | func i =>
      obtain ⟨there, rfl, fits⟩ := standing.funcs i place here
      cases there with
      | readFileName | readOfName fileName | readId fileName ofName | setData info | openFiles info =>
          obtain rfl := eq_of_access here fired rfl
          exact logged.move here (add_zero _).symm (add_zero _).symm rfl
      | writeOutput info =>
          obtain rfl := eq_of_access here fired rfl
          have entry : ((info.names :: config.memory.handed : List (N × N)) : Multiset (N × N)) =
              config.memory.handed + {names i} := by
            rw [fits.1, add_comm, Multiset.singleton_add]
            rfl
          exact logged.move here (zero_add _).symm entry rfl
      | createCount info =>
          obtain rfl := eq_of_create here fired rfl
          have absent : config.place (.count i) = none := by
            simpa [here, FuncPlace.counting] using standing.counting i
          have created : Logged names (config.setPlace (.count i) (.count .readOfName)) := by
            refine ⟨by simpa using logged.handed, ?_⟩
            rw [Config.setPlace_memory, logged.counted]
            exact (add_zero _).symm.trans (sum_setPlace count_injective _ config i (.count .readOfName)
              (by rw [absent]; exact (add_zero _).symm)).symm
          have unmoved : (config.setPlace (.count i) (.count .readOfName)).place (.func i) =
              some (.func (.createCount info)) := by
            simpa using here
          exact created.move unmoved (add_zero _).symm (add_zero _).symm rfl
      | joinCount info =>
          obtain ⟨_, rfl⟩ := returned_of_join here fired rfl
          exact logged.move here (add_zero _).symm (add_zero _).symm rfl
      | done info => simp [fire, here, code, threadFunc, perform] at fired
  | count i =>
      obtain ⟨there, rfl, fits⟩ := standing.counts i place here
      cases there with
      | readOfName | readId ofName =>
          obtain rfl := eq_of_access here fired rfl
          exact logged.count_move here (add_zero _).symm (add_zero _).symm rfl
      | countFile ofName threadID =>
          obtain rfl := eq_of_access here fired rfl
          have data := standing.data_names (i := i) (by simp [here])
          have fileName : (config.memory.data i).fileName = (names i).1 := congrArg Prod.fst data
          have task : ((config.memory.data i).fileName, ofName) = names i := Prod.ext fileName fits
          have entry : ((((config.memory.data i).fileName, ofName) :: config.memory.counted : List (N × N)) :
              Multiset (N × N)) = config.memory.counted + {names i} := by
            rw [task, add_comm, Multiset.singleton_add]
            rfl
          exact logged.count_move here (zero_add _).symm entry rfl
      | done => simp [fire, here, code, threadCount, perform] at fired

/-- A thread that writes at most its own output file keeps the files. -/
theorem Summed.move (separate : Separate names) (summed : Summed names base config) {i : Fin n}
    {after : FuncPlace N}
    {memory : Memory n N} {content : List UInt8}
    (files : memory.files = Function.update config.memory.files (names i).2 content)
    (written : after.written = true → content = transformFile (base (names i).1))
    (sum : memory.sum = config.memory.sum) :
    Summed names base ((config.setMemory memory).setPlace (.func i) (.func after)) := by
  refine ⟨?_, ?_, ?_⟩
  · intro j
    rw [Config.setPlace_memory, Config.setMemory_memory, files, Function.update_of_ne (separate.2 i j).symm]
    exact summed.inputs j
  · intro j place created isWritten
    rw [Config.setPlace_memory, Config.setMemory_memory, files]
    by_cases same : j = i
    · subst same
      obtain rfl : Place.func after = place := by simpa using created
      rw [Function.update_self]
      exact written isWritten
    · rw [Function.update_of_ne fun equal => same (separate.1 j i equal)]
      exact summed.outputs j place (by simpa [Function.update_of_ne, same] using created) isWritten
  · simpa [sum] using summed.sum

/-- A step keeps the files and the sum. -/
theorem Summed.step (separate : Separate names) (standing : Standing names config)
    (summed : Summed names base config)
    {thread : Thread n} (fired : fire (code names) config thread = some next) : Summed names base next := by
  obtain ⟨place, here, _⟩ := exists_of_fire fired
  cases thread with
  | main =>
      obtain ⟨files, sum, _, _, counts, funcs⟩ := standing.main_effect fired
      refine ⟨?_, ?_, ?_⟩
      · rw [files]
        exact summed.inputs
      · intro i there created written
        rw [files]
        rcases funcs i with same | ⟨_, fresh⟩
        · exact summed.outputs i there (same.symm.trans created) written
        · obtain rfl : Place.func .readFileName = there := by simpa [fresh] using created
          cases written
      · rw [sum, summed.sum]
        simp only [counts]
  | func i =>
      obtain ⟨there, rfl, fits⟩ := standing.funcs i place here
      have kept : config.memory.files =
          Function.update config.memory.files (names i).2 (config.memory.files (names i).2) :=
        (Function.update_eq_self _ _).symm
      cases there with
      | readFileName | readOfName fileName | readId fileName ofName | setData info =>
          obtain rfl := eq_of_access here fired rfl
          exact summed.move separate kept (by simp [FuncPlace.written]) rfl
      | openFiles info =>
          obtain rfl := eq_of_access here fired rfl
          have ofName : info.ofName = (names i).2 := congrArg Prod.snd fits.1
          have files : Function.update config.memory.files info.ofName [] =
              Function.update config.memory.files (names i).2 [] := by rw [ofName]
          exact summed.move separate files (by simp [FuncPlace.written]) rfl
      | writeOutput info =>
          obtain rfl := eq_of_access here fired rfl
          have fileName : info.fileName = (names i).1 := congrArg Prod.fst fits.1
          have ofName : info.ofName = (names i).2 := congrArg Prod.snd fits.1
          have files : Function.update config.memory.files info.ofName
            (transformFile (config.memory.files info.fileName)) =
              Function.update config.memory.files (names i).2 (transformFile (base (names i).1)) := by
            rw [ofName, fileName, summed.inputs]
          exact summed.move separate files (fun _ => rfl) rfl
      | createCount info =>
          obtain rfl := eq_of_create here fired rfl
          have absent : config.place (.count i) = none := by
            simpa [here, FuncPlace.counting] using standing.counting i
          have created : Summed names base (config.setPlace (.count i) (.count .readOfName)) := by
            refine ⟨summed.inputs, fun j place there => summed.outputs j place (by simpa using there), ?_⟩
            rw [Config.setPlace_memory, summed.sum]
            exact (add_zero _).symm.trans (sum_setPlace count_injective _ config i (.count .readOfName)
              (by rw [absent]; exact (add_zero _).symm)).symm
          exact created.move separate kept (fun _ => summed.outputs i _ here rfl) rfl
      | joinCount info =>
          obtain ⟨_, rfl⟩ := returned_of_join here fired rfl
          exact summed.move separate kept (fun _ => summed.outputs i _ here rfl) rfl
      | done info => simp [fire, here, code, threadFunc, perform] at fired
  | count i =>
      obtain ⟨there, rfl, fits⟩ := standing.counts i place here
      cases there with
      | readOfName | readId ofName =>
          obtain rfl := eq_of_access here fired rfl
          exact summed.count_move here (add_zero _).symm rfl rfl
      | countFile ofName threadID =>
          obtain rfl := eq_of_access here fired rfl
          obtain ⟨creator, there, counting⟩ := (standing.counting i).mp (by simp [here])
          have written : (Place.func creator).written = true := by
            cases creator with
            | joinCount | done => rfl
            | _ => cases counting
          have output : config.memory.files ofName = transformFile (base (names i).1) := by
            rw [show ofName = (names i).2 from fits]
            exact summed.outputs i _ there written
          exact summed.count_move here (zero_add _).symm rfl (by rw [output]; rfl)
      | done => simp [fire, here, code, threadCount, perform] at fired

/-- A transformation changes no file but its output. -/
theorem foldl_transform_of_ne {tasks : List (N × N)} (files : N → List UInt8) {name : N}
    (other : ∀ task ∈ tasks, task.2 ≠ name) : tasks.foldl transform files name = files name := by
  induction tasks generalizing files with
  | nil => rfl
  | cons task rest inductionHypothesis =>
      rw [List.foldl_cons, inductionHypothesis _ fun later member => other later (List.mem_cons_of_mem _ member)]
      have different : name ≠ task.2 := (other task List.mem_cons_self).symm
      simp [transform, Function.update_of_ne different]

/-- Transformations with separate files give each output the decoded input. -/
theorem foldl_transform_of_mem {tasks : List (N × N)} (files : N → List UInt8)
    (distinct : (tasks.map Prod.snd).Nodup) (separate : ∀ first ∈ tasks, ∀ second ∈ tasks, first.2 ≠ second.1)
    {task : N × N} (member : task ∈ tasks) :
    tasks.foldl transform files task.2 = transformFile (files task.1) := by
  induction tasks generalizing files with
  | nil => cases member
  | cons first rest inductionHypothesis =>
      rw [List.map_cons, List.nodup_cons] at distinct
      have apart : (first.2 ≠ task.1) := separate first List.mem_cons_self task member
      rw [List.foldl_cons]
      rcases List.mem_cons.mp member with rfl | later
      · rw [foldl_transform_of_ne]
        · simp [transform, Function.update_of_ne apart.symm]
        · intro other isLater same
          exact distinct.1 (same ▸ List.mem_map_of_mem isLater)
      · rw [inductionHypothesis _ distinct.2 (fun one isOne two isTwo =>
          separate one (List.mem_cons_of_mem _ isOne) two (List.mem_cons_of_mem _ isTwo)) later]
        simp [transform, Function.update_of_ne apart.symm]

theorem transformAll_input (separate : Separate names) (files : N → List UInt8) (i : Fin n) :
    transformAll names files (names i).1 = files (names i).1 := by
  apply foldl_transform_of_ne
  intro task member
  obtain ⟨j, rfl⟩ := (List.mem_ofFn' names task).mp member
  exact separate.2 j i

theorem transformAll_output (separate : Separate names) (files : N → List UInt8) (i : Fin n) :
    transformAll names files (names i).2 = transformFile (files (names i).1) := by
  apply foldl_transform_of_mem
  · rw [List.map_ofFn]
    exact List.nodup_ofFn.mpr fun i j same => separate.1 i j same
  · intro first isFirst second isSecond
    obtain ⟨i, rfl⟩ := (List.mem_ofFn' names first).mp isFirst
    obtain ⟨j, rfl⟩ := (List.mem_ofFn' names second).mp isSecond
    exact separate.2 i j
  · exact (List.mem_ofFn' names _).mpr ⟨i, rfl⟩

/-- The sequential sum adds what the tasks add. -/
theorem seqSum_eq (separate : Separate names) (files : N → List UInt8) :
    seqSum names files = ∑ i, taskSum names (transformAll names files) i := by
  have each (i : Fin n) : countE (transformAll names files (names i).2) =
      taskSum names (transformAll names files) i := by
    rw [taskSum, transformAll_input separate, transformAll_output separate]
  rw [seqSum, List.map_ofFn, Finset.sum_eq_multiset_sum, Fin.univ_val_map]
  exact congrArg List.sum (congrArg List.ofFn (funext each))

end

end OSLabs.CountChars
