import OSLabs.Construction.ThreadSort
import OSLabs.Proof.Buffer.Loops
import OSLabs.Proof.Spawn.Run

namespace OSLabs.ThreadSort

open Transition Spawn Buffer

variable {array : List Int} {data vals : Nat}

theorem getElem?_slice (array : List Int) (data vals index : Nat) :
    (slice array data vals)[index]? = if index < vals then array[data + index]? else none := by
  simp [slice, List.getElem?_take]

/-- A sort of a slice beyond the end of the array does nothing. -/
theorem sortInPlace_of_length_le (beyond : array.length ≤ data) : sortInPlace array data vals = array := by
  have rest : array.drop (data + vals) = [] := List.drop_eq_nil_of_le (by omega)
  simp [sortInPlace, slice, List.drop_eq_nil_of_le beyond, List.take_of_length_le beyond, rest]

/-- A sort in place changes nothing outside its slice. -/
theorem getElem?_sortInPlace {index : Nat} (outside : index < data ∨ data + vals ≤ index) :
    (sortInPlace array data vals)[index]? = array[index]? := by
  by_cases beyond : array.length ≤ data
  · rw [sortInPlace_of_length_le beyond]
  · have first : (array.take data).length = data := by
      rw [List.length_take]
      omega
    have sorted : ((slice array data vals).insertionSort (· ≤ ·)).length = min vals (array.length - data) := by
      rw [List.length_insertionSort, length_slice]
    rcases outside with before | after
    · rw [sortInPlace, List.append_assoc, List.getElem?_append_left (by omega), List.getElem?_take, if_pos before]
    · rw [sortInPlace, List.append_assoc, List.getElem?_append_right (by omega), first,
        List.getElem?_append_right (by omega), sorted, List.getElem?_drop]
      by_cases inside : index < array.length
      · congr 1
        omega
      · rw [List.getElem?_eq_none (by omega), List.getElem?_eq_none (by omega)]

theorem slice_sortInPlace (array : List Int) (data vals : Nat) :
    slice (sortInPlace array data vals) data vals = (slice array data vals).insertionSort (· ≤ ·) := by
  by_cases beyond : array.length ≤ data
  · rw [sortInPlace_of_length_le beyond, slice, List.drop_eq_nil_of_le beyond, List.take_nil]
    simp
  · have first : (array.take data).length = data := by
      rw [List.length_take]
      omega
    have sorted : ((slice array data vals).insertionSort (· ≤ ·)).length = min vals (array.length - data) := by
      rw [List.length_insertionSort, length_slice]
    rw [slice, sortInPlace, List.append_assoc, List.drop_left' first]
    by_cases full : data + vals ≤ array.length
    · rw [List.take_left']
      omega
    · rw [List.drop_eq_nil_of_le (by omega), List.append_nil, List.take_of_length_le]
      omega

/-- A sort of one slice leaves every other slice as it is. -/
theorem slice_sortInPlace_of_ne {first second : Nat} (different : first ≠ second) (array : List Int) (vals : Nat) :
    slice (sortInPlace array (second * vals) vals) (first * vals) vals = slice array (first * vals) vals := by
  apply List.ext_getElem?
  intro index
  rw [getElem?_slice, getElem?_slice]
  split
  · apply getElem?_sortInPlace
    rcases Nat.lt_or_gt_of_ne different with before | after
    · have room : (first + 1) * vals ≤ second * vals := Nat.mul_le_mul_right vals before
      rw [Nat.add_one_mul] at room
      omega
    · have room : (second + 1) * vals ≤ first * vals := Nat.mul_le_mul_right vals after
      rw [Nat.add_one_mul] at room
      omega
  · rfl

/-- The three routines are sorts in place. -/
theorem dispatch_eq {currentSort : Nat} (known : currentSort < 3) (array : List Int) (data vals : Nat) :
    dispatch currentSort array data vals = sortInPlace array data vals := by
  match currentSort, known with
  | 0, _ | 1, _ | 2, _ => rfl

/-- The slice is a permutation of what it held at the start, and it is unchanged or in ascending order. -/
def Rearranged (initial array : List Int) (data vals : Nat) : Prop :=
  (slice array data vals).Perm (slice initial data vals) ∧
    (slice array data vals = slice initial data vals ∨ (slice array data vals).Pairwise (· ≤ ·))

/-- A sort of one slice keeps all slices rearranged. -/
theorem Rearranged.sortInPlace {initial : List Int} {first second : Nat}
    (rearranged : Rearranged initial array (first * vals) vals) :
    Rearranged initial (sortInPlace array (second * vals) vals) (first * vals) vals := by
  by_cases same : first = second
  · subst same
    rw [Rearranged, slice_sortInPlace]
    exact ⟨(List.perm_insertionSort _ _).trans rearranged.1, .inr (List.pairwise_insertionSort _ _)⟩
  · rw [Rearranged, slice_sortInPlace_of_ne same]
    exact rearranged

/-- A sorted slice stays sorted when any slice is sorted. -/
theorem pairwise_sortInPlace {first second : Nat} (sorted : (slice array (first * vals) vals).Pairwise (· ≤ ·)) :
    (slice (sortInPlace array (second * vals) vals) (first * vals) vals).Pairwise (· ≤ ·) := by
  by_cases same : first = second
  · subst same
    rw [slice_sortInPlace]
    exact List.pairwise_insertionSort _ _
  · rwa [slice_sortInPlace_of_ne same]

/-- The number of threads that main has created. -/
def MainPlace.created (n : Nat) : MainPlace → Nat
  | .createLoop i | .setCurrent i | .setData i | .create i => i
  | .joinLoop _ | .done => n

/-- The slice to which `information` points. -/
def MainPlace.pointed (n : Nat) : MainPlace → Nat
  | .createLoop i | .setCurrent i | .setData i => i - 1
  | .create i => i
  | .joinLoop _ | .done => n - 1

/-- The number of threads that main has joined. -/
def MainPlace.joined (n : Nat) : MainPlace → Nat
  | .joinLoop k => k
  | .done => n
  | _ => 0

/-- Main is inside the body of the creation loop. -/
def MainPlace.inLoop : MainPlace → Option Nat
  | .setCurrent i | .setData i | .create i => some i
  | _ => none

section
variable {n v : Nat} {initial : List Int} {config next : State n} {chosen : Fin n → Nat → Prop}

/-- What thread `i` may have read and done, where `chosen` says which slices it may have read. -/
def Fits (v : Nat) (chosen : Fin n → Nat → Prop) (memory : Memory) (i : Fin n) : DispatchPlace → Prop
  | .readCurrent => ∃ k, chosen i k ∧ memory.information.data = k * v
  | .readData currentSort => currentSort < 3 ∧ ∃ k, chosen i k ∧ memory.information.data = k * v
  | .readVals currentSort dataArray => currentSort < 3 ∧ ∃ k, chosen i k ∧ dataArray = k * v
  | .sort currentSort dataArray valsPerThread =>
      currentSort < 3 ∧ valsPerThread = v ∧ ∃ k, chosen i k ∧ dataArray = k * v
  | .done dataArray => ∃ k, chosen i k ∧ dataArray = k * v ∧ (slice memory.dataArray (k * v) v).Pairwise (· ≤ ·)

/-- Main has reached this place. -/
structure MainStanding (v : Nat) (config : State n) (place : MainPlace) : Prop where
  here : config.place none = some (.main place)
  bound : place.created n ≤ n
  inLoop : ∀ i, place.inLoop = some i → i < n
  current : config.memory.information.current < 3
  vals : config.memory.information.vals = v
  data : config.memory.information.data = place.pointed n * v
  created : ∀ i : Fin n, (config.place (some i)).isSome = true ↔ i.val < place.created n
  joined : ∀ i : Fin n, i.val < place.joined n →
    ∃ dataArray, config.place (some i) = some (.dispatch (.done dataArray))

/-- The invariant of the threads. -/
structure Standing (v : Nat) (chosen : Fin n → Nat → Prop) (initial : List Int) (config : State n) : Prop where
  main : ∃ place, MainStanding v config place
  threads : ∀ i place, config.place (some i) = some place →
    ∃ there, place = .dispatch there ∧ Fits v chosen config.memory i there
  slices : ∀ k, Rearranged initial config.memory.dataArray (k * v) v

/-- What a thread may have read and done depends only on the pointer and on the sorted slices. -/
theorem Fits.of_memory {memory after : Memory} {i : Fin n} {place : DispatchPlace}
    (fits : Fits v chosen memory i place)
    (data : place.unread = true → ∃ k, chosen i k ∧ after.information.data = k * v)
    (sorted : ∀ k, (slice memory.dataArray (k * v) v).Pairwise (· ≤ ·) →
      (slice after.dataArray (k * v) v).Pairwise (· ≤ ·)) : Fits v chosen after i place := by
  cases place with
  | readCurrent => exact data rfl
  | readData currentSort => exact ⟨fits.1, data rfl⟩
  | readVals | sort => exact fits
  | done dataArray =>
      obtain ⟨k, chosen, pointer, ordered⟩ := fits
      exact ⟨k, chosen, pointer, sorted k ordered⟩

/-- A thread that has not read the pointer may read the slice to which it points. -/
theorem Fits.pointer {memory : Memory} {i : Fin n} {place : DispatchPlace} (fits : Fits v chosen memory i place)
    (unread : place.unread = true) : ∃ k, chosen i k ∧ memory.information.data = k * v := by
  cases place with
  | readCurrent => exact fits
  | readData currentSort => exact fits.2
  | readVals | sort | done => cases unread

/-- A thread that moves and leaves `information` alone keeps the invariant. -/
theorem Standing.move (standing : Standing v chosen initial config) {i : Fin n} {there after : DispatchPlace}
    (here : config.place (some i) = some (.dispatch there)) (runs : ∀ dataArray, there ≠ .done dataArray)
    {array : List Int}
    (slices : ∀ k, Rearranged initial config.memory.dataArray (k * v) v → Rearranged initial array (k * v) v)
    (sorted : ∀ k, (slice config.memory.dataArray (k * v) v).Pairwise (· ≤ ·) →
      (slice array (k * v) v).Pairwise (· ≤ ·))
    (fits : Fits v chosen { config.memory with dataArray := array } i after) :
    Standing v chosen initial
      ((config.setMemory { config.memory with dataArray := array }).setPlace (some i) (.dispatch after)) := by
  refine ⟨?_, ?_, fun k => slices k (standing.slices k)⟩
  · obtain ⟨place, main⟩ := standing.main
    refine ⟨place, by simpa using main.here, main.bound, main.inLoop, main.current, main.vals, main.data, ?_, ?_⟩
    · intro other
      by_cases same : other = i
      · subst same
        rw [← main.created other, here]
        simp
      · simpa [Function.update_of_ne, same] using main.created other
    · intro other isJoined
      obtain ⟨dataArray, done⟩ := main.joined other isJoined
      have different : other ≠ i := by
        rintro rfl
        rw [here] at done
        exact runs dataArray (by simpa using done)
      exact ⟨dataArray, by simpa [Function.update_of_ne, different] using done⟩
  · intro other place there
    by_cases same : other = i
    · subst same
      obtain rfl : Place.dispatch after = place := by simpa using there
      exact ⟨after, rfl, fits⟩
    · obtain ⟨inner, rfl, before⟩ :=
        standing.threads other place (by simpa [Function.update_of_ne, same] using there)
      exact ⟨inner, rfl, before.of_memory before.pointer sorted⟩

/-- A step of `thread_dispatch` keeps the invariant. -/
theorem Standing.dispatch_step (standing : Standing v chosen initial config) {i : Fin n} {there : DispatchPlace}
    (here : config.place (some i) = some (.dispatch there)) (fired : fire (code v) config (some i) = some next) :
    Standing v chosen initial next := by
  obtain ⟨place, main⟩ := standing.main
  obtain ⟨inner, same, fits⟩ := standing.threads i _ here
  obtain rfl : there = inner := by simpa using same
  cases there with
  | readCurrent =>
      obtain rfl := eq_of_access here fired rfl
      exact standing.move here (fun _ same => by cases same) (fun _ => id) (fun _ => id) ⟨main.current, fits⟩
  | readData currentSort =>
      obtain rfl := eq_of_access here fired rfl
      exact standing.move here (fun _ same => by cases same) (fun _ => id) (fun _ => id) fits
  | readVals currentSort dataArray =>
      obtain rfl := eq_of_access here fired rfl
      exact standing.move here (fun _ same => by cases same) (fun _ => id) (fun _ => id) ⟨fits.1,
        main.vals, fits.2⟩
  | sort currentSort dataArray valsPerThread =>
      obtain rfl := eq_of_access here fired rfl
      obtain ⟨known, rfl, k, isChosen, rfl⟩ := fits
      simp only [dispatch_eq known]
      refine standing.move here (fun _ same => by cases same) (fun _ => Rearranged.sortInPlace)
        (fun _ => pairwise_sortInPlace) ⟨k, isChosen, rfl, ?_⟩
      rw [slice_sortInPlace]
      exact List.pairwise_insertionSort _ _
  | done dataArray => simp [fire, here, code, threadDispatch, perform] at fired

/-- Main keeps the invariant when it moves on with the same threads and still points to an allowed slice. -/
theorem Standing.advance (standing : Standing v chosen initial config) {place after : MainPlace}
    {information : SortData}
    (main : MainStanding v config place)
    (created : after.created n = place.created n) (inLoop : ∀ i, after.inLoop = some i → i < n)
    (current : information.current < 3) (vals : information.vals = v)
    (data : information.data = after.pointed n * v)
    (joined : ∀ i : Fin n, i.val < after.joined n →
      ∃ dataArray, config.place (some i) = some (.dispatch (.done dataArray)))
    (unread : ∀ i there, config.place (some i) = some (.dispatch there) → there.unread = true →
      ∃ k, chosen i k ∧ information.data = k * v) :
    Standing v chosen initial
      ((config.setMemory { config.memory with information := information }).setPlace none (.main after)) := by
  refine ⟨⟨after, by simp, by simpa [created] using main.bound, inLoop, current, vals, data, ?_, ?_⟩, ?_,
    standing.slices⟩
  · intro i
    simpa [created] using main.created i
  · intro i isJoined
    simpa using joined i isJoined
  · intro i place there
    have before : config.place (some i) = some place := by simpa using there
    obtain ⟨inner, rfl, fits⟩ := standing.threads i place before
    exact ⟨inner, rfl, fits.of_memory (unread i inner before) fun _ => id⟩

/-- Main creates the next thread, which may read the slice that main points to. -/
theorem Standing.create_dispatch (standing : Standing v chosen initial config) {i : Nat}
    (main : MainStanding v config (.create i)) (inRange : i < n) (own : chosen ⟨i, inRange⟩ i) :
    Standing v chosen initial
      ((config.setPlace (some ⟨i, inRange⟩) (.dispatch .readCurrent)).setPlace none
        (.main (.createLoop (i + 1)))) := by
  refine ⟨⟨.createLoop (i + 1), by simp, inRange, (fun _ inside => by cases inside), main.current, main.vals,
    ?_, ?_, ?_⟩, ?_, standing.slices⟩
  · simpa [MainPlace.pointed] using main.data
  · intro j
    have before := main.created j
    simp only [MainPlace.created] at before ⊢
    by_cases same : j = ⟨i, inRange⟩
    · subst same
      simp
    · have different : j.val ≠ i := fun equal => same (Fin.ext equal)
      simp [Function.update_of_ne, same, before]
      omega
  · intro j isJoined
    simp [MainPlace.joined] at isJoined
  · intro j place there
    by_cases same : j = ⟨i, inRange⟩
    · subst same
      obtain rfl : Place.dispatch .readCurrent = place := by simpa using there
      exact ⟨_, rfl, i, own, main.data⟩
    · exact standing.threads j place (by simpa [Function.update_of_ne, same] using there)

/-- A thread that has returned is done. -/
theorem Standing.done_of_returned (standing : Standing v chosen initial config) {i : Fin n}
    (returned : config.returned (code v) (some i) = true) :
    ∃ dataArray, config.place (some i) = some (.dispatch (.done dataArray)) := by
  obtain ⟨place, there, exits⟩ := exists_of_returned returned
  obtain ⟨inner, rfl, _⟩ := standing.threads i place there
  cases inner with
  | done dataArray => exact ⟨dataArray, there⟩
  | _ => cases exits

/-- A step of `main` keeps the invariant, provided that a thread which has not read the pointer may read every
slice to which main sets the pointer. -/
theorem Standing.main_step (standing : Standing v chosen initial config) (own : ∀ i : Fin n, chosen i i.val)
    (later : ∀ i j there, config.place none = some (.main (.setData i)) → i < n → j.val < i →
      config.place (some j) = some (.dispatch there) → there.unread = true → chosen j i)
    (fired : fire (code v) config none = some next) : Standing v chosen initial next := by
  obtain ⟨place, main⟩ := standing.main
  have here := main.here
  have pointer (i : Fin n) (there : DispatchPlace) (created : config.place (some i) = some (.dispatch there))
      (unread : there.unread = true) : ∃ k, chosen i k ∧ config.memory.information.data = k * v := by
    obtain ⟨inner, same, fits⟩ := standing.threads i _ created
    obtain rfl : there = inner := by simpa using same
    exact fits.pointer unread
  cases place with
  | createLoop i =>
      obtain rfl := eq_of_access here fired rfl
      by_cases inRange : i < n
      · simp only [inRange, ↓reduceIte]
        exact standing.advance main rfl (fun _ same => by simp_all [MainPlace.inLoop])
          main.current main.vals main.data
          (fun j isJoined => by simp [MainPlace.joined] at isJoined) pointer
      · have bound : i ≤ n := main.bound
        obtain rfl : i = n := by omega
        simp only [inRange, ↓reduceIte]
        exact standing.advance main rfl (fun _ inside => by cases inside) main.current main.vals main.data
          (fun j isJoined => by simp [MainPlace.joined] at isJoined) pointer
  | setCurrent i =>
      obtain rfl := eq_of_access here fired rfl
      exact standing.advance main rfl (fun _ => main.inLoop _) (Nat.mod_lt _ (by decide)) main.vals main.data
        (fun j isJoined => by simp [MainPlace.joined] at isJoined) pointer
  | setData i =>
      obtain rfl := eq_of_access here fired rfl
      refine standing.advance main rfl (fun _ => main.inLoop _) main.current main.vals rfl
        (fun j isJoined => by simp [MainPlace.joined] at isJoined) fun j there created unread => ⟨i, ?_, rfl⟩
      have before : j.val < i := (main.created j).mp (by simp [created])
      exact later i j there here (main.inLoop i rfl) before created unread
  | create i =>
      have inRange : i < n := main.inLoop i rfl
      have instr : code (n := n) v none (.main (.create i)) =
          .create (some ⟨i, inRange⟩) (.dispatch .readCurrent) (.main (.createLoop (i + 1))) := by
        simp [code, OSLabs.ThreadSort.main, inRange]
      obtain rfl := eq_of_create here fired instr
      exact standing.create_dispatch main inRange (own ⟨i, inRange⟩)
  | joinLoop k =>
      by_cases inRange : k < n
      · have instr : code (n := n) v none (.main (.joinLoop k)) =
            .join (some ⟨k, inRange⟩) (.main (.joinLoop (k + 1))) := by
          simp [code, OSLabs.ThreadSort.main, inRange]
        obtain ⟨returned, rfl⟩ := returned_of_join here fired instr
        refine standing.advance main rfl (fun _ inside => by cases inside) main.current main.vals
          main.data ?_ pointer
        intro j isJoined
        by_cases last : j.val = k
        · obtain rfl : j = ⟨k, inRange⟩ := Fin.ext last
          exact standing.done_of_returned returned
        · have isBefore : j.val < k + 1 := isJoined
          exact main.joined j (show j.val < k by omega)
      · have instr : code (n := n) v none (.main (.joinLoop k)) = .access fun memory => (memory, .main .done) := by
          simp [code, OSLabs.ThreadSort.main, inRange]
        obtain rfl := eq_of_access here fired instr
        refine standing.advance main rfl (fun _ inside => by cases inside) main.current main.vals
          main.data ?_ pointer
        intro j _
        exact main.joined j (show j.val < k by omega)
  | done => simp [fire, here, code, OSLabs.ThreadSort.main, perform] at fired

/-- Every reachable configuration meets the invariant. -/
theorem standing {allowed : State n → Thread n → Prop} (own : ∀ i : Fin n, chosen i i.val)
    (later : ∀ config i j there, allowed config none → config.place none = some (.main (.setData i)) → i < n →
      j.val < i → config.place (some j) = some (.dispatch there) → there.unread = true → chosen j i)
    (reached : Reachable (fire (code v)) allowed (start v initial) config) : Standing v chosen initial config := by
  refine reached.invariant (Standing v chosen initial) ?_ ?_
  · refine ⟨⟨.createLoop
      0, by simp [start], Nat.zero_le n, (fun _ inside => by cases inside), Nat.zero_lt_succ 2, rfl,
      ?_, ?_, ?_⟩, ?_, ?_⟩
    · simp [start, MainPlace.pointed]
    · intro i
      simp [start, MainPlace.created]
    · intro i isJoined
      simp [MainPlace.joined] at isJoined
    · intro i place there
      simp [start] at there
    · exact fun k => ⟨.refl _, .inl rfl⟩
  · intro config next thread holds permitted fired
    cases thread with
    | none => exact holds.main_step own (fun i j there => later config i j there permitted) fired
    | some i =>
        obtain ⟨place, here, _⟩ := exists_of_fire fired
        obtain ⟨inner, rfl, _⟩ := holds.threads i place here
        exact holds.dispatch_step here fired

/-- After the joins every thread has sorted one of the slices that it may have read. -/
theorem Standing.sorted (standing : Standing v chosen initial config)
    (done : config.place none = some (.main .done))
    (i : Fin n) : ∃ k, chosen i k ∧ (slice config.memory.dataArray (k * v) v).Pairwise (· ≤ ·) := by
  obtain ⟨place, main⟩ := standing.main
  obtain rfl : place = .done := by simpa [main.here] using done
  obtain ⟨dataArray, returned⟩ := main.joined i i.isLt
  obtain ⟨inner, same, fits⟩ := standing.threads i _ returned
  obtain rfl : DispatchPlace.done dataArray = inner := by simpa using same
  obtain ⟨k, isChosen, _, ordered⟩ := fits
  exact ⟨k, isChosen, ordered⟩

/-- Where main waits for its threads, each thread reads its own slice. -/
theorem standing_of_settled (reached : Reachable (fire (code v)) Settled (start v initial) config) :
    Standing v (fun i k => k = i.val) initial config := by
  refine standing (fun _ => rfl) ?_ reached
  intro config i j there settled here _ _ created unread
  have read := settled i _ here (some j) created
  rw [Place.unread, unread] at read
  cases read

/-- In every run a thread reads its own slice or that of a thread created later. -/
theorem standing_of_reachable (reached : Reachable (fire (code v)) Free (start v initial) config) :
    Standing v (fun i k => i.val ≤ k ∧ k < n) initial config :=
  standing (fun i => ⟨le_rfl, i.isLt⟩) (fun _ _ _ _ _ _ inRange before _ _ => ⟨before.le, inRange⟩) reached

/-- The last slice is always sorted, so a run is right when the other slices were in order from the start. -/
theorem slicesSorted_of_pairwise (ordered : ∀ i, i + 1 < n → (slice initial (i * v) v).Pairwise (· ≤ ·))
    (reached : Reachable (fire (code v)) Free (start v initial) config)
    (done : config.place none = some (.main .done)) :
    SlicesSorted n v initial config.memory.dataArray := by
  have standing := standing_of_reachable reached
  intro i inRange
  refine ⟨?_, (standing.slices i).1⟩
  by_cases last : i + 1 < n
  · rcases (standing.slices i).2 with same | sorted
    · rw [same]
      exact ordered i last
    · exact sorted
  · obtain ⟨k, ⟨first, second⟩, sorted⟩ := standing.sorted done ⟨i, inRange⟩
    have first : i ≤ k := first
    obtain rfl : i = k := by omega
    exact sorted

end

section
variable {n : Nat} (v : Nat) (initial : List Int)

/-- Main has created `k` threads and none of them has moved. -/
def createdOnly (k : Nat) : State n where
  memory := ⟨⟨(k - 1) % 3, v, (k - 1) * v⟩, initial⟩
  place
    | none => some (.main (.createLoop k))
    | some i => if i.val < k then some (.dispatch .readCurrent) else none

theorem reachable_createdOnly (k : Nat) (bound : k ≤ n) :
    Reachable (fire (code v)) Free (start v initial) (createdOnly (n := n) v initial k) := by
  induction k with
  | zero =>
      have same : createdOnly (n := n) v initial 0 = start v initial := by
        apply Config.eq_of
        · simp [createdOnly, start]
        · intro thread
          cases thread <;> simp [createdOnly, start]
      rw [same]
      exact .refl
  | succ k inductionHypothesis =>
      have inRange : k < n := bound
      have tested := (inductionHypothesis inRange.le).step none trivial
        (fire_access (.main (.createLoop k)) rfl rfl)
      have counted := tested.step none trivial
        (fire_access (.main (.setCurrent k)) (by simp [inRange]) rfl)
      have pointed := counted.step none trivial (fire_access (.main (.setData k)) (by simp) rfl)
      have created := pointed.step none trivial
        (fire_create (.main (.create k)) (by simp) (by simp only [code, main, inRange, ↓reduceDIte]; rfl))
      convert created using 1
      apply Config.eq_of
      · simp [createdOnly]
      · intro thread
        cases thread with
        | none => simp [createdOnly]
        | some i =>
            by_cases same : i = ⟨k, inRange⟩
            · subst same
              simp [createdOnly]
            · have different : i.val ≠ k := fun equal => same (Fin.ext equal)
              simp only [createdOnly, Config.setPlace_place, Config.setMemory_place, Function.update_of_ne,
                ne_eq, Option.some.injEq,
                reduceCtorEq, same, not_false_eq_true]
              exact if_congr (by omega) rfl rfl

/-- The first `k` threads have sorted the last slice and the others have not moved. -/
def sortedLast (k : Nat) : State n where
  memory := ⟨⟨(n - 1) % 3, v, (n - 1) * v⟩, (fun array => sortInPlace array ((n - 1) * v) v)^[k] initial⟩
  place
    | none => some (.main (.joinLoop 0))
    | some i => if i.val < k then some (.dispatch (.done ((n - 1) * v))) else some (.dispatch .readCurrent)

theorem reachable_sortedLast (k : Nat) (bound : k ≤ n) :
    Reachable (fire (code v)) Free (start v initial) (sortedLast (n := n) v initial k) := by
  induction k with
  | zero =>
      have tested := (reachable_createdOnly v initial n le_rfl).step none trivial
        (fire_access (.main (.createLoop n)) rfl rfl)
      convert tested using 1
      apply Config.eq_of
      · simp [createdOnly, sortedLast]
      · intro thread
        cases thread <;> simp [createdOnly, sortedLast]
  | succ k inductionHypothesis =>
      have inRange : k < n := bound
      have first := (inductionHypothesis inRange.le).step (some ⟨k, inRange⟩) trivial
        (fire_access (.dispatch .readCurrent) (by simp [sortedLast]) rfl)
      have second := first.step (some ⟨k, inRange⟩) trivial
        (fire_access (.dispatch (.readData ((n - 1) % 3))) (by simp [sortedLast]) rfl)
      have third := second.step (some ⟨k, inRange⟩) trivial
        (fire_access (.dispatch (.readVals ((n - 1) % 3) ((n - 1) * v))) (by simp [sortedLast]) rfl)
      have fourth := third.step (some ⟨k, inRange⟩) trivial
        (fire_access (.dispatch (.sort ((n - 1) % 3) ((n - 1) * v) v)) (by simp [sortedLast]) rfl)
      convert fourth using 1
      apply Config.eq_of
      · simp [sortedLast, dispatch_eq (Nat.mod_lt (n - 1) (by decide : 0 < 3)), Function.iterate_succ_apply']
      · intro thread
        cases thread with
        | none => simp [sortedLast]
        | some i =>
            by_cases same : i = ⟨k, inRange⟩
            · subst same
              simp [sortedLast]
            · have different : i.val ≠ k := fun equal => same (Fin.ext equal)
              simp only [sortedLast, Config.setPlace_place, Config.setMemory_place, Function.update_of_ne,
                ne_eq, Option.some.injEq,
                same, not_false_eq_true]
              exact if_congr (by omega) rfl rfl

theorem reachable_joined (k : Nat) (bound : k ≤ n) :
    Reachable (fire (code v)) Free (start v initial)
      ((sortedLast (n := n) v initial n).setPlace none (.main (.joinLoop k))) := by
  induction k with
  | zero =>
      convert reachable_sortedLast (n := n) v initial n le_rfl using 1
      apply Config.eq_of
      · rfl
      · intro thread
        cases thread <;> simp [sortedLast]
  | succ k inductionHypothesis =>
      have inRange : k < n := bound
      have joined := (inductionHypothesis inRange.le).step none trivial
        (fire_join (.main (.joinLoop k)) (by simp)
          (by simp only [code, main, inRange, ↓reduceDIte]; rfl)
          (by simp [Config.returned, sortedLast, code, threadDispatch, Instr.isExit]))
      simpa [Config.setPlace] using joined

/-- Main can create all threads before one of them reads, and then only the last slice is sorted. -/
theorem exists_unsorted : ∃ config : State n, Reachable (fire (code v)) Free (start v initial) config ∧
    config.place none = some (.main .done) ∧
      ∀ i, i + 1 < n → slice config.memory.dataArray (i * v) v = slice initial (i * v) v := by
  have ended := (reachable_joined (n := n) v initial n le_rfl).step none trivial
    (fire_access (.main (.joinLoop n)) (by simp)
      (by simp only [code, main, lt_irrefl, ↓reduceDIte]; rfl))
  refine ⟨_, ended, by simp, ?_⟩
  intro i before
  have unchanged (k : Nat) : slice ((fun array => sortInPlace array ((n - 1) * v) v)^[k] initial) (i * v) v =
      slice initial (i * v) v := by
    induction k with
    | zero => rfl
    | succ k inductionHypothesis =>
        rw [Function.iterate_succ_apply', slice_sortInPlace_of_ne (by omega), inductionHypothesis]
  exact unchanged n

end

/-- In every run in which main overwrites the pointer only after every created thread has read it, all slices are
sorted after the joins.
They are sorted in all runs if and only if every slice but the last is in ascending order from the start.
Here each call of the sort is one step: two threads that sort the same slice do it one after the other. -/
theorem slices_sorted (n vals : Nat) (dataArray : List Int) :
    (∀ config : State n, Reachable (fire (code vals)) Settled (start vals dataArray) config →
      config.place none = some (.main .done) → SlicesSorted n vals dataArray config.memory.dataArray) ∧
    ((∀ config : State n, Reachable (fire (code vals)) Free (start vals dataArray) config →
      config.place none = some (.main .done) → SlicesSorted n vals dataArray config.memory.dataArray) ↔
      ∀ i, i + 1 < n → (slice dataArray (i * vals) vals).Pairwise (· ≤ ·)) := by
  refine ⟨fun config reached done i inRange => ?_, fun sorted i before => ?_,
    fun ordered config reached done => ?_⟩
  · have standing := standing_of_settled reached
    obtain ⟨k, own, sorted⟩ := standing.sorted done ⟨i, inRange⟩
    obtain rfl : k = i := own
    exact ⟨sorted, (standing.slices k).1⟩
  · obtain ⟨config, reached, done, unchanged⟩ := exists_unsorted (n := n) vals dataArray
    rw [← unchanged i before]
    exact (sorted config reached done i (Nat.lt_of_succ_lt before)).1
  · exact slicesSorted_of_pairwise ordered reached done

/-- Three threads that read the pointer only after main has created all of them sort the last slice three times. -/
theorem first_slice_unsorted : ∃ config : State 3,
    Reachable (fire (code 2)) Free (start 2 (reversed 6)) config ∧ config.place none = some (.main .done) ∧
      config.memory.dataArray = [6, 5, 4, 3, 1, 2] ∧ ¬ SlicesSorted 3 2 (reversed 6) config.memory.dataArray := by
  obtain ⟨config, reached, holds⟩ := exists_reachable (fire (code 2)) Free (start (n := 3) 2 (reversed 6))
    (List.replicate 13 none ++ List.replicate 4 (some 0) ++ List.replicate 4 (some 1) ++
      List.replicate 4 (some 2) ++
      List.replicate 4 none)
    (fun config => decide (config.place none = some (.main .done)) &&
      decide (config.memory.dataArray = [6, 5, 4, 3, 1, 2])) (by decide)
  rw [Bool.and_eq_true, decide_eq_true_eq, decide_eq_true_eq] at holds
  refine ⟨config, reached, holds.1, holds.2, fun sorted => ?_⟩
  have ascending := (sorted 0 (by decide)).1
  rw [holds.2] at ascending
  revert ascending
  decide

end OSLabs.ThreadSort
