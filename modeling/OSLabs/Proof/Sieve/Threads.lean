import OSLabs.Proof.Sieve.Serial
import OSLabs.Proof.Spawn.Run
import Mathlib.Algebra.Order.BigOperators.Group.Finset

namespace OSLabs.Sieve

open Transition Spawn Buffer

section Places
variable {strides : List Nat} {maxNum num : Nat} {nums : List Char}

/-- What the array says at the places of a call with this argument. -/
def Place.Holds (maxNum num : Nat) (nums : List Char) : Place → Prop
  | .start n => n = num
  | .loop n current => n = num ∧ ∃ m, 2 ≤ m ∧ current = m * num ∧ Marked nums num current
  | .check n current | .print n current | .mark n current =>
      n = num ∧ current < maxNum ∧ ∃ m, 2 ≤ m ∧ current = m * num ∧ Marked nums num current
  | .finish n => n = num ∧ Marked nums num maxNum
  | .done => Marked nums num maxNum
  | .undefined => False

/-- The marks of other calls do no harm. -/
theorem Place.Holds.mono {place : Place} {after : List Char} (holds : place.Holds maxNum num nums)
    (kept : ∀ i : Nat, nums[i]? = some 'C' → after[i]? = some 'C') : place.Holds maxNum num after := by
  have marks {limit : Nat} (marked : Marked nums num limit) : Marked after num limit :=
    fun m least below => kept _ (marked m least below)
  cases place with
  | start n => exact holds
  | loop n current =>
      obtain ⟨same, m, least, isMultiple, marked⟩ := holds
      exact ⟨same, m, least, isMultiple, marks marked⟩
  | check n current | print n current | mark n current =>
      obtain ⟨same, inside, m, least, isMultiple, marked⟩ := holds
      exact ⟨same, inside, m, least, isMultiple, marks marked⟩
  | finish n => exact ⟨holds.1, marks holds.2⟩
  | done => exact marks holds
  | undefined => exact holds

/-- A bound for the steps that a call has still to make. -/
def Place.weight (maxNum : Nat) : Place → Nat
  | .start _ => 4 * maxNum + 4
  | .loop _ current => 4 * (maxNum - current) + 3
  | .check _ current => 4 * (maxNum - current) + 2
  | .print _ current => 4 * (maxNum - current) + 1
  | .mark _ current => 4 * (maxNum - current)
  | .finish _ => 1
  | .done | .undefined => 0

/-- What one step of a call promises. -/
structure Stepped (maxNum : Nat) (strides : List Nat) (num : Nat) (place : Place) (before : List Char)
    (after : Memory × Place) : Prop where
  sound : Sound maxNum strides after.1.nums
  kept : ∀ i : Nat, before[i]? = some 'C' → after.1.nums[i]? = some 'C'
  holds : after.2.Holds maxNum num after.1.nums
  lower : after.2.weight maxNum < place.weight maxNum

/-- A step that leaves the array alone. -/
theorem stepped_of_nums {place : Place} {after : Memory × Place} (sound : Sound maxNum strides nums)
    (same : after.1.nums = nums) (holds : after.2.Holds maxNum num nums)
    (lower : after.2.weight maxNum < place.weight maxNum) : Stepped maxNum strides num place nums after := by
  subst same
  exact ⟨sound, fun _ marked => marked, holds, lower⟩

/-- Each step of a call keeps the marks and what its place says, and it lowers the weight. -/
theorem Place.Holds.step {place : Place} {memory : Memory} {update : Memory → Memory × Place} {k : Nat}
    (holds : place.Holds maxNum num memory.nums) (sound : Sound maxNum strides memory.nums)
    (member : num ∈ strides)
    (positive : 1 ≤ num) (fits : Fits maxNum num) (instr : thread maxNum k place = .access update) :
    Stepped maxNum strides num place memory.nums (update memory) := by
  cases place with
  | start n =>
      obtain rfl : n = num := holds
      cases instr
      have next : advance n n = .loop n (2 * n) := by rw [advance, addLong_self_of_fits fits]
      simp only [next]
      apply stepped_of_nums sound rfl
      · exact ⟨rfl, 2, Nat.le_refl 2, rfl, marked_two _ _⟩
      · simp only [Place.weight]
        omega
  | loop n current =>
      obtain ⟨rfl, m, least, isMultiple, marked⟩ := holds
      cases instr
      apply stepped_of_nums sound rfl
      · dsimp only
        split
        · next again => exact ⟨rfl, again, m, least, isMultiple, marked⟩
        · next ended => exact ⟨rfl, marked.of_le (Nat.le_of_not_lt ended)⟩
      · dsimp only
        split
        · exact Nat.lt_succ_self _
        · simp only [Place.weight]
          omega
  | check n current =>
      have inside : current < memory.nums.length := sound.length.symm ▸ holds.2.1
      cases instr
      simp only [load_eq inside]
      split
      · exact stepped_of_nums sound rfl holds (Nat.lt_succ_self _)
      · exact stepped_of_nums sound rfl holds (Nat.lt_of_succ_lt (Nat.lt_succ_self _))
  | print n current =>
      cases instr
      exact stepped_of_nums sound rfl holds (Nat.lt_succ_self _)
  | mark n current =>
      obtain ⟨rfl, again, m, least, rfl, marked⟩ := holds
      have inside : m * n < memory.nums.length := sound.length.symm ▸ again
      have next : advance n (m * n) = .loop n ((m + 1) * n) := by
        rw [advance, addLong_of_fits fits positive again]
      cases instr
      simp only [store_eq inside, next]
      constructor
      · exact sound.set ⟨n, member, m, least, rfl⟩ again
      · exact fun i before => getElem?_set_mark before _
      · exact ⟨rfl, m + 1, Nat.le_succ_of_le least, rfl, marked.succ positive inside⟩
      · simp only [Place.weight, Nat.succ_mul]
        omega
  | finish n =>
      cases instr
      exact stepped_of_nums sound rfl holds.2 Nat.zero_lt_one
  | done => cases instr
  | undefined => cases instr

end Places

section Runs
variable {strides order : List Nat} {maxNum : Nat} {config next : State}

/-- The invariant of the threads. -/
structure Standing (maxNum : Nat) (strides order : List Nat) (config : State) : Prop where
  sound : Sound maxNum strides config.memory.nums
  calls : ∀ k num, order[k]? = some num →
    ∃ place, config.place k = some place ∧ place.Holds maxNum num config.memory.nums
  others : ∀ k, order[k]? = none → config.place k = none

theorem standing_threads (large : 2 ≤ maxNum) : Standing maxNum strides order (threads maxNum order) := by
  constructor
  · exact sound_potential large
  · intro k num isCall
    exact ⟨.start num, by simp [threads, isCall], rfl⟩
  · intro k none
    simp [threads, none]

/-- The steps that all calls have still to make. -/
def total (maxNum : Nat) (order : List Nat) (config : State) : Nat :=
  ∑ k ∈ Finset.range order.length, ((config.place k).map (Place.weight maxNum)).getD 0

section Moves
variable {k : Nat} (standing : Standing maxNum strides order config)
  (members : ∀ p ∈ order, p ∈ strides ∧ 1 ≤ p ∧ Fits maxNum p) (fired : fire (thread maxNum) config k = some next)
include standing members fired

/-- A move is a step of one of the calls. -/
theorem Standing.stepped : ∃ num place after, order[k]? = some num ∧ config.place k = some place ∧
    Stepped maxNum strides num place config.memory.nums after ∧
    next = (config.setMemory after.1).setPlace k after.2 := by
  obtain ⟨place, here, performed⟩ := exists_of_fire fired
  cases isCall : order[k]? with
  | none =>
      rw [standing.others k isCall] at here
      cases here
  | some num =>
      obtain ⟨member, positive, fits⟩ := members num (List.mem_of_getElem? isCall)
      obtain ⟨same, isThere, holds⟩ := standing.calls k num isCall
      obtain rfl : same = place := Option.some.inj (isThere.symm.trans here)
      cases instr : thread maxNum k same with
      | access update =>
          have stepped := holds.step standing.sound member positive fits instr
          exact ⟨num, same, update config.memory, rfl, here, stepped, eq_of_access here fired instr⟩
      | create other entry after => cases same <;> cases instr
      | join other after => cases same <;> cases instr
      | exit =>
          rw [instr] at performed
          cases performed

/-- A move keeps the invariant. -/
theorem Standing.step : Standing maxNum strides order next := by
  obtain ⟨num, place, after, isCall, here, stepped, rfl⟩ := standing.stepped members fired
  constructor
  · exact stepped.sound
  · intro j other isOther
    by_cases equal : j = k
    · subst equal
      obtain rfl : num = other := Option.some.inj (isCall.symm.trans isOther)
      exact ⟨after.2, Config.place_setPlace_self _ _ _, stepped.holds⟩
    · obtain ⟨there, isPlace, before⟩ := standing.calls j other isOther
      refine ⟨there, ?_, before.mono stepped.kept⟩
      rw [Config.setPlace_place, Function.update_of_ne equal, Config.setMemory_place, isPlace]
  · intro j none
    have different : j ≠ k := by
      rintro rfl
      rw [isCall] at none
      cases none
    rw [Config.setPlace_place, Function.update_of_ne different]
    exact standing.others j none

/-- A move lowers the number of steps. -/
theorem Standing.total_lt : total maxNum order next < total maxNum order config := by
  obtain ⟨num, place, after, isCall, here, stepped, rfl⟩ := standing.stepped members fired
  apply Finset.sum_lt_sum
  · intro j _
    by_cases equal : j = k
    · subst equal
      rw [Config.place_setPlace_self, here]
      exact Nat.le_of_lt stepped.lower
    · rw [Config.setPlace_place, Function.update_of_ne equal]
      exact Nat.le_refl _
  · apply Exists.intro k
    rw [Config.place_setPlace_self, here]
    exact ⟨Finset.mem_range.mpr (List.getElem?_eq_some_iff.mp isCall).1, stepped.lower⟩

end Moves

/-- As long as a call has not returned, its thread can move. -/
theorem Standing.progress (standing : Standing maxNum strides order config)
    (unfinished : ¬ Finished order config) :
    ∃ move next, Free config move ∧ fire (thread maxNum) config move = some next := by
  obtain ⟨k, inRange, running⟩ : ∃ k < order.length, config.place k ≠ some .done := by
    by_contra none
    apply unfinished
    intro k inRange
    by_contra running
    exact none ⟨k, inRange, running⟩
  obtain ⟨place, here, holds⟩ := standing.calls k order[k] (List.getElem?_eq_getElem inRange)
  apply Exists.intro k
  cases place with
  | done => exact absurd here running
  | undefined => exact holds.elim
  | _ => exact ⟨_, trivial, fire_access _ here rfl⟩

/-- When all calls have returned, all multiples of the strides are marked. -/
theorem Standing.marked (standing : Standing maxNum strides order config) (finished : Finished order config) :
    ∀ p ∈ order, Marked config.memory.nums p maxNum := by
  intro p member
  obtain ⟨k, inRange, rfl⟩ := List.getElem_of_mem member
  obtain ⟨place, here, holds⟩ := standing.calls k order[k] (List.getElem?_eq_getElem inRange)
  obtain rfl : Place.done = place := Option.some.inj ((finished k inRange).symm.trans here)
  exact holds

section Reached
variable (large : 2 ≤ maxNum) (allowed : ∀ p ∈ strides, 1 ≤ p ∧ Fits maxNum p) (permuted : order.Perm strides)
include allowed permuted

theorem members_of_perm : ∀ p ∈ order, p ∈ strides ∧ 1 ≤ p ∧ Fits maxNum p :=
  fun p member => ⟨permuted.subset member, allowed p (permuted.subset member)⟩

include large

/-- Every run keeps the invariant. -/
theorem standing_of_reachable (reached : Reachable (fire (thread maxNum)) Free (threads maxNum order) config) :
    Standing maxNum strides order config :=
  reached.invariant (Standing maxNum strides order) (standing_threads large)
    fun _ standing _ fired => standing.step (members_of_perm allowed permuted) fired

/-- In every interleaving the calls leave the same array. -/
theorem nums_of_finished (reached : Reachable (fire (thread maxNum)) Free (threads maxNum order) config)
    (finished : Finished order config) : config.memory.nums = sieved maxNum strides := by
  have standing := standing_of_reachable large allowed permuted reached
  exact standing.sound.eq_sieved fun p member => standing.marked finished p (permuted.symm.subset member)

/-- Every run can be continued until all calls have returned. -/
theorem exists_finished (reached : Reachable (fire (thread maxNum)) Free (threads maxNum order) config) :
    ∃ last, Reachable (fire (thread maxNum)) Free config last ∧ Finished order last := by
  apply reached.exists_finished (Finished order) (total maxNum order)
  · intro state next move before _ fired
    exact (standing_of_reachable large allowed permuted before).total_lt (members_of_perm allowed permuted) fired
  · intro state before unfinished
    exact (standing_of_reachable large allowed permuted before).progress unfinished

/-- No run has more steps than the calls together. -/
theorem length_le_total {history : List (State × Nat)}
    (reached : Run (fire (thread maxNum)) Free (threads maxNum order) history config) :
    history.length ≤ total maxNum order (threads maxNum order) := by
  have bounded := reached.length_add_le (total maxNum order) fun move before _ fired =>
    (standing_of_reachable large allowed permuted ⟨_, before⟩).total_lt (members_of_perm allowed permuted) fired
  exact Nat.le_trans (Nat.le_add_right _ _) bounded

end Reached

end Runs

/-- Behind the first loop of `main` the calls leave the same array, one after the other and in threads. -/
theorem sieved_of_initialise {maxNum : Nat} {strides : List Nat} (large : 2 ≤ maxNum) (small : maxNum < 2147483648)
    (allowed : ∀ p ∈ strides, 1 ≤ p ∧ Fits maxNum p) {order : List Nat} (permuted : order.Perm strides) :
    ∃ nums, initialise maxNum = some nums ∧
      (∃ memory, serial maxNum order ⟨nums, []⟩ = some memory ∧ memory.nums = sieved maxNum strides) ∧
      ∀ config, Reachable (fire (thread maxNum)) Free ⟨⟨nums, []⟩, fun k => order[k]?.map .start⟩ config →
        Finished order config → config.memory.nums = sieved maxNum strides :=
  ⟨potential maxNum, initialise_eq large small, exists_serial large allowed permuted,
    fun _ reached => nums_of_finished large allowed permuted reached⟩

/-- The calls leave the same array in every order and in every interleaving of their steps,
and it marks exactly the multiples of the strides.
After the strides 2, 3 and 5 the numbers that have no common divisor with 30 are left too. -/
theorem sieve_order_independent (maxNum : Nat) (large : 2 ≤ maxNum) (strides : List Nat)
    (allowed : ∀ p ∈ strides, 1 ≤ p ∧ Fits maxNum p) :
    ∃ final, OrderIndependent maxNum strides final ∧
      (strides.Perm [2, 3, 5] → ∀ i : Nat, final[i]? = some 'P' ↔ Left maxNum i) := by
  apply Exists.intro (sieved maxNum strides)
  constructor
  · constructor
    · intro order permuted
      exact exists_serial large allowed permuted
    · intro order permuted config reached
      exact ⟨nums_of_finished large allowed permuted reached, exists_finished large allowed permuted reached⟩
    · intro order permuted
      exact ⟨_, fun history config reached => length_le_total large allowed permuted reached⟩
    · simp [sieved]
    · exact fun i inside => getElem?_sieved_composite inside
  · exact fun permuted i => getElem?_sieved_prime permuted

/-- The calls of `main` are independent of their order. -/
theorem main_order_independent :
    ∃ final, OrderIndependent 50 [2, 3, 5] final ∧ ∀ i : Nat, final[i]? = some 'P' ↔ Left 50 i := by
  obtain ⟨final, independent, left⟩ := sieve_order_independent 50 (by decide) [2, 3, 5] (by decide)
  exact ⟨final, independent, left (List.Perm.refl _)⟩

/-- For the stride `2 ^ 62` the sum `num + num` is no `long`. -/
theorem overflowing_stride : serial 50 [4611686018427387904] ⟨potential 50, []⟩ = none ∧
    ¬ ∃ final, OrderIndependent 50 [4611686018427387904] final := by
  have undefined : serial 50 [4611686018427387904] ⟨potential 50, []⟩ = none := by
    simp [serial, sieveFor, addLong]
  constructor
  · exact undefined
  · rintro ⟨final, independent⟩
    obtain ⟨memory, ran, _⟩ := independent.serial [4611686018427387904] (List.Perm.refl _)
    rw [undefined] at ran
    cases ran

end OSLabs.Sieve
