import OSLabs.Proof.Sieve.Marks

namespace OSLabs.Sieve

open Buffer

variable {strides : List Nat} {maxNum num : Nat} {before : List Char}

/-- The array and `current` after some rounds of the loop of a call. -/
structure Rounds (maxNum : Nat) (strides : List Nat) (before : List Char) (num : Nat) (state : Memory × Nat) :
    Prop where
  sound : Sound maxNum strides state.1.nums
  kept : ∀ i : Nat, before[i]? = some 'C' → state.1.nums[i]? = some 'C'
  current : ∃ m, 2 ≤ m ∧ state.2 = m * num
  marked : Marked state.1.nums num state.2

/-- A round marks the next multiple. -/
theorem Rounds.step {state : Memory × Nat} (rounds : Rounds maxNum strides before num state)
    (member : num ∈ strides)
    (positive : 1 ≤ num) (fits : Fits maxNum num) (again : state.2 < maxNum) :
    Ensures (round num state) fun next => Rounds maxNum strides before num next ∧
      maxNum - next.2 < maxNum - state.2 := by
  obtain ⟨⟨nums, output⟩, current⟩ := state
  obtain ⟨m, least, rfl⟩ := rounds.current
  have sound : Sound maxNum strides nums := rounds.sound
  have inside : m * num < nums.length := sound.length.symm ▸ again
  have crossed : Crossed strides (m * num) := ⟨num, member, m, least, rfl⟩
  have same (mark : Char) :
    (if mark ≠ 'C' then (⟨nums, output⟩ : Memory).print (.found num (m * num)) else ⟨nums, output⟩).nums =
      nums := by split <;> rfl
  simp only [round, load_eq inside, Option.bind_eq_bind, Option.bind_some, same, store_eq inside,
    addLong_of_fits fits positive again]
  apply ensures_some
  constructor
  · constructor
    · exact sound.set crossed again
    · intro i marked
      exact getElem?_set_mark (rounds.kept i marked) _
    · exact ⟨m + 1, Nat.le_succ_of_le least, rfl⟩
    · exact rounds.marked.succ positive inside
  · dsimp only at again ⊢
    rw [Nat.succ_mul]
    omega

/-- A call marks all multiples of its stride. -/
theorem ensures_sieveFor {memory : Memory} (sound : Sound maxNum strides memory.nums) (member : num ∈ strides)
    (positive : 1 ≤ num) (fits : Fits maxNum num) :
    Ensures (sieveFor maxNum num memory) fun after => Sound maxNum strides after.nums ∧
      (∀ i : Nat, memory.nums[i]? = some 'C' → after.nums[i]? = some 'C') ∧ Marked after.nums num maxNum := by
  have first : Rounds maxNum strides memory.nums num (memory.print (.starting num), 2 * num) :=
    ⟨sound, fun _ marked => marked, ⟨2, Nat.le_refl 2, rfl⟩, marked_two _ _⟩
  have loop := @ensures_whileLoop _ (fun state => decide (state.2 < maxNum)) (round num)
    (Rounds maxNum strides memory.nums num) (fun state => maxNum - state.2) maxNum _ first (Nat.sub_le _ _)
    (fun state rounds again => rounds.step member positive fits (of_decide_eq_true again))
  obtain ⟨⟨last, current⟩, ran, rounds, ended⟩ := loop
  have beyond : maxNum ≤ current := Nat.le_of_not_lt (of_decide_eq_false ended)
  simp only [sieveFor, addLong_self_of_fits fits, Option.bind_eq_bind, Option.bind_some, ran]
  exact ensures_some ⟨rounds.sound, rounds.kept, rounds.marked.of_le beyond⟩

/-- The calls mark all multiples of their strides. -/
theorem ensures_serial {order : List Nat} {memory : Memory} (sound : Sound maxNum strides memory.nums)
    (members : ∀ p ∈ order, p ∈ strides ∧ 1 ≤ p ∧ Fits maxNum p) :
    Ensures (serial maxNum order memory) fun after => Sound maxNum strides after.nums ∧
      (∀ i : Nat, memory.nums[i]? = some 'C' → after.nums[i]? = some 'C') ∧
      ∀ p ∈ order, Marked after.nums p maxNum := by
  induction order generalizing memory with
  | nil => exact ensures_some ⟨sound, fun _ marked => marked, by simp⟩
  | cons num rest inductionHypothesis =>
      obtain ⟨member, positive, fits⟩ := members num List.mem_cons_self
      apply (ensures_sieveFor sound member positive fits).bind
      rintro middle ⟨middleSound, keptFirst, marked⟩
      apply (inductionHypothesis middleSound fun p later => members p (List.mem_cons_of_mem _ later)).mono
      rintro after ⟨afterSound, keptLater, markedLater⟩
      apply And.intro afterSound
      constructor
      · exact fun i before => keptLater i (keptFirst i before)
      · intro p among m least below
        rcases List.mem_cons.mp among with rfl | later
        · exact keptLater _ (marked m least below)
        · exact markedLater p later m least below

/-- In every order the calls leave the same array. -/
theorem exists_serial {order : List Nat} (large : 2 ≤ maxNum) (allowed : ∀ p ∈ strides, 1 ≤ p ∧ Fits maxNum p)
    (permuted : order.Perm strides) :
    ∃ memory, serial maxNum order ⟨potential maxNum, []⟩ = some memory ∧ memory.nums = sieved maxNum strides := by
  have members : ∀ p ∈ order, p ∈ strides ∧ 1 ≤ p ∧ Fits maxNum p :=
    fun p member => ⟨permuted.subset member, allowed p (permuted.subset member)⟩
  obtain ⟨memory, ran, sound, _, marked⟩ := @ensures_serial strides maxNum order ⟨potential maxNum, []⟩
    (sound_potential large) members
  exact ⟨memory, ran, sound.eq_sieved fun p member => marked p (permuted.symm.subset member)⟩

end OSLabs.Sieve
