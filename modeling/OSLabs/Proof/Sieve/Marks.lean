import OSLabs.Construction.Sieve
import OSLabs.Proof.Buffer.Loops
import Mathlib.Data.Nat.Prime.Basic

namespace OSLabs.Sieve

open Buffer

section Multiples
variable {strides order : List Nat} {maxNum num i m : Nat}

theorem crossed_iff : Crossed strides i ↔ ∃ p ∈ strides, p ∣ i ∧ 2 * p ≤ i := by
  unfold Crossed
  constructor
  · rintro ⟨p, member, m, least, rfl⟩
    exact ⟨p, member, Nat.dvd_mul_left p m, Nat.mul_le_mul_right p least⟩
  · rintro ⟨p, member, ⟨m, rfl⟩, least⟩
    rcases Nat.eq_zero_or_pos p with rfl | positive
    · exact ⟨0, member, 2, Nat.le_refl 2, by simp⟩
    · have twice : p * 2 ≤ p * m := by rwa [Nat.mul_comm p 2]
      exact ⟨p, member, m, Nat.le_of_mul_le_mul_left twice positive, Nat.mul_comm p m⟩

instance (strides : List Nat) (i : Nat) : Decidable (Crossed strides i) := decidable_of_iff _ crossed_iff.symm

/-- The order of the strides does not matter. -/
theorem crossed_of_perm (permuted : order.Perm strides) : Crossed order i ↔ Crossed strides i := by
  simp only [Crossed, permuted.mem_iff]

/-- The next value of `current` is a `long`. -/
theorem addLong_of_fits (fits : Fits maxNum num) (positive : 1 ≤ num) (inside : m * num < maxNum) :
    addLong (m * num) num = some ((m + 1) * num) := by
  have rounds : m + 1 ≤ (maxNum + num - 1) / num := by
    rw [Nat.le_div_iff_mul_le positive, Nat.add_mul, Nat.one_mul]
    omega
  have below : (m + 1) * num ≤ max 2 ((maxNum + num - 1) / num) * num :=
    Nat.mul_le_mul_right num (Nat.le_trans rounds (Nat.le_max_right _ _))
  have sum : m * num + num = (m + 1) * num := (Nat.succ_mul m num).symm
  rw [addLong, sum, if_pos (Nat.lt_of_le_of_lt below fits)]

theorem addLong_self_of_fits (fits : Fits maxNum num) : addLong num num = some (2 * num) := by
  have below : 2 * num ≤ max 2 ((maxNum + num - 1) / num) * num := Nat.mul_le_mul_right num (Nat.le_max_left _ _)
  rw [addLong, ← Nat.two_mul, if_pos (Nat.lt_of_le_of_lt below fits)]

end Multiples

section Potential
variable {maxNum i : Nat}

theorem length_potential (large : 2 ≤ maxNum) : (potential maxNum).length = maxNum := by
  simp only [potential, List.length_append, List.length_replicate]
  omega

theorem getElem?_potential (inside : i < maxNum) : (potential maxNum)[i]? = some (if i < 2 then nul else 'P') := by
  have front : (List.replicate 2 nul).length = 2 := List.length_replicate
  unfold potential
  by_cases small : i < 2
  · rw [List.getElem?_append_left (front.symm ▸ small), List.getElem?_replicate, if_pos small, if_pos small]
  · rw [List.getElem?_append_right (front.symm ▸ Nat.le_of_not_lt small), List.getElem?_replicate, if_neg small]
    exact if_pos (by rw [front]; omega)

/-- The first loop of `main` marks all numbers from 2 on. -/
theorem initialise_eq (large : 2 ≤ maxNum) (small : maxNum < 2147483648) :
    initialise maxNum = some (potential maxNum) := by
  have marked : Ensures (forLoop (fun i nums => store nums i 'P') 2 (maxNum - 2) (List.replicate maxNum nul))
      fun nums => nums = potential (2 + (maxNum - 2)) ++ List.replicate (maxNum - (2 + (maxNum - 2))) nul := by
    apply ensures_forLoop fun i nums => nums = potential i ++ List.replicate (maxNum - i) nul
    · change _ = (List.replicate 2 nul ++ []) ++ _
      rw [List.append_nil, List.replicate_append_replicate, Nat.add_sub_cancel' large]
    · intro i nums lower upper same
      have rest : List.replicate (maxNum - i) nul = nul :: List.replicate (maxNum - (i + 1)) nul := by
        rw [← List.replicate_succ]
        congr 1
        omega
      have stored := @store_append _ (potential i) (List.replicate (maxNum - (i + 1)) nul) nul 'P'
      rw [length_potential lower, ← rest, ← same] at stored
      rw [stored]
      apply ensures_some
      have longer : potential (i + 1) = potential i ++ ['P'] := by
        have last : List.replicate (i - 2 + 1) 'P' = List.replicate (i - 2) 'P' ++ ['P'] := List.replicate_succ'
        rw [potential, potential, List.append_assoc, ← last]
        congr 2
        omega
      rw [longer, List.append_assoc]
      rfl
  obtain ⟨nums, ran, rfl⟩ := marked
  rw [initialise, if_pos small, ran, Nat.add_sub_cancel' large, Nat.sub_self]
  exact congrArg some (List.append_nil _)

end Potential

section Stores
variable {strides : List Nat} {nums : List Char} {maxNum num limit i m : Nat}

/-- Only multiples of the strides are marked. -/
structure Sound (maxNum : Nat) (strides : List Nat) (nums : List Char) : Prop where
  length : nums.length = maxNum
  marks : ∀ i : Nat, nums[i]? = (potential maxNum)[i]? ∨ Crossed strides i ∧ nums[i]? = some 'C'

/-- The multiples of the stride below the limit are marked. -/
def Marked (nums : List Char) (num limit : Nat) : Prop := ∀ m, 2 ≤ m → m * num < limit → nums[m * num]? = some 'C'

/-- A store keeps the marks. -/
theorem getElem?_set_mark (marked : nums[i]? = some 'C') (k : Nat) : (nums.set k 'C')[i]? = some 'C' := by
  rw [List.getElem?_set]
  split
  · next same =>
      subst same
      exact if_pos (List.getElem?_eq_some_iff.mp marked).1
  · exact marked

theorem Marked.of_le {lower : Nat} (marked : Marked nums num limit) (less : lower ≤ limit) :
    Marked nums num lower :=
  fun m least below => marked m least (Nat.lt_of_lt_of_le below less)

/-- A round marks one multiple more. -/
theorem Marked.succ (marked : Marked nums num (m * num)) (positive : 1 ≤ num) (inside : m * num < nums.length) :
    Marked (nums.set (m * num) 'C') num ((m + 1) * num) := by
  intro k least below
  rcases Nat.lt_succ_iff_lt_or_eq.mp (Nat.lt_of_mul_lt_mul_right below) with less | rfl
  · exact getElem?_set_mark (marked k least (Nat.mul_lt_mul_of_pos_right less positive)) _
  · rw [List.getElem?_set_self inside]

theorem marked_two (nums : List Char) (num : Nat) : Marked nums num (2 * num) := by
  intro m least below
  have less := Nat.lt_of_mul_lt_mul_right below
  omega

/-- The store of a round is sound. -/
theorem Sound.set (sound : Sound maxNum strides nums) (crossed : Crossed strides i) (inside : i < maxNum) :
    Sound maxNum strides (nums.set i 'C') := by
  constructor
  · rw [List.length_set, sound.length]
  · intro k
    by_cases same : i = k
    · subst same
      exact .inr ⟨crossed, List.getElem?_set_self (sound.length.symm ▸ inside)⟩
    · rw [List.getElem?_set_ne same]
      exact sound.marks k

theorem sound_potential (large : 2 ≤ maxNum) : Sound maxNum strides (potential maxNum) :=
  ⟨length_potential large, fun _ => .inl rfl⟩

/-- The array after all calls. -/
def sieved (maxNum : Nat) (strides : List Nat) : List Char :=
  (List.range maxNum).map fun i => if Crossed strides i then 'C' else if i < 2 then nul else 'P'

theorem getElem?_sieved (inside : i < maxNum) :
    (sieved maxNum strides)[i]? = some (if Crossed strides i then 'C' else if i < 2 then nul else 'P') := by
  simp [sieved, inside]

/-- Where all multiples of the strides are marked, the array is determined. -/
theorem Sound.eq_sieved (sound : Sound maxNum strides nums) (marked : ∀ p ∈ strides, Marked nums p maxNum) :
    nums = sieved maxNum strides := by
  apply List.ext_getElem?
  intro i
  by_cases inside : i < maxNum
  · rw [getElem?_sieved inside]
    by_cases crossed : Crossed strides i
    · obtain ⟨p, member, m, least, rfl⟩ := crossed
      rw [marked p member m least inside, if_pos ⟨p, member, m, least, rfl⟩]
    · rw [if_neg crossed]
      rcases sound.marks i with same | ⟨isCrossed, _⟩
      · rw [same, getElem?_potential inside]
      · exact absurd isCrossed crossed
  · rw [List.getElem?_eq_none (by rw [sound.length]; omega), List.getElem?_eq_none (by simp [sieved]; omega)]

end Stores

section Answers
variable {strides : List Nat} {maxNum i : Nat}

theorem getElem?_sieved_composite (inside : i < maxNum) :
    (sieved maxNum strides)[i]? = some 'C' ↔ Crossed strides i := by
  rw [getElem?_sieved inside, Option.some.injEq]
  have different : nul ≠ 'C' := by decide
  split
  · next crossed => simp [crossed]
  · next free => split <;> simp [free, different]

/-- After the strides 2, 3 and 5 these three and the numbers from 7 on without a common divisor with 30 are
left. -/
theorem getElem?_sieved_prime (permuted : strides.Perm [2, 3, 5]) :
    (sieved maxNum strides)[i]? = some 'P' ↔ Left maxNum i := by
  have crossed : Crossed strides i ↔ 2 ∣ i ∧ 4 ≤ i ∨ 3 ∣ i ∧ 6 ≤ i ∨ 5 ∣ i ∧ 10 ≤ i := by
    rw [crossed_of_perm permuted, crossed_iff]
    simp
  have coprime : i.Coprime 30 ↔ ¬ 2 ∣ i ∧ ¬ 3 ∣ i ∧ ¬ 5 ∣ i := by
    rw [show 30 = 2 * (3 * 5) from rfl, Nat.coprime_mul_iff_right, Nat.coprime_mul_iff_right, Nat.coprime_comm,
      Nat.prime_two.coprime_iff_not_dvd, Nat.coprime_comm, Nat.prime_three.coprime_iff_not_dvd, Nat.coprime_comm,
      Nat.prime_five.coprime_iff_not_dvd]
  have different : nul ≠ 'P' := by decide
  unfold Left
  rw [coprime]
  by_cases inside : i < maxNum
  · rw [getElem?_sieved inside, Option.some.injEq]
    by_cases isCrossed : Crossed strides i
    · rw [if_pos isCrossed]
      rw [crossed] at isCrossed
      simp only [show ('C' = 'P') = False by decide, false_iff]
      omega
    · rw [if_neg isCrossed]
      rw [crossed] at isCrossed
      split
      · simp only [different, false_iff]
        omega
      · simp only [true_iff]
        omega
  · rw [List.getElem?_eq_none (by simp [sieved]; omega)]
    simp [inside]

end Answers

end OSLabs.Sieve
