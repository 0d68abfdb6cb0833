import OSLabs.Proof.Factoring.Factors
import Mathlib.Algebra.Ring.Divisibility.Basic
import Mathlib.Algebra.Ring.Int.Defs

namespace OSLabs.Factoring

open Transition Spawn
open Stdio (toInt)

/-- The conversion takes off a multiple of `2 ^ 32`. -/
theorem toInt_eq_sub (value : Nat) : toInt value = value - lost value := by
  unfold toInt lost
  omega

theorem toInt_lt (value : Nat) : toInt value < 2147483648 := by
  rw [toInt_eq_sub]
  unfold lost
  omega

theorem toInt_eq_zero_iff {value : Nat} : toInt value = 0 ↔ 4294967296 ∣ value := by
  rw [toInt_eq_sub]
  unfold lost
  omega

theorem toInt_eq_neg_one_iff {value : Nat} : toInt value = -1 ↔ value % 4294967296 = 4294967295 := by
  rw [toInt_eq_sub]
  unfold lost
  omega

theorem toInt_eq_min_iff {value : Nat} : toInt value = -2147483648 ↔ value % 4294967296 = 2147483648 := by
  rw [toInt_eq_sub]
  unfold lost
  omega

section
variable {target i : Int} {lines : List Line}

theorem isFactor_mem_iff (ran : testLines target i = some lines) (d : Int) : .isFactor d ∈ lines ↔
    d = i ∧ i ∣ target := by
  unfold testLines at ran
  split at ran
  · cases ran
  · cases ran
    rw [Int.dvd_iff_tmod_eq_zero]
    split <;> simp_all

end

section
variable {target i : Nat}

/-- A candidate that fits in an `int` reaches the thread unchanged. -/
theorem decides_of_small (lower : 2 ≤ i) (small : i < 2147483648) :
    Decides target i ↔ ((i : Int) ∣ toInt target ↔ i ∣ target) := by
  have same : toInt i = i := toInt_eq small
  have defined : testLines (toInt target) i = some (if (toInt target).tmod i = 0 then [.isFactor i] else []) := by
    have divides : ¬ ((i : Int) = 0 ∨ toInt target = -2147483648 ∧ (i : Int) = -1) := by omega
    rw [testLines, if_neg divides]
  unfold Decides
  rw [same]
  constructor
  · rintro ⟨lines, ran, reports⟩
    rw [← reports, isFactor_mem_iff ran]
    simp
  · intro agrees
    apply Exists.intro _
    apply And.intro defined
    rw [isFactor_mem_iff defined, ← agrees]
    simp

/-- Another candidate is never reported. -/
theorem decides_of_large (large : 2147483648 ≤ i) :
    Decides target i ↔ ¬ i ∣ target ∧ ¬ (toInt i = 0 ∨ toInt target = -2147483648 ∧ toInt i = -1) := by
  have below := toInt_lt i
  have other : ((i : Nat) : Int) ≠ toInt i := by omega
  unfold Decides
  constructor
  · rintro ⟨lines, ran, reports⟩
    constructor
    · rw [← reports, isFactor_mem_iff ran]
      exact fun both => other both.1
    · intro fails
      rw [testLines, if_pos fails] at ran
      cases ran
  · rintro ⟨indivisible, divides⟩
    have defined : testLines (toInt target) (toInt i) = some _ := if_neg divides
    apply Exists.intro _
    apply And.intro defined
    rw [isFactor_mem_iff defined]
    exact ⟨fun both => absurd both.1 other, fun divisor => absurd divisor indivisible⟩

/-- A divisor of the difference divides both numbers or none of them, unless it does not divide what is lost. -/
theorem dvd_sub_iff_dvd (target loss i : Int) :
    (i ∣ target - loss ↔ i ∣ target) ↔ i ∣ loss ∨ ¬ i ∣ target ∧ ¬ i ∣ target - loss := by
  by_cases divides : i ∣ loss
  · have same : i ∣ target - loss ↔ i ∣ target := dvd_sub_left divides
    simp only [same, divides, true_or]
  · have notBoth : ¬ (i ∣ target - loss ∧ i ∣ target) := fun both => divides ((dvd_sub_right both.2).mp both.1)
    tauto

/-- The test is right exactly when the conversions to `int` do no harm. -/
theorem decides_iff (target i : Nat) (lower : 2 ≤ i) : Decides target i ↔ Harmless target i := by
  unfold Harmless
  split
  · next small =>
      rw [decides_of_small lower small, toInt_eq_sub, ← Int.natCast_dvd_natCast, ← Int.natCast_dvd_natCast]
      exact dvd_sub_iff_dvd target (lost target) i
  · next large =>
      rw [decides_of_large (Nat.le_of_not_lt large), toInt_eq_zero_iff, toInt_eq_neg_one_iff,
        toInt_eq_min_iff, not_or]

/-- The divisor 2 of 4 is reported. -/
theorem four_decided : Decides 4 2 := (decides_iff 4 2 (by decide)).mpr (by unfold Harmless; decide)

/-- For the target `2 ^ 32` the candidate 3 is reported,
and for the target `2 ^ 33` the candidate `2 ^ 32` gives the divisor zero. -/
theorem narrowed_wrongly :
    testLines (toInt 4294967296) (toInt 3) = some [.isFactor 3] ∧ ¬ Decides 4294967296 3 ∧
      testLines (toInt 8589934592) (toInt 4294967296) = none ∧ ¬ Decides 8589934592 4294967296 := by
  have reported : testLines (toInt 4294967296) (toInt 3) = some [.isFactor 3] := by decide
  have failed : testLines (toInt 8589934592) (toInt 4294967296) = none := by decide
  constructor
  · exact reported
  · constructor
    · rintro ⟨lines, ran, reports⟩
      obtain rfl : [Line.isFactor 3] = lines := Option.some.inj (reported.symm.trans ran)
      have divides : 3 ∣ 4294967296 := reports.mp (List.mem_singleton_self _)
      exact absurd divides (by decide)
    · constructor
      · exact failed
      · rintro ⟨lines, ran, _⟩
        cases failed.symm.trans ran

end

end OSLabs.Factoring
