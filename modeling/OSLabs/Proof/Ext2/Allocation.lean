import OSLabs.Proof.Ext2.Range

namespace OSLabs.Ext2

section Rounding
variable {size block : Nat}

/-- The size is rounded up to whole blocks. -/
def roundUp (size block : Nat) : Nat := if size % block ≠ 0 then size + (block - size % block) else size

theorem dvd_roundUp (positive : 0 < block) : block ∣ roundUp size block := by
  unfold roundUp
  split
  · have less := Nat.mod_lt size positive
    have split := Nat.div_add_mod size block
    apply Dvd.intro (size / block + 1)
    rw [Nat.mul_add]
    omega
  · next whole => exact Nat.dvd_of_mod_eq_zero (not_ne_iff.mp whole)

theorem le_roundUp : size ≤ roundUp size block := by
  unfold roundUp
  split <;> omega

theorem roundUp_lt (positive : 0 < block) : roundUp size block < size + block := by
  unfold roundUp
  split <;> omega

/-- A multiple that is not less than the size is not less than the rounded size. -/
theorem isLeast_roundUp (positive : 0 < block) :
    IsLeast {bytes : Nat | block ∣ bytes ∧ size ≤ bytes} (roundUp size block) := by
  constructor
  · exact ⟨dvd_roundUp positive, le_roundUp⟩
  · intro bytes ⟨whole, covered⟩
    have less : roundUp size block < size + block := roundUp_lt positive
    apply Nat.le_of_lt_add_of_dvd _ (dvd_roundUp positive) whole
    exact Nat.lt_of_lt_of_le less (Nat.add_le_add_right covered block)

/-- A block that begins before the end of the file ends before the end of the rounded size. -/
theorem whole_le_roundUp (positive : 0 < block) {blocknum : Nat} (inside : blocknum * block < size) :
    blocknum * block + block ≤ roundUp size block := by
  have covered : size ≤ roundUp size block := le_roundUp
  apply Nat.le_of_lt_add_of_dvd _ _ (dvd_roundUp positive)
  · omega
  · exact Nat.dvd_add (Nat.dvd_mul_left block blocknum) (Nat.dvd_refl block)

/-- A size for which the last of all blocks is needed is rounded up to all of them. -/
theorem roundUp_eq_of_lt (positive : 0 < block) {total : Nat} (whole : block ∣ total)
    (large : total - block < size)
    (fits : size ≤ total) : roundUp size block = total := by
  have covered : size ≤ roundUp size block := le_roundUp
  apply Nat.le_antisymm
  · exact (isLeast_roundUp positive).2 ⟨whole, fits⟩
  · apply Nat.le_of_lt_add_of_dvd _ whole (dvd_roundUp positive)
    omega

end Rounding

variable {sLogBlockSize : UInt32}

/-- The size is rounded up in 32 bits. -/
theorem toNat_mallocSize (small : sLogBlockSize ≤ 6) (iSize : UInt32) :
    (mallocSize (calcBlockSize sLogBlockSize) iSize).toNat =
      roundUp iSize.toNat (calcBlockSize sLogBlockSize).toNat % 2 ^ 32 := by
  have positive : 0 < (calcBlockSize sLogBlockSize).toNat := by
    rw [toNat_calcBlockSize small]
    exact Nat.mul_pos (by decide) (Nat.two_pow_pos _)
  have less := Nat.mod_lt iSize.toNat positive
  have nonzero : iSize % calcBlockSize sLogBlockSize ≠ 0 ↔
      iSize.toNat % (calcBlockSize sLogBlockSize).toNat ≠ 0 := by
    rw [ne_eq, ← UInt32.toNat_inj, UInt32.toNat_mod, UInt32.toNat_zero]
  unfold mallocSize roundUp
  by_cases partly : iSize.toNat % (calcBlockSize sLogBlockSize).toNat ≠ 0
  · rw [if_pos (nonzero.mpr partly), if_pos partly, UInt32.toNat_add, UInt32.toNat_sub_of_le, UInt32.toNat_mod]
    rw [UInt32.le_iff_toNat_le, UInt32.toNat_mod]
    exact Nat.le_of_lt less
  · rw [if_neg (mt nonzero.mp partly), if_neg partly, Nat.mod_eq_of_lt iSize.toNat_lt]

/-- The space for the file is right exactly when the rounded size fits in 32 bits. -/
theorem allocatesWholeBlocks_iff (iSize : UInt32) (small : sLogBlockSize ≤ 6) :
    AllocatesWholeBlocks (calcBlockSize sLogBlockSize) iSize ↔
      iSize.toNat ≤ 2 ^ 32 - 1024 * 2 ^ sLogBlockSize.toNat := by
  have rounded := toNat_mallocSize small iSize
  have total : (calcBlockSize sLogBlockSize).toNat ∣ 2 ^ 32 := Dvd.intro_left _ (blocks_mul_blockSize small)
  have positive : 0 < (calcBlockSize sLogBlockSize).toNat := Nat.pos_of_dvd_of_pos total (by decide)
  have bounded := calcBlockSize_lt small
  have inWord := iSize.toNat_lt
  rw [← toNat_calcBlockSize small]
  constructor
  · intro allocates
    by_contra large
    have covered := allocates.least.1.2
    rw [rounded, roundUp_eq_of_lt positive total (Nat.lt_of_not_le large) (Nat.le_of_lt inWord),
      Nat.mod_self] at covered
    omega
  · intro fits
    have less := @roundUp_lt iSize.toNat _ positive
    rw [Nat.mod_eq_of_lt (by omega)] at rounded
    constructor
    · rw [rounded]
      exact isLeast_roundUp positive
    · intro blocknum starts
      rw [rounded]
      exact whole_le_roundUp positive starts

/-- A file of 61 bytes gets one block. -/
theorem small_file_allocated : AllocatesWholeBlocks (calcBlockSize 0) 61 :=
  (allocatesWholeBlocks_iff 61 (by decide)).mpr (by decide)

/-- For a file of `2 ^ 32 - 1` bytes no space is allocated. -/
theorem large_file_unallocated :
    mallocSize (calcBlockSize 0) 4294967295 = 0 ∧ ¬ AllocatesWholeBlocks (calcBlockSize 0) 4294967295 := by
  have size : mallocSize (calcBlockSize 0) 4294967295 = 0 := by decide
  constructor
  · exact size
  · intro allocates
    have covered := allocates.least.1.2
    rw [size] at covered
    exact absurd covered (by decide)

end OSLabs.Ext2
