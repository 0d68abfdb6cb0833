import OSLabs.Proof.Ext2.Walk
import Mathlib.Algebra.Order.Ring.Nat
import Mathlib.Tactic.Ring

namespace OSLabs.Ext2

variable {image : List UInt8} {blockSize blocknum sLogBlockSize : UInt32} {inode : Inode} {buffer : List UInt8}

section BlockSize

theorem toNat_calcBlockSize (small : sLogBlockSize ≤ 6) :
    (calcBlockSize sLogBlockSize).toNat = 1024 * 2 ^ sLogBlockSize.toNat := by
  have bound : sLogBlockSize.toNat ≤ 6 := UInt32.le_iff_toNat_le.mp small
  have power : 2 ^ sLogBlockSize.toNat ≤ 2 ^ 6 := Nat.pow_le_pow_right (by decide) bound
  rw [calcBlockSize, UInt32.toNat_shiftLeft, Nat.shiftLeft_eq,
    Nat.mod_eq_of_lt (by omega : sLogBlockSize.toNat < 32)]
  exact Nat.mod_eq_of_lt (by simp only [UInt32.reduceToNat]; omega)

/-- So many blocks have offsets of 32 bits. -/
theorem blocks_mul_blockSize (small : sLogBlockSize ≤ 6) :
    2 ^ (22 - sLogBlockSize.toNat) * (calcBlockSize sLogBlockSize).toNat = 2 ^ 32 := by
  have bound : sLogBlockSize.toNat ≤ 6 := UInt32.le_iff_toNat_le.mp small
  rw [toNat_calcBlockSize small, show 1024 = 2 ^ 10 from rfl, ← pow_add, ← pow_add]
  congr 1
  omega

/-- The product of 32 bits is the offset of another block. -/
theorem toNat_product (small : sLogBlockSize ≤ 6) : (blocknum * calcBlockSize sLogBlockSize).toNat =
    blocknum.toNat % 2 ^ (22 - sLogBlockSize.toNat) * (calcBlockSize sLogBlockSize).toNat := by
  rw [UInt32.toNat_mul, ← blocks_mul_blockSize small, Nat.mul_mod_mul_right]

theorem calcBlockSize_lt (small : sLogBlockSize ≤ 6) : (calcBlockSize sLogBlockSize).toNat < 2 ^ 17 := by
  have power : 2 ^ sLogBlockSize.toNat ≤ 2 ^ 6 :=
    Nat.pow_le_pow_right (by decide) (UInt32.le_iff_toNat_le.mp small)
  rw [toNat_calcBlockSize small]
  omega

/-- A block whose offset has more than 32 bits is in no range that `calculate_offsets` implements. -/
theorem fileBlockread_far (valid : ¬ blocknum * calcBlockSize sLogBlockSize ≥ inode.iSize)
    (small : sLogBlockSize ≤ 6)
    (far : 2 ^ (22 - sLogBlockSize.toNat) ≤ blocknum.toNat) :
    fileBlockread image (calcBlockSize sLogBlockSize) inode blocknum buffer = none := by
  have power : 2 ^ 16 ≤ 2 ^ (22 - sLogBlockSize.toNat) :=
    Nat.pow_le_pow_right (by decide) (by have := UInt32.le_iff_toNat_le.mp small; simp at this; omega)
  have size := calcBlockSize_lt small
  have outOfRange : ¬ InRange (calcBlockSize sLogBlockSize) blocknum := by
    unfold InRange
    omega
  rw [fileBlockread, if_neg valid, calculateOffsets_indirect (by omega), if_neg outOfRange]
  rfl

end BlockSize

section Length

theorem validLength_le : (validLength blockSize inode blocknum).toNat ≤ blockSize.toNat := by
  simp only [validLength]
  split
  · exact Nat.le_refl _
  · next less => exact Nat.le_of_lt (UInt32.lt_iff_toNat_lt.mp (UInt32.not_le.mp less))

theorem toNat_validLength (inside : Inside blockSize inode blocknum) :
    (validLength blockSize inode blocknum).toNat =
      min blockSize.toNat (inode.iSize.toNat - blocknum.toNat * blockSize.toNat) := by
  have small : blocknum.toNat * blockSize.toNat < 2 ^ 32 := Nat.lt_trans inside inode.iSize.toNat_lt
  have product : (blocknum * blockSize).toNat = blocknum.toNat * blockSize.toNat := by
    rw [UInt32.toNat_mul, Nat.mod_eq_of_lt small]
  have difference : (inode.iSize - blocknum * blockSize).toNat =
      inode.iSize.toNat - blocknum.toNat * blockSize.toNat := by
    rw [UInt32.toNat_sub_of_le _ _ (UInt32.le_iff_toNat_le.mpr (product ▸ Nat.le_of_lt inside)), product]
  simp only [validLength]
  split
  · next atLeast =>
      rw [ge_iff_le, UInt32.le_iff_toNat_le, difference] at atLeast
      exact (Nat.min_eq_left atLeast).symm
  · next less =>
      rw [ge_iff_le, UInt32.le_iff_toNat_le, difference] at less
      rw [difference, Nat.min_eq_right (Nat.le_of_not_le less)]

/-- Behind the range test the returned number is the valid length. -/
theorem length_of_fileBlockread {length : UInt32} {after : List UInt8}
    (valid : ¬ blocknum * blockSize ≥ inode.iSize)
    (returns : fileBlockread image blockSize inode blocknum buffer = some (length, after)) :
    length = validLength blockSize inode blocknum := by
  rw [fileBlockread, if_neg valid] at returns
  simp only [Option.bind_eq_bind, Option.bind_eq_some_iff] at returns
  obtain ⟨_, _, _, _, _, _, _, _, _, _, equal⟩ := returns
  cases equal
  rfl

/-- A length is never taken for the error. -/
theorem outOfRange_of_error {after : List UInt8} (small : blockSize.toNat < 2 ^ 32 - 1)
    (returns : fileBlockread image blockSize inode blocknum buffer = some (-1, after)) :
    blocknum * blockSize ≥ inode.iSize := by
  by_contra valid
  have bound : (validLength blockSize inode blocknum).toNat ≤ blockSize.toNat := validLength_le
  rw [← length_of_fileBlockread valid returns] at bound
  exact absurd bound (Nat.not_le.mpr small)

/-- When the reads succeed, the call returns the valid length. -/
theorem exists_of_readsSucceed (valid : ¬ blocknum * blockSize ≥ inode.iSize)
    (room : blockSize.toNat ≤ buffer.length)
    (inRange : InRange blockSize blocknum) (succeed : ReadsSucceed image blockSize inode blocknum) :
    ∃ after, fileBlockread image blockSize inode blocknum buffer =
      some (validLength blockSize inode blocknum, after) := by
  unfold ReadsSucceed at succeed
  split at succeed
  · next direct =>
      obtain ⟨bytes, read⟩ := Option.ne_none_iff_exists'.mp succeed
      rw [fileBlockread_direct valid room direct, read]
      exact ⟨_, rfl⟩
  · next indirect =>
      rw [fileBlockread_indirect valid room indirect inRange]
      split
      · exact ⟨_, rfl⟩
      · next pointed =>
          obtain ⟨pointers, pointer, read, word, present⟩ := succeed pointed
          obtain ⟨bytes, data⟩ := Option.ne_none_iff_exists'.mp present
          rw [read, Option.bind_some, word, Option.bind_some, data]
          exact ⟨_, rfl⟩

end Length

/-- The range test and the length are right exactly when the offset of the block has no more than 32 bits,
or when the block with the offset of the lowest 32 bits is outside the file too. -/
theorem rangeRight_iff (image : List UInt8) (inode : Inode) (blocknum : UInt32) (small : sLogBlockSize ≤ 6)
    (room : (calcBlockSize sLogBlockSize).toNat ≤ buffer.length) :
    RangeRight image (calcBlockSize sLogBlockSize) inode blocknum buffer ↔
      blocknum.toNat < 2 ^ (22 - sLogBlockSize.toNat) ∨
        inode.iSize.toNat ≤ blocknum.toNat % 2 ^ (22 - sLogBlockSize.toNat) * (1024 * 2 ^ sLogBlockSize.toNat) := by
  have total := blocks_mul_blockSize small
  have product : (blocknum * calcBlockSize sLogBlockSize).toNat = _ := toNat_product small
  have least : blocknum.toNat % 2 ^ (22 - sLogBlockSize.toNat) * (calcBlockSize sLogBlockSize).toNat ≤
      blocknum.toNat * (calcBlockSize sLogBlockSize).toNat := Nat.mul_le_mul_right _ (Nat.mod_le _ _)
  rw [← toNat_calcBlockSize small]
  constructor
  · intro right
    by_contra neither
    obtain ⟨high, low⟩ := not_or.mp neither
    have valid : ¬ blocknum * calcBlockSize sLogBlockSize ≥ inode.iSize := by
      rw [ge_iff_le, UInt32.le_iff_toNat_le, product]
      exact low
    have outside : ¬ Inside (calcBlockSize sLogBlockSize) inode blocknum := by
      have far := Nat.mul_le_mul_right (calcBlockSize sLogBlockSize).toNat (Nat.le_of_not_lt high)
      have size := inode.iSize.toNat_lt
      unfold Inside
      omega
    obtain ⟨after, returns⟩ := right.outside.mpr outside
    rw [fileBlockread_far valid small (Nat.le_of_not_lt high)] at returns
    cases returns
  · intro condition
    have error : ¬ Inside (calcBlockSize sLogBlockSize) inode blocknum →
        blocknum * calcBlockSize sLogBlockSize ≥ inode.iSize := by
      intro outside
      rw [ge_iff_le, UInt32.le_iff_toNat_le, product]
      rcases condition with low | beyond
      · rw [Nat.mod_eq_of_lt low]
        exact Nat.le_of_not_lt outside
      · exact beyond
    have valid (inside : Inside (calcBlockSize sLogBlockSize) inode blocknum) :
        ¬ blocknum * calcBlockSize sLogBlockSize ≥ inode.iSize := by
      rw [ge_iff_le, UInt32.le_iff_toNat_le, product]
      exact Nat.not_le.mpr (Nat.lt_of_le_of_lt least inside)
    refine ⟨⟨?_, ?_⟩, ?_⟩
    · rintro ⟨after, returns⟩ inside
      exact valid inside (outOfRange_of_error (by have := calcBlockSize_lt small; omega) returns)
    · intro outside
      exact ⟨buffer, by rw [fileBlockread, if_pos (error outside)]⟩
    · intro inside inRange succeed
      obtain ⟨after, returns⟩ := exists_of_readsSucceed (valid inside) room inRange succeed
      exact ⟨_, after, returns, toNat_validLength inside⟩

/-- An inode of a file without blocks. -/
def emptyInode (iSize : UInt32) : Inode := ⟨iSize, fun _ => 0⟩

/-- The second block of a file with one block is out of range. -/
theorem second_block_right :
    RangeRight [] (calcBlockSize 0) (emptyInode 61) 1 (List.replicate (calcBlockSize 0).toNat 0) :=
  (rangeRight_iff [] (emptyInode 61) 1 (by decide) (by simp)).mpr (.inl (by decide))

/-- The offset of block `2 ^ 22` is zero in 32 bits, and an assertion fails instead of the error being returned. -/
theorem far_block_wrong :
    ¬ RangeRight [] (calcBlockSize 0) (emptyInode 61) 4194304 (List.replicate (calcBlockSize 0).toNat 0) := by
  intro right
  have outside : ¬ Inside (calcBlockSize 0) (emptyInode 61) 4194304 := by
    unfold Inside
    decide
  obtain ⟨after, returns⟩ := right.outside.mpr outside
  rw [fileBlockread_far (by decide) (by decide) (by decide)] at returns
  cases returns

end OSLabs.Ext2
