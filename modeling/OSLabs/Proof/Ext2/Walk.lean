import OSLabs.Construction.Ext2
import OSLabs.Proof.Stdio.Text

namespace OSLabs.Ext2

open Stdio

variable {image : List UInt8} {blockSize blocknum pointer : UInt32} {inode : Inode}
  {buffer bytes other : List UInt8}

section Buffers

theorem length_bytesAt {size offset : Nat} (read : bytesAt image size offset = some bytes) :
    bytes.length = size := by
  unfold bytesAt at read
  split at read
  · next whole => exact Option.some.inj read ▸ whole
  · cases read

@[simp] theorem length_zeros : (zeros blockSize).length = blockSize.toNat := List.length_replicate

/-- A block that begins below the offset `2 ^ 32` is read where it is. -/
theorem readBlock_eq_block (low : blocknum.toNat * blockSize.toNat < 2 ^ 32) :
    readBlock image blockSize blocknum = block image blockSize blocknum := by
  have offset : (blocknum * blockSize).toNat = blocknum.toNat * blockSize.toNat := by
    rw [UInt32.toNat_mul, Nat.mod_eq_of_lt low]
  rw [readBlock, block, offset]

theorem exists_four (long : 4 ≤ bytes.length) :
    ∃ low second third high rest, bytes = low :: second :: third :: high :: rest := by
  rcases bytes with _ | ⟨low, _ | ⟨second, _ | ⟨third, _ | ⟨high, rest⟩⟩⟩⟩
  · simp at long
  · simp at long
  · simp at long
  · simp at long
  · exact ⟨low, second, third, high, rest, rfl⟩

theorem exists_drop {i : Nat} (inside : 4 * i + 4 ≤ bytes.length) :
    ∃ low second third high rest, bytes.drop (4 * i) = low :: second :: third :: high :: rest := by
  refine exists_four ?_
  rw [List.length_drop]
  omega

/-- A word inside the bytes that have been read is a word of them. -/
theorem loadWord_fill {i : Nat} (inside : 4 * i + 4 ≤ bytes.length) :
    loadWord (fill buffer bytes) i = loadWord bytes i := by
  obtain ⟨low, second, third, high, rest, shape⟩ := exists_drop inside
  rw [loadWord, fill, List.drop_append_of_le_length (by omega), loadWord, shape]
  rfl

theorem exists_loadWord {i : Nat} (inside : 4 * i + 4 ≤ bytes.length) :
    ∃ pointer, loadWord bytes i = some pointer := by
  obtain ⟨low, second, third, high, rest, shape⟩ := exists_drop inside
  rw [loadWord, shape]
  exact ⟨_, rfl⟩

end Buffers

section Ranges

theorem calculateOffsets_direct (direct : blocknum.toNat < 12) :
    calculateOffsets blocknum blockSize = some ⟨blocknum.toNat, -1, -1, -1⟩ := by
  have inRange : blocknum ≤ 11 := UInt32.le_iff_toNat_le.mpr (Nat.le_of_lt_succ direct)
  rw [calculateOffsets, if_pos inRange]

theorem toNat_sub_twelve (indirect : ¬ blocknum.toNat < 12) : (blocknum - 12).toNat = blocknum.toNat - 12 :=
  UInt32.toNat_sub_of_le _ _ (UInt32.le_iff_toNat_le.mpr (Nat.le_of_not_lt indirect))

theorem calculateOffsets_indirect (indirect : ¬ blocknum.toNat < 12) : calculateOffsets blocknum blockSize =
    if InRange blockSize blocknum then some ⟨-1, (blocknum.toNat - 12 : Nat), -1, -1⟩ else none := by
  have outOfRange : ¬ blocknum ≤ 11 := by
    intro inRange
    exact indirect (Nat.lt_succ_of_le (UInt32.le_iff_toNat_le.mp inRange))
  have same : blocknum - 12 < blockSize / 4 ↔ InRange blockSize blocknum := by
    simp only [UInt32.lt_iff_toNat_lt, UInt32.toNat_div, toNat_sub_twelve indirect, InRange, UInt32.reduceToNat]
    omega
  rw [calculateOffsets, if_neg outOfRange]
  simp only [same, toNat_sub_twelve indirect]

end Ranges

section Reads
variable (valid : ¬ blocknum * blockSize ≥ inode.iSize) (room : blockSize.toNat ≤ buffer.length)

include valid room

/-- In the direct range the walk is one read. -/
theorem fileBlockread_direct (direct : blocknum.toNat < 12) : fileBlockread image blockSize inode blocknum buffer =
    (readBlock image blockSize (inode.iBlock ⟨blocknum.toNat, by omega⟩)).map fun bytes =>
      (validLength blockSize inode blocknum, fill buffer bytes) := by
  have notUnused : ((blocknum.toNat : Nat) : Int) ≠ -1 := by omega
  rw [fileBlockread, if_neg valid, calculateOffsets_direct direct]
  simp only [followTriple, followDouble, followSingle, fetchDirect, Option.bind_eq_bind, Option.bind_some]
  cases read : readBlock image blockSize (inode.iBlock ⟨blocknum.toNat, by omega⟩) with
  | none => simp [notUnused, direct, read]
  | some bytes => simp [notUnused, direct, read, intoBuffer, room]

/-- In the singly-indirect range the walk reads the block of pointers and then the data block. -/
theorem fileBlockread_indirect (indirect : ¬ blocknum.toNat < 12) (inRange : InRange blockSize blocknum) :
    fileBlockread image blockSize inode blocknum buffer =
      if inode.iBlock 12 = 0 then some (validLength blockSize inode blocknum, fill buffer (zeros blockSize))
      else (readBlock image blockSize (inode.iBlock 12)).bind fun pointers =>
        (loadWord pointers (blocknum.toNat - 12)).bind fun pointer =>
          (readBlock image blockSize pointer).map fun bytes =>
            (validLength blockSize inode blocknum, fill buffer bytes) := by
  have notUnused : ((blocknum.toNat - 12 : Nat) : Int) ≠ -1 := by omega
  rw [fileBlockread, if_neg valid, calculateOffsets_indirect indirect, if_pos inRange]
  simp only [followTriple, followDouble, followSingle, fetchDirect, Option.bind_eq_bind, Option.bind_some]
  by_cases hole : inode.iBlock 12 = 0
  · simp [notUnused, hole, intoBuffer, room]
  · rw [if_neg hole]
    cases read : readBlock image blockSize (inode.iBlock 12) with
    | none => simp [notUnused, hole, follow, read]
    | some pointers =>
        have whole := length_bytesAt read
        have inside : blocknum.toNat - 12 < blockSize.toNat / 4 := by
          unfold InRange at inRange
          omega
        have taken : loadWord (fill buffer pointers) (blocknum.toNat - 12) =
            loadWord pointers (blocknum.toNat - 12) :=
          loadWord_fill (by omega)
        obtain ⟨pointer, word⟩ := exists_loadWord (show 4 * (blocknum.toNat - 12) + 4 ≤ pointers.length by omega)
        cases data : readBlock image blockSize pointer with
        | none => simp [notUnused, hole, follow, read, intoBuffer, room, inside, taken, word, data]
        | some bytes =>
            have still : blockSize.toNat ≤ (fill buffer pointers).length := by rwa [length_fill (by omega)]
            have again : fill (fill buffer pointers) bytes = fill buffer bytes :=
              fill_fill (whole.trans (length_bytesAt data).symm)
            simp [notUnused, hole, follow, read, intoBuffer, room, inside, taken, word, data, still, again]

end Reads

end OSLabs.Ext2
