/-
This file models how `ext2/ext2access.c` reads one block of a file from a disk image.
-/

import OSLabs.Construction.Stdio
import Mathlib.Order.Bounds.Defs

namespace OSLabs.Ext2

open Stdio

/-- The fields of `struct os_inode_t` that are read. -/
structure Inode where
  iSize : UInt32
  iBlock : Fin 15 → UInt32

/-- The block size that `calc_metadata` computes. -/
def calcBlockSize (sLogBlockSize : UInt32) : UInt32 := 1024 <<< sLogBlockSize

/-- This function is step 4 of `file_read`: the number that is passed to `malloc`. -/
def mallocSize (blockSize iSize : UInt32) : UInt32 :=
  if iSize % blockSize ≠ 0 then iSize + (blockSize - iSize % blockSize) else iSize

/-- The allocated size is the least number of bytes that is a multiple of the block size
and not less than the file, so that every block of the file can be stored whole. -/
structure AllocatesWholeBlocks (blockSize iSize : UInt32) : Prop where
  least : IsLeast {size : Nat | blockSize.toNat ∣ size ∧ iSize.toNat ≤ size} (mallocSize blockSize iSize).toNat
  whole : ∀ blocknum : Nat, blocknum * blockSize.toNat < iSize.toNat →
    blocknum * blockSize.toNat + blockSize.toNat ≤ (mallocSize blockSize iSize).toNat

/-- The four indexes of `calculate_offsets`, where one that is not needed is `-1`. -/
structure Offsets where
  direct : Int
  single : Int
  double : Int
  triple : Int
  deriving DecidableEq

/-- This function is `calculate_offsets`.
Behind the first two ranges nothing is stored, and `assert(0)` fails. -/
def calculateOffsets (blocknum blocksize : UInt32) : Option Offsets :=
  if blocknum ≤ 11 then some ⟨blocknum.toNat, -1, -1, -1⟩
  else
    let blocksLeft := blocknum - 12
    if blocksLeft < blocksize / 4 then some ⟨-1, blocksLeft.toNat, -1, -1⟩
    else none

/-- The four bytes of a word in the memory of the machine. -/
def word (low second third high : UInt8) : UInt32 :=
  low.toUInt32 ||| second.toUInt32 <<< 8 ||| third.toUInt32 <<< 16 ||| high.toUInt32 <<< 24

/-- This function is `*(((os_uint32_t *) buffer) + i)`. -/
def loadWord (buffer : List UInt8) (i : Nat) : Option UInt32 :=
  match buffer.drop (4 * i) with
  | low :: second :: third :: high :: _ => some (word low second third high)
  | _ => none

section Walk
variable (image : List UInt8) (blockSize : UInt32)

/-- The bytes of the image from an offset on, when there are so many of them. -/
def bytesAt (size offset : Nat) : Option (List UInt8) :=
  if ((image.drop offset).take size).length = size then some ((image.drop offset).take size) else none

/-- This function is the call of `lseek` with a product of 32 bits and the call of `read`.
It fails with the assertion that the whole block has been read. -/
def readBlock (blocknum : UInt32) : Option (List UInt8) :=
    bytesAt image blockSize.toNat (blocknum * blockSize).toNat

/-- The bytes go to the beginning of the buffer, which must have room for a block. -/
def intoBuffer (buffer bytes : List UInt8) : Option (List UInt8) :=
  if blockSize.toNat ≤ buffer.length then some (fill buffer bytes) else none

/-- A block of zeros. -/
def zeros : List UInt8 := List.replicate blockSize.toNat 0

/-- What a step of the walk leaves: the flag `range_in_hole`, the number of the next block, and the buffer. -/
structure Walk where
  rangeInHole : Bool
  blocknum : UInt32
  buffer : List UInt8

/-- A block of pointers is read into the buffer, and one of its pointers is taken. -/
def follow (blocknum : UInt32) (i : Int) (buffer : List UInt8) : Option Walk := do
  let bytes ← readBlock image blockSize blocknum
  let buffer ← intoBuffer blockSize buffer bytes
  guard (i.toNat < blockSize.toNat / 4)
  let next ← loadWord buffer i.toNat
  return ⟨false, next, buffer⟩

variable (inode : Inode) (offsets : Offsets)

/-- This function is step 3 of `file_blockread`. -/
def followTriple (buffer : List UInt8) : Option Walk :=
  if offsets.triple ≠ -1 ∧ inode.iBlock 14 = 0 then some ⟨true, 0, buffer⟩
  else if offsets.triple ≠ -1 then do
    guard (offsets.double ≠ -1)
    guard (offsets.single ≠ -1)
    guard (offsets.direct = -1)
    follow image blockSize (inode.iBlock 14) offsets.triple buffer
  else some ⟨false, 0, buffer⟩

/-- This function is step 4 of `file_blockread`. -/
def followDouble (walk : Walk) : Option Walk :=
  if ¬ walk.rangeInHole ∧ offsets.double ≠ -1 then do
    guard (offsets.single ≠ -1)
    guard (offsets.direct = -1)
    let doBlocknum := if offsets.triple = -1 then inode.iBlock 13 else walk.blocknum
    if doBlocknum = 0 then return { walk with rangeInHole := true, blocknum := 0 }
    else follow image blockSize doBlocknum offsets.double walk.buffer
  else some { walk with blocknum := 0 }

/-- This function is step 5 of `file_blockread`. -/
def followSingle (walk : Walk) : Option Walk :=
  if ¬ walk.rangeInHole ∧ offsets.single ≠ -1 then do
    guard (offsets.direct = -1)
    let siBlocknum := if offsets.double = -1 then inode.iBlock 12 else walk.blocknum
    if siBlocknum = 0 then return { walk with rangeInHole := true, blocknum := 0 }
    else follow image blockSize siBlocknum offsets.single walk.buffer
  else some { walk with blocknum := 0 }

/-- This function is step 6 of `file_blockread`. -/
def fetchDirect (walk : Walk) : Option (List UInt8) :=
  let directBlocknum : Option UInt32 :=
    if ¬ walk.rangeInHole ∧ offsets.direct ≠ -1 then
      if inRange : offsets.direct.toNat < 12 then some (inode.iBlock ⟨offsets.direct.toNat, by omega⟩) else none
    else some walk.blocknum
  directBlocknum.bind fun blocknum =>
    if walk.rangeInHole then intoBuffer blockSize walk.buffer (zeros blockSize)
    else (readBlock image blockSize blocknum).bind (intoBuffer blockSize walk.buffer)

/-- This function is step 7 of `file_blockread`. -/
def validLength (blocknum : UInt32) : UInt32 :=
  let diff := inode.iSize - blocknum * blockSize
  if diff ≥ blockSize then blockSize else diff

/-- This function is `file_blockread`: the returned number and the buffer. It fails with a failed assertion. -/
def fileBlockread (blocknum : UInt32) (buffer : List UInt8) : Option (UInt32 × List UInt8) :=
  if blocknum * blockSize ≥ inode.iSize then some (-1, buffer)
  else do
    let offsets ← calculateOffsets blocknum blockSize
    let walk ← followTriple image blockSize inode offsets buffer
    let walk ← followDouble image blockSize inode offsets walk
    let walk ← followSingle image blockSize inode offsets walk
    let buffer ← fetchDirect image blockSize inode offsets walk
    return (validLength blockSize inode blocknum, buffer)

/-- The block is in the direct or in the singly-indirect range. -/
def InRange (blocknum : UInt32) : Prop := blocknum.toNat < 12 + blockSize.toNat / 4

instance (blocknum : UInt32) : Decidable (InRange blockSize blocknum) := inferInstanceAs (Decidable (_ < _))

/-- The block begins inside the file. -/
def Inside (blocknum : UInt32) : Prop := blocknum.toNat * blockSize.toNat < inode.iSize.toNat

/-- A block of the image, when the image has all of its bytes. -/
def block (blocknum : UInt32) : Option (List UInt8) :=
    bytesAt image blockSize.toNat (blocknum.toNat * blockSize.toNat)

/-- The pointers on the path from `i_block` to the data block, where a zero ends the path. -/
def path (blocknum : UInt32) : Option (List UInt32) :=
  if inRange : blocknum.toNat < 12 then some [inode.iBlock ⟨blocknum.toNat, by omega⟩]
  else if inode.iBlock 12 = 0 then some [0]
  else do
    let pointers ← block image blockSize (inode.iBlock 12)
    let pointer ← loadWord pointers (blocknum.toNat - 12)
    return [inode.iBlock 12, pointer]

/-- Every block that the walk to the data reads is in the image. -/
def ReadsSucceed (blocknum : UInt32) : Prop :=
  if inRange : blocknum.toNat < 12 then
    readBlock image blockSize (inode.iBlock ⟨blocknum.toNat, by omega⟩) ≠ none
  else inode.iBlock 12 ≠ 0 → ∃ pointers pointer, readBlock image blockSize (inode.iBlock 12) = some pointers ∧
    loadWord pointers (blocknum.toNat - 12) = some pointer ∧ readBlock image blockSize pointer ≠ none

/-- The range test and the returned length are right. -/
structure RangeRight (blocknum : UInt32) (buffer : List UInt8) : Prop where
  outside : (∃ after, fileBlockread image blockSize inode blocknum buffer = some (-1, after)) ↔
    ¬ Inside blockSize inode blocknum
  length : Inside blockSize inode blocknum → InRange blockSize blocknum →
    ReadsSucceed image blockSize inode blocknum →
    ∃ length after, fileBlockread image blockSize inode blocknum buffer = some (length, after) ∧
      length.toNat = min blockSize.toNat (inode.iSize.toNat - blocknum.toNat * blockSize.toNat)

/-- The call returns with these bytes at the beginning of the buffer. -/
def Delivers (blocknum : UInt32) (buffer bytes : List UInt8) : Prop :=
  ∃ length, fileBlockread image blockSize inode blocknum buffer = some (length, fill buffer bytes)

/-- The buffer gets the data block where no pointer on the path is zero, and zeros where one is. -/
structure HolesRight (blocknum : UInt32) (buffer : List UInt8) : Prop where
  data : ∀ pointers, path image blockSize inode blocknum = some pointers → 0 ∉ pointers →
    ∀ bytes, pointers.getLast?.bind (block image blockSize) = some bytes →
      Delivers image blockSize inode blocknum buffer bytes
  hole : ∀ pointers, path image blockSize inode blocknum = some pointers → 0 ∈ pointers →
    Delivers image blockSize inode blocknum buffer (zeros blockSize)

/-- What a read with the 32-bit offset of one block number gives is what a pointer stands for. -/
def Serves (addressed pointer : UInt32) : Prop :=
  if pointer = 0 then readBlock image blockSize addressed = some (zeros blockSize)
  else ∀ bytes, block image blockSize pointer = some bytes → readBlock image blockSize addressed = some bytes

/-- The reads with 32-bit offsets lead to what the pointers on the path stand for. -/
def Served (blocknum : UInt32) : Prop :=
  if inRange : blocknum.toNat < 12 then
    Serves image blockSize (inode.iBlock ⟨blocknum.toNat, by omega⟩) (inode.iBlock ⟨blocknum.toNat, by omega⟩)
  else inode.iBlock 12 ≠ 0 → ∀ pointers pointer, block image blockSize (inode.iBlock 12) = some pointers →
    loadWord pointers (blocknum.toNat - 12) = some pointer →
    ∃ pointers' pointer', readBlock image blockSize (inode.iBlock 12) = some pointers' ∧
      loadWord pointers' (blocknum.toNat - 12) = some pointer' ∧ Serves image blockSize pointer' pointer

end Walk

end OSLabs.Ext2
