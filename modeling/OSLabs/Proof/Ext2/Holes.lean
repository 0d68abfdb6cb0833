import OSLabs.Proof.Ext2.Walk

namespace OSLabs.Ext2

open Stdio

variable {image : List UInt8} {blockSize blocknum pointer : UInt32} {inode : Inode} {buffer bytes : List UInt8}

/-- The offset of a block inside the file has no more than 32 bits. -/
theorem not_outOfRange (inside : Inside blockSize inode blocknum) : ¬ blocknum * blockSize ≥ inode.iSize := by
  have small : blocknum.toNat * blockSize.toNat < 2 ^ 32 := Nat.lt_trans inside inode.iSize.toNat_lt
  rw [ge_iff_le, UInt32.le_iff_toNat_le, UInt32.toNat_mul, Nat.mod_eq_of_lt small]
  exact Nat.not_le.mpr inside

section Deliveries
variable (inside : Inside blockSize inode blocknum) (room : blockSize.toNat ≤ buffer.length)

include inside room

/-- A direct block is delivered when it is what the read gives. -/
theorem delivers_direct (direct : blocknum.toNat < 12) (whole : bytes.length = blockSize.toNat) :
    Delivers image blockSize inode blocknum buffer bytes ↔
      readBlock image blockSize (inode.iBlock ⟨blocknum.toNat, by omega⟩) = some bytes := by
  rw [Delivers, fileBlockread_direct (not_outOfRange inside) room direct]
  constructor
  · rintro ⟨length, returns⟩
    obtain ⟨read, here, equal⟩ := Option.map_eq_some_iff.mp returns
    rw [here, fill_inj ((length_bytesAt here).trans whole.symm) (Prod.mk.inj equal).2]
  · intro here
    rw [here]
    exact ⟨_, rfl⟩

variable (indirect : ¬ blocknum.toNat < 12) (inRange : InRange blockSize blocknum)

include indirect inRange

/-- Without a block of pointers zeros are delivered. -/
theorem delivers_hole (hole : inode.iBlock 12 = 0) :
    Delivers image blockSize inode blocknum buffer (zeros blockSize) := by
  rw [Delivers, fileBlockread_indirect (not_outOfRange inside) room indirect inRange, if_pos hole]
  exact ⟨_, rfl⟩

theorem delivers_indirect (pointed : inode.iBlock 12 ≠ 0) (whole : bytes.length = blockSize.toNat) :
    Delivers image blockSize inode blocknum buffer bytes ↔
      ∃ pointers pointer, readBlock image blockSize (inode.iBlock 12) = some pointers ∧
        loadWord pointers (blocknum.toNat - 12) = some pointer ∧
        readBlock image blockSize pointer = some bytes := by
  rw [Delivers, fileBlockread_indirect (not_outOfRange inside) room indirect inRange, if_neg pointed]
  constructor
  · rintro ⟨length, returns⟩
    obtain ⟨pointers, read, returns⟩ := Option.bind_eq_some_iff.mp returns
    obtain ⟨pointer, word, returns⟩ := Option.bind_eq_some_iff.mp returns
    obtain ⟨data, here, equal⟩ := Option.map_eq_some_iff.mp returns
    rw [fill_inj ((length_bytesAt here).trans whole.symm) (Prod.mk.inj equal).2] at here
    exact ⟨pointers, pointer, read, word, here⟩
  · rintro ⟨pointers, pointer, read, word, here⟩
    rw [read, Option.bind_some, word, Option.bind_some, here]
    exact ⟨_, rfl⟩

end Deliveries

/-- A block of the image with its 32-bit offset is in the image too. -/
theorem exists_readBlock (present : block image blockSize pointer = some bytes) :
    ∃ other, readBlock image blockSize pointer = some other := by
  have whole := length_bytesAt present
  unfold block bytesAt at present
  split at present
  · have before : (pointer * blockSize).toNat ≤ pointer.toNat * blockSize.toNat := by
      rw [UInt32.toNat_mul]
      exact Nat.mod_le _ _
    refine ⟨_, if_pos ?_⟩
    cases present
    rw [List.length_take, List.length_drop] at whole ⊢
    omega
  · cases present

/-- The call delivers what a pointer to a data block stands for. -/
def DeliversFor (image : List UInt8) (blockSize : UInt32) (inode : Inode) (blocknum : UInt32) (buffer : List UInt8)
    (pointer : UInt32) : Prop :=
  if pointer = 0 then Delivers image blockSize inode blocknum buffer (zeros blockSize)
  else ∀ bytes, block image blockSize pointer = some bytes → Delivers image blockSize inode blocknum buffer bytes

/-- Where the path is known, only its last pointer counts. -/
theorem holesRight_iff_last {pointers : List UInt32} (here : path image blockSize inode blocknum = some pointers)
    (zero : 0 ∈ pointers ↔ pointer = 0) (last : pointers.getLast? = some pointer) :
    HolesRight image blockSize inode blocknum buffer ↔
      DeliversFor image blockSize inode blocknum buffer pointer := by
  unfold DeliversFor
  constructor
  · intro right
    split
    · next hole => exact right.hole pointers here (zero.mpr hole)
    · next noHole =>
        intro bytes data
        exact right.data pointers here (mt zero.mp noHole) bytes (by rwa [last])
  · intro delivers
    refine ⟨fun others there noHole bytes data => ?_, fun others there hole => ?_⟩
    · obtain rfl := Option.some.inj (here.symm.trans there)
      rw [if_neg (mt zero.mpr noHole)] at delivers
      rw [last] at data
      exact delivers bytes data
    · obtain rfl := Option.some.inj (here.symm.trans there)
      rwa [if_pos (zero.mp hole)] at delivers

/-- The delivered bytes come from one read, which serves the last pointer. -/
theorem serves_iff {addressed : UInt32} (delivers : ∀ bytes, bytes.length = blockSize.toNat →
    (Delivers image blockSize inode blocknum buffer bytes ↔ readBlock image blockSize addressed = some bytes)) :
    DeliversFor image blockSize inode blocknum buffer pointer ↔ Serves image blockSize addressed pointer := by
  unfold DeliversFor Serves
  by_cases hole : pointer = 0
  · rw [if_pos hole, if_pos hole]
    exact delivers (zeros blockSize) length_zeros
  · rw [if_neg hole, if_neg hole]
    exact forall₂_congr fun bytes data => delivers bytes (length_bytesAt data)

section Paths
variable (inside : Inside blockSize inode blocknum) (room : blockSize.toNat ≤ buffer.length)

include inside room

theorem holesRight_direct (direct : blocknum.toNat < 12) :
    HolesRight image blockSize inode blocknum buffer ↔ Served image blockSize inode blocknum := by
  have here : path image blockSize inode blocknum = some [inode.iBlock ⟨blocknum.toNat, by omega⟩] :=
    dif_pos direct
  have only : 0 ∈ [inode.iBlock ⟨blocknum.toNat, by omega⟩] ↔ inode.iBlock ⟨blocknum.toNat, by omega⟩ = 0 := by
    rw [List.mem_singleton, eq_comm]
  rw [holesRight_iff_last here only rfl, Served, dif_pos direct]
  exact serves_iff fun bytes => delivers_direct inside room direct

variable (indirect : ¬ blocknum.toNat < 12) (inRange : InRange blockSize blocknum)

include indirect inRange

theorem holesRight_hole (hole : inode.iBlock 12 = 0) : HolesRight image blockSize inode blocknum buffer := by
  have here : path image blockSize inode blocknum = some [0] := by
    rw [path, dif_neg indirect, if_pos hole]
  have only : (0 : UInt32) ∈ [(0 : UInt32)] ↔ (0 : UInt32) = 0 := by simp
  rw [holesRight_iff_last here only rfl, DeliversFor, if_pos rfl]
  exact delivers_hole inside room indirect inRange hole

/-- With the block of pointers in the image, the read of that block and the pointer in it decide. -/
theorem holesRight_pointed {table : List UInt8} (pointed : inode.iBlock 12 ≠ 0)
    (present : block image blockSize (inode.iBlock 12) = some table) :
    ∃ pointer addressed, loadWord table (blocknum.toNat - 12) = some pointer ∧
      (∃ other, readBlock image blockSize (inode.iBlock 12) = some other ∧
        loadWord other (blocknum.toNat - 12) = some addressed) ∧
      (HolesRight image blockSize inode blocknum buffer ↔ Serves image blockSize addressed pointer) := by
  have below : blocknum.toNat - 12 < blockSize.toNat / 4 := by
    unfold InRange at inRange
    omega
  have whole := length_bytesAt present
  obtain ⟨other, read⟩ := exists_readBlock present
  have whole' := length_bytesAt read
  obtain ⟨pointer, word⟩ := exists_loadWord (show 4 * (blocknum.toNat - 12) + 4 ≤ table.length by omega)
  obtain ⟨addressed, word'⟩ := exists_loadWord (show 4 * (blocknum.toNat - 12) + 4 ≤ other.length by omega)
  refine ⟨pointer, addressed, word, ⟨other, read, word'⟩, ?_⟩
  have there : path image blockSize inode blocknum = some [inode.iBlock 12, pointer] := by
    simp [path, indirect, pointed, present, word]
  have second : 0 ∈ [inode.iBlock 12, pointer] ↔ pointer = 0 := by
    rw [List.mem_cons, List.mem_singleton, or_iff_right (Ne.symm pointed), eq_comm]
  rw [holesRight_iff_last there second rfl]
  refine serves_iff fun bytes size => ?_
  rw [delivers_indirect inside room indirect inRange pointed size, read]
  constructor
  · rintro ⟨_, _, equal, same, data⟩
    cases equal
    rw [word'] at same
    cases same
    exact data
  · intro data
    exact ⟨other, addressed, rfl, word', data⟩

theorem holesRight_indirect :
    HolesRight image blockSize inode blocknum buffer ↔ Served image blockSize inode blocknum := by
  rw [Served, dif_neg indirect]
  by_cases hole : inode.iBlock 12 = 0
  · exact iff_of_true (holesRight_hole inside room indirect inRange hole) fun pointed => absurd hole pointed
  · cases present : block image blockSize (inode.iBlock 12) with
    | none =>
        have nowhere : path image blockSize inode blocknum = none := by
          simp [path, indirect, hole, present]
        refine iff_of_true ⟨?_, ?_⟩ ?_
        · intro pointers here
          cases nowhere.symm.trans here
        · intro pointers here
          cases nowhere.symm.trans here
        · rintro _ pointers pointer equal
          cases equal
    | some table =>
        obtain ⟨pointer, addressed, word, ⟨other, read, word'⟩, decides⟩ :=
          holesRight_pointed inside room indirect inRange hole present
        rw [decides]
        constructor
        · rintro serves _ table' another equal same
          cases equal
          rw [word] at same
          cases same
          exact ⟨other, addressed, read, word', serves⟩
        · intro served
          obtain ⟨other', another, equal, same, serves⟩ := served hole table pointer rfl word
          rw [read] at equal
          cases equal
          rw [word'] at same
          cases same
          exact serves

end Paths

/-- Sparse files are read right exactly when the reads with 32-bit offsets lead to what the pointers stand for. -/
theorem holesRight_iff (image : List UInt8) (inside : Inside blockSize inode blocknum)
    (inRange : InRange blockSize blocknum) (room : blockSize.toNat ≤ buffer.length) :
    HolesRight image blockSize inode blocknum buffer ↔ Served image blockSize inode blocknum := by
  by_cases direct : blocknum.toNat < 12
  · exact holesRight_direct inside room direct
  · exact holesRight_indirect inside room direct inRange

/-- Below the offset `2 ^ 32` a pointer is served exactly when it is no hole, or when the first block is zero. -/
theorem serves_self (low : pointer.toNat * blockSize.toNat < 2 ^ 32) :
    Serves image blockSize pointer pointer ↔ (pointer = 0 → block image blockSize 0 = some (zeros blockSize)) := by
  rw [Serves, readBlock_eq_block low]
  split
  · next hole =>
      rw [hole]
      exact ⟨fun zero _ => zero, fun zero => zero rfl⟩
  · next noHole => exact iff_of_true (fun bytes data => data) fun hole => absurd hole noHole

theorem eq_take_of_block_zero (present : block image blockSize 0 = some bytes) :
    bytes = image.take blockSize.toNat := by
  unfold block bytesAt at present
  split at present
  · cases present
    rw [UInt32.toNat_zero, Nat.zero_mul, List.drop_zero]
  · cases present

/-- A file with one block that is the second block of the image. -/
theorem second_block_delivered :
    HolesRight (List.replicate 2048 7) 1024 ⟨1024, fun _ => 1⟩ 0 (List.replicate 1024 0) :=
  (holesRight_iff (List.replicate 2048 7) (by unfold Inside; decide) (by decide)
    (by rw [List.length_replicate]; decide)).mpr (by
      rw [Served, dif_pos (by decide), serves_self (by decide)]
      exact fun hole => absurd hole (by decide))

/-- A hole at the pointer to the data block delivers the first block of the image. -/
theorem hole_not_zero : ¬ HolesRight (List.replicate 1024 1) 1024 ⟨1024, fun _ => 0⟩ 0
    (List.replicate 1024 7) := by
  intro right
  rw [holesRight_direct (by unfold Inside; decide) (by rw [List.length_replicate]; decide) (by decide), Served,
    dif_pos (by decide), serves_self (by decide)] at right
  have zero : zeros 1024 = (List.replicate 1024 1).take 1024 := eq_take_of_block_zero (right rfl)
  rw [List.take_replicate, zeros] at zero
  have one : (1 : UInt8) ∈ List.replicate (1024 : UInt32).toNat (0 : UInt8) :=
    zero ▸ List.mem_replicate.mpr ⟨by decide, rfl⟩
  exact absurd (List.eq_of_mem_replicate one) (by decide)

end OSLabs.Ext2
