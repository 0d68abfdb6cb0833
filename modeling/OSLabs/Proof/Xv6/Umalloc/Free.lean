import OSLabs.Proof.Xv6.Umalloc.Heap

namespace OSLabs.Xv6.Umalloc

open Linked Tiling

/-- The blocks keep their size and what is stored behind their first header. -/
def Keeps (memory changed : Memory) (used : List Nat) : Prop :=
  ∀ a ∈ used, changed.size a = memory.size a ∧
    ∀ unit, Behind memory.size a unit → changed.ptr unit = memory.ptr unit ∧ changed.size unit = memory.size unit

section
variable {image : Image} {memory changed after : Memory} {blocks used rest before later : List Nat} {a bp p : Nat}

theorem Keeps.trans (first : Keeps memory changed used) (second : Keeps changed after used) :
    Keeps memory after used := by
  intro a member
  obtain ⟨size, behind⟩ := first a member
  obtain ⟨size', behind'⟩ := second a member
  refine ⟨size'.trans size, fun unit inside => ?_⟩
  have again : Behind changed.size a unit := by
    unfold Behind
    rw [size]
    exact inside
  exact ⟨(behind' unit again).1.trans (behind unit inside).1, (behind' unit again).2.trans (behind unit inside).2⟩

/-- What belongs to no block of the program may change. -/
theorem Keeps.of_outside {written : Nat → Prop}
    (same : ∀ unit, ¬ written unit → changed.ptr unit = memory.ptr unit ∧ changed.size unit = memory.size unit)
    (outside : ∀ unit, written unit → ∀ a ∈ used, unit ≠ a ∧ ¬ Behind memory.size a unit) :
    Keeps memory changed used := by
  intro a member
  refine ⟨(same a fun change => (outside a change a member).1 rfl).2, fun unit inside => ?_⟩
  exact same unit fun change => (outside unit change a member).2 inside

namespace Heap

/-- A node of the ring and a block in use have no address in common. -/
theorem apart (heap : Heap image memory blocks used) (here : a ∈ blocks) (there : bp ∈ used) :
    Apart memory.size a bp :=
  (List.pairwise_append.mp heap.tiles.apart).2.2 a here bp there

/-- A node of the ring is not part of a block in use. -/
theorem outside (heap : Heap image memory blocks used) (inRing : a ∈ image.base :: blocks) (member : bp ∈ used) :
    a ≠ bp ∧ ¬ Behind memory.size bp a := by
  unfold Behind
  rcases List.mem_cons.mp inRing with rfl | inList
  · have above := heap.base_lt (List.mem_append_right blocks member)
    omega
  · have apart := heap.apart inList member
    have positive := (heap.tiles.inside a (List.mem_append_left used inList)).1
    have positive' := (heap.tiles.inside bp (List.mem_append_right blocks member)).1
    unfold Apart at apart
    omega

end Heap

/-- The heap while a block is between the two parts of the ring. Its pointer leads to the second part already. -/
structure Joined (image : Image) (memory : Memory) (bp : Nat) (before later rest : List Nat) : Prop where
  left : ∃ stop, Chain memory.next image.base before stop
  right : Chain memory.next bp later image.base
  gapsLeft : (image.base :: before).Pairwise fun a b => a + memory.size a < b
  gapsRight : (bp :: later).Pairwise fun a b => a + memory.size a < b
  below : before.getLastD image.base + memory.size (before.getLastD image.base) ≤ bp
  bottom : memory.size image.base = 0
  tiles : Tiles memory.size (bp :: (before ++ later ++ rest)) image.heap memory.brk (memory.brk - image.heap)
  grown : image.heap ≤ memory.brk
  fits : memory.brk ≤ image.physical

/-- Sizes in the heap do not overflow. -/
theorem size_mod (image : Image) (small : a + bp ≤ image.physical) : (a + bp) % 2 ^ 32 = a + bp :=
  Nat.mod_eq_of_lt (small.trans_lt image.short)

/-- The block is joined with the free block behind it, if there is one. -/
theorem Heap.joinNext (heap : Heap image memory (before ++ later) used) (taken : used.Perm (bp :: rest))
    (below : before.getLastD image.base < bp) (beyond : ∀ a ∈ later, bp < a) :
    ∃ later', Joined image (memory.joinNext bp (before.getLastD image.base)) bp before later' rest ∧
      memory.size bp ≤ (memory.joinNext bp (before.getLastD image.base)).size bp := by
  obtain ⟨⟨stop, left⟩, right⟩ := heap.chain.cut
  have inUse : bp ∈ (before ++ later) ++ used := List.mem_append_right _ (taken.mem_iff.mpr List.mem_cons_self)
  have above := heap.base_lt inUse
  have tiles := heap.tiles.perm ((taken.append_left (before ++ later)).trans List.perm_middle)
  have gaps := heap.gaps
  rw [← List.cons_append] at gaps
  obtain ⟨gapsLeft, gapsRight, -⟩ := List.pairwise_append.mp gaps
  have apart : ∀ a ∈ image.base :: before, a ≠ bp := by
    rintro a member rfl
    rcases List.mem_cons.mp member with rfl | member
    · exact lt_irrefl _ above
    · exact tiles.notMem_tail (List.mem_append_left rest (List.mem_append_left later member))
  have last : before.getLastD image.base ∈ image.base :: before := getLastD_mem
  have outside : ∀ a ∈ later, a ≠ bp := fun a member => (beyond a member).ne'
  have ends : before.getLastD image.base + memory.size (before.getLastD image.base) ≤ bp := by
    rcases List.mem_cons.mp last with same | member
    · rw [same, heap.bottom]
      omega
    · exact tiles.le_of_lt (List.mem_cons_of_mem bp
        (List.mem_append_left rest (List.mem_append_left later member)))
        List.mem_cons_self below
  unfold Memory.joinNext
  split
  · next touch =>
      cases later with
      | nil =>
          have back : memory.ptr (before.getLastD image.base) = image.base := Memory.next_eq_some.mp right
          omega
      | cons n later =>
          have next := Memory.next_eq_some.mp right.1
          rw [next] at touch ⊢
          have order : (before ++ n :: later ++ rest).Perm (n :: (before ++ later ++ rest)) := by
            rw [List.append_assoc, List.append_assoc]
            exact List.perm_middle
          have merged := (tiles.perm (order.cons bp)).merge touch
          have top :=
            heap.le_physical (List.mem_append_left used
              (List.mem_append_right before (List.mem_cons_self (a := n))))
          rw [size_mod image (by omega)]
          obtain ⟨first, gapsRight⟩ := List.pairwise_cons.mp gapsRight
          refine ⟨later, ⟨⟨stop, ?_⟩, ?_, ?_, ?_, ?_, ?_, merged, heap.grown, heap.fits⟩, ?_⟩
          · exact left.start (Memory.next_setPtr_of_ne (apart _ List.mem_cons_self)) fun a member =>
              Memory.next_setPtr_of_ne (apart a (List.mem_cons_of_mem _ member))
          · exact right.2.start (congrArg some Memory.setPtr_ptr_self) fun a member =>
              Memory.next_setPtr_of_ne (outside a (List.mem_cons_of_mem n member))
          · refine gapsLeft.imp_of_mem fun {a b} member _ gap => ?_
            simpa [Function.update_of_ne (apart a member)] using gap
          · refine List.pairwise_cons.mpr ⟨fun a member => ?_, gapsRight.imp_of_mem fun {a b} member _ gap => ?_⟩
            · have gap := first a member
              rw [Memory.setPtr_size, Memory.setSize_size, Function.update_self]
              omega
            · simpa [Function.update_of_ne (outside a (List.mem_cons_of_mem n member))] using gap
          · rw [Memory.setPtr_size, Memory.setSize_size, Function.update_of_ne (apart _ last)]
            exact ends
          · simpa [Function.update_of_ne (apart _ List.mem_cons_self)] using heap.bottom
          · rw [Memory.setPtr_size, Memory.setSize_size, Function.update_self]
            exact Nat.le_add_right _ _
  · next apart' =>
      refine ⟨later, ⟨⟨stop, ?_⟩, ?_, gapsLeft, ?_, ends, heap.bottom, tiles, heap.grown, heap.fits⟩, le_rfl⟩
      · exact left.start (Memory.next_setPtr_of_ne (apart _ List.mem_cons_self)) fun a member =>
          Memory.next_setPtr_of_ne (apart a (List.mem_cons_of_mem _ member))
      · exact right.start (congrArg some Memory.setPtr_ptr_self) fun a member =>
          Memory.next_setPtr_of_ne (outside a member)
      · refine List.pairwise_cons.mpr ⟨fun a member => ?_, gapsRight⟩
        have behind := tiles.le_of_lt List.mem_cons_self
          (List.mem_cons_of_mem bp (List.mem_append_left rest (List.mem_append_right before member)))
            (beyond a member)
        cases later with
        | nil => cases member
        | cons n later =>
            have next := Memory.next_eq_some.mp right.1
            rw [Memory.setPtr_size]
            rcases List.mem_cons.mp member with rfl | member
            · omega
            · have before := (List.pairwise_cons.mp gapsRight).1 a member
              have there := tiles.le_of_lt List.mem_cons_self
                (List.mem_cons_of_mem bp (List.mem_append_left rest (List.mem_append_right _ List.mem_cons_self)))
                (beyond n List.mem_cons_self)
              have positive := (tiles.inside bp List.mem_cons_self).1
              omega

namespace Joined

/-- The block is joined with the free block before it, if there is one. -/
theorem joinPrev (joined : Joined image memory bp before later rest) :
    ∃ blocks,
      Heap image { memory.joinPrev bp (before.getLastD image.base) with freep := before.getLastD image.base }
        blocks rest ∧
      ∃ a ∈ blocks, memory.size bp ≤ (memory.joinPrev bp (before.getLastD image.base)).size a := by
  obtain ⟨stop, left⟩ := joined.left
  have last : before.getLastD image.base ∈ image.base :: before := getLastD_mem
  have here := joined.tiles.inside bp List.mem_cons_self
  have image_below := image.below
  have distinct : (image.base :: before).Nodup := joined.gapsLeft.imp fun gap => by omega
  have lastBelow : before.getLastD image.base < bp := by
    have ends := joined.below
    rcases List.mem_cons.mp last with same | member
    · rw [same]
      omega
    · have inside :=
        joined.tiles.inside _ (List.mem_cons_of_mem bp
          (List.mem_append_left rest (List.mem_append_left later member)))
      omega
  have beyond : ∀ a ∈ later, bp < a := fun a member => by
    have gap := (List.pairwise_cons.mp joined.gapsRight).1 a member
    omega
  have apart : ∀ a ∈ later, a ≠ before.getLastD image.base :=
    fun a member => (lastBelow.trans (beyond a member)).ne'
  have ordered := fun a (member : a ∈ image.base :: before) => getLastD_of_pairwise joined.gapsLeft member
  unfold Memory.joinPrev
  split
  · next touch =>
      have different : image.base ≠ before.getLastD image.base := by
        intro same
        rw [← same, joined.bottom] at touch
        omega
      have member := (List.mem_cons.mp last).resolve_left different.symm
      have order : (bp :: (before ++ later ++ rest)).Perm
          (before.getLastD image.base :: bp :: (before.erase (before.getLastD image.base) ++ later ++ rest)) := by
        refine List.Perm.trans ?_ (List.Perm.swap ..)
        exact ((List.perm_cons_erase member).append_right later).append_right rest |>.cons bp
      have merged := (joined.tiles.perm order).merge touch
      have top := joined.fits
      rw [size_mod image (by omega)]
      refine ⟨before ++ later, ⟨?_, ?_, ?_, ?_, merged.perm ?_, joined.grown, joined.fits⟩, _,
        List.mem_append_left _ member, ?_⟩
      · have right : Chain (memory.setPtr (before.getLastD image.base) (memory.ptr bp)).next
          (before.getLastD image.base) later
            image.base :=
          joined.right.start (congrArg some Memory.setPtr_ptr_self) fun a member =>
            Memory.next_setPtr_of_ne (apart a member)
        exact left.relink distinct (fun a _ different => Memory.next_setPtr_of_ne different) right
      · have changedSize : ∀ a, a ≠ before.getLastD image.base →
          Function.update memory.size (before.getLastD image.base)
            (memory.size (before.getLastD image.base) + memory.size bp) a = memory.size a := fun a different =>
          Function.update_of_ne different _ _
        rw [← List.cons_append]
        refine List.pairwise_append.mpr ⟨?_, ?_, fun a here b there => ?_⟩
        · refine joined.gapsLeft.imp_of_mem fun {a b} _ there gap => ?_
          have unlike : a ≠ before.getLastD image.base := by
            rintro rfl
            rcases ordered b there with rfl | less <;> omega
          rw [Memory.setPtr_size, Memory.setSize_size, changedSize a unlike]
          exact gap
        · refine (List.pairwise_cons.mp joined.gapsRight).2.imp_of_mem fun {a b} member _ gap => ?_
          rw [Memory.setPtr_size, Memory.setSize_size, changedSize a (apart a member)]
          exact gap
        · have gap := (List.pairwise_cons.mp joined.gapsRight).1 b there
          rw [Memory.setPtr_size, Memory.setSize_size]
          rcases ordered a here with rfl | less
          · rw [Function.update_self]
            omega
          · rw [changedSize a (by omega)]
            omega
      · rw [Memory.setPtr_size, Memory.setSize_size, Function.update_of_ne different]
        exact joined.bottom
      · exact List.mem_cons.mpr (.inr (List.mem_append_left later member))
      · exact ((List.perm_cons_erase member).symm.append_right later).append_right rest
      · rw [Memory.setPtr_size, Memory.setSize_size, Function.update_self]
        exact Nat.le_add_left _ _
  · next apart' =>
      refine ⟨before ++ bp :: later, ⟨?_, ?_, joined.bottom, ?_, joined.tiles.perm ?_, joined.grown,
        joined.fits⟩, bp,
        by simp, le_rfl⟩
      · have right : Chain (memory.setPtr (before.getLastD image.base) bp).next
          (before.getLastD image.base) (bp :: later)
            image.base := by
          refine ⟨congrArg some Memory.setPtr_ptr_self, ?_⟩
          exact joined.right.start (Memory.next_setPtr_of_ne lastBelow.ne') fun a member =>
            Memory.next_setPtr_of_ne (apart a member)
        exact left.relink distinct (fun a _ different => Memory.next_setPtr_of_ne different) right
      · rw [← List.cons_append]
        refine List.pairwise_append.mpr ⟨joined.gapsLeft, joined.gapsRight, fun a member b there => ?_⟩
        have ends := joined.below
        have least : bp ≤ b := by
          rcases List.mem_cons.mp there with rfl | there
          · exact le_rfl
          · exact (beyond b there).le
        rw [Memory.setPtr_size]
        rcases ordered a member with rfl | less
        · omega
        · omega
      · rw [← List.cons_append]
        exact List.mem_append_left _ last
      · rw [List.append_assoc, List.append_assoc, List.cons_append]
        exact List.perm_middle.symm

end Joined

/-- A call of `free` returns. The block belongs to a free block then, and no other block in use has changed. -/
theorem Heap.free (heap : Heap image memory blocks used) (taken : used.Perm (bp :: rest)) :
    ∃ after blocks', Umalloc.free image (bp + 1) memory = some after ∧ Heap image after blocks' rest ∧
      Keeps memory after rest ∧
      ∃ a ∈ blocks', memory.size bp ≤ after.size a := by
  have inUse : bp ∈ blocks ++ used := List.mem_append_right blocks (taken.mem_iff.mpr List.mem_cons_self)
  have tiles := heap.tiles.perm ((taken.append_left blocks).trans List.perm_middle)
  have outside : bp ∉ blocks := fun member => tiles.notMem_tail (List.mem_append_left rest member)
  obtain ⟨before, later, rfl, found, below, beyond⟩ := heap.exists_findLoop (heap.base_lt inUse) outside
  obtain ⟨later', joined, grown⟩ := heap.joinNext taken below beyond
  obtain ⟨blocks', freed, a, member, large⟩ := joined.joinPrev
  have last : before.getLastD image.base ∈ image.base :: (before ++ later) := by
    rw [← List.cons_append]
    exact List.mem_append_left later getLastD_mem
  refine ⟨_, blocks', ?_, freed, ?_, a, member, grown.trans large⟩
  · rw [Umalloc.free, Nat.add_sub_cancel, found]
    rfl
  · have same : ∀ unit, ¬ (unit = bp ∨ unit = before.getLastD image.base) →
        ((memory.joinNext bp (before.getLastD image.base)).joinPrev bp (before.getLastD image.base)).ptr
          unit = memory.ptr unit ∧
        ((memory.joinNext bp (before.getLastD image.base)).joinPrev bp (before.getLastD image.base)).size unit =
          memory.size unit := by
      intro unit unwritten
      obtain ⟨notBlock, notPrevious⟩ := not_or.mp unwritten
      unfold Memory.joinPrev Memory.joinNext
      split <;> split <;> simp only [Memory.setPtr_size, Memory.setSize_size, Memory.setSize_ptr, ne_eq, notBlock,
        notPrevious, not_false_eq_true, Memory.setPtr_ptr_of_ne, Function.update_of_ne, and_self]
    refine Keeps.of_outside same fun unit written b member => ?_
    have inUse : b ∈ used := taken.mem_iff.mpr (List.mem_cons_of_mem bp member)
    rcases written with rfl | rfl
    · have there : b ∈ unit :: (before ++ later ++ rest) :=
        List.mem_cons_of_mem unit (List.mem_append_right _ member)
      refine ⟨?_, tiles.not_behind there List.mem_cons_self⟩
      rintro rfl
      exact tiles.notMem_tail (List.mem_append_right _ member)
    · exact heap.outside last inUse

end

end OSLabs.Xv6.Umalloc
