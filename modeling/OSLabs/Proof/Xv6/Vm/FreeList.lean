import OSLabs.Construction.Xv6.Vm
import OSLabs.Proof.Linked.Ring
import Mathlib.Data.List.Range

namespace OSLabs.Xv6.Vm

open Linked Radix

variable {machine : Machine} {memory memory' : Memory} {page other table word first count : Nat} {i : Fin 512}
  {free : List Nat}

/-- The pointers of the free pages. Node 0 is `kmem.freelist` and also `NULL`,
since page 0 is not in the memory. -/
def Memory.next (memory : Memory) : Linked.Memory Nat := fun page =>
  some (if page = 0 then memory.freelist else memory.runNext page)

/-- `kmem.freelist` leads through these pages, and through each of them once. -/
structure FreeList (memory : Memory) (free : List Nat) : Prop where
  chain : Chain memory.next 0 free 0
  distinct : (0 :: free).Nodup

/-- Page 0 is not in the memory. -/
theorem Machine.page_pos (inside : machine.bottom ≤ page) : page ≠ 0 := by
  have positive := Nat.zero_lt_of_lt machine.kernel
  omega

theorem kfree_some (memory : Memory) (inside : machine.bottom ≤ page ∧ page < machine.top) :
    ∃ memory', kfree machine page memory = some memory' :=
  ⟨_, if_pos inside⟩

theorem kfree_inside (freed : kfree machine page memory = some memory') :
    machine.bottom ≤ page ∧ page < machine.top := by
  by_contra outer
  rw [kfree, if_neg outer] at freed
  cases freed

theorem runNext_congr (same : memory'.words page = memory.words page) : memory'.runNext page = memory.runNext page := by
  rw [Memory.runNext, Memory.runNext, same]

/-- `kfree` writes to the page that it frees only. -/
theorem kfree_words (freed : kfree machine page memory = some memory') (different : other ≠ page) :
    memory'.words other = memory.words other := by
  rw [kfree, if_pos (kfree_inside freed), Option.some.injEq] at freed
  rw [← freed]
  exact (Function.update_of_ne different ..).trans (Function.update_of_ne different ..)

theorem kfree_next (freed : kfree machine page memory = some memory') :
    memory'.freelist = page ∧ memory'.runNext page = memory.freelist := by
  rw [kfree, if_pos (kfree_inside freed), Option.some.injEq] at freed
  rw [← freed]
  refine ⟨rfl, ?_⟩
  dsimp only [Memory.runNext, Memory.setWord, Memory.fill, store]
  rw [Function.update_self, Function.update_self]
  exact Nat.mul_div_cancel _ (by decide)

/-- A page that is no page table may be freed before or after a store. -/
theorem kfree_setWord (different : table ≠ page) : kfree machine page (memory.setWord table i word) =
    (kfree machine page memory).map fun memory => memory.setWord table i word := by
  unfold kfree
  split
  · rw [Option.map_some, Option.some.injEq, Memory.mk.injEq]
    refine ⟨?_, rfl⟩
    dsimp only [Memory.setWord, Memory.fill, store]
    rw [Function.update_self, Function.update_self, Function.update_idem, Function.update_idem,
      Function.update_of_ne different,
      Function.update_comm different]
  · rfl

namespace FreeList

/-- The list does not change when the other pages are written. -/
theorem congr (list : FreeList memory free) (head : memory'.freelist = memory.freelist)
    (same : ∀ page ∈ free, memory'.words page = memory.words page) : FreeList memory' free where
  chain := by
    refine list.chain.start ?_ fun page member => ?_
    · exact congrArg some head
    · rw [Memory.next, Memory.next, head, runNext_congr (same page member)]
  distinct := list.distinct

theorem nil (empty : memory.freelist = 0) : FreeList memory [] := ⟨congrArg some empty, List.pairwise_singleton ..⟩

theorem nodup (list : FreeList memory free) : free.Nodup := list.distinct.of_cons

/-- The pointers determine the list. -/
theorem unique {free' : List Nat} (list : FreeList memory free) (list' : FreeList memory free') : free = free' :=
  list.chain.unique list'.chain (List.nodup_cons.mp list.distinct).1 (List.nodup_cons.mp list'.distinct).1

/-- `kalloc` takes the first page from the list. -/
theorem kalloc (list : FreeList memory free) (here : Vm.kalloc memory = some (page, memory')) :
    ∃ rest, free = page :: rest ∧ FreeList memory' rest ∧
      memory'.words = Function.update memory.words page fun _ => 0x0505050505050505 := by
  rw [Vm.kalloc] at here
  split at here
  · cases here
  · next head =>
      rw [Option.some.injEq, Prod.mk.injEq] at here
      obtain ⟨rfl, rfl⟩ := here
      obtain ⟨chain, distinct⟩ := list
      cases free with
      | nil => exact absurd (Option.some.inj chain) head
      | cons first rest =>
          obtain ⟨leads, chain⟩ := chain
          obtain rfl : memory.freelist = first := Option.some.inj leads
          obtain ⟨outer, distinct⟩ := List.nodup_cons.mp distinct
          obtain ⟨fresh, distinct⟩ := List.nodup_cons.mp distinct
          refine ⟨rest, rfl, ⟨chain.start ?_ fun page member => ?_, ?_⟩, rfl⟩
          · exact congrArg some (if_neg head).symm
          · have notNull : page ≠ 0 := fun null => outer (null ▸ List.mem_cons_of_mem _ member)
            have different : page ≠ memory.freelist := fun equal => fresh (equal ▸ member)
            rw [Memory.next, Memory.next, if_neg notNull, if_neg notNull]
            exact congrArg some (runNext_congr (Function.update_of_ne different ..))
          · exact List.nodup_cons.mpr ⟨fun null => outer (List.mem_cons_of_mem _ null), distinct⟩

/-- `kfree` puts a page in front of the list. -/
theorem kfree (list : FreeList memory free) (freed : Vm.kfree machine page memory = some memory')
    (fresh : page ∉ free) :
    FreeList memory' (page :: free) := by
  have notNull := Machine.page_pos (kfree_inside freed).1
  obtain ⟨head, next⟩ := kfree_next freed
  obtain ⟨outer, distinct⟩ := List.nodup_cons.mp list.distinct
  refine ⟨⟨?_, list.chain.start ?_ fun other member => ?_⟩, ?_⟩
  · exact congrArg some head
  · rw [Memory.next, if_neg notNull, next]
    rfl
  · have notNull : other ≠ 0 := fun null => outer (null ▸ member)
    have different : other ≠ page := fun equal => fresh (equal ▸ member)
    rw [Memory.next, Memory.next, if_neg notNull, if_neg notNull, runNext_congr (kfree_words freed different)]
  · refine List.nodup_cons.mpr ⟨?_, List.nodup_cons.mpr ⟨fresh, distinct⟩⟩
    rw [List.mem_cons, not_or]
    exact ⟨notNull.symm, outer⟩

/-- `freerange` puts a range of pages on the list. -/
theorem freerange (list : FreeList memory free) (low : machine.bottom ≤ first) (high : first + count ≤ machine.top)
    (fresh : ∀ page ∈ free, page < first) :
    ∃ memory', Vm.freerange machine count first memory = some memory' ∧
      FreeList memory' ((List.range' first count).reverse ++ free) := by
  induction count generalizing first memory free with
  | zero => exact ⟨memory, rfl, list⟩
  | succ count inductionHypothesis =>
      have inside : machine.bottom ≤ first ∧ first < machine.top := ⟨low, by omega⟩
      obtain ⟨memory₁, freed⟩ := kfree_some memory inside
      have list₁ := list.kfree freed fun member => Nat.lt_irrefl first (fresh first member)
      have fresh₁ : ∀ page ∈ first :: free, page < first + 1 := by
        intro page member
        obtain rfl | member := List.mem_cons.mp member
        · exact Nat.lt_succ_self page
        · exact Nat.lt_succ_of_lt (fresh page member)
      obtain ⟨memory', ranged, list'⟩ := inductionHypothesis list₁ (Nat.le_succ_of_le low) (by omega) fresh₁
      refine ⟨memory', ?_, ?_⟩
      · rw [Vm.freerange, freed, Option.bind_eq_bind, Option.bind_some, ranged]
      · rw [List.range'_succ, List.reverse_cons, List.append_assoc]
        exact list'

end FreeList

end OSLabs.Xv6.Vm
