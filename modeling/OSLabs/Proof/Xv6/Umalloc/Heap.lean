import OSLabs.Construction.Xv6.Umalloc
import OSLabs.Proof.Linked.Ring
import OSLabs.Proof.Tiling.Blocks
import Mathlib.Data.Finset.Max

namespace OSLabs.Xv6.Umalloc

open Linked Tiling

namespace Memory
variable {memory : Memory} {a b value : Nat}

@[simp] theorem setPtr_ptr_self : (memory.setPtr a value).ptr a = value := Function.update_self ..

@[simp] theorem setPtr_ptr_of_ne (different : b ≠ a) : (memory.setPtr a value).ptr b = memory.ptr b :=
  Function.update_of_ne different ..

@[simp] theorem setPtr_size : (memory.setPtr a value).size = memory.size := rfl

@[simp] theorem setPtr_freep : (memory.setPtr a value).freep = memory.freep := rfl

@[simp] theorem setPtr_brk : (memory.setPtr a value).brk = memory.brk := rfl

@[simp] theorem setSize_ptr : (memory.setSize a value).ptr = memory.ptr := rfl

@[simp] theorem setSize_size : (memory.setSize a value).size = Function.update memory.size a value := rfl

@[simp] theorem setSize_freep : (memory.setSize a value).freep = memory.freep := rfl

@[simp] theorem setSize_brk : (memory.setSize a value).brk = memory.brk := rfl

theorem next_eq_some : memory.next a = some b ↔ memory.ptr a = b := Option.some_inj

/-- A pointer that is not changed leads where it led. -/
theorem next_setPtr_of_ne (different : b ≠ a) : (memory.setPtr a value).next b = memory.next b :=
  congrArg some (setPtr_ptr_of_ne different)

end Memory

/-- The free blocks form a ring with `base`, in the order of their addresses. No two of them touch,
and together with the blocks in use they are all that the process has got. -/
structure Heap (image : Image) (memory : Memory) (blocks used : List Nat) : Prop where
  chain : Chain memory.next image.base blocks image.base
  gaps : (image.base :: blocks).Pairwise fun a b => a + memory.size a < b
  bottom : memory.size image.base = 0
  roving : memory.freep ∈ image.base :: blocks
  tiles : Tiles memory.size (blocks ++ used) image.heap memory.brk (memory.brk - image.heap)
  grown : image.heap ≤ memory.brk
  fits : memory.brk ≤ image.physical

section
variable {image : Image} {memory changed : Memory} {blocks used : List Nat} {a bp p last : Nat} {nodes : List Nat}

namespace Heap

theorem sorted (heap : Heap image memory blocks used) : (image.base :: blocks).Pairwise (· < ·) :=
  heap.gaps.imp fun gap => by omega

theorem nodup (heap : Heap image memory blocks used) : (image.base :: blocks).Nodup :=
    heap.sorted.imp fun less => less.ne

theorem base_lt (heap : Heap image memory blocks used) (member : a ∈ blocks ++ used) : image.base < a := by
  have below := image.below
  have inside := heap.tiles.inside a member
  omega

theorem le_physical (heap : Heap image memory blocks used) (member : a ∈ blocks ++ used) :
    a + memory.size a ≤ image.physical := by
  have inside := heap.tiles.inside a member
  have fits := heap.fits
  omega

theorem pos (heap : Heap image memory blocks used) (member : a ∈ image.base :: blocks) : 0 < a := by
  have positive := image.positive
  rcases List.mem_cons.mp member with rfl | member
  · exact positive
  · have above := heap.base_lt (List.mem_append_left used member)
    omega

theorem freep_pos (heap : Heap image memory blocks used) : 0 < memory.freep := heap.pos heap.roving

/-- The ring has no more nodes than the rounds of `free` allow. -/
theorem length_lt (heap : Heap image memory blocks used) : blocks.length < image.physical := by
  have below : blocks ⊆ List.range image.physical := fun a member => by
    have top := heap.le_physical (List.mem_append_left used member)
    have positive := (heap.tiles.inside a (List.mem_append_left used member)).1
    rw [List.mem_range]
    omega
  have without : 0 ∉ blocks := fun member => absurd (heap.pos (List.mem_cons_of_mem _ member)) (lt_irrefl 0)
  have distinct : (0 :: blocks).Nodup := List.nodup_cons.mpr ⟨without, (List.nodup_cons.mp heap.nodup).2⟩
  have subset : 0 :: blocks ⊆ List.range image.physical := by
    intro b member
    rcases List.mem_cons.mp member with rfl | member
    · have fits := heap.fits
      have grown := heap.grown
      have above := image.below
      exact List.mem_range.mpr (by omega)
    · exact below member
  have count := (List.Nodup.subperm distinct subset).length_le
  rw [List.length_cons, List.length_range] at count
  exact count

/-- The ring, from any of its nodes on. -/
theorem exists_rotated (heap : Heap image memory blocks used) (member : a ∈ image.base :: blocks) :
    ∃ others, Chain memory.next a others a ∧ (a :: others).Perm (image.base :: blocks) ∧
      others.length < image.physical := by
  obtain ⟨others, chain, same⟩ := heap.chain.rotate member
  refine ⟨others, chain, same, ?_⟩
  have length := same.length_eq
  rw [List.length_cons, List.length_cons] at length
  have few := heap.length_lt
  omega

end Heap

/-- The loop of `free` stops at this node. -/
def Stops (memory : Memory) (bp p : Nat) : Prop :=
  p < bp ∧ bp < memory.ptr p ∨ memory.ptr p ≤ p ∧ (p < bp ∨ bp < memory.ptr p)

/-- The loop of `free` finds a node where it stops. -/
theorem findLoop_stops {rounds : Nat} (chain : Chain memory.next p nodes last)
    (stopping : ∃ a ∈ p :: nodes, Stops memory bp a) (enough : nodes.length < rounds) :
    ∃ a ∈ p :: nodes, Stops memory bp a ∧ findLoop memory bp rounds p = some a := by
  induction nodes generalizing p rounds with
  | nil =>
      obtain ⟨rounds, rfl⟩ := Nat.exists_eq_succ_of_ne_zero (Nat.ne_of_gt (Nat.zero_lt_of_lt enough))
      obtain ⟨a, member, stops⟩ := stopping
      obtain rfl := List.mem_singleton.mp member
      refine ⟨a, member, stops, ?_⟩
      rw [findLoop]
      split
      · rfl
      · next first => rw [if_pos (stops.resolve_left first)]
  | cons node nodes inductionHypothesis =>
      obtain ⟨rounds, rfl⟩ := Nat.exists_eq_succ_of_ne_zero (Nat.ne_of_gt (Nat.zero_lt_of_lt enough))
      obtain ⟨leads, chain⟩ := chain
      have next : memory.ptr p = node := Option.some.inj leads
      rw [findLoop]
      split
      · next first => exact ⟨p, List.mem_cons_self, .inl first, rfl⟩
      · next first =>
          split
          · next second => exact ⟨p, List.mem_cons_self, .inr second, rfl⟩
          · next second =>
              have later : ∃ a ∈ node :: nodes, Stops memory bp a := by
                obtain ⟨a, member, stops⟩ := stopping
                rcases List.mem_cons.mp member with rfl | member
                · exact absurd stops (not_or.mpr ⟨first, second⟩)
                · exact ⟨a, member, stops⟩
              rw [List.length_cons] at enough
              obtain ⟨a, member, stops, found⟩ := inductionHypothesis chain later (Nat.lt_of_succ_lt_succ enough)
              exact ⟨a, List.mem_cons_of_mem p member, stops, next ▸ found⟩

/-- The loop of `free` stops exactly where the block belongs. -/
theorem Heap.stops_iff (heap : Heap image memory blocks used) (above : image.base < bp) (outside : bp ∉ blocks)
    (member : p ∈ image.base :: blocks) :
    Stops memory bp p ↔ p < bp ∧ ∀ a ∈ image.base :: blocks, a ≤ p ∨ bp < a := by
  have least : image.base ≤ p := by
    rcases List.mem_cons.mp member with rfl | member
    · exact le_rfl
    · exact (heap.base_lt (List.mem_append_left used member)).le
  have base := List.mem_cons_self (a := image.base) (l := blocks)
  rcases heap.chain.next_cases heap.sorted member with ⟨ends, largest⟩ | ⟨other, inside, leads, less, between⟩
  · have next : memory.ptr p = image.base := Option.some.inj ends
    unfold Stops
    rw [next]
    constructor
    · intro stops
      exact ⟨by omega, fun a there => .inl (largest a there)⟩
    · intro stops
      exact .inr ⟨least, .inl stops.1⟩
  · have next : memory.ptr p = other := Option.some.inj leads
    have different : bp ≠ other := by
      rintro rfl
      exact outside inside
    unfold Stops
    rw [next]
    constructor
    · intro stops
      refine ⟨by omega, fun a there => ?_⟩
      rcases between a there with below | beyond
      · exact .inl below
      · exact .inr (by omega)
    · intro stops
      rcases stops.2 other (List.mem_cons_of_mem _ inside) with below | beyond
      · omega
      · exact .inl ⟨stops.1, beyond⟩

/-- The loop of `free` finds the last node before the block. -/
theorem Heap.exists_findLoop (heap : Heap image memory blocks used) (above : image.base < bp)
    (outside : bp ∉ blocks) :
    ∃ before after, blocks = before ++ after ∧
      findLoop memory bp (image.physical + 1) memory.freep = some (before.getLastD image.base) ∧
      before.getLastD image.base < bp ∧ ∀ a ∈ after, bp < a := by
  obtain ⟨p, member, below, largest⟩ : ∃ p ∈ image.base :: blocks, p < bp ∧ ∀ a ∈ image.base :: blocks,
      a ≤ p ∨ bp < a := by
    have nonempty : ((image.base :: blocks).toFinset.filter (· < bp)).Nonempty :=
      ⟨image.base, Finset.mem_filter.mpr ⟨List.mem_toFinset.mpr List.mem_cons_self, above⟩⟩
    obtain ⟨p, member, largest⟩ := Finset.exists_max_image _ id nonempty
    obtain ⟨member, below⟩ := Finset.mem_filter.mp member
    refine ⟨p, List.mem_toFinset.mp member, below, fun a there => ?_⟩
    by_cases less : a < bp
    · exact .inl (largest a (Finset.mem_filter.mpr ⟨List.mem_toFinset.mpr there, less⟩))
    · right
      rcases List.mem_cons.mp there with rfl | there
      · omega
      · have different : a ≠ bp := by
          rintro rfl
          exact outside there
        omega
  obtain ⟨others, chain, same, few⟩ := heap.exists_rotated heap.roving
  have stopping : ∃ a ∈ memory.freep :: others, Stops memory bp a :=
    ⟨p, same.mem_iff.mpr member, (heap.stops_iff above outside member).mpr ⟨below, largest⟩⟩
  obtain ⟨a, inside, stops, found⟩ := findLoop_stops chain stopping (few.trans (Nat.lt_succ_self image.physical))
  have here := same.mem_iff.mp inside
  obtain ⟨under, greatest⟩ := (heap.stops_iff above outside here).mp stops
  obtain ⟨before, after, rfl, rfl⟩ := exists_getLastD_eq here
  refine ⟨before, after, rfl, found, under, fun b there => ?_⟩
  have sorted := heap.sorted
  rw [← List.cons_append] at sorted
  have later := (List.pairwise_append.mp sorted).2.2 _ getLastD_mem b there
  rcases greatest b (List.mem_cons_of_mem _ (List.mem_append_right before there)) with below | beyond
  · omega
  · exact beyond

end

end OSLabs.Xv6.Umalloc
