import OSLabs.Construction.Tiling
import Mathlib.Algebra.BigOperators.Group.List.Basic
import Mathlib.Data.List.Pairwise
import Mathlib.Data.List.Perm.Basic
import Mathlib.Logic.Function.Basic

namespace OSLabs.Tiling

section
variable {size changed : Nat → Nat} {blocks others : List Nat} {low high total a b unit : Nat}

theorem Apart.symm (apart : Apart size a b) : Apart size b a := Or.symm apart

namespace Tiles

/-- The order of the blocks does not matter. -/
theorem perm (tiles : Tiles size blocks low high total) (same : blocks.Perm others) :
    Tiles size others low high total where
  inside a member := tiles.inside a (same.mem_iff.mpr member)
  apart := (same.pairwise_iff Apart.symm).mp tiles.apart
  sum := ((same.map size).sum_eq).symm.trans tiles.sum

/-- Only the sizes of the blocks matter. -/
theorem congr (tiles : Tiles size blocks low high total) (same : ∀ a ∈ blocks, changed a = size a) :
    Tiles changed blocks low high total where
  inside a member := by
    rw [same a member]
    exact tiles.inside a member
  apart := tiles.apart.imp_of_mem fun {a b} here there apart => by
    unfold Apart at *
    rwa [same a here, same b there]
  sum := by rw [List.map_congr_left same, tiles.sum]

/-- No block comes twice. -/
theorem nodup (tiles : Tiles size blocks low high total) : blocks.Nodup :=
  tiles.apart.imp_of_mem fun {a b} here _ apart => by
    rintro rfl
    have positive := (tiles.inside a here).1
    unfold Apart at apart
    omega

/-- Two different blocks are apart. -/
theorem apart_of_ne (tiles : Tiles size blocks low high total) (here : a ∈ blocks) (there : b ∈ blocks)
    (different : a ≠ b) :
    Apart size a b := by
  have symmetric : Std.Symm (Apart size) := ⟨fun _ _ apart => apart.symm⟩
  exact tiles.apart.forall here there different

/-- No address of a block behind its first one is the first address of a block. -/
theorem not_behind (tiles : Tiles size blocks low high total) (here : a ∈ blocks) (there : b ∈ blocks) :
    ¬ Behind size a b := by
  rintro ⟨after, before⟩
  have apart := tiles.apart_of_ne here there (by omega)
  have positive := (tiles.inside b there).1
  unfold Apart at apart
  omega

/-- A block ends where another one begins or before that. -/
theorem le_of_lt (tiles : Tiles size blocks low high total) (here : a ∈ blocks) (there : b ∈ blocks)
    (less : a < b) :
    a + size a ≤ b := by
  by_contra crosses
  exact tiles.not_behind here there ⟨less, by omega⟩

theorem notMem_tail (tiles : Tiles size (a :: blocks) low high total) : a ∉ blocks := by
  intro member
  have apart := (List.pairwise_cons.mp tiles.apart).1 a member
  have positive := (tiles.inside a List.mem_cons_self).1
  unfold Apart at apart
  omega

/-- Two blocks of which one follows the other are one block. -/
theorem merge (tiles : Tiles size (a :: b :: blocks) low high total) (touch : a + size a = b) :
    Tiles (Function.update size a (size a + size b)) (a :: blocks) low high total := by
  obtain ⟨first, rest⟩ := List.pairwise_cons.mp tiles.apart
  obtain ⟨second, rest⟩ := List.pairwise_cons.mp rest
  have here := tiles.inside a List.mem_cons_self
  have there := tiles.inside b (List.mem_cons_of_mem a List.mem_cons_self)
  have outside := tiles.notMem_tail
  have same : ∀ c ∈ blocks, Function.update size a (size a + size b) c = size c := fun c member =>
    Function.update_of_ne (by rintro rfl; exact outside (List.mem_cons_of_mem b member)) _ _
  constructor
  · intro c member
    rcases List.mem_cons.mp member with rfl | member
    · rw [Function.update_self]
      omega
    · rw [same c member]
      exact tiles.inside c (List.mem_cons_of_mem a (List.mem_cons_of_mem b member))
  · refine List.pairwise_cons.mpr ⟨fun c member => ?_, ?_⟩
    · have apartA := first c (List.mem_cons_of_mem b member)
      have apartB := second c member
      have inside := tiles.inside c (List.mem_cons_of_mem a (List.mem_cons_of_mem b member))
      unfold Apart at *
      rw [Function.update_self, same c member]
      omega
    · refine rest.imp_of_mem fun {c d} hereC hereD apart => ?_
      unfold Apart at *
      rwa [same c hereC, same d hereD]
  · have sum := tiles.sum
    rw [List.map_cons, List.sum_cons, List.map_cons, List.sum_cons] at sum
    rw [List.map_cons, List.sum_cons, Function.update_self, List.map_congr_left same]
    omega

/-- A block is cut into two. -/
theorem split (tiles : Tiles size (a :: blocks) low high total) {front back : Nat} (whole : front + back = size a)
    (positiveFront : 0 < front) (positiveBack : 0 < back) :
    Tiles (Function.update (Function.update size a front) (a + front) back) (a :: (a + front) :: blocks)
      low high total := by
  obtain ⟨first, rest⟩ := List.pairwise_cons.mp tiles.apart
  have here := tiles.inside a List.mem_cons_self
  have outside := tiles.notMem_tail
  have sizeA : Function.update (Function.update size a front) (a + front) back a = front := by
    rw [Function.update_of_ne (by omega), Function.update_self]
  have same : ∀ c ∈ blocks, Function.update (Function.update size a front) (a + front) back c = size c := by
    intro c member
    have different : c ≠ a + front := by
      rintro rfl
      exact tiles.not_behind List.mem_cons_self (List.mem_cons_of_mem a member) ⟨by omega, by omega⟩
    rw [Function.update_of_ne different, Function.update_of_ne (by rintro rfl; exact outside member)]
  constructor
  · intro c member
    rcases List.mem_cons.mp member with rfl | member
    · rw [sizeA]
      omega
    · rcases List.mem_cons.mp member with rfl | member
      · rw [Function.update_self]
        omega
      · rw [same c member]
        exact tiles.inside c (List.mem_cons_of_mem a member)
  · refine List.pairwise_cons.mpr ⟨fun c member => ?_, List.pairwise_cons.mpr ⟨fun c member => ?_, ?_⟩⟩
    · rcases List.mem_cons.mp member with rfl | member
      · have touch := sizeA.symm
        unfold Apart
        omega
      · have apart := first c member
        unfold Apart at *
        rw [sizeA, same c member]
        omega
    · have apart := first c member
      unfold Apart at *
      rw [Function.update_self, same c member]
      omega
    · refine rest.imp_of_mem fun {c d} hereC hereD apart => ?_
      unfold Apart at *
      rwa [same c hereC, same d hereD]
  · have sum := tiles.sum
    rw [List.map_cons, List.sum_cons] at sum
    rw [List.map_cons, List.sum_cons, List.map_cons, List.sum_cons, sizeA, Function.update_self,
      List.map_congr_left same]
    omega

/-- A new block is added behind all others. -/
theorem extend (tiles : Tiles size blocks low high total) {count : Nat} (above : high ≤ a) (least : low ≤ a)
    (positive : 0 < count) :
    Tiles (Function.update size a count) (a :: blocks) low (a + count) (count + total) := by
  have outside : ∀ c ∈ blocks, c + size c ≤ high ∧ c ≠ a := fun c member => by
    have here := tiles.inside c member
    omega
  have same : ∀ c ∈ blocks, Function.update size a count c = size c := fun c member =>
    Function.update_of_ne (outside c member).2 _ _
  constructor
  · intro c member
    rcases List.mem_cons.mp member with rfl | member
    · rw [Function.update_self]
      omega
    · have here := tiles.inside c member
      rw [same c member]
      omega
  · refine List.pairwise_cons.mpr ⟨fun c member => ?_, (tiles.congr same).apart⟩
    have here := outside c member
    right
    rw [same c member]
    omega
  · rw [List.map_cons, List.sum_cons, Function.update_self, List.map_congr_left same, tiles.sum]

end Tiles

/-- Blocks in order that do not touch leave a gap between any two. -/
theorem sum_add_length_le (inside : ∀ b ∈ a :: blocks, b + size b ≤ high)
    (gaps : (a :: blocks).Pairwise fun b c => b + size b < c) :
    ((a :: blocks).map size).sum + blocks.length ≤ high - a := by
  induction blocks generalizing a with
  | nil =>
      have fits := inside a List.mem_cons_self
      simp only [List.map_cons, List.map_nil, List.sum_cons, List.sum_nil, List.length_nil]
      omega
  | cons b blocks inductionHypothesis =>
      obtain ⟨first, rest⟩ := List.pairwise_cons.mp gaps
      have gap := first b List.mem_cons_self
      have later := inductionHypothesis (fun c member => inside c (List.mem_cons_of_mem a member)) rest
      have fits := inside b (List.mem_cons_of_mem a List.mem_cons_self)
      rw [List.map_cons, List.sum_cons, List.length_cons]
      omega

end

end OSLabs.Tiling
