import OSLabs.Proof.Xv6.Vm.Spaces

namespace OSLabs.Xv6.Vm

open Radix

/-- The page tables below a page are inside of the memory, and the last ones have no valid entry. -/
structure Tree (machine : Machine) (words : Nat → Fin 512 → Nat) (depth page : Nat) : Prop where
  single : Single child words depth page
  inside : ∀ last, Reach child words depth page last → machine.bottom ≤ last ∧ last < machine.top
  inner : ∀ path last i, path.length + 1 < depth → find child words page path = some last →
    words last i % 2 = pteV →
    words last i % 16 / 2 = 0
  leaf : ∀ path last i, path.length + 1 = depth → find child words page path = some last → words last i % 2 ≠ pteV

section
variable {machine : Machine} {memory memory' : Memory} {words words' : Nat → Fin 512 → Nat}
  {depth page next last : Nat} {i : Fin 512}
  {freed : List Nat} {indices : List (Fin 512)}

namespace Tree

theorem below (tree : Tree machine words (depth + 1) page) (leads : child (words page i) = some next) :
    Tree machine words depth next where
  single := tree.single.below leads
  inside last reached := tree.inside last (reached.cons leads)
  inner path last j short here :=
    tree.inner (i :: path) last j (Nat.succ_lt_succ short) ((find_cons leads).trans here)
  leaf path last j full here :=
    tree.leaf (i :: path) last j (congrArg Nat.succ full) ((find_cons leads).trans here)

theorem congr (tree : Tree machine words depth page) (same : ∀ last, Reach child words depth page last →
    words' last = words last) :
    Tree machine words' depth page where
  single path other last short short' here there := by
    rw [find_congr_reach same (Nat.le_of_lt short)] at here
    rw [find_congr_reach same (Nat.le_of_lt short')] at there
    exact tree.single path other last short short' here there
  inside last reached := tree.inside last ((reach_congr same).mp reached)
  inner path last j short here valid := by
    rw [find_congr_reach same (by omega)] at here
    rw [same last ⟨path, by omega, here⟩] at valid ⊢
    exact tree.inner path last j short here valid
  leaf path last j full here := by
    rw [find_congr_reach same (by omega)] at here
    rw [same last ⟨path, by omega, here⟩]
    exact tree.leaf path last j full here

end Tree

/-- The pages that are freed are put in front of the list, and what is kept is the same. -/
structure Frees (memory memory' : Memory) (freed : List Nat) (kept : Nat → Prop) : Prop where
  list : ∀ free, FreeList memory free → (∀ page ∈ free, kept page ∧ page ∉ freed) →
    FreeList memory' (freed ++ free)
  same : ∀ page, kept page → page ∉ freed → memory'.words page = memory.words page

/-- This function is the body of the loop of `freewalk`. -/
def freewalkEntry (machine : Machine) (depth pagetable : Nat) (memory : Memory) (i : Fin 512) : Option Memory :=
  let pte := memory.words pagetable i
  if pte % 2 = pteV ∧ pte % 16 / 2 = 0 then
    (freewalk machine depth (pte2pa pte) memory).map fun memory => memory.setWord pagetable i 0
  else if pte % 2 = pteV then none
  else some memory

theorem freewalk_succ : freewalk machine (depth + 1) page memory =
    ((List.finRange 512).foldlM (freewalkEntry machine depth page) memory).bind fun memory =>
      kfree machine page memory := rfl

/-- The loop of `freewalk` frees what the entries reach. -/
theorem freewalk_loop (tree : Tree machine words (depth + 1) page)
    (recursion : ∀ {next memory}, 0 < depth → Tree machine memory.words depth next →
      ∃ memory' freed, freewalk machine depth next memory = some memory' ∧
        Frees memory memory' freed (fun _ => True) ∧
        ∀ last, last ∈ freed ↔ Reach child memory.words depth next last)
    (nodup : indices.Nodup) (entries : ∀ i ∈ indices, memory.words page i = words page i)
    (agree : ∀ i ∈ indices, ∀ next, child (words page i) = some next → ∀ last, Reach child words depth next last →
      memory.words last = words last) :
    ∃ memory' freed, indices.foldlM (freewalkEntry machine depth page) memory = some memory' ∧
      Frees memory memory' freed (fun last => last ≠ page) ∧
      ∀ last, last ∈ freed ↔ ∃ i ∈ indices, ∃ next, child (words page i) = some next ∧
        Reach child words depth next last := by
  induction indices generalizing memory with
  | nil => exact ⟨memory, [], rfl, ⟨fun _ list _ => list, fun _ _ _ => rfl⟩, fun last => iff_of_false nofun nofun⟩
  | cons i indices inductionHypothesis =>
      obtain ⟨fresh, nodup⟩ := List.nodup_cons.mp nodup
      rw [List.foldlM_cons]
      have here := entries i List.mem_cons_self
      by_cases valid : words page i % 2 = pteV
      · have deep : 0 < depth := by
          refine Nat.pos_of_ne_zero fun flat => tree.leaf [] page i ?_ rfl valid
          rw [flat, List.length_nil]
        have inner := tree.inner [] page i (Nat.succ_lt_succ deep) rfl valid
        have leads : child (words page i) = some (pte2pa (words page i)) := if_pos valid
        have same := agree i List.mem_cons_self _ leads
        obtain ⟨memory₁, freed₁, walked, frees₁, freed₁_iff⟩ := recursion deep ((tree.below leads).congr same)
        have reach_iff : ∀ last, last ∈ freed₁ ↔ Reach child words depth (pte2pa (words page i)) last :=
            fun last =>
          (freed₁_iff last).trans (reach_congr same)
        have root : page ∉ freed₁ := fun member => tree.single.not_reach leads ((reach_iff page).mp member)
        have step : freewalkEntry machine depth page memory i = some (memory₁.setWord page i 0) := by
          dsimp only [freewalkEntry]
          rw [here, if_pos ⟨valid, inner⟩, walked, Option.map_some]
        have entries' : ∀ j ∈ indices, (memory₁.setWord page i 0).words page j = words page j := by
          intro j member
          have different : j ≠ i := fun equal => fresh (equal ▸ member)
          have stored : (memory₁.setWord page i 0).words page j = memory₁.words page j :=
            store_entry_of_ne different
          rw [stored, frees₁.same page trivial root]
          exact entries j (List.mem_cons_of_mem i member)
        have agree' : ∀ j ∈ indices, ∀ next, child (words page j) = some next →
          ∀ last, Reach child words depth next last →
            (memory₁.setWord page i 0).words last = words last := by
          intro j member next leads' last reached
          have different : i ≠ j := fun equal => fresh (equal ▸ member)
          have elsewhere : last ≠ page := fun equal => tree.single.not_reach leads' (equal ▸ reached)
          have kept : last ∉ freed₁ := fun freed =>
            tree.single.apart different leads leads' ((reach_iff last).mp freed) reached
          have stored : (memory₁.setWord page i 0).words last = memory₁.words last := store_of_ne elsewhere
          rw [stored, frees₁.same last trivial kept]
          exact agree j (List.mem_cons_of_mem i member) next leads' last reached
        obtain ⟨memory', freed, looped, frees, freed_iff⟩ := inductionHypothesis nodup entries' agree'
        refine ⟨memory', freed ++ freed₁, ?_, ⟨fun free list apart => ?_, fun last elsewhere kept => ?_⟩,
          fun last => ?_⟩
        · rw [step]
          exact looped
        · have outside : ∀ last ∈ freed₁ ++ free, last ≠ page ∧ last ∉ freed := by
            intro last member
            obtain inFirst | inFree := List.mem_append.mp member
            · refine ⟨fun equal => root (equal ▸ inFirst), fun inRest => ?_⟩
              obtain ⟨j, member, next, leads', reached⟩ := (freed_iff last).mp inRest
              have different : i ≠ j := fun equal => fresh (equal ▸ member)
              exact tree.single.apart different leads leads' ((reach_iff last).mp inFirst) reached
            · obtain ⟨elsewhere, kept⟩ := apart last inFree
              exact ⟨elsewhere, fun inRest => kept (List.mem_append_left freed₁ inRest)⟩
          have list₁ : FreeList memory₁ (freed₁ ++ free) := frees₁.list free list fun last member =>
            ⟨trivial, fun inFirst => (apart last member).2 (List.mem_append_right freed inFirst)⟩
          have list₂ : FreeList (memory₁.setWord page i 0) (freed₁ ++ free) :=
            list₁.congr rfl fun last member => store_of_ne (outside last member).1
          rw [List.append_assoc]
          exact frees.list _ list₂ outside
        · rw [List.mem_append, not_or] at kept
          have stored : (memory₁.setWord page i 0).words last = memory₁.words last := store_of_ne elsewhere
          rw [frees.same last elsewhere kept.1, stored, frees₁.same last trivial kept.2]
        · rw [List.mem_append, freed_iff, reach_iff, List.exists_mem_cons_iff, or_comm]
          refine or_congr ⟨fun reached => ⟨_, leads, reached⟩, ?_⟩ Iff.rfl
          rintro ⟨next, leads', reached⟩
          cases leads.symm.trans leads'
          exact reached
      · have step : freewalkEntry machine depth page memory i = some memory := by
          dsimp only [freewalkEntry]
          rw [here, if_neg fun both => valid both.1, if_neg valid]
        obtain ⟨memory', freed, looped, frees, freed_iff⟩ := inductionHypothesis nodup
          (fun j member => entries j (List.mem_cons_of_mem i member)) fun j member =>
            agree j (List.mem_cons_of_mem i member)
        refine ⟨memory', freed, ?_, frees, fun last => ?_⟩
        · rw [step]
          exact looped
        · rw [freed_iff, List.exists_mem_cons_iff]
          refine (or_iff_right ?_).symm
          rintro ⟨next, leads, -⟩
          rw [child, if_neg valid] at leads
          cases leads

/-- `freewalk` frees what a page reaches when it does so for the next level. -/
theorem freewalk_step (tree : Tree machine memory.words (depth + 1) page)
    (recursion : ∀ {next memory}, 0 < depth → Tree machine memory.words depth next →
      ∃ memory' freed, freewalk machine depth next memory = some memory' ∧
        Frees memory memory' freed (fun _ => True) ∧
        ∀ last, last ∈ freed ↔ Reach child memory.words depth next last) :
    ∃ memory' freed, freewalk machine (depth + 1) page memory = some memory' ∧
      Frees memory memory' freed (fun _ => True) ∧
      ∀ last, last ∈ freed ↔ Reach child memory.words (depth + 1) page last := by
  obtain ⟨memory₁, freed, looped, frees, freed_iff⟩ := freewalk_loop tree recursion (List.nodup_finRange 512)
    (fun _ _ => rfl) fun _ _ _ _ _ _ => rfl
  have inside := tree.inside page reach_self
  have fresh : page ∉ freed := by
    intro member
    obtain ⟨i, -, next, leads, reached⟩ := (freed_iff page).mp member
    exact tree.single.not_reach leads reached
  obtain ⟨memory', freed'⟩ := kfree_some memory₁ inside
  refine ⟨memory', page :: freed, ?_, ⟨fun free list apart => ?_, fun last _ kept => ?_⟩, fun last => ?_⟩
  · rw [freewalk_succ, looped, Option.bind_some, freed']
  · have outside : ∀ last ∈ free, last ≠ page ∧ last ∉ freed := fun last member => by
      obtain ⟨-, kept⟩ := apart last member
      rw [List.mem_cons, not_or] at kept
      exact kept
    refine (frees.list free list outside).kfree freed' fun member => ?_
    obtain inFreed | inFree := List.mem_append.mp member
    · exact fresh inFreed
    · exact (outside page inFree).1 rfl
  · rw [List.mem_cons, not_or] at kept
    rw [kfree_words freed' kept.1, frees.same last kept.1 kept.2]
  · rw [List.mem_cons, freed_iff, reach_succ]
    refine or_congr_right (exists_congr fun i => ?_)
    exact and_iff_right (List.mem_finRange i)

/-- `freewalk` frees what a page reaches, and it writes nothing else. -/
theorem freewalk_frees (tree : Tree machine memory.words (depth + 1) page) :
    ∃ memory' freed, freewalk machine (depth + 1) page memory = some memory' ∧
      Frees memory memory' freed (fun _ => True) ∧
      ∀ last, last ∈ freed ↔ Reach child memory.words (depth + 1) page last := by
  induction depth generalizing page memory with
  | zero => exact freewalk_step tree fun deep => absurd deep (Nat.lt_irrefl 0)
  | succ depth inductionHypothesis => exact freewalk_step tree fun _ tree => inductionHypothesis tree

end

end OSLabs.Xv6.Vm
