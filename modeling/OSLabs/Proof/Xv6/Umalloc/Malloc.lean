import OSLabs.Proof.Xv6.Umalloc.Free

namespace OSLabs.Xv6.Umalloc

open Linked Tiling

section
variable {image : Image} {memory : Memory} {blocks used nodes : List Nat} {p q prevp nunits rounds : Nat}
  {grants : Nat → Bool}

/-- A block with enough room gives its end to the program, or all of it. -/
theorem Heap.take (heap : Heap image memory blocks used) (inRing : p ∈ image.base :: blocks)
    (leads : memory.ptr p = q)
    (large : nunits ≤ memory.size q) (positive : 0 < nunits) :
    ∃ bp blocks', (memory.take nunits p q).1 = bp + 1 ∧
      Heap image (memory.take nunits p q).2 blocks' (bp :: used) ∧
      (memory.take nunits p q).2.size bp = nunits ∧ Keeps memory (memory.take nunits p q).2 used := by
  have next : memory.next p = some q := Memory.next_eq_some.mpr leads
  have isFree : q ∈ blocks := by
    obtain ⟨other, member, there⟩ := heap.chain.exists_next_closed inRing
    rw [next, Option.some.injEq] at there
    subst there
    rcases List.mem_cons.mp member with same | member
    · rw [same, heap.bottom] at large
      omega
    · exact member
  have distinct := heap.nodup
  unfold Memory.take
  split
  · next exact' =>
      obtain ⟨before, after, rfl⟩ := List.append_of_mem isFree
      obtain ⟨left, right⟩ := chain_append.mp heap.chain
      have closing : ((before ++ q :: after) ++ [image.base]).Nodup := List.nodup_append_comm.mp distinct
      have last : before.getLastD image.base ∈ image.base :: (before ++ q :: after) := by
        rw [← List.cons_append]
        exact List.mem_append_left _ getLastD_mem
      obtain rfl : p = before.getLastD image.base :=
        heap.chain.injective closing inRing last (next.trans left.next_last.symm)
      have shorter : (image.base :: (before ++ after)).Sublist (image.base :: (before ++ q :: after)) :=
        ((List.sublist_cons_self q after).append_left before).cons_cons image.base
      have distinctAfter := distinct.sublist shorter
      rw [← List.cons_append] at distinctAfter
      obtain ⟨distinctLeft, -, across⟩ := List.nodup_append.mp distinctAfter
      have apart : ∀ a ∈ after, a ≠ before.getLastD image.base := fun a member =>
        (across _ getLastD_mem a member).symm
      refine ⟨q, before ++ after, rfl, ⟨?_, heap.gaps.sublist shorter, heap.bottom, ?_, heap.tiles.perm ?_,
        heap.grown,
        heap.fits⟩, exact', ?_⟩
      · have rest : Chain (memory.setPtr (before.getLastD image.base) (memory.ptr q)).next
          (before.getLastD image.base) after
            image.base :=
          right.start (congrArg some Memory.setPtr_ptr_self) fun a member =>
            Memory.next_setPtr_of_ne (apart a member)
        exact left.relink distinctLeft (fun a _ different => Memory.next_setPtr_of_ne different) rest
      · rw [← List.cons_append]
        exact List.mem_append_left after getLastD_mem
      · rw [List.append_assoc, List.append_assoc, List.cons_append]
        exact List.Perm.append_left before List.perm_middle.symm
      · have same : ∀ unit, ¬ unit = before.getLastD image.base →
            (memory.setPtr (before.getLastD image.base) (memory.ptr q)).ptr unit = memory.ptr unit ∧
            memory.size unit = memory.size unit := fun unit different => ⟨Memory.setPtr_ptr_of_ne different, rfl⟩
        refine Keeps.of_outside same ?_
        rintro unit rfl b member
        exact heap.outside last member
  · next more =>
      obtain ⟨rest, rest_eq⟩ : ∃ rest, rest = memory.size q - nunits := ⟨_, rfl⟩
      rw [← rest_eq]
      have whole : rest + nunits = memory.size q := by omega
      have order : (blocks ++ used).Perm (q :: (blocks.erase q ++ used)) :=
        (List.perm_cons_erase isFree).append_right used
      have tiles := (heap.tiles.perm order).split whole (by omega) positive
      have above := heap.base_lt (List.mem_append_left used isFree)
      have behind : Behind memory.size q (q + rest) := ⟨by omega, by omega⟩
      have smaller : ∀ a ∈ image.base :: blocks,
          Function.update (Function.update memory.size q rest) (q + rest) nunits a ≤ memory.size a := by
        intro a member
        have outside : a ≠ q + rest := by
          rintro rfl
          rcases List.mem_cons.mp member with same | member
          · omega
          · exact heap.tiles.not_behind (List.mem_append_left used isFree)
              (List.mem_append_left used member) behind
        rw [Function.update_of_ne outside]
        by_cases same : a = q
        · subst same
          rw [Function.update_self]
          omega
        · rw [Function.update_of_ne same]
      refine ⟨q + rest, blocks, rfl, ⟨heap.chain, ?_, ?_, inRing, tiles.perm ?_, heap.grown, heap.fits⟩, ?_, ?_⟩
      · refine heap.gaps.imp_of_mem fun {a b} member _ gap => ?_
        have less := smaller a member
        rw [Memory.setSize_size, Memory.setSize_size]
        omega
      · have less := smaller image.base List.mem_cons_self
        rw [heap.bottom] at less
        exact Nat.le_zero.mp less
      · refine (List.Perm.swap ..).trans (List.Perm.trans (order.symm.cons (q + rest)) ?_)
        exact List.perm_middle.symm
      · rw [Memory.setSize_size, Function.update_self]
      · have same : ∀ unit, ¬ (unit = q ∨ unit = q + rest) → memory.ptr unit = memory.ptr unit ∧
            Function.update (Function.update memory.size q rest) (q + rest) nunits unit = memory.size unit := by
          intro unit unwritten
          obtain ⟨notBlock, notRest⟩ := not_or.mp unwritten
          exact ⟨rfl, by rw [Function.update_of_ne notRest, Function.update_of_ne notBlock]⟩
        refine Keeps.of_outside same fun unit written b member => ?_
        rcases written with rfl | rfl
        · exact heap.outside (List.mem_cons_of_mem _ isFree) member
        · have apart := heap.apart isFree member
          have inside := heap.tiles.inside b (List.mem_append_right blocks member)
          unfold Apart at apart
          unfold Behind
          omega

/-- A call of `morecore` gives 0 when the kernel refuses, and else a free block is large enough. -/
theorem Heap.morecore (heap : Heap image memory blocks used) (small : nunits < 2 ^ 27) :
    (¬ Granted image grants nunits memory → morecore image grants nunits memory = some (0, memory)) ∧
    (Granted image grants nunits memory → ∃ after blocks',
      Umalloc.morecore image grants nunits memory = some (after.freep, after) ∧
      Heap image after blocks' used ∧ Keeps memory after used ∧ ∃ a ∈ blocks', nunits ≤ after.size a) := by
  have least : nunits ≤ atLeast nunits := by
    unfold atLeast
    split <;> omega
  have positive : 0 < atLeast nunits := by
    unfold atLeast
    split <;> omega
  have short : atLeast nunits < 2 ^ 27 := by
    unfold atLeast
    split <;> omega
  have int : atLeast nunits % 2 ^ 28 = atLeast nunits := Nat.mod_eq_of_lt (short.trans (by decide))
  constructor
  · intro refused
    have answer : sbrk image grants (atLeast nunits) memory = none := by
      unfold sbrk
      rw [int, if_neg (Nat.not_le.mpr short), if_neg positive.ne']
      exact if_neg refused
    unfold Umalloc.morecore
    rw [answer]
  · rintro ⟨room, granted⟩
    have answer : sbrk image grants (atLeast nunits) memory =
        some (memory.brk, { memory with brk := memory.brk + atLeast nunits }) := by
      unfold sbrk
      rw [int, if_neg (Nat.not_le.mpr short), if_neg positive.ne']
      exact if_pos ⟨room, granted⟩
    obtain ⟨grown, grown_eq⟩ : ∃ grown : Memory,
        grown = Memory.setSize { memory with brk := memory.brk + atLeast nunits } memory.brk
          (atLeast nunits) := ⟨_, rfl⟩
    have sizes : ∀ a ∈ blocks ++ used, grown.size a = memory.size a := fun a member => by
      have inside := heap.tiles.inside a member
      rw [grown_eq, Memory.setSize_size, Function.update_of_ne (by omega)]
    have below := image.below
    have bottom : grown.size image.base = 0 := by
      have low := heap.grown
      rw [grown_eq, Memory.setSize_size, Function.update_of_ne (by omega)]
      exact heap.bottom
    have larger : Heap image grown blocks (memory.brk :: used) := by
      rw [grown_eq]
      rw [grown_eq] at sizes bottom
      have tiles := heap.tiles.extend le_rfl heap.grown positive
      have low := heap.grown
      refine ⟨heap.chain, ?_, bottom, heap.roving, ?_, low.trans (Nat.le_add_right _ _), room⟩
      · refine heap.gaps.imp_of_mem fun {a b} member _ gap => ?_
        rcases List.mem_cons.mp member with rfl | member
        · rw [bottom]
          rw [heap.bottom] at gap
          exact gap
        · rw [sizes a (List.mem_append_left used member)]
          exact gap
      · have total : atLeast nunits + (memory.brk - image.heap) =
          memory.brk + atLeast nunits - image.heap := by omega
        rw [total] at tiles
        exact tiles.perm List.perm_middle.symm
    obtain ⟨after, blocks', freed, heap', kept, a, member, large⟩ := larger.free (List.Perm.refl _)
    have size :
      grown.size memory.brk = atLeast nunits := by rw [grown_eq, Memory.setSize_size, Function.update_self]
    refine ⟨after, blocks', ?_, heap', Keeps.trans ?_ kept, a, member, by omega⟩
    · unfold Umalloc.morecore
      rw [answer]
      simp only [← grown_eq, freed]
      rfl
    · have same : ∀ unit, ¬ unit = memory.brk → grown.ptr unit = memory.ptr unit ∧
          grown.size unit = memory.size unit := by
        intro unit different
        rw [grown_eq]
        exact ⟨rfl, Function.update_of_ne different ..⟩
      refine Keeps.of_outside same ?_
      rintro unit rfl b member
      have inside := heap.tiles.inside b (List.mem_append_right blocks member)
      unfold Behind
      omega

/-- The loop of `malloc` takes a block that is large enough. -/
theorem mallocLoop_fits (chain : Chain memory.next prevp nodes memory.freep) (outside : memory.freep ∉ nodes)
    (fits : ∃ a ∈ nodes ++ [memory.freep], nunits ≤ memory.size a) (enough : nodes.length < rounds) :
    ∃ p ∈ prevp :: nodes, nunits ≤ memory.size (memory.ptr p) ∧
      mallocLoop image grants nunits rounds memory prevp (memory.ptr prevp) =
        some (memory.take nunits p (memory.ptr p)) := by
  induction nodes generalizing prevp rounds with
  | nil =>
      obtain ⟨rounds, rfl⟩ := Nat.exists_eq_succ_of_ne_zero (Nat.ne_of_gt (Nat.zero_lt_of_lt enough))
      obtain ⟨a, member, large⟩ := fits
      obtain rfl := List.mem_singleton.mp member
      have next : memory.ptr prevp = memory.freep := Memory.next_eq_some.mp chain
      rw [← next] at large
      exact ⟨prevp, List.mem_cons_self, large, by rw [mallocLoop, if_pos large]⟩
  | cons node nodes inductionHypothesis =>
      obtain ⟨rounds, rfl⟩ := Nat.exists_eq_succ_of_ne_zero (Nat.ne_of_gt (Nat.zero_lt_of_lt enough))
      obtain ⟨leads, chain⟩ := chain
      have next : memory.ptr prevp = node := Memory.next_eq_some.mp leads
      obtain ⟨different, outside⟩ := not_or.mp (List.mem_cons.not.mp outside)
      rw [mallocLoop, next]
      split
      · next large => exact ⟨prevp, List.mem_cons_self, next.symm ▸ large, by rw [next]⟩
      · next few =>
          rw [if_neg (Ne.symm different)]
          have later : ∃ a ∈ nodes ++ [memory.freep], nunits ≤ memory.size a := by
            obtain ⟨a, member, large⟩ := fits
            rcases List.mem_cons.mp member with rfl | member
            · exact absurd large few
            · exact ⟨a, member, large⟩
          rw [List.length_cons] at enough
          obtain ⟨p, member, found⟩ := inductionHypothesis chain outside later (Nat.lt_of_succ_lt_succ enough)
          exact ⟨p, List.mem_cons_of_mem prevp member, found⟩

/-- The loop of `malloc` calls `morecore` when no block is large enough. -/
theorem mallocLoop_none {answer : Nat × Memory} (chain : Chain memory.next prevp nodes memory.freep)
    (outside : memory.freep ∉ nodes) (few : ∀ a ∈ nodes ++ [memory.freep], memory.size a < nunits)
    (answered : morecore image grants nunits memory = some answer) :
    mallocLoop image grants nunits (rounds + 1 + nodes.length) memory prevp (memory.ptr prevp) =
      if answer.1 = 0 then some (0, answer.2)
      else mallocLoop image grants nunits rounds answer.2 answer.1 (answer.2.ptr answer.1) := by
  induction nodes generalizing prevp with
  | nil =>
      have next : memory.ptr prevp = memory.freep := Memory.next_eq_some.mp chain
      have small := few memory.freep List.mem_cons_self
      rw [List.length_nil, Nat.add_zero, mallocLoop, next, if_neg (Nat.not_le.mpr small), if_pos rfl, answered]
      obtain ⟨p, after⟩ := answer
      cases p with
      | zero => rfl
      | succ p => rw [if_neg (Nat.succ_ne_zero p)]
  | cons node nodes inductionHypothesis =>
      obtain ⟨leads, chain⟩ := chain
      have next : memory.ptr prevp = node := Memory.next_eq_some.mp leads
      obtain ⟨different, outside⟩ := not_or.mp (List.mem_cons.not.mp outside)
      have small := few node List.mem_cons_self
      rw [List.length_cons, ← Nat.add_assoc, mallocLoop, next, if_neg (Nat.not_le.mpr small),
        if_neg (Ne.symm different)]
      exact inductionHypothesis chain outside fun a member => few a (List.mem_cons_of_mem node member)

/-- A call of `malloc` while a free block is large enough takes such a block. -/
theorem Heap.search (heap : Heap image memory blocks used) (positive : 0 < nunits)
    (fits : ∃ a ∈ blocks, nunits ≤ memory.size a) (enough : image.physical < rounds) :
    ∃ bp after blocks', mallocLoop image grants nunits rounds memory memory.freep (memory.ptr memory.freep) =
      some (bp + 1, after) ∧
      Heap image after blocks' (bp :: used) ∧ after.size bp = nunits ∧ Keeps memory after used := by
  obtain ⟨others, chain, same, few⟩ := heap.exists_rotated heap.roving
  obtain ⟨outside, -⟩ := List.nodup_cons.mp (same.nodup_iff.mpr heap.nodup)
  obtain ⟨a, member, large⟩ := fits
  have inRing : a ∈ others ++ [memory.freep] := by
    have there := same.mem_iff.mpr (List.mem_cons_of_mem image.base member)
    rw [List.mem_append, List.mem_singleton]
    exact (List.mem_cons.mp there).symm
  obtain ⟨p, member, large, found⟩ :=
    @mallocLoop_fits image _ _ _ _ _ grants chain outside ⟨a, inRing, large⟩ (few.trans enough)
  obtain ⟨bp, blocks', address, heap', size, kept⟩ := heap.take (same.mem_iff.mp member) rfl large positive
  refine ⟨bp, _, blocks', ?_, heap', size, kept⟩
  rw [found, ← address]

/-- A call of `malloc` gives 0 exactly when no free block is large enough and the kernel refuses.
Else it gives a block of the right size that was not in use. -/
theorem Heap.malloc {nbytes : Nat} (heap : Heap image (memory.init image) blocks used)
    (small : units nbytes + 1 < 2 ^ 27) :
    ((∀ a ∈ blocks, (memory.init image).size a < units nbytes + 1) ∧
      ¬ Granted image grants (units nbytes + 1) (memory.init image) →
      Umalloc.malloc image grants nbytes memory = some (0, memory.init image)) ∧
    (¬ ((∀ a ∈ blocks, (memory.init image).size a < units nbytes + 1) ∧
        ¬ Granted image grants (units nbytes + 1) (memory.init image)) →
      ∃ bp after blocks', Umalloc.malloc image grants nbytes memory = some (bp + 1, after) ∧
        Heap image after blocks' (bp :: used) ∧ after.size bp = units nbytes + 1 ∧
        Keeps (memory.init image) after used) := by
  obtain ⟨start, start_eq⟩ : ∃ start, start = memory.init image := ⟨_, rfl⟩
  unfold Umalloc.malloc
  rw [← start_eq] at heap ⊢
  obtain ⟨refused, served⟩ := @Heap.morecore image start blocks used _ grants heap small
  obtain ⟨others, chain, same, short⟩ := heap.exists_rotated heap.roving
  obtain ⟨outside, -⟩ := List.nodup_cons.mp (same.nodup_iff.mpr heap.nodup)
  -- The loop goes around the ring once, and after `morecore` once more.
  obtain ⟨rounds, rounds_eq⟩ : ∃ rounds, 2 * (image.physical + 1) = rounds + 1 + others.length :=
    ⟨2 * (image.physical + 1) - 1 - others.length, by omega⟩
  have turn : (∀ a ∈ blocks, start.size a < units nbytes + 1) →
      ∀ a ∈ others ++ [start.freep], start.size a < units nbytes + 1 := by
    intro few a member
    have inRing : a ∈ start.freep :: others := by
      rw [List.mem_append, List.mem_singleton] at member
      exact List.mem_cons.mpr member.symm
    rcases List.mem_cons.mp (same.mem_iff.mp inRing) with rfl | member
    · rw [heap.bottom]
      exact Nat.succ_pos _
    · exact few a member
  constructor
  · rintro ⟨few, denied⟩
    dsimp only
    rw [rounds_eq, mallocLoop_none chain outside (turn few) (refused denied), if_pos rfl]
  · intro available
    by_cases few : ∀ a ∈ blocks, start.size a < units nbytes + 1
    · obtain ⟨after, blocks', answered, heap', kept, fits⟩ :=
        served (by_contra fun denied => available ⟨few, denied⟩)
      obtain ⟨bp, last, blocks'', found, heap'', size, kept'⟩ :=
        @Heap.search image after blocks' used _ rounds grants heap' (Nat.succ_pos _) fits (by omega)
      refine ⟨bp, last, blocks'', ?_, heap'', size, kept.trans kept'⟩
      dsimp only
      rw [rounds_eq, mallocLoop_none chain outside (turn few) answered, if_neg heap'.freep_pos.ne']
      exact found
    · push Not at few
      exact heap.search (Nat.succ_pos _) few (by omega)

end

end OSLabs.Xv6.Umalloc
