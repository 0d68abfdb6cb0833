import OSLabs.Proof.Transition.Run
import OSLabs.Proof.Xv6.Umalloc.Malloc

namespace OSLabs.Xv6.Umalloc

open Linked Tiling Transition

/-- The first header of a block of the program. -/
def head (block : Nat × Nat) : Nat := block.1 - 1

section
variable {image : Image} {memory changed after : Memory} {state next : State} {blocks used : List Nat}
  {block : Nat × Nat}
  {ptr size : Nat → Nat} {unit : Nat}

theorem init_of_pos (positive : 0 < memory.freep) : memory.init image = memory := if_neg positive.ne'

@[simp] theorem init_brk : (memory.init image).brk = memory.brk := by
  unfold Memory.init
  split <;> rfl

theorem Heap.init (heap : Heap image (memory.init image) blocks used) :
    (memory.init image).init image = memory.init image :=
  init_of_pos heap.freep_pos

/-- Only the fields of the blocks matter. -/
theorem Heap.congr (heap : Heap image memory blocks used)
    (ptr : ∀ a ∈ image.base :: blocks, changed.ptr a = memory.ptr a)
    (size : ∀ a ∈ image.base :: (blocks ++ used), changed.size a = memory.size a)
    (freep : changed.freep = memory.freep)
    (brk : changed.brk = memory.brk) : Heap image changed blocks used := by
  have ring : ∀ a ∈ image.base :: blocks, changed.size a = memory.size a := fun a member => by
    rw [← List.cons_append] at size
    exact size a (List.mem_append_left used member)
  refine ⟨?_, ?_, ?_, freep ▸ heap.roving, ?_, brk ▸ heap.grown, brk ▸ heap.fits⟩
  · exact heap.chain.start (congrArg some (ptr _ List.mem_cons_self)) fun a member =>
      congrArg some (ptr a (List.mem_cons_of_mem _ member))
  · refine heap.gaps.imp_of_mem fun {a b} member _ gap => ?_
    rw [ring a member]
    exact gap
  · rw [ring _ List.mem_cons_self, heap.bottom]
  · rw [brk]
    exact heap.tiles.congr fun a member => size a (List.mem_cons_of_mem _ member)

/-- The heap is in order, each block of the program has its size, and what the program has stored is there. -/
structure Sound (image : Image) (state : State) (blocks : List Nat) : Prop where
  heap : Heap image (state.memory.init image) blocks (state.live.map head)
  unused : state.memory.freep = 0 → blocks = [] ∧ state.live = []
  sized : ∀ block ∈ state.live, 0 < block.1 ∧ (state.memory.init image).size (head block) = units block.2 + 1
  stored : ∀ block ∈ state.live, ∀ unit, block.1 ≤ unit → unit < block.1 + units block.2 → ∀ value,
    state.stored unit = some value → ((state.memory.init image).ptr unit,
      (state.memory.init image).size unit) = value

namespace Sound

theorem start : Sound image (State.start image ptr size) [] := by
  have opened : (State.start image ptr size).memory.init image =
      { ((State.start image ptr size).memory.setPtr image.base image.base).setSize image.base 0 with freep := image.base } :=
    if_pos rfl
  refine ⟨?_, fun _ => ⟨rfl, rfl⟩, fun _ member => (List.not_mem_nil member).elim, fun _ member =>
    (List.not_mem_nil member).elim⟩
  rw [opened]
  refine ⟨congrArg some Memory.setPtr_ptr_self, List.pairwise_singleton .., Function.update_self ..,
    List.mem_cons_self,
    ⟨fun _ member => (List.not_mem_nil member).elim, List.Pairwise.nil, ?_⟩, le_rfl, image.room⟩
  exact (Nat.sub_self _).symm

theorem init (sound : Sound image state blocks) (member : block ∈ state.live) :
    state.memory.init image = state.memory := by
  refine init_of_pos (Nat.pos_of_ne_zero fun zero => ?_)
  rw [(sound.unused zero).2] at member
  cases member

/-- What the program may use of a block lies behind the header. -/
theorem behind (sound : Sound image state blocks) (member : block ∈ state.live) (above : block.1 ≤ unit)
    (below : unit < block.1 + units block.2) : Behind (state.memory.init image).size (head block) unit := by
  obtain ⟨positive, sized⟩ := sound.sized block member
  unfold Behind head
  rw [head] at sized
  omega

theorem malloc {nbytes : Nat} {grants : Nat → Bool} (sound : Sound image state blocks)
    (small : units nbytes + 1 < 2 ^ 27) :
    ∃ next blocks', state.fire image (.malloc nbytes grants) = some next ∧ Sound image next blocks' := by
  obtain ⟨fails, serves⟩ := @Heap.malloc image state.memory blocks _ grants nbytes sound.heap small
  have opened : ∀ block ∈ state.live, 0 < block.1 ∧
    (state.memory.init image).size (head block) = units block.2 + 1 := sound.sized
  by_cases full : (∀ a ∈ blocks, (state.memory.init image).size a < units nbytes + 1) ∧
      ¬ Granted image grants (units nbytes + 1) (state.memory.init image)
  · refine ⟨{ state with memory := state.memory.init image }, blocks, ?_, ?_, fun zero => ?_, ?_, ?_⟩
    · rw [State.fire, fails full]
      rfl
    · rw [sound.heap.init]
      exact sound.heap
    · exact absurd zero sound.heap.freep_pos.ne'
    · rw [sound.heap.init]
      exact sound.sized
    · rw [sound.heap.init]
      exact sound.stored
  · obtain ⟨bp, after, blocks', found, heap, size, kept⟩ := serves full
    have same : after.init image = after := init_of_pos heap.freep_pos
    refine ⟨⟨after, (bp + 1, nbytes) :: state.live,
      fun a => if bp + 1 ≤ a ∧ a < bp + 1 + units nbytes then none else state.stored a⟩, blocks', ?_, ?_,
        fun zero => ?_,
      fun block member => ?_, fun block member unit above below value stored => ?_⟩
    · rw [State.fire, found]
      rfl
    · rw [same]
      exact heap
    · exact absurd zero heap.freep_pos.ne'
    · rw [same]
      rcases List.mem_cons.mp member with rfl | member
      · exact ⟨Nat.succ_pos bp, size⟩
      · obtain ⟨positive, sized⟩ := sound.sized block member
        exact ⟨positive, (kept (head block) (List.mem_map_of_mem member)).1.trans sized⟩
    · rw [same]
      dsimp only at stored
      split at stored
      · cases stored
      · next outside =>
          rcases List.mem_cons.mp member with rfl | member
          · exact absurd ⟨above, below⟩ outside
          · have content :=
              (kept (head block) (List.mem_map_of_mem member)).2 unit (sound.behind member above below)
            rw [content.1, content.2]
            exact sound.stored block member unit above below value stored

/-- The blocks of the program without one of them. -/
theorem perm_cons_filter {live : List (Nat × Nat)} (distinct : (live.map head).Nodup)
    (positive : ∀ block ∈ live, 0 < block.1)
    (member : block ∈ live) : live.Perm (block :: live.filter fun other => other.1 ≠ block.1) := by
  induction live with
  | nil => cases member
  | cons other live inductionHypothesis =>
      rw [List.map_cons] at distinct
      obtain ⟨outside, distinct⟩ := List.nodup_cons.mp distinct
      have unlike : ∀ third ∈ live, third.1 ≠ other.1 := fun third inside same =>
        outside (List.mem_map.mpr ⟨third, inside, congrArg (· - 1) same⟩)
      rcases List.mem_cons.mp member with rfl | member
      · rw [List.filter_cons_of_neg (by simp),
          List.filter_eq_self.mpr fun third inside => by simpa using unlike third inside]
      · rw [List.filter_cons_of_pos (by simpa using (unlike block member).symm)]
        exact ((inductionHypothesis distinct (fun third inside => positive third (List.mem_cons_of_mem _ inside))
          member).cons other).trans (List.Perm.swap ..)

theorem free (sound : Sound image state blocks) (member : block ∈ state.live) :
    ∃ next blocks', state.fire image (.free block.1) = some next ∧ Sound image next blocks' := by
  have opened := sound.init member
  have heap := sound.heap
  have positive := (sound.sized block member).1
  have distinct : (state.live.map head).Nodup := (List.nodup_append.mp heap.tiles.nodup).2.1
  have taken := (perm_cons_filter distinct (fun block member => (sound.sized block member).1) member).map head
  rw [opened] at heap
  obtain ⟨after, blocks', freed, heap', kept, -⟩ := heap.free taken
  have address : head block + 1 = block.1 := Nat.succ_pred_eq_of_pos positive
  have same : after.init image = after := init_of_pos heap'.freep_pos
  rw [address] at freed
  refine ⟨{ state with memory := after, live := state.live.filter fun other => other.1 ≠ block.1 },
    blocks', ?_, ?_,
    fun zero => ?_, fun other there => ?_, fun other there unit above below value stored => ?_⟩
  · rw [State.fire, freed]
    rfl
  · rw [same]
    exact heap'
  · exact absurd zero heap'.freep_pos.ne'
  · rw [same]
    obtain ⟨positive, sized⟩ := sound.sized other (List.mem_of_mem_filter there)
    rw [opened] at sized
    exact ⟨positive, (kept (head other) (List.mem_map_of_mem there)).1.trans sized⟩
  · have inside := List.mem_of_mem_filter there
    have behind := sound.behind inside above below
    have content := sound.stored other inside unit above below value stored
    rw [opened] at behind content
    have kept := (kept (head other) (List.mem_map_of_mem there)).2 unit behind
    rw [same, kept.1, kept.2]
    exact content

theorem store {i p n : Nat} (sound : Sound image state blocks) (member : block ∈ state.live)
    (inside : i < units block.2) :
    ∃ next blocks', state.fire image (.store block.1 i p n) = some next ∧ Sound image next blocks' := by
  have opened := sound.init member
  have heap := sound.heap
  have behind := sound.behind member (Nat.le_add_right block.1 i) (Nat.add_lt_add_left inside _)
  rw [opened] at heap behind
  obtain ⟨unit, unit_eq⟩ : ∃ unit, unit = block.1 + i := ⟨_, rfl⟩
  rw [← unit_eq] at behind
  have outside : ∀ a ∈ image.base :: (blocks ++ state.live.map head), a ≠ unit := by
    rintro a there rfl
    have inUse : head block ∈ blocks ++ state.live.map head := List.mem_append_right _ (List.mem_map_of_mem member)
    rcases List.mem_cons.mp there with rfl | there
    · have above := heap.base_lt inUse
      unfold Behind at behind
      omega
    · exact heap.tiles.not_behind inUse there behind
  obtain ⟨changed, changed_eq⟩ : ∃ changed, changed = (state.memory.setPtr unit p).setSize unit n := ⟨_, rfl⟩
  have sizes : ∀ a, a ≠ unit → changed.size a = state.memory.size a := fun a different => by
    rw [changed_eq, Memory.setSize_size, Function.update_of_ne different, Memory.setPtr_size]
  have pointers : ∀ a, a ≠ unit → changed.ptr a = state.memory.ptr a := fun a different => by
    rw [changed_eq, Memory.setSize_ptr, Memory.setPtr_ptr_of_ne different]
  have heap' : Heap image changed blocks (state.live.map head) := by
    refine heap.congr (fun a there => pointers a (outside a ?_)) (fun a there => sizes a (outside a there)) ?_ ?_
    · rw [← List.cons_append]
      exact List.mem_append_left _ there
    · rw [changed_eq]
      rfl
    · rw [changed_eq]
      rfl
  have same : changed.init image = changed := init_of_pos heap'.freep_pos
  refine ⟨{ state with memory := changed, stored := Function.update state.stored unit (some (p, n)) },
    blocks, ?_, ?_,
    fun zero => ?_, fun other there => ?_, fun other there third above below value stored => ?_⟩
  · rw [State.fire, changed_eq, unit_eq]
  · rw [same]
    exact heap'
  · exact absurd zero heap'.freep_pos.ne'
  · obtain ⟨positive, sized⟩ := sound.sized other there
    have here : head other ∈ image.base :: (blocks ++ state.live.map head) :=
      List.mem_cons_of_mem _ (List.mem_append_right _ (List.mem_map_of_mem there))
    rw [opened] at sized
    rw [same, sizes _ (outside _ here)]
    exact ⟨positive, sized⟩
  · dsimp only at stored
    rw [same]
    by_cases hit : third = unit
    · subst hit
      rw [Function.update_self, Option.some.injEq] at stored
      rw [changed_eq, Memory.setSize_ptr, Memory.setPtr_ptr_self, Memory.setSize_size, Function.update_self]
      exact stored
    · rw [Function.update_of_ne hit] at stored
      have content := sound.stored other there third above below value stored
      rw [opened] at content
      rw [pointers third hit, sizes third hit]
      exact content

/-- Each call of the program returns, and the heap is in order again. -/
theorem fire (sound : Sound image state blocks) {call : Call} (permitted : state.Allowed call) :
    ∃ next blocks', state.fire image call = some next ∧ Sound image next blocks' := by
  cases call with
  | malloc nbytes grants => exact sound.malloc permitted
  | free ap =>
      obtain ⟨block, member, rfl⟩ := permitted
      exact sound.free member
  | store ap i ptr size =>
      obtain ⟨block, member, rfl, inside⟩ := permitted
      exact sound.store member inside

end Sound

theorem sound (reached : Reachable (State.fire image) State.Allowed (State.start image ptr size) state) :
    ∃ blocks, Sound image state blocks := by
  refine reached.invariant (fun state => ∃ blocks, Sound image state blocks) ⟨[], .start⟩ ?_
  rintro state next call ⟨blocks, sound⟩ permitted fired
  obtain ⟨next', blocks', fired', sound'⟩ := sound.fire permitted
  rw [fired, Option.some.injEq] at fired'
  exact ⟨blocks', fired' ▸ sound'⟩

/-- The pointers lead through the free blocks, and through no other list. -/
theorem Sound.listed_iff (sound : Sound image state blocks) : FreeList image state.memory used ↔
    used = blocks := by
  unfold FreeList
  split
  · next zero => rw [(sound.unused zero).1]
  · next positive =>
      have opened : state.memory.init image = state.memory := if_neg positive
      have heap := sound.heap
      rw [opened] at heap
      have outside := (List.nodup_cons.mp heap.nodup).1
      constructor
      · exact fun listed => listed.2.unique heap.chain listed.1 outside
      · rintro rfl
        exact ⟨outside, heap.chain⟩

theorem Sound.sizes_eq (sound : Sound image state blocks) {a : Nat} (member : a ∈ blocks) :
    (state.memory.init image).size a = state.memory.size a := by
  rw [init_of_pos (Nat.pos_of_ne_zero fun zero => ?_)]
  rw [(sound.unused zero).1] at member
  cases member

/-- The program and its machine are small. -/
def smallImage : Image := ⟨1, 2, 10000, by decide, by decide, by decide, by decide⟩

/-- The program gets two blocks, stores in the second one, and frees the first one. -/
def twoBlocks : List Call :=
  [.malloc 40 fun _ => true, .malloc 100 fun _ => true, .store 4087 2 7 8, .free 4095]

/-- Each call of the program returns. Its blocks are in the heap, no two of them overlap or touch,
and each of them keeps what the program has stored in it. -/
theorem blocks_kept (reached : Reachable (State.fire image) State.Allowed (State.start image ptr size) state) :
    (∀ call, state.Allowed call → ∃ next, state.fire image call = some next) ∧
    (∀ block ∈ state.live, image.heap < block.1 ∧ block.1 + units block.2 ≤ state.memory.brk) ∧
    state.live.Pairwise (fun a b => a.1 + units a.2 < b.1 ∨ b.1 + units b.2 < a.1) ∧
    ∀ block ∈ state.live, ∀ unit, block.1 ≤ unit → unit < block.1 + units block.2 → ∀ value,
      state.stored unit = some value → (state.memory.ptr unit, state.memory.size unit) = value := by
  obtain ⟨blocks, sound⟩ := sound reached
  refine ⟨fun call permitted => ?_, fun block member => ?_, ?_,
    fun block member unit above below value stored => ?_⟩
  · obtain ⟨next, _, fired, _⟩ := sound.fire permitted
    exact ⟨next, fired⟩
  · obtain ⟨positive, sized⟩ := sound.sized block member
    have inside := sound.heap.tiles.inside (head block) (List.mem_append_right _ (List.mem_map_of_mem member))
    rw [sized, init_brk] at inside
    unfold head at inside
    omega
  · have apart := List.pairwise_map.mp (List.pairwise_append.mp sound.heap.tiles.apart).2.1
    refine apart.imp_of_mem fun {a b} here there apart => ?_
    obtain ⟨positive, sized⟩ := sound.sized a here
    obtain ⟨positive', sized'⟩ := sound.sized b there
    unfold Apart at apart
    rw [sized, sized'] at apart
    unfold head at apart
    omega
  · have content := sound.stored block member unit above below value stored
    rw [sound.init member] at content
    exact content

/-- What has been stored in the second block stays there when the first one is freed. -/
theorem blocks_kept_two : ∃ state,
    Reachable (State.fire smallImage) State.Allowed (State.start smallImage (fun _ => 0) fun _ => 0) state ∧
      (state.memory.ptr 4089, state.memory.size 4089) = (7, 8) := by
  obtain ⟨state, reached, holds⟩ := exists_reachable (State.fire smallImage) State.Allowed
    (State.start smallImage (fun _ => 0) fun _ => 0) twoBlocks
    (fun state => state.live = [(4087, 100)] ∧ state.stored 4089 = some (7, 8)) (by decide +kernel)
  simp only [decide_eq_true_eq] at holds
  have member : (4087, 100) ∈ state.live := by rw [holds.1]; exact List.mem_singleton_self _
  exact ⟨state, reached, (blocks_kept reached).2.2.2 _ member 4089 (by decide) (by decide) _ holds.2⟩

/-- There is one free list, and a call of `malloc` gives 0 exactly when no block on it is large enough
and the kernel refuses. The request is so small that its size in bytes is an `int`. -/
theorem malloc_null_iff {nbytes : Nat} {grants : Nat → Bool}
    (reached : Reachable (State.fire image) State.Allowed (State.start image ptr size) state)
    (small : units nbytes + 1 < 2 ^ 27) :
    ∃ used, (∀ list, FreeList image state.memory list ↔ list = used) ∧
      ((∃ after, malloc image grants nbytes state.memory = some (0, after)) ↔
        (∀ a ∈ used, state.memory.size a < units nbytes + 1) ∧
          ¬ Granted image grants (units nbytes + 1) state.memory) := by
  obtain ⟨used, sound⟩ := sound reached
  refine ⟨used, fun list => sound.listed_iff, ?_⟩
  obtain ⟨fails, serves⟩ := @Heap.malloc image state.memory used _ grants nbytes sound.heap small
  have sizes : (∀ a ∈ used, (state.memory.init image).size a < units nbytes + 1) ↔
      ∀ a ∈ used, state.memory.size a < units nbytes + 1 :=
    forall₂_congr fun a member => by rw [sound.sizes_eq member]
  have granted : Granted image grants (units nbytes + 1) (state.memory.init image) ↔
      Granted image grants (units nbytes + 1) state.memory := by
    unfold Granted
    rw [init_brk]
  rw [sizes, granted] at fails serves
  constructor
  · rintro ⟨after, null⟩
    by_contra available
    obtain ⟨bp, other, _, found, _⟩ := serves available
    rw [null] at found
    cases found
  · intro full
    exact ⟨_, fails full⟩

/-- The free list has two blocks then, and when the kernel refuses there is no room for 70000 bytes. -/
theorem malloc_null_refused : ∃ state,
    Reachable (State.fire smallImage) State.Allowed (State.start smallImage (fun _ => 0) fun _ => 0) state ∧
      ∃ after, malloc smallImage (fun _ => false) 70000 state.memory = some (0, after) := by
  obtain ⟨state, reached, holds⟩ := exists_reachable (State.fire smallImage) State.Allowed
    (State.start smallImage (fun _ => 0) fun _ => 0) twoBlocks
    (fun state => state.memory.freep ≠ 0 ∧ state.memory.ptr 1 = 2 ∧ state.memory.ptr 2 = 4094 ∧
      state.memory.ptr 4094 = 1 ∧
      state.memory.size 2 = 4084 ∧ state.memory.size 4094 = 4) (by decide +kernel)
  simp only [decide_eq_true_eq] at holds
  obtain ⟨opened, first, second, third, large, small⟩ := holds
  have listed : FreeList smallImage state.memory [2, 4094] := by
    unfold FreeList
    rw [if_neg opened]
    exact ⟨by decide, congrArg some first, congrArg some second, congrArg some third⟩
  have fits : units 70000 + 1 < 2 ^ 27 := by decide
  obtain ⟨used, listed_iff, null_iff⟩ := malloc_null_iff reached fits
  obtain rfl := (listed_iff _).mp listed
  refine ⟨state, reached, null_iff.mpr ⟨?_, fun granted => ?_⟩⟩
  · intro a member
    rcases List.mem_cons.mp member with rfl | member
    · rw [large]
      decide
    · rw [List.mem_singleton.mp member, small]
      decide
  · cases granted.2

/-- There is one free list, it is in the order of addresses, and no two of its blocks touch.
Its blocks and those of the program are all that the process has got from the kernel,
and when the program has freed everything they are one block again. -/
theorem nothing_lost (reached : Reachable (State.fire image) State.Allowed (State.start image ptr size) state) :
    ∃ used, (∀ list, FreeList image state.memory list ↔ list = used) ∧
      used.Pairwise (fun a b => a + state.memory.size a < b) ∧
      (used.map state.memory.size).sum + (state.live.map fun block => units block.2 + 1).sum =
        state.memory.brk - image.heap ∧
      (state.live = [] → state.memory.brk = image.heap ∧ used = [] ∨
        used = [image.heap] ∧ state.memory.size image.heap = state.memory.brk - image.heap) := by
  obtain ⟨used, sound⟩ := sound reached
  have heap := sound.heap
  have gaps : used.Pairwise fun a b => a + state.memory.size a < b :=
    (List.pairwise_cons.mp heap.gaps).2.imp_of_mem fun {a b} member _ gap => by rwa [sound.sizes_eq member] at gap
  have total : (used.map state.memory.size).sum + (state.live.map fun block => units block.2 + 1).sum =
      state.memory.brk - image.heap := by
    have free : used.map (state.memory.init image).size = used.map state.memory.size :=
      List.map_congr_left fun a member => sound.sizes_eq member
    have live : (state.live.map head).map (state.memory.init image).size = state.live.map fun block =>
        units block.2 + 1 := by
      rw [List.map_map]
      exact List.map_congr_left fun block member => (sound.sized block member).2
    have sum := heap.tiles.sum
    rw [List.map_append, List.sum_append, free, live, init_brk] at sum
    exact sum
  refine ⟨used, fun list => sound.listed_iff, gaps, total, fun nothing => ?_⟩
  rw [nothing, List.map_nil, List.sum_nil, Nat.add_zero] at total
  cases used with
  | nil =>
      have grown := heap.grown
      rw [init_brk] at grown
      rw [List.map_nil, List.sum_nil] at total
      exact .inl ⟨by omega, rfl⟩
  | cons a rest =>
      have inside : ∀ b ∈ a :: rest, b + state.memory.size b ≤ state.memory.brk := fun b member => by
        have here := heap.tiles.inside b (List.mem_append_left _ member)
        rw [init_brk, sound.sizes_eq member] at here
        exact here.2.2
      have few := sum_add_length_le inside gaps
      have here := heap.tiles.inside a List.mem_cons_self
      rw [init_brk] at here
      have alone : rest = [] := List.eq_nil_of_length_eq_zero (by omega)
      have first : a = image.heap := by omega
      subst alone
      subst first
      exact .inr ⟨rfl, by simpa using total⟩

/-- When both blocks are freed, the heap is one free block. -/
theorem nothing_lost_two : ∃ state,
    Reachable (State.fire smallImage) State.Allowed (State.start smallImage (fun _ => 0) fun _ => 0) state ∧
      state.memory.size 2 = state.memory.brk - 2 := by
  obtain ⟨state, reached, holds⟩ := exists_reachable (State.fire smallImage) State.Allowed
    (State.start smallImage (fun _ => 0) fun _ => 0) (twoBlocks ++ [.free 4087])
    (fun state => state.live = [] ∧ state.memory.freep ≠ 0 ∧ state.memory.ptr 1 = 2 ∧ state.memory.ptr 2 = 1)
    (by decide +kernel)
  simp only [decide_eq_true_eq] at holds
  obtain ⟨nothing, opened, first, second⟩ := holds
  have listed : FreeList smallImage state.memory [2] := by
    unfold FreeList
    rw [if_neg opened]
    exact ⟨by decide, congrArg some first, congrArg some second⟩
  obtain ⟨used, listed_iff, -, -, joined⟩ := nothing_lost reached
  obtain rfl := (listed_iff _).mp listed
  rcases joined nothing with ⟨_, none⟩ | ⟨_, whole⟩
  · cases none
  · exact ⟨state, reached, whole⟩

end

end OSLabs.Xv6.Umalloc
