import OSLabs.Proof.Xv6.Vm.Growth
import OSLabs.Proof.Xv6.Vm.Freewalk

namespace OSLabs.Xv6.Vm

open Radix

/-- The virtual pages of the trapframe and of the trampoline. -/
theorem trapframeVa_eq : trapframeVa = userEnd * pgSize := rfl

theorem trampolineVa_eq : trampolineVa = (userEnd + 1) * pgSize := rfl

/-- Each place in the last page tables belongs to a virtual page. -/
theorem exists_way {path : List (Fin 512)} {i : Fin 512} (full : path.length = 2) :
    ∃ v, v < 2 ^ 27 ∧ path = way v ∧ i = slot v := by
  match path, full with
  | [first, second], _ =>
      have few := first.isLt
      have few' := second.isLt
      have few'' := i.isLt
      refine ⟨first.val * 512 ^ 2 + second.val * 512 + i.val, by omega, ?_, ?_⟩
      · simp only [way, index, List.cons.injEq, and_true, Fin.ext_iff, Fin.val_ofNat]
        omega
      · simp only [slot, index, Fin.ext_iff, Fin.val_ofNat]
        omega

section
variable {T : Type} [DecidableEq T] {machine : Machine} {memory : Memory} {root : T → Option Nat}
  {use : Nat → Use T}
  {view : View T} {page pagetable v n : Nat} {t : T} {content : Fin 512 → Nat}

omit [DecidableEq T] in
/-- The page tables of an address space without valid entries may be walked. -/
theorem Sound.tree (sound : Sound machine memory root use) (isRoot : root t = some pagetable)
    (empty : ∀ v, v < 2 ^ 27 → entry memory.words root t v = 0) : Tree machine memory.words 3 pagetable := by
  have locate_eq : ∀ path, find child memory.words pagetable path = locate child memory.words root t path := by
    intro path
    rw [locate, isRoot, Option.bind_some]
  refine ⟨fun path other last short short' here there => ?_, fun last reached => ?_,
    fun path last i short here valid => ?_,
    fun path last i full here valid => ?_⟩
  · rw [locate_eq] at here there
    exact (sound.toTables.separate t t path other last (by omega) (by omega) here there).2
  · obtain ⟨path, short, here⟩ := reached
    rw [locate_eq] at here
    by_contra outer
    have isTable := sound.toTables.use_of_locate (by omega) here
    cases isTable.symm.trans ((sound.outside last).mpr outer)
  · rw [locate_eq] at here
    exact sound.inner t path last i (by omega) (sound.toTables.use_of_locate (by omega) here) valid
  · rw [locate_eq] at here
    have long : path.length = 2 := Nat.succ.inj full
    obtain ⟨v, few, rfl, rfl⟩ : ∃ v, v < 2 ^ 27 ∧ path = way v ∧ i = slot v := exists_way long
    have nothing := empty v few
    rw [entry_eq here] at nothing
    rw [nothing] at valid
    cases valid

namespace Models

/-- A page of zeros becomes the first page table of an address space. -/
theorem create (models : Models machine memory root view) (unused : root t = none)
    (held : view.data page = some (.held, fun _ => 0)) :
    Models machine memory (Function.update root t (some page)) (view.drop page) := by
  obtain ⟨use, sound, rfl⟩ := models
  obtain ⟨isHeld, content_eq⟩ := View.of_data.mp held
  have zero : ∀ j, memory.words page j = 0 := congrFun content_eq
  have spare : ∀ t path, use page ≠ .table t path := fun t path isTable => by cases isHeld.symm.trans isTable
  have unmapped : ∀ t v, use page ≠ .role (.user t v) := fun t v isUser => by cases isHeld.symm.trans isUser
  have used : use page ≠ .free := by
    rw [isHeld]
    exact (by rintro ⟨⟩)
  have inside : use page ≠ .role .outside := by
    rw [isHeld]
    exact (by rintro ⟨⟩)
  refine ⟨Function.update use page (.table t []), ⟨sound.toTables.create unused spare zero unmapped,
    sound.free_congr rfl (fun _ _ => rfl) (free_update used (by rintro ⟨⟩)),
      sound.outside_update inside (by rintro ⟨⟩)⟩,
    View.of_drop (fun t' v _ => Tables.entry_create unused zero) (fun role there => ?_)
      (fun other role different => ?_)
      fun _ _ _ _ => rfl⟩
  · rw [Function.update_self] at there
    cases there
  · rw [Function.update_of_ne different]

/-- `freewalk` takes away an address space without valid entries. -/
theorem freewalk (models : Models machine memory root view) (isRoot : root t = some pagetable)
    (empty : ∀ v, v < 2 ^ 27 → view.entry t v = 0) :
    ∃ memory', Vm.freewalk machine 3 pagetable memory = some memory' ∧
      Models machine memory' (Function.update root t none) view := by
  obtain ⟨use, sound, rfl⟩ := models
  have empty' : ∀ v, v < 2 ^ 27 → entry memory.words root t v = 0 := by
    intro v few
    rw [← View.of_entry few]
    exact empty v few
  obtain ⟨memory', freed, walked, frees, freed_iff⟩ := freewalk_frees (sound.tree isRoot empty')
  have freed_use : ∀ page, page ∈ freed ↔ ∃ path, use page = .table t path := by
    intro page
    rw [freed_iff]
    constructor
    · rintro ⟨path, short, here⟩
      refine ⟨path, sound.toTables.use_of_locate (Nat.le_of_lt_succ short) ?_⟩
      rw [locate, isRoot, Option.bind_some, here]
    · rintro ⟨path, isTable⟩
      refine ⟨path, Nat.lt_succ_of_le (sound.short t path page isTable), ?_⟩
      have here := sound.toTables.locate_of_use isTable
      rw [locate, isRoot, Option.bind_some] at here
      exact here
  classical
  have use_eq : ∀ page {wanted : Use T}, wanted ≠ .free → (∀ path, wanted ≠ .table t path) →
      ((if page ∈ freed then Use.free else use page) = wanted ↔ use page = wanted) := by
    intro page wanted notFree notTable
    split
    · next member =>
        obtain ⟨path, isTable⟩ := (freed_use page).mp member
        rw [isTable]
        exact iff_of_false notFree.symm (notTable path).symm
    · exact Iff.rfl
  have same : ∀ page t' path, t' ≠ t → use page = .table t' path → memory'.words page = memory.words page := by
    intro page t' path different isTable
    refine frees.same page trivial fun member => ?_
    obtain ⟨path', isTable'⟩ := (freed_use page).mp member
    rw [isTable, Use.table.injEq] at isTable'
    exact different isTable'.1
  refine ⟨memory', walked, fun page => if page ∈ freed then .free else use page, ⟨?_, ?_, fun page => ?_⟩, ?_⟩
  · refine sound.toTables.remove same empty' (fun page t' path => ?_) fun page t' v =>
      use_eq page (by rintro ⟨⟩) fun _ => by rintro ⟨⟩
    by_cases equal : t' = t
    · subst equal
      refine iff_of_false (fun there => ?_) fun both => both.2 rfl
      split at there
      · cases there
      · next kept => exact kept ((freed_use page).mpr ⟨path, there⟩)
    · rw [use_eq page (by rintro ⟨⟩) fun path' same => equal (Use.table.inj same).1]
      exact (and_iff_left equal).symm
  · obtain ⟨free, list, mem_iff⟩ := sound.free
    refine ⟨freed ++ free, frees.list free list fun page member => ⟨trivial, fun inFreed => ?_⟩, fun page => ?_⟩
    · obtain ⟨path, isTable⟩ := (freed_use page).mp inFreed
      cases isTable.symm.trans ((mem_iff page).mp member)
    · rw [List.mem_append, mem_iff]
      split
      · next member => exact iff_of_true (.inl member) rfl
      · next kept => exact or_iff_right kept
  · rw [use_eq page (by rintro ⟨⟩) fun _ => by rintro ⟨⟩]
    exact sound.outside page
  · refine View.of_congr (fun t' v few => sound.toTables.entry_remove same (empty' v few))
      (fun page role => use_eq page (by rintro ⟨⟩) fun _ => by rintro ⟨⟩) fun page role isRole => ?_
    refine frees.same page trivial fun member => ?_
    obtain ⟨path, isTable⟩ := (freed_use page).mp member
    cases isRole.symm.trans isTable

omit [DecidableEq T] in
theorem entry_unused (models : Models machine memory root view) (unused : root t = none) : view.entry t v = 0 := by
  obtain ⟨use, sound, rfl⟩ := models
  by_cases few : v < 2 ^ 27
  · rw [View.of_entry few, entry_none (locate_unused unused)]
  · exact if_neg few

/-- An address space without valid entries is taken away by `uvmfree`. -/
theorem uvmfree_empty (models : Models machine memory (Function.update root t (some pagetable)) view)
    (unused : root t = none)
    (empty : ∀ v, v < 2 ^ 27 → view.entry t v = 0) :
    ∃ memory', uvmfree machine pagetable 0 memory = some memory' ∧ Models machine memory' root view := by
  obtain ⟨memory', walked, models'⟩ := models.freewalk (Function.update_self ..) empty
  rw [Function.update_idem, ← unused, Function.update_eq_self] at models'
  refine ⟨memory', ?_, models'⟩
  rw [uvmfree, if_neg (Nat.lt_irrefl 0)]
  simp only [Option.bind_eq_bind, Option.bind_some, walked]

/-- `mappages` of the trapframe or of the trampoline sets the entry, or it runs out of pages. -/
theorem mapHigh (models : Models machine memory root view) (page perm : Nat)
    (isRoot : root t = some pagetable) (high : userEnd ≤ v)
    (few : v < 2 ^ 26) (zero : view.entry t v = 0) (small : perm < 1024) (proper : perm ||| pteV ≠ pteV) :
    ∃ memory', (Vm.mappages pagetable (v * pgSize) pgSize page perm memory = some (true, memory') ∧
        Models machine memory' root (view.assign t v (pa2pte page ||| perm ||| pteV))) ∨
      (Vm.mappages pagetable (v * pgSize) pgSize page perm memory = some (false, memory') ∧
        Models machine memory' root view) := by
  have invalid : view.entry t v % 2 ≠ pteV := by
    rw [zero]
    decide
  obtain ⟨memory₁, models₁, failed | ⟨table, mapped, located⟩⟩ := models.mappages page perm isRoot few invalid
  · exact ⟨memory₁, .inr ⟨failed, models₁⟩⟩
  · exact ⟨_, .inl ⟨mapped, models₁.assign_high located high (wide few) fun _ => (pte_flags small).symm ▸ proper⟩⟩

end Models

/-- The entry of the trampoline. -/
def trampolinePte (machine : Machine) : Nat := pa2pte machine.trampoline ||| (pteR ||| pteX) ||| pteV

/-- The entry of the trapframe. -/
def trapframePte (trapframe : Nat) : Nat := pa2pte trapframe ||| (pteR ||| pteW) ||| pteV

/-- A new address space has the trampoline and the trapframe. -/
def View.fresh (view : View T) (machine : Machine) (t : T) (trapframe : Nat) : View T :=
  (view.assign t (userEnd + 1) (trampolinePte machine)).assign t userEnd (trapframePte trapframe)

namespace Models

/-- `proc_pagetable` makes a new address space, or the view is the same as before. -/
theorem procPagetable (models : Models machine memory root view) (trapframe : Nat) (unused : root t = none) :
    ∃ memory', (Vm.procPagetable machine trapframe memory = some (none, memory') ∧
      Models machine memory' root view) ∨
      ∃ pagetable, Vm.procPagetable machine trapframe memory = some (some pagetable, memory') ∧
        Models machine memory' (Function.update root t (some pagetable)) (view.fresh machine t trapframe) := by
  have zero : ∀ v, view.entry t v = 0 := fun v => models.entry_unused unused
  rw [Vm.procPagetable, uvmcreate]
  cases taken : Vm.kalloc memory with
  | none => exact ⟨memory, .inl ⟨rfl, models⟩⟩
  | some result =>
      obtain ⟨pagetable, memory₁⟩ := result
      obtain ⟨idle, models₁⟩ := models.kalloc taken
      have models₂ : Models machine (memory₁.fill pagetable 0) root (view.put pagetable .held fun _ => 0) := by
        rw [← View.put_put]
        exact models₁.write View.put_data_self fun _ => 0
      have models₃ := models₂.create unused View.put_data_self
      rw [View.drop_put, View.drop_self idle] at models₃
      have isRoot : Function.update root t (some pagetable) t = some pagetable := Function.update_self ..
      rw [trampolineVa_eq, trapframeVa_eq]
      dsimp only
      obtain ⟨memory₄, ⟨mapped, models₄⟩ | ⟨failed, models₄⟩⟩ := models₃.mapHigh machine.trampoline
        (pteR ||| pteX) isRoot (Nat.le_succ userEnd) (by decide) (zero (userEnd + 1)) (by decide) (by decide)
      · have zero' : (view.assign t (userEnd + 1) (trampolinePte machine)).entry t userEnd = 0 := by
          rw [View.assign_entry, if_neg (by omega), zero]
        obtain ⟨memory₅, ⟨mapped', models₅⟩ | ⟨failed, models₅⟩⟩ := models₄.mapHigh trapframe
          (pteR ||| pteW) isRoot (Nat.le_refl userEnd) (by decide) zero' (by decide) (by decide)
        · refine ⟨memory₅, .inr ⟨pagetable, ?_, models₅⟩⟩
          simp only [mapped, mapped', Option.bind_eq_bind, Option.bind_some, Bool.not_true,
            Bool.false_eq_true, if_false]
          rfl
        · have valid : (view.assign t (userEnd + 1) (trampolinePte machine)).entry t (userEnd + 1) % 2 = pteV := by
            rw [View.assign_entry, if_pos ⟨rfl, rfl⟩]
            exact pte_valid (by decide)
          obtain ⟨memory₆, unmapped, models₆⟩ :=
            models₅.uvmunmap_high isRoot (Nat.le_succ userEnd) (by decide) valid
          rw [View.assign_assign, View.assign_self (zero (userEnd + 1))] at models₆
          obtain ⟨memory₇, freed, models₇⟩ := models₆.uvmfree_empty unused fun v _ => zero v
          refine ⟨memory₇, .inl ⟨?_, models₇⟩⟩
          simp only [mapped, failed, unmapped, freed, Option.bind_eq_bind, Option.bind_some, Bool.not_true,
            Bool.not_false,
            Bool.false_eq_true, if_false, if_true]
          rfl
      · obtain ⟨memory₅, freed, models₅⟩ := models₄.uvmfree_empty unused fun v _ => zero v
        refine ⟨memory₅, .inl ⟨?_, models₅⟩⟩
        simp only [failed, freed, Option.bind_eq_bind, Option.bind_some, Bool.not_false, if_true]
        rfl

end Models

/-- An address space has its user pages, the trapframe and the trampoline, and nothing else. -/
structure Space (machine : Machine) (view : View T) (t : T) (trapframe n : Nat) : Prop where
  user : ∀ v, v < n → ∃ page content, view.data page = some (.user t v, content)
  flags : ∀ v, v < n → view.entry t v / pteU % 2 = 1 ∧ view.entry t v / pteW % 2 = 1
  trapframe_eq : view.entry t userEnd = trapframePte trapframe
  trampoline_eq : view.entry t (userEnd + 1) = trampolinePte machine
  zero : ∀ v, n ≤ v → v ≠ userEnd → v ≠ userEnd + 1 → view.entry t v = 0

/-- The view without the address space of a process. -/
def View.without (view : View T) (t : T) : View T := view.clear t 0 (2 ^ 27)

namespace Models

omit [DecidableEq T] in
theorem space_few {trapframe : Nat} (models : Models machine memory root view)
    (space : Space machine view t trapframe n) :
    n ≤ 2 ^ 15 := models.bounded space.user

/-- The pages and the entries of an address space are all that there is. -/
theorem without_eq {trapframe : Nat} (models : Models machine memory root view)
    (space : Space machine view t trapframe n) :
    ((view.assign t (userEnd + 1) 0).assign t userEnd 0).clear t 0 n = view.without t := by
  have few := models.space_few space
  have end_eq : userEnd = 2 ^ 26 - 2 := rfl
  refine View.eq_of_data (fun page role content => ?_) fun t' v => ?_
  · rw [View.without, View.clear_data, View.clear_data, View.assign_data, View.assign_data]
    refine and_congr_right fun here => forall₂_congr fun v isUser => not_congr ?_
    subst isUser
    have below := models.user_below here
    have inner : v < n := by
      by_contra outer
      have leads := (models.user_iff below).mpr ⟨content, here⟩
      rw [space.zero v (Nat.le_of_not_lt outer) (by omega) (by omega), child_zero] at leads
      cases leads
    omega
  · rw [View.without, View.clear_entry, View.clear_entry, View.assign_entry, View.assign_entry]
    by_cases same : t' = t
    · simp only [same, true_and]
      split_ifs with inner inner' inner' isEnd isEnd isNext
      all_goals first | rfl | omega | exact space.zero v (by omega) (by omega) (by omega)
    · rw [if_neg fun both => same both.1, if_neg fun both => same both.1, if_neg fun both => same both.1,
        if_neg fun both => same both.1]

/-- `proc_freepagetable` takes an address space away. -/
theorem procFreepagetable {trapframe sz : Nat} (models : Models machine memory root view)
    (isRoot : root t = some pagetable)
    (space : Space machine view t trapframe (pages sz)) :
    ∃ memory', Vm.procFreepagetable machine pagetable sz memory = some memory' ∧
      Models machine memory' (Function.update root t none) (view.without t) := by
  have few := models.space_few space
  have valid : view.entry t (userEnd + 1) % 2 = pteV := by
    rw [space.trampoline_eq]
    exact pte_valid (by decide)
  obtain ⟨memory₁, unmapped, models₁⟩ := models.uvmunmap_high isRoot (Nat.le_succ userEnd) (by decide) valid
  have valid' : (view.assign t (userEnd + 1) 0).entry t userEnd % 2 = pteV := by
    rw [View.assign_entry, if_neg (by omega), space.trapframe_eq]
    exact pte_valid (by decide)
  obtain ⟨memory₂, unmapped', models₂⟩ := models₁.uvmunmap_high isRoot (Nat.le_refl userEnd) (by decide) valid'
  have mapped : ∀ v, 0 ≤ v → v < 0 + pages sz → ∃ page content, view.data page = some (.user t v, content) := by
    intro v _ inner
    rw [Nat.zero_add] at inner
    exact space.user v inner
  obtain ⟨memory₃, freed, models₃⟩ := models₂.uvmunmap isRoot mapped
  rw [models.without_eq space] at models₃
  have empty : ∀ v, v < 2 ^ 27 → (view.without t).entry t v = 0 := by
    intro v few
    rw [View.without, View.clear_entry, if_pos ⟨rfl, Nat.zero_le v, by omega⟩]
  obtain ⟨memory₄, walked, models₄⟩ := models₃.freewalk isRoot empty
  refine ⟨memory₄, ?_, models₄⟩
  rw [Nat.zero_mul] at freed
  rw [Vm.procFreepagetable, trampolineVa_eq, trapframeVa_eq]
  by_cases positive : sz > 0
  · simp only [uvmfree, unmapped, unmapped', if_pos positive, pgRoundUp_eq, page_div, freed, walked,
      Option.bind_eq_bind,
      Option.bind_some]
  · have nothing : pages sz = 0 := by
      rw [Nat.eq_zero_of_not_pos positive]
      rfl
    rw [nothing, Vm.uvmunmap, if_neg (by decide), Vm.uvmunmapLoop, Option.some.injEq] at freed
    simp only [uvmfree, unmapped, unmapped', if_neg positive, freed, walked, Option.bind_eq_bind, Option.bind_some]

/-- `allocproc` makes a process with an address space of size 0, or the view is the same as before. -/
theorem allocproc (models : Models machine memory root view) (unused : root t = none) :
    ∃ memory', (Vm.allocproc machine memory = some (none, memory') ∧ Models machine memory' root view) ∨
      ∃ pagetable trapframe content, Vm.allocproc machine memory = some (some ⟨pagetable, trapframe, 0⟩, memory') ∧
        view.data trapframe = none ∧ Models machine memory' (Function.update root t (some pagetable))
          ((view.put trapframe (.trapframe t) content).fresh machine t trapframe) := by
  rw [Vm.allocproc]
  cases taken : Vm.kalloc memory with
  | none => exact ⟨memory, .inl ⟨rfl, models⟩⟩
  | some result =>
      obtain ⟨trapframe, memory₁⟩ := result
      obtain ⟨idle, models₁⟩ := models.kalloc taken
      have models₂ := models₁.keep View.put_data_self Use.held_plain (Use.trapframe_plain (t :=
        t)) (memory₁.words trapframe)
      rw [Function.update_eq_self, View.put_put] at models₂
      obtain ⟨memory₂, ⟨failed, models₃⟩ | ⟨pagetable, made, models₃⟩⟩ := models₂.procPagetable trapframe unused
      · obtain ⟨memory₃, freed, models₄⟩ := models₃.kfree View.put_data_self Use.trapframe_plain
        rw [View.drop_put, View.drop_self idle] at models₄
        refine ⟨memory₃, .inl ⟨?_, models₄⟩⟩
        simp only [failed, freed, Option.bind_eq_bind, Option.bind_some, Option.map_some]
      · refine ⟨memory₂, .inr ⟨pagetable, trapframe, memory₁.words trapframe, ?_, idle, models₃⟩⟩
        simp only [made, Option.bind_eq_bind, Option.bind_some]

/-- `freeproc` takes a process away. -/
theorem freeproc {proc : Proc} (models : Models machine memory root view) (isRoot : root t = some proc.pagetable)
    (space : Space machine view t proc.trapframe (pages proc.sz))
    (here : view.data proc.trapframe = some (.trapframe t, content)) :
    ∃ memory', Vm.freeproc machine proc memory = some memory' ∧
      Models machine memory' (Function.update root t none) ((view.drop proc.trapframe).without t) := by
  obtain ⟨memory₁, freed, models₁⟩ := models.kfree here Use.trapframe_plain
  have space₁ : Space machine (view.drop proc.trapframe) t proc.trapframe (pages proc.sz) := by
    refine ⟨fun v inner => ?_, space.flags, space.trapframe_eq, space.trampoline_eq, space.zero⟩
    obtain ⟨page, content', there⟩ := space.user v inner
    refine ⟨page, content', ?_⟩
    rw [View.drop_data_of_ne]
    · exact there
    · rintro rfl
      cases here.symm.trans there
  obtain ⟨memory₂, freed', models₂⟩ := models₁.procFreepagetable isRoot space₁
  refine ⟨memory₂, ?_, models₂⟩
  simp only [Vm.freeproc, freed, freed', Option.bind_eq_bind, Option.bind_some]

end Models

section
variable {trapframe : Nat}

theorem View.fresh_entry {v : Nat} {t' : T} : (view.fresh machine t trapframe).entry t' v =
    if t' = t ∧ v = userEnd then trapframePte trapframe
    else if t' = t ∧ v = userEnd + 1 then trampolinePte machine else view.entry t' v := by
  rw [View.fresh, View.assign_entry, View.assign_entry]

/-- A new address space has no user pages. -/
theorem Space.fresh (zero : ∀ v, view.entry t v = 0) :
    Space machine (view.fresh machine t trapframe) t trapframe 0 where
  user v inner := absurd inner (Nat.not_lt_zero v)
  flags v inner := absurd inner (Nat.not_lt_zero v)
  trapframe_eq := by rw [View.fresh_entry, if_pos ⟨rfl, rfl⟩]
  trampoline_eq := by rw [View.fresh_entry, if_neg (by omega), if_pos ⟨rfl, rfl⟩]
  zero v _ notEnd notNext := by
    rw [View.fresh_entry, if_neg fun both => notEnd both.2, if_neg fun both => notNext both.2, zero]

/-- An address space that is made and taken away leaves no trace. -/
theorem View.without_fresh (idle : view.data trapframe = none) (zero : ∀ v, view.entry t v = 0)
    (alone : ∀ page v content, view.data page ≠ some (.user t v, content)) :
    (((view.put trapframe (.trapframe t) content).fresh machine t trapframe).drop trapframe).without t = view := by
  refine View.eq_of_data (fun page role content' => ?_) fun t' v => ?_
  · have same : (((view.put trapframe (.trapframe t) content).fresh machine t trapframe).drop trapframe).data
        page = view.data page := by
      by_cases equal : page = trapframe
      · rw [equal, View.drop_data_self, idle]
      · rw [View.drop_data_of_ne equal]
        exact View.put_data_of_ne equal
    rw [View.without, View.clear_data, same]
    refine and_iff_left_of_imp fun here v isUser => ?_
    exact absurd (isUser ▸ here) (alone page v content')
  · rw [View.without, View.clear_entry, View.drop_entry, View.fresh_entry, View.put_entry]
    by_cases same : t' = t
    · have end_eq : userEnd = 2 ^ 26 - 2 := rfl
      subst same
      simp only [true_and]
      split_ifs
      all_goals first | rfl | omega | exact (zero v).symm
    · rw [if_neg fun both => same both.1, if_neg fun both => same both.1, if_neg fun both => same both.1]

end

end

end OSLabs.Xv6.Vm
