import OSLabs.Proof.Xv6.Vm.Walk

namespace OSLabs.Xv6.Vm

open Radix

theorem child_eq_some {pte page : Nat} : child pte = some page ↔ pte % 2 = pteV ∧ pte2pa pte = page := by
  rw [child]
  split
  · next valid => rw [Option.some.injEq, and_iff_right valid]
  · next invalid => exact iff_of_false (by rintro ⟨⟩) fun both => invalid both.1

section
variable {T : Type} [DecidableEq T] {machine : Machine} {memory : Memory} {root : T → Option Nat}
  {view base : View T}
  {page pagetable table v n first perm pte : Nat} {t : T} {role : Role T} {content : Fin 512 → Nat}
  {path : List (Fin 512)}

theorem page_div (v : Nat) : v * pgSize / pgSize = v := Nat.mul_div_cancel v (by decide)

/-- The number of pages for a size. -/
def pages (sz : Nat) : Nat := (sz + pgSize - 1) / pgSize

theorem pgRoundUp_eq (sz : Nat) : pgRoundUp sz = pages sz * pgSize := rfl

theorem pages_mul (n : Nat) : pages (n * pgSize) = n := by
  unfold pages pgSize
  omega

theorem mul_lt_iff {n sz : Nat} : n * pgSize < sz ↔ n < pages sz := by
  unfold pages pgSize
  omega

theorem pages_mono {sz sz' : Nat} (less : sz ≤ sz') : pages sz ≤ pages sz' := by
  unfold pages
  exact Nat.div_le_div_right (by omega)

namespace Models

omit [DecidableEq T] in
theorem table_unused (models : Models machine memory root view)
    (here : locate child memory.words root t path = some table) (short : path.length ≤ 2) :
    view.data table = none := by
  obtain ⟨use, sound, rfl⟩ := models
  refine View.of_data_none.mpr fun role there => ?_
  cases (sound.toTables.use_of_locate short here).symm.trans there

omit [DecidableEq T] in
/-- The page table for a valid entry exists. -/
theorem table_of_valid (models : Models machine memory root view) (few : v < 2 ^ 26)
    (valid : view.entry t v % 2 = pteV) :
    ∃ table, locate child memory.words root t (way v) = some table ∧
      memory.words table (slot v) = view.entry t v := by
  cases here : locate child memory.words root t (way v) with
  | none =>
      rw [models.entry_nowhere (wide few) here] at valid
      cases valid
  | some table => exact ⟨table, rfl, models.entry_at (wide few) here⟩

/-- The loop of `uvmunmap` frees the pages of a range that is mapped. -/
theorem uvmunmapLoop (models : Models machine memory root view) (isRoot : root t = some pagetable)
    (mapped : ∀ v, first ≤ v → v < first + n → ∃ page content, view.data page = some (.user t v, content)) :
    ∃ memory', Vm.uvmunmapLoop machine pagetable true n (first * pgSize) memory = some memory' ∧
      Models machine memory' root (view.clear t first n) := by
  induction n generalizing first memory view with
  | zero =>
      rw [View.clear_zero]
      exact ⟨memory, rfl, models⟩
  | succ n inductionHypothesis =>
      obtain ⟨page, content, here⟩ := mapped first (Nat.le_refl first) (by omega)
      have below := models.user_below here
      have few : first < 2 ^ 26 := by unfold userEnd at below; omega
      have leads := (models.user_iff below).mpr ⟨content, here⟩
      obtain ⟨valid, pa⟩ := child_eq_some.mp leads
      obtain ⟨table, located, word_eq⟩ := models.table_of_valid few valid
      have unmapped := models.unmap located here
      have different : table ≠ page := by
        rintro rfl
        have unused : view.data table = none := models.table_unused located (Nat.le_refl 2)
        cases here.symm.trans unused
      obtain ⟨memory', freed, models'⟩ := unmapped.kfree View.put_data_self Use.held_plain
      rw [kfree_setWord different, Option.map_eq_some_iff] at freed
      obtain ⟨memory₁, freed, rfl⟩ := freed
      rw [View.assign_put, View.drop_put] at models'
      have only : ∀ other content, view.data other = some (.user t first, content) → other = page := by
        intro other content there
        exact Option.some.inj (((models.user_iff below).mpr ⟨content, there⟩).symm.trans leads)
      have rest : ∀ v, first + 1 ≤ v → v < first + 1 + n →
          ∃ other content, ((view.assign t first 0).drop page).data other = some (.user t v, content) := by
        intro v behind inner
        obtain ⟨other, content', there⟩ := mapped v (Nat.le_of_succ_le behind) (by omega)
        refine ⟨other, content', ?_⟩
        rw [View.drop_data_of_ne]
        · exact there
        · rintro rfl
          cases here.symm.trans there
          exact Nat.not_succ_le_self _ behind
      obtain ⟨memory', unmapped_eq, models''⟩ := inductionHypothesis models' rest
      rw [← View.assign_drop, View.clear_step here only] at models''
      refine ⟨memory', ?_, models''⟩
      rw [Vm.uvmunmapLoop, walk_lookup isRoot ((page_div first).symm ▸ few), page_div, located]
      simp only [Option.bind_eq_bind, Option.bind_some, Option.map_some, word_eq, ne_eq, valid,
        not_true_eq_false, if_false,
        if_neg (models.proper (wide few) valid), if_true, pa, freed]
      rw [← Nat.succ_mul]
      exact unmapped_eq

/-- `uvmunmap` frees the pages of a range that is mapped. -/
theorem uvmunmap (models : Models machine memory root view) (isRoot : root t = some pagetable)
    (mapped : ∀ v, first ≤ v → v < first + n → ∃ page content, view.data page = some (.user t v, content)) :
    ∃ memory', Vm.uvmunmap machine pagetable (first * pgSize) n true memory = some memory' ∧
      Models machine memory' root (view.clear t first n) := by
  rw [Vm.uvmunmap, if_neg (by rw [Nat.mul_mod_left]; nofun)]
  exact models.uvmunmapLoop isRoot mapped

/-- `uvmunmap` takes away the entry of the trampoline or of the trapframe, and it frees no page. -/
theorem uvmunmap_high (models : Models machine memory root view) (isRoot : root t = some pagetable)
    (high : userEnd ≤ v)
    (few : v < 2 ^ 26) (valid : view.entry t v % 2 = pteV) :
    ∃ memory', Vm.uvmunmap machine pagetable (v * pgSize) 1 false memory = some memory' ∧
      Models machine memory' root (view.assign t v 0) := by
  obtain ⟨table, located, word_eq⟩ := models.table_of_valid few valid
  refine ⟨_, ?_, models.assign_high located high (wide few) nofun⟩
  rw [Vm.uvmunmap, if_neg (by rw [Nat.mul_mod_left]; nofun), Vm.uvmunmapLoop,
    walk_lookup isRoot ((page_div v).symm ▸ few),
    page_div, located]
  simp only [Option.bind_eq_bind, Option.bind_some, Option.map_some, word_eq, ne_eq, valid, not_true_eq_false,
    if_false,
    if_neg (models.proper (wide few) valid), Bool.false_eq_true]
  rfl

/-- `uvmdealloc` frees the pages that the new size does not need. -/
theorem uvmdealloc (models : Models machine memory root view) (oldsz newsz : Nat)
    (isRoot : root t = some pagetable)
    (mapped : ∀ v, pages newsz ≤ v → v < pages oldsz →
      ∃ page content, view.data page = some (.user t v, content)) :
    ∃ memory', Vm.uvmdealloc machine pagetable oldsz newsz memory = some (min oldsz newsz, memory') ∧
      Models machine memory' root (view.clear t (pages newsz) (pages oldsz - pages newsz)) := by
  rw [Vm.uvmdealloc]
  by_cases grows : newsz ≥ oldsz
  · rw [if_pos grows, Nat.min_eq_left grows, Nat.sub_eq_zero_of_le (pages_mono grows), View.clear_zero]
    exact ⟨memory, rfl, models⟩
  · rw [if_neg grows, Nat.min_eq_right (Nat.le_of_not_ge grows), pgRoundUp_eq, pgRoundUp_eq]
    by_cases fewer : pages newsz < pages oldsz
    · rw [if_pos (Nat.mul_lt_mul_of_pos_right fewer (by decide)), ← Nat.sub_mul, page_div]
      obtain ⟨memory', unmapped, models'⟩ := models.uvmunmap isRoot (n := pages oldsz - pages newsz)
        fun v behind inner => mapped v behind (by omega)
      rw [unmapped]
      exact ⟨memory', rfl, models'⟩
    · rw [if_neg fun less => fewer (Nat.lt_of_mul_lt_mul_right less),
        Nat.sub_eq_zero_of_le (Nat.le_of_not_lt fewer), View.clear_zero]
      exact ⟨memory, rfl, models⟩

/-- `mappages` of one page finds the place for an entry and sets it, or it runs out of pages. -/
theorem mappages (models : Models machine memory root view) (page perm : Nat)
    (isRoot : root t = some pagetable) (few : v < 2 ^ 26)
    (invalid : view.entry t v % 2 ≠ pteV) :
    ∃ memory', Models machine memory' root view ∧
      (Vm.mappages pagetable (v * pgSize) pgSize page perm memory = some (false, memory') ∨
        ∃ table, Vm.mappages pagetable (v * pgSize) pgSize page perm memory =
            some (true, memory'.setWord table (slot v) (pa2pte page ||| perm ||| pteV)) ∧
          locate child memory'.words root t (way v) = some table) := by
  have first : pgRoundDown (v * pgSize) = v * pgSize := by rw [pgRoundDown, page_div]
  have last : pgRoundDown (v * pgSize + pgSize - 1) = v * pgSize := by
    unfold pgRoundDown pgSize
    omega
  rw [Vm.mappages, if_neg (by decide), first, last, Vm.mappagesLoop]
  obtain ⟨memory', models', failed | ⟨table, found, located⟩⟩ := models.walk isRoot ((page_div v).symm ▸ few)
  · exact ⟨memory', models', .inl (by rw [failed]; rfl)⟩
  · rw [page_div] at found located
    refine ⟨memory', models', .inr ⟨table, ?_, located⟩⟩
    rw [found]
    simp only [Option.bind_eq_bind, Option.bind_some, models'.entry_at (wide few) located, if_neg invalid, if_true]

end Models

end

end OSLabs.Xv6.Vm
