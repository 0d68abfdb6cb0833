import OSLabs.Proof.Xv6.Vm.Spaces
import Mathlib.Order.Interval.Finset.Nat

namespace OSLabs.Xv6.Vm

open Radix

section
variable {T : Type} [DecidableEq T] {machine : Machine} {memory memory' : Memory} {root : T → Option Nat}
  {view base : View T}
  {page pagetable v n first : Nat} {t : T} {content : Fin 512 → Nat} {perm : Nat → Nat}
  {contents : Nat → Fin 512 → Nat}

/-- The view is the base with user pages for a range of virtual pages. -/
structure Extended (base view : View T) (t : T) (first n : Nat) (perm : Nat → Nat) (contents : Nat → Fin 512 →
    Nat) : Prop where
  rest : view.clear t first n = base
  mapped : ∀ v, first ≤ v → v < first + n →
    ∃ page, view.data page = some (.user t v, contents v) ∧ view.entry t v = pa2pte page ||| perm v ||| pteV

namespace Extended

theorem none : Extended base base t first 0 perm contents :=
  ⟨View.clear_zero, fun v behind inner => absurd inner (by omega)⟩

theorem one_more (extended : Extended base view t first n perm contents) {next : Nat} (next_eq : next = first + n)
    (unused : view.data page = .none) (alone : ∀ other content, view.data other ≠ some (.user t next, content))
    (zero : view.entry t next = 0) :
    Extended base ((view.put page (.user t next) (contents next)).assign t next
      (pa2pte page ||| perm next ||| pteV))
      t first (n + 1) perm contents where
  rest := by
    subst next_eq
    exact (View.clear_extend unused alone zero).trans extended.rest
  mapped v behind inner := by
    by_cases here : v = next
    · subst here
      refine ⟨page, ?_, ?_⟩
      · rw [View.assign_data, View.put_data_self]
      · rw [View.assign_entry, if_pos ⟨rfl, rfl⟩]
    · obtain ⟨other, data, entry_eq⟩ := extended.mapped v behind (by omega)
      have different : other ≠ page := by
        rintro rfl
        cases unused.symm.trans data
      refine ⟨other, ?_, ?_⟩
      · rw [View.assign_data, View.put_data_of_ne different, data]
      · rw [View.assign_entry, if_neg fun both => here both.2, View.put_entry, entry_eq]

/-- What the base has in use is still there. -/
theorem data_base (extended : Extended base view t first n perm contents) {role : Role T}
    (here : base.data page = some (role, content)) :
    view.data page = some (role, content) := by
  rw [← extended.rest] at here
  exact (View.clear_data.mp here).1

theorem entry_base (extended : Extended base view t first n perm contents) {t' : T}
    (outer : ¬ (t' = t ∧ first ≤ v ∧ v < first + n)) : view.entry t' v = base.entry t' v := by
  rw [← extended.rest, View.clear_entry, if_neg outer]

end Extended

theorem pteFlags_valid {pte : Nat} (valid : pte % 2 = pteV) : pteFlags pte % 2 = pteV := by
  unfold pteFlags pteV at *
  omega

theorem or_pteV_of_valid {flags : Nat} (valid : flags % 2 = pteV) : flags ||| pteV = flags := by
  refine Nat.eq_of_testBit_eq fun i => ?_
  rw [Nat.testBit_or]
  cases i with
  | zero => rw [Nat.mod_two_eq_one_iff_testBit_zero.mp valid, Bool.true_or]
  | succ i => rw [pteV, Nat.testBit_succ, Nat.testBit_succ, Nat.zero_testBit, Bool.or_false]

namespace Models

omit [DecidableEq T] in
/-- An address space has less pages than the memory. -/
theorem bounded (models : Models machine memory root view)
    (mapped : ∀ v, v < n → ∃ page content, view.data page = some (.user t v, content)) : n ≤ 2 ^ 15 := by
  choose page content here using mapped
  have few := machine.few
  have injective : n ≤ machine.top - machine.bottom := by
    rw [← Nat.card_Ico, ← Finset.card_range n, ← Finset.card_attach]
    refine Finset.card_le_card_of_injOn (fun v => page v.1 (Finset.mem_range.mp v.2)) (fun v _ => ?_)
      fun v _ w _ same => ?_
    · exact Finset.mem_Ico.mpr (models.inside (here v.1 (Finset.mem_range.mp v.2)) nofun)
    · have first := here v.1 (Finset.mem_range.mp v.2)
      dsimp only at same
      rw [same] at first
      have pair := Option.some.inj (first.symm.trans (here w.1 (Finset.mem_range.mp w.2)))
      exact Subtype.ext (Role.user.inj (Prod.mk.inj pair).1).2
  omega

/-- A new page becomes a user page, or it is freed again because no page table is left for it. -/
theorem mapUser {perm : Nat} (models : Models machine memory root (view.put page .held content))
    (isRoot : root t = some pagetable)
    (unused : view.data page = none) (below : v < userEnd) (zero : view.entry t v = 0) (small : perm < 1024)
    (proper : perm ||| pteV ≠ pteV) :
    ∃ memory', (Vm.mappages pagetable (v * pgSize) pgSize page perm memory = some (true, memory') ∧
        Models machine memory' root ((view.put page (.user t v) content).assign t v
          (pa2pte page ||| perm ||| pteV))) ∨
      ∃ memory₁, Vm.mappages pagetable (v * pgSize) pgSize page perm memory = some (false, memory₁) ∧
        Vm.kfree machine page memory₁ = some memory' ∧ Models machine memory' root view := by
  have few : v < 2 ^ 26 := by unfold userEnd at below; omega
  have invalid : (view.put page .held content).entry t v % 2 ≠ pteV := by
    rw [View.put_entry, zero]
    decide
  obtain ⟨memory₁, models₁, failed | ⟨table, mapped, located⟩⟩ := models.mappages page perm isRoot few invalid
  · obtain ⟨memory', freed, models'⟩ := models₁.kfree View.put_data_self Use.held_plain
    rw [View.drop_put, View.drop_self unused] at models'
    exact ⟨memory', .inr ⟨memory₁, failed, freed, models'⟩⟩
  · have models' :=
      models₁.map located below invalid View.put_data_self (child_eq_some.mpr ⟨pte_valid small, pte_pa small⟩)
      (pte_flags small ▸ proper)
    rw [View.put_put] at models'
    exact ⟨_, .inl ⟨mapped, models'⟩⟩

/-- The entry behind a range is free to be set, and no page is mapped there. -/
theorem behind (models : Models machine memory root view) (extended : Extended base view t first n perm contents)
    (mapped : ∀ v, v < first → ∃ page content, base.data page = some (.user t v, content))
    (zero : ∀ v, first ≤ v → v < userEnd → base.entry t v = 0) {next : Nat} (next_eq : next = first + n) :
    next < userEnd ∧ view.entry t next = 0 ∧ ∀ other content, view.data other ≠ some (.user t next, content) := by
  subst next_eq
  have few : first + n ≤ 2 ^ 15 := by
    refine models.bounded (t := t) fun v less => ?_
    by_cases inner : v < first
    · obtain ⟨page, content, here⟩ := mapped v inner
      exact ⟨page, content, extended.data_base here⟩
    · obtain ⟨page, here, -⟩ := extended.mapped v (Nat.le_of_not_lt inner) less
      exact ⟨page, contents v, here⟩
  have below : first + n < userEnd := by unfold userEnd; omega
  have nothing : view.entry t (first + n) = 0 := by
    rw [extended.entry_base (by omega)]
    exact zero (first + n) (Nat.le_add_right first n) below
  refine ⟨below, nothing, fun other content here => ?_⟩
  have leads := (models.user_iff below).mpr ⟨content, here⟩
  rw [nothing, child_zero] at leads
  cases leads

/-- When `uvmalloc` fails it takes the new pages away again. -/
theorem uvmalloc_undo (models : Models machine memory root view) (isRoot : root t = some pagetable)
    (extended : Extended base view t first n perm contents) :
    ∃ memory', ((Vm.uvmdealloc machine pagetable ((first + n) * pgSize) (first * pgSize) memory).map
      fun result => (0, result.2)) =
      some (0, memory') ∧ Models machine memory' root base := by
  have mapped : ∀ v, pages (first * pgSize) ≤ v → v < pages ((first + n) * pgSize) →
      ∃ page content, view.data page = some (.user t v, content) := by
    intro v behind inner
    rw [pages_mul] at behind inner
    obtain ⟨page, here, -⟩ := extended.mapped v behind inner
    exact ⟨page, contents v, here⟩
  obtain ⟨memory', deallocated, models'⟩ := models.uvmdealloc ((first + n) * pgSize) (first * pgSize) isRoot mapped
  rw [pages_mul, pages_mul, Nat.add_sub_cancel_left, extended.rest] at models'
  refine ⟨memory', ?_, models'⟩
  rw [deallocated]
  rfl

/-- The loop of `uvmalloc` adds all pages, or the view is the same as before. -/
theorem uvmallocLoop {newsz xperm rounds : Nat} (models : Models machine memory root view)
    (isRoot : root t = some pagetable)
    (extended : Extended base view t first n (fun _ => pteR ||| pteU ||| xperm) fun _ _ => 0)
    (small : pteR ||| pteU ||| xperm < 1024) (proper : pteR ||| pteU ||| xperm ||| pteV ≠ pteV)
    (mapped : ∀ v, v < first → ∃ page content, base.data page = some (.user t v, content))
    (zero : ∀ v, first ≤ v → v < userEnd → base.entry t v = 0) (part : n ≤ pages newsz - first)
    (enough : pages newsz - first < n + rounds) :
    ∃ memory', (Vm.uvmallocLoop machine pagetable (first * pgSize) newsz xperm rounds
      ((first + n) * pgSize) memory =
        some (0, memory') ∧ Models machine memory' root base) ∨
      (Vm.uvmallocLoop machine pagetable (first * pgSize) newsz xperm rounds ((first + n) * pgSize) memory =
        some (newsz, memory') ∧
        ∃ view', Models machine memory' root view' ∧
          Extended base view' t first (pages newsz - first) (fun _ => pteR ||| pteU ||| xperm) fun _ _ => 0) := by
  induction rounds generalizing n memory view with
  | zero => omega
  | succ rounds inductionHypothesis =>
      rw [Vm.uvmallocLoop]
      by_cases more : first + n < pages newsz
      · rw [if_pos (mul_lt_iff.mpr more)]
        obtain ⟨below, nothing, alone⟩ := models.behind extended mapped zero rfl
        cases taken : Vm.kalloc memory with
        | none =>
            obtain ⟨memory', undone, models'⟩ := models.uvmalloc_undo isRoot extended
            exact ⟨memory', .inl ⟨undone, models'⟩⟩
        | some result =>
            obtain ⟨mem, memory₁⟩ := result
            obtain ⟨unused, models₁⟩ := models.kalloc taken
            have models₂ : Models machine (memory₁.fill mem 0) root (view.put mem .held fun _ => 0) := by
              rw [← View.put_put]
              exact models₁.write View.put_data_self fun _ => 0
            obtain ⟨memory₃, ⟨placed, models₃⟩ | ⟨memory₄, failed, freed, models₃⟩⟩ :=
              models₂.mapUser isRoot unused below nothing small proper
            · have longer := extended.one_more rfl unused alone nothing
              obtain ⟨memory', result⟩ := inductionHypothesis models₃ longer (by omega) (by omega)
              refine ⟨memory', ?_⟩
              rw [← Nat.add_assoc, Nat.succ_mul] at result
              simp only [placed, Option.bind_eq_bind, Option.bind_some, if_true]
              exact result
            · obtain ⟨memory', undone, models'⟩ := models₃.uvmalloc_undo isRoot extended
              refine ⟨memory', .inl ⟨?_, models'⟩⟩
              simp only [failed, freed, Option.bind_eq_bind, Option.bind_some, Bool.false_eq_true, if_false]
              exact undone
      · rw [if_neg fun less => more (mul_lt_iff.mp less)]
        have all : n = pages newsz - first := by omega
        exact ⟨memory, .inr ⟨rfl, view, models, all ▸ extended⟩⟩

/-- `uvmalloc` adds all pages for the new size, or the view is the same as before. -/
theorem uvmalloc {oldsz newsz : Nat} (models : Models machine memory root base) (xperm : Nat)
    (isRoot : root t = some pagetable)
    (grows : oldsz ≤ newsz) (small : pteR ||| pteU ||| xperm < 1024)
    (proper : pteR ||| pteU ||| xperm ||| pteV ≠ pteV)
    (mapped : ∀ v, v < pages oldsz → ∃ page content, base.data page = some (.user t v, content))
    (zero : ∀ v, pages oldsz ≤ v → v < userEnd → base.entry t v = 0) :
    ∃ memory', (Vm.uvmalloc machine pagetable oldsz newsz xperm memory = some (0, memory') ∧
      Models machine memory' root base) ∨
      (Vm.uvmalloc machine pagetable oldsz newsz xperm memory = some (newsz, memory') ∧
        ∃ view', Models machine memory' root view' ∧
          Extended base view' t (pages oldsz) (pages newsz - pages oldsz) (fun _ =>
            pteR ||| pteU ||| xperm) fun _ _ => 0) := by
  have enough : pages newsz - pages oldsz < 0 + (newsz / pgSize + 2) := by
    unfold pages pgSize
    omega
  have result := models.uvmallocLoop isRoot Extended.none small proper mapped zero (Nat.zero_le _) enough
  rw [Vm.uvmalloc, if_neg (Nat.not_lt.mpr grows), pgRoundUp_eq]
  exact result

omit [DecidableEq T] in
theorem content_eq {role : Role T} (models : Models machine memory root view)
    (here : view.data page = some (role, content)) :
    memory.words page = content := by
  obtain ⟨use, sound, rfl⟩ := models
  exact (View.of_data.mp here).2

/-- When `uvmcopy` fails it takes the new pages away again. -/
theorem uvmcopy_undo (models : Models machine memory root view) (isRoot : root t = some pagetable)
    (extended : Extended base view t 0 n perm contents) :
    ∃ memory', ((Vm.uvmunmap machine pagetable 0 n true memory).map fun memory => (false, memory)) =
      some (false, memory') ∧ Models machine memory' root base := by
  have mapped : ∀ v, 0 ≤ v → v < 0 + n → ∃ page content, view.data page = some (.user t v, content) := by
    intro v behind inner
    obtain ⟨page, here, -⟩ := extended.mapped v behind inner
    exact ⟨page, contents v, here⟩
  obtain ⟨memory', unmapped, models'⟩ := models.uvmunmap isRoot mapped
  rw [Nat.zero_mul] at unmapped
  rw [extended.rest] at models'
  refine ⟨memory', ?_, models'⟩
  rw [unmapped]
  rfl

/-- The loop of `uvmcopy` copies all pages, or the view is the same as before. -/
theorem uvmcopyLoop {s : T} {old new sz rounds : Nat} (models : Models machine memory root view)
    (isOld : root s = some old)
    (isNew : root t = some new) (different : s ≠ t)
    (extended : Extended base view t 0 n (fun v => pteFlags (base.entry s v)) contents)
    (source : ∀ v, v < pages sz → ∃ page, base.data page = some (.user s v, contents v))
    (zero : ∀ v, 0 ≤ v → v < userEnd → base.entry t v = 0) (part : n ≤ pages sz) (enough : pages sz < n + rounds) :
    ∃ memory', (Vm.uvmcopyLoop machine old new sz rounds (n * pgSize) memory = some (false, memory') ∧
        Models machine memory' root base) ∨
      (Vm.uvmcopyLoop machine old new sz rounds (n * pgSize) memory = some (true, memory') ∧
        ∃ view', Models machine memory' root view' ∧
          Extended base view' t 0 (pages sz) (fun v => pteFlags (base.entry s v)) contents) := by
  induction rounds generalizing n memory view with
  | zero => omega
  | succ rounds inductionHypothesis =>
      rw [Vm.uvmcopyLoop]
      by_cases more : n < pages sz
      · obtain ⟨page, here⟩ := source n more
        have next_eq := (Nat.zero_add n).symm
        obtain ⟨below, nothing, alone⟩ :=
          models.behind extended (fun v inner => absurd inner (Nat.not_lt_zero v)) zero next_eq
        have few : n < 2 ^ 26 := by unfold userEnd at below; omega
        have here' := extended.data_base here
        have entry_eq : view.entry s n = base.entry s n := extended.entry_base fun both => different both.1
        obtain ⟨valid, pa⟩ := child_eq_some.mp ((models.user_iff below).mpr ⟨contents n, here'⟩)
        obtain ⟨table, located, word_eq⟩ := models.table_of_valid few valid
        have proper := models.proper (wide few) valid
        rw [if_pos (mul_lt_iff.mpr more), walk_lookup isOld ((page_div n).symm ▸ few), page_div, located]
        simp only [Option.bind_eq_bind, Option.bind_some, Option.map_some, word_eq, ne_eq, valid,
          not_true_eq_false, if_false, pa]
        cases taken : Vm.kalloc memory with
        | none =>
            obtain ⟨memory', undone, models'⟩ := models.uvmcopy_undo isNew extended
            exact ⟨memory', .inl ⟨undone, models'⟩⟩
        | some result =>
            obtain ⟨mem, memory₁⟩ := result
            obtain ⟨unused, models₁⟩ := models.kalloc taken
            have apart : page ≠ mem := by
              rintro rfl
              cases unused.symm.trans here'
            have content_eq : memory₁.words page = contents n :=
              models₁.content_eq ((View.put_data_of_ne apart).trans here')
            have models₂ : Models machine (memory₁.movePage mem page) root (view.put mem .held (contents n)) := by
              rw [← View.put_put, ← content_eq]
              exact models₁.write View.put_data_self (memory₁.words page)
            have small : pteFlags (view.entry s n) < 1024 := Nat.mod_lt _ (by decide)
            have flags : pteFlags (view.entry s n) ||| pteV ≠ pteV := by
              rw [or_pteV_of_valid (pteFlags_valid valid)]
              exact proper
            obtain ⟨memory₃, ⟨placed, models₃⟩ | ⟨memory₄, failed, freed, models₃⟩⟩ :=
              models₂.mapUser isNew unused below nothing small flags
            · rw [entry_eq] at models₃
              have longer := extended.one_more next_eq unused alone nothing
              obtain ⟨memory', result⟩ := inductionHypothesis models₃ longer (by omega) (by omega)
              refine ⟨memory', ?_⟩
              rw [Nat.succ_mul] at result
              simp only [placed, Option.bind_some, if_true]
              exact result
            · obtain ⟨memory', undone, models'⟩ := models₃.uvmcopy_undo isNew extended
              refine ⟨memory', .inl ⟨?_, models'⟩⟩
              simp only [failed, freed, Option.bind_some, Bool.false_eq_true, if_false]
              exact undone
      · rw [if_neg fun less => more (mul_lt_iff.mp less)]
        have all : n = pages sz := by omega
        exact ⟨memory, .inr ⟨rfl, view, models, all ▸ extended⟩⟩

/-- `uvmcopy` copies all pages, or the view is the same as before. -/
theorem uvmcopy {s : T} {old new sz : Nat} (models : Models machine memory root base) (isOld : root s = some old)
    (isNew : root t = some new) (different : s ≠ t)
    (source : ∀ v, v < pages sz → ∃ page, base.data page = some (.user s v, contents v))
    (zero : ∀ v, v < userEnd → base.entry t v = 0) :
    ∃ memory', (Vm.uvmcopy machine old new sz memory = some (false, memory') ∧ Models machine memory' root base) ∨
      (Vm.uvmcopy machine old new sz memory = some (true, memory') ∧ ∃ view', Models machine memory' root view' ∧
        Extended base view' t 0 (pages sz) (fun v => pteFlags (base.entry s v)) contents) := by
  have enough : pages sz < 0 + (sz / pgSize + 2) := by
    unfold pages pgSize
    omega
  have result :=
    models.uvmcopyLoop isOld isNew different Extended.none source (fun v _ => zero v) (Nat.zero_le _) enough
  rw [Nat.zero_mul] at result
  exact result

end Models

end

end OSLabs.Xv6.Vm
