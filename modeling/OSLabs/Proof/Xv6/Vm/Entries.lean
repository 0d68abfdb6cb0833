import OSLabs.Proof.Xv6.Vm.Pages

namespace OSLabs.Xv6.Vm

open Radix

section
variable {T : Type} {machine : Machine} {memory : Memory} {words : Nat → Fin 512 → Nat}
  {root : T → Option Nat} {use use' : Nat → Use T}
  {view : View T} {page table v pte : Nat} {t : T} {role role' : Role T} {content : Fin 512 → Nat}

/-- A store in a page table sets one entry. -/
theorem View.of_assign [DecidableEq T] (tables : Tables words root use)
    (isTable : use table = .table t (way v)) (few : v < 2 ^ 27)
    (unused : ∀ role, use' table ≠ .role role) :
    View.of (store words table (slot v) pte) root use' = (View.of words root use').assign t v pte := by
  refine View.of_eq (fun page role content => ?_) fun t' v' => ?_
  · rw [View.assign_data, View.of_data]
    refine and_congr_right fun here => ?_
    rw [store_of_ne]
    rintro rfl
    exact unused role here
  · rw [View.assign_entry]
    by_cases few' : v' < 2 ^ 27
    · rw [if_pos few', tables.entry_store isTable few few', View.of_entry few']
    · rw [if_neg few', if_neg]
      · exact (if_neg few').symm
      · rintro ⟨-, rfl⟩
        exact few' few

namespace Models

theorem entry_at (models : Models machine memory root view) (few : v < 2 ^ 27)
    (here : locate child memory.words root t (way v) = some table) :
    memory.words table (slot v) = view.entry t v := by
  obtain ⟨use, sound, rfl⟩ := models
  rw [View.of_entry few, entry_eq here]

theorem entry_nowhere (models : Models machine memory root view) (few : v < 2 ^ 27)
    (nowhere : locate child memory.words root t (way v) = none) : view.entry t v = 0 := by
  obtain ⟨use, sound, rfl⟩ := models
  rw [View.of_entry few, entry_none nowhere]

/-- A user page is mapped by one entry. -/
theorem user_iff (models : Models machine memory root view) (below : v < userEnd) :
    child (view.entry t v) = some page ↔ ∃ content, view.data page = some (.user t v, content) := by
  obtain ⟨use, sound, rfl⟩ := models
  rw [View.of_entry (by unfold userEnd at below; omega), sound.user t v page below]
  simp only [View.of_data, exists_and_left, exists_eq', and_true]

theorem user_below (models : Models machine memory root view)
    (here : view.data page = some (.user t v, content)) : v < userEnd := by
  obtain ⟨use, sound, rfl⟩ := models
  exact sound.low t v page (View.of_data.mp here).1

/-- A valid entry is no inner one. -/
theorem proper (models : Models machine memory root view) (few : v < 2 ^ 27) (valid : view.entry t v % 2 = pteV) :
    pteFlags (view.entry t v) ≠ pteV := by
  obtain ⟨use, sound, rfl⟩ := models
  rw [View.of_entry few] at valid ⊢
  exact sound.leaf t v few valid

end Models

/-- An entry is stored, and the page for which it is gets another role. -/
theorem Tables.move (tables : Tables words root use) (isTable : use table = .table t (way v)) (few : v < 2 ^ 27)
    (proper : pte % 2 = pteV → pteFlags pte ≠ pteV) (here : use page = .role role)
    (own : ∀ t' v', role = .user t' v' ∨ role' = .user t' v' → t' = t ∧ v' = v)
    (isPage : ∀ other, v < userEnd → (Function.update use page (.role role') other = .role (.user t v) ↔
      child pte = some other))
    (low : ∀ t' v', role' = .user t' v' → v' < userEnd) :
    Tables (store words table (slot v) pte) root (Function.update use page (.role role')) := by
  refine tables.assign isTable few proper (fun other t' path => ?_) (fun other t' v' _ different => ?_) isPage
    fun other t' v' there => ?_
  all_goals by_cases equal : other = page
  · rw [equal, Function.update_self, here]
    exact iff_of_false (by rintro ⟨⟩) (by rintro ⟨⟩)
  · rw [Function.update_of_ne equal]
  · rw [equal, Function.update_self, here, Use.role.injEq, Use.role.injEq]
    exact iff_of_false (fun same => different (own t' v' (.inr same))) fun same =>
      different (own t' v' (.inl same))
  · rw [Function.update_of_ne equal]
  · rw [equal, Function.update_self, Use.role.injEq] at there
    exact low t' v' there
  · rw [Function.update_of_ne equal] at there
    exact tables.low t' v' other there

section
variable [DecidableEq T]

/-- An entry is stored, and one page gets another role. -/
theorem Sound.assign (sound : Sound machine memory root use) (isTable : use table = .table t (way v))
    (few : v < 2 ^ 27)
    (here : use page = .role role) (inner : role ≠ .outside) (inner' : role' ≠ .outside)
    (tables : Tables (store memory.words table (slot v) pte) root (Function.update use page (.role role'))) :
    Models machine (memory.setWord table (slot v) pte) root
      (((View.of memory.words root use).put page role' (memory.words page)).assign t v pte) := by
  have used : use page ≠ .free := by
    rw [here]
    exact (by rintro ⟨⟩)
  have inside : use page ≠ .role .outside := by
    rw [here]
    exact fun same => inner (Use.role.inj same)
  refine ⟨Function.update use page (.role role'),
    ⟨tables, sound.free_setWord isTable (free_update used (by rintro ⟨⟩)),
    sound.outside_update inside fun same => inner' (Use.role.inj same)⟩,
    (View.of_assign sound.toTables isTable few fun role there => ?_).trans ?_⟩
  · have different : table ≠ page := by
      rintro rfl
      cases isTable.symm.trans here
    rw [Function.update_of_ne different] at there
    cases isTable.symm.trans there
  · congr 1
    refine View.of_put (fun _ _ _ => rfl) (Function.update_self ..) rfl (fun other role different =>
      ?_) fun _ _ _ _ => rfl
    rw [Function.update_of_ne different]

namespace Models

variable (models : Models machine memory root view) (here : locate child memory.words root t (way v) = some table)
include models here

/-- The entry of the trampoline or of the trapframe is stored. -/
theorem assign_high (high : userEnd ≤ v) (few : v < 2 ^ 27) (proper : pte % 2 = pteV → pteFlags pte ≠ pteV) :
    Models machine (memory.setWord table (slot v) pte) root (view.assign t v pte) := by
  obtain ⟨use, sound, rfl⟩ := models
  have isTable : use table = .table t (way v) := sound.toTables.use_of_locate (Nat.le_refl 2) here
  refine ⟨use, ⟨?_, sound.free_setWord isTable fun _ => Iff.rfl, sound.outside⟩,
    View.of_assign sound.toTables isTable few fun role there => ?_⟩
  · exact sound.toTables.assign isTable few proper (fun _ _ _ => Iff.rfl) (fun _ _ _ _ _ => Iff.rfl)
      (fun _ below => absurd high (Nat.not_le.mpr below)) fun page t v => sound.low t v page
  · cases isTable.symm.trans there

/-- A page that kernel code holds becomes a user page. -/
theorem map (below : v < userEnd) (invalid : view.entry t v % 2 ≠ pteV)
    (held : view.data page = some (.held, content))
    (leads : child pte = some page) (proper : pteFlags pte ≠ pteV) :
    Models machine (memory.setWord table (slot v) pte) root
      ((view.put page (.user t v) content).assign t v pte) := by
  obtain ⟨use, sound, rfl⟩ := models
  have few : v < 2 ^ 27 := by unfold userEnd at below; omega
  have isTable : use table = .table t (way v) := sound.toTables.use_of_locate (Nat.le_refl 2) here
  obtain ⟨isHeld, rfl⟩ := View.of_data.mp held
  refine sound.assign isTable few isHeld (by rintro ⟨⟩) (by rintro ⟨⟩) ?_
  refine sound.toTables.move isTable few (fun _ => proper) isHeld ?_ (fun other _ => ?_) ?_
  · rintro t' v' (same | same)
    · cases same
    · exact ⟨(Role.user.inj same).1.symm, (Role.user.inj same).2.symm⟩
  · by_cases equal : other = page
    · rw [equal, Function.update_self, leads]
      exact iff_of_true rfl rfl
    · rw [View.of_entry few] at invalid
      rw [Function.update_of_ne equal, ← sound.user t v other below, leads, child, if_neg invalid]
      exact iff_of_false (by rintro ⟨⟩) fun same => equal (Option.some.inj same).symm
  · rintro t' v' ⟨⟩
    exact below

/-- A user page is no longer mapped, and kernel code holds it. -/
theorem unmap (mapped : view.data page = some (.user t v, content)) :
    Models machine (memory.setWord table (slot v) 0) root ((view.put page .held content).assign t v 0) := by
  have below := models.user_below mapped
  obtain ⟨use, sound, rfl⟩ := models
  have few : v < 2 ^ 27 := by unfold userEnd at below; omega
  have isTable : use table = .table t (way v) := sound.toTables.use_of_locate (Nat.le_refl 2) here
  obtain ⟨isUser, rfl⟩ := View.of_data.mp mapped
  have only := (sound.user t v page below).mpr isUser
  refine sound.assign isTable few isUser (by rintro ⟨⟩) (by rintro ⟨⟩) ?_
  refine sound.toTables.move isTable few (by rintro ⟨⟩) isUser ?_ (fun other _ => ?_) ?_
  · rintro t' v' (same | same)
    · exact ⟨(Role.user.inj same).1.symm, (Role.user.inj same).2.symm⟩
    · cases same
  · by_cases equal : other = page
    · rw [equal, Function.update_self]
      exact iff_of_false (by rintro ⟨⟩) (by rintro ⟨⟩)
    · rw [Function.update_of_ne equal, ← sound.user t v other below, only]
      exact iff_of_false (fun same => equal (Option.some.inj same).symm) (by rintro ⟨⟩)
  · rintro t' v' ⟨⟩

end Models

end

end

end OSLabs.Xv6.Vm
