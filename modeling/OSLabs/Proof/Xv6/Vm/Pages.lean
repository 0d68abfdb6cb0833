import OSLabs.Proof.Xv6.Vm.View

namespace OSLabs.Xv6.Vm

open Radix

/-- The memory is in order, and it shows the view. -/
def Models {T : Type} (machine : Machine) (memory : Memory) (root : T → Option Nat) (view : View T) : Prop :=
  ∃ use, Sound machine memory root use ∧ View.of memory.words root use = view

/-- The page tables say nothing about a page with this use. -/
def Use.Plain {T : Type} (use : Use T) : Prop :=
  (∀ t path, use ≠ .table t path) ∧ (∀ t v, use ≠ .role (.user t v)) ∧ use ≠ .role .outside

theorem Use.free_plain {T : Type} : (Use.free : Use T).Plain := ⟨nofun, nofun, nofun⟩

theorem Use.held_plain {T : Type} : (Use.role .held : Use T).Plain := ⟨nofun, nofun, nofun⟩

theorem Use.trapframe_plain {T : Type} {t : T} : (Use.role (.trapframe t)).Plain := ⟨nofun, nofun, nofun⟩

section
variable {T : Type} {machine : Machine} {memory memory' : Memory} {root : T → Option Nat}
  {use use' : Nat → Use T} {view : View T}
  {page table v pte word : Nat} {t : T} {role role' : Role T} {new : Use T} {content content' : Fin 512 → Nat}
  {i : Fin 512} {path : List (Fin 512)}

/-- The free pages are the same when a page that is not free gets another such use. -/
theorem free_update (here : use page ≠ .free) (there : new ≠ .free) (other : Nat) :
    Function.update use page new other = .free ↔ use other = .free := by
  by_cases equal : other = page
  · rw [equal, Function.update_self]
    exact iff_of_false there here
  · rw [Function.update_of_ne equal]

namespace Sound

/-- The list of the free pages is the same when other pages are written. -/
theorem free_congr (sound : Sound machine memory root use) (head : memory'.freelist = memory.freelist)
    (same : ∀ page, use page = .free → memory'.words page = memory.words page)
    (free_iff : ∀ page, use' page = .free ↔ use page = .free) :
    ∃ free, FreeList memory' free ∧ ∀ page, page ∈ free ↔ use' page = .free := by
  obtain ⟨free, list, mem_iff⟩ := sound.free
  refine ⟨free, list.congr head fun page member => same page ((mem_iff page).mp member), fun page => ?_⟩
  rw [mem_iff, free_iff]

/-- A page that is not free may be written. -/
theorem free_write (sound : Sound machine memory root use) (here : use page ≠ .free) (content : Fin 512 → Nat)
    (free_iff : ∀ page, use' page = .free ↔ use page = .free) :
    ∃ free, FreeList { memory with words := Function.update memory.words page content } free ∧
      ∀ page, page ∈ free ↔ use' page = .free := by
  refine sound.free_congr (by rfl) (fun other isFree => Function.update_of_ne ?_ ..) free_iff
  rintro rfl
  exact here isFree

/-- A page table may be written. -/
theorem free_setWord (sound : Sound machine memory root use) (isTable : use table = .table t path)
    (free_iff : ∀ page, use' page = .free ↔ use page = .free) :
    ∃ free, FreeList (memory.setWord table i word) free ∧ ∀ page, page ∈ free ↔ use' page = .free := by
  refine sound.free_write ?_ _ free_iff
  rw [isTable]
  rintro ⟨⟩

/-- The pages outside of the memory are the same when a page inside gets another use. -/
theorem outside_update (sound : Sound machine memory root use) (here : use page ≠ .role .outside)
    (there : new ≠ .role .outside)
    (other : Nat) : Function.update use page new other = .role .outside ↔
      ¬ (machine.bottom ≤ other ∧ other < machine.top) := by
  rw [← sound.outside]
  by_cases equal : other = page
  · rw [equal, Function.update_self]
    exact iff_of_false there here
  · rw [Function.update_of_ne equal]

/-- A page with a plain use is written and gets another plain use. -/
theorem update (sound : Sound machine memory root use) (plain : (use page).Plain) (plain' : new.Plain)
    (same : ∀ other, other ≠ page → memory'.words other = memory.words other)
    (list : ∃ free, FreeList memory' free ∧ ∀ other, other ∈ free ↔ Function.update use page new other = .free) :
    Sound machine memory' root (Function.update use page new) := by
  have others : ∀ {wanted : Use T}, ¬ wanted.Plain → ∀ other, Function.update use page new other = wanted ↔
      use other = wanted := by
    intro wanted special other
    by_cases equal : other = page
    · rw [equal, Function.update_self]
      refine iff_of_false ?_ ?_
      · rintro rfl
        exact special plain'
      · rintro rfl
        exact special plain
    · rw [Function.update_of_ne equal]
  refine ⟨sound.toTables.congr (fun other t path isTable => same other ?_) (fun other t path => ?_)
    fun other t v => ?_, list,
    fun other => ?_⟩
  · rintro rfl
    exact plain.1 t path isTable
  · exact others (fun plain => plain.1 t path rfl) other
  · exact others (fun plain => plain.2.1 t v rfl) other
  · exact (others (fun plain => plain.2.2 rfl) other).trans (sound.outside other)

theorem entry_update (sound : Sound machine memory root use) (plain : ∀ t path, use page ≠ .table t path)
    (same : ∀ other, other ≠ page → memory'.words other = memory.words other) (t : T) (v : Nat) :
    entry memory'.words root t v = entry memory.words root t v := by
  refine sound.toTables.entry_same (fun other t path isTable => same other ?_) t v
  rintro rfl
  exact plain t path isTable

/-- The page that `kalloc` gives was free. -/
theorem kalloc (sound : Sound machine memory root use) (here : Vm.kalloc memory = some (page, memory')) :
    use page = .free ∧ memory'.words = Function.update memory.words page (fun _ => 0x0505050505050505) ∧
      Sound machine memory' root (Function.update use page (.role .held)) ∧
      View.of memory'.words root (Function.update use page (.role .held)) =
        (View.of memory.words root use).put page .held fun _ => 0x0505050505050505 := by
  obtain ⟨free, list, mem_iff⟩ := sound.free
  obtain ⟨rest, rfl, list', words_eq⟩ := list.kalloc here
  have isFree : use page = .free := (mem_iff page).mp List.mem_cons_self
  have fresh : page ∉ rest := (List.nodup_cons.mp list.nodup).1
  have same : ∀ other, other ≠ page → memory'.words other = memory.words other := by
    intro other different
    rw [words_eq, Function.update_of_ne different]
  have content : memory'.words page = fun _ => 0x0505050505050505 := by rw [words_eq, Function.update_self]
  refine ⟨isFree, words_eq, sound.update (isFree ▸ Use.free_plain) Use.held_plain same ⟨rest, list',
    fun other => ?_⟩,
    View.of_put (fun t v _ => sound.entry_update (by rw [isFree]; rintro t path ⟨⟩) same t v)
      (Function.update_self ..)
      content (fun other role different => ?_) fun other role different _ => same other different⟩
  · by_cases equal : other = page
    · rw [equal, Function.update_self]
      exact iff_of_false fresh (by rintro ⟨⟩)
    · rw [Function.update_of_ne equal, ← mem_iff, List.mem_cons, or_iff_right equal]
  · rw [Function.update_of_ne different]

/-- A page that is in use is written. -/
theorem write (sound : Sound machine memory root use) (here : use page = .role role) (content : Fin 512 → Nat) :
    Sound machine { memory with words := Function.update memory.words page content } root use ∧
      View.of (Function.update memory.words page content) root use =
        (View.of memory.words root use).put page role content := by
  have same : ∀ other t path, use other = .table t path →
      Function.update memory.words page content other = memory.words other := by
    intro other t path isTable
    refine Function.update_of_ne ?_ ..
    rintro rfl
    cases here.symm.trans isTable
  have used : use page ≠ .free := by
    rw [here]
    rintro ⟨⟩
  exact ⟨⟨sound.toTables.congr same (fun _ _ _ => Iff.rfl) fun _ _ _ => Iff.rfl,
    sound.free_write used content fun _ => Iff.rfl,
      sound.outside⟩,
    View.of_put (fun t v _ => sound.toTables.entry_same same t v) here (Function.update_self ..) (fun _ _ _ =>
      Iff.rfl)
      fun other role different _ => Function.update_of_ne different ..⟩

end Sound

namespace Models

/-- The page that `kalloc` gives was not in use. -/
theorem kalloc (models : Models machine memory root view) (here : Vm.kalloc memory = some (page, memory')) :
    view.data page = none ∧ Models machine memory' root (view.put page .held fun _ => 0x0505050505050505) := by
  obtain ⟨use, sound, rfl⟩ := models
  obtain ⟨free, -, held⟩ := sound.kalloc here
  refine ⟨View.of_data_none.mpr fun role there => ?_, _, held⟩
  cases free.symm.trans there

/-- Only pages inside of the memory are in use, apart from those that are not. -/
theorem inside (models : Models machine memory root view) (here : view.data page = some (role, content))
    (inner : role ≠ .outside) :
    machine.bottom ≤ page ∧ page < machine.top := by
  obtain ⟨use, sound, rfl⟩ := models
  by_contra outer
  have same := (View.of_data.mp here).1.symm.trans ((sound.outside page).mpr outer)
  exact inner (Use.role.inj same)

/-- A page that kernel code holds may be freed. -/
theorem kfree (models : Models machine memory root view) (here : view.data page = some (role, content))
    (plain : (Use.role role).Plain) :
    ∃ memory', Vm.kfree machine page memory = some memory' ∧ Models machine memory' root (view.drop page) := by
  have inner := models.inside here fun same => plain.2.2 (congrArg Use.role same)
  obtain ⟨use, sound, rfl⟩ := models
  obtain ⟨isRole, -⟩ := View.of_data.mp here
  obtain ⟨free, list, mem_iff⟩ := sound.free
  have fresh : page ∉ free := fun member => by cases isRole.symm.trans ((mem_iff page).mp member)
  obtain ⟨memory', freed⟩ := kfree_some memory inner
  refine ⟨memory', freed, Function.update use page .free, sound.update (isRole ▸ plain) Use.free_plain
    (fun other different => kfree_words freed different) ⟨page :: free, list.kfree freed fresh, fun other =>
      ?_⟩, ?_⟩
  · by_cases equal : other = page
    · rw [equal, Function.update_self]
      exact iff_of_true List.mem_cons_self rfl
    · rw [Function.update_of_ne equal, ← mem_iff]
      exact List.mem_cons.trans (or_iff_right equal)
  · refine View.of_drop (fun t v _ => ?_) (fun role there => ?_) (fun other role different => ?_)
      fun other role different _ => kfree_words freed different
    · exact sound.entry_update (isRole ▸ plain.1) (fun other different => kfree_words freed different) t v
    · rw [Function.update_self] at there
      cases there
    · rw [Function.update_of_ne different]

/-- A page that kernel code holds is written, and it is kept for something else. -/
theorem keep (models : Models machine memory root view) (here : view.data page = some (role, content))
    (plain : (Use.role role).Plain) (plain' : (Use.role role').Plain) (new : Fin 512 → Nat) :
    Models machine { memory with words := Function.update memory.words page new } root
      (view.put page role' new) := by
  obtain ⟨use, sound, rfl⟩ := models
  obtain ⟨isRole, -⟩ := View.of_data.mp here
  have used : use page ≠ .free := by
    rw [isRole]
    rintro ⟨⟩
  refine ⟨Function.update use page (.role role'),
    sound.update (isRole ▸ plain) plain' (fun other different => Function.update_of_ne different ..)
      (sound.free_write used new (free_update used (by rintro ⟨⟩))), ?_⟩
  · refine View.of_put (fun t v _ => ?_) (Function.update_self ..) (Function.update_self ..)
      (fun other role different => ?_)
      fun other role different _ => Function.update_of_ne different ..
    · exact sound.entry_update (isRole ▸ plain.1) (fun other different => Function.update_of_ne different ..) t v
    · rw [Function.update_of_ne different]

/-- A page that is in use is written. -/
theorem write (models : Models machine memory root view) (here : view.data page = some (role, content))
    (new : Fin 512 → Nat) :
    Models machine { memory with words := Function.update memory.words page new } root
      (view.put page role new) := by
  obtain ⟨use, sound, rfl⟩ := models
  exact ⟨use, sound.write (View.of_data.mp here).1 new⟩

end Models

end

end OSLabs.Xv6.Vm
