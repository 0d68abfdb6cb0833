import OSLabs.Proof.Xv6.Vm.Entries

namespace OSLabs.Xv6.Vm

open Radix

/-- The indices that the loop of `walk` uses. -/
def steps (va : Nat) : Nat → List (Fin 512)
  | 0 => []
  | level + 1 => px (level + 1) va :: steps va level

theorem steps_length (va level : Nat) : (steps va level).length = level := by
  induction level with
  | zero => rfl
  | succ level inductionHypothesis => rw [steps, List.length_cons, inductionHypothesis]

theorem steps_two (va : Nat) : steps va 2 = way (va / pgSize) := by
  rw [steps, steps, steps, px_eq, px_eq, pow_one, way]

theorem px_zero (va : Nat) : px 0 va = slot (va / pgSize) := by
  rw [px_eq, pow_zero, Nat.div_one, slot]

section
variable {T : Type} {machine : Machine} {memory memory' : Memory} {words : Nat → Fin 512 → Nat}
  {root : T → Option Nat}
  {use : Nat → Use T} {view : View T} {page table pagetable fresh va v level : Nat} {t : T}
  {before : List (Fin 512)} {i : Fin 512}

theorem walkLoop_lookup : walkLoop va false level pagetable memory =
    (find child memory.words pagetable (steps va level), memory) := by
  induction level generalizing pagetable with
  | zero => rfl
  | succ level inductionHypothesis =>
      rw [walkLoop, steps, find, child]
      split
      · exact inductionHypothesis
      · rfl

/-- Without allocation `walk` finds the entry when its page table exists. -/
theorem walk_lookup (isRoot : root t = some pagetable) (few : va / pgSize < 2 ^ 26) :
    walk pagetable va false memory =
      some ((locate child memory.words root t (way (va / pgSize))).map fun table =>
        (table, slot (va / pgSize)), memory) := by
  have low : ¬ va ≥ maxVa := by unfold maxVa; unfold pgSize at few; omega
  rw [walk, if_neg low, walkLoop_lookup, px_zero, steps_two, locate, isRoot, Option.bind_some]

/-- A page that kernel code holds becomes a page table. -/
theorem Sound.attach [DecidableEq T] (sound : Sound machine memory root use)
    (isTable : use table = .table t before)
    (inner : before.length < 2) (invalid : memory.words table i % 2 ≠ pteV) (held : use fresh = .role .held)
    (zero : ∀ j, memory.words fresh j = 0) :
    Models machine (memory.setWord table i (pa2pte fresh ||| pteV)) root
      ((View.of memory.words root use).drop fresh) ∧
      locate child (memory.setWord table i (pa2pte fresh ||| pteV)).words root t (before ++ [i]) = some fresh := by
  have spare : ∀ t path, use fresh ≠ .table t path := by
    intro t path isTable
    cases held.symm.trans isTable
  have different : fresh ≠ table := by
    rintro rfl
    exact spare t before isTable
  have used : use fresh ≠ .free := by
    rw [held]
    exact (by rintro ⟨⟩)
  have inside : use fresh ≠ .role .outside := by
    rw [held]
    exact (by rintro ⟨⟩)
  refine ⟨⟨Function.update use fresh (.table t (before ++ [i])),
    ⟨?_, sound.free_setWord isTable (free_update used (by rintro ⟨⟩)),
    sound.outside_update inside (by rintro ⟨⟩)⟩, ?_⟩, ?_⟩
  · refine sound.toTables.attach isTable inner invalid spare zero fun t v isUser => ?_
    cases held.symm.trans isUser
  · refine View.of_drop (fun t' v _ => sound.toTables.entry_attach isTable inner invalid spare zero)
      (fun role there => ?_)
      (fun other role different => ?_) fun other role different isRole => ?_
    · rw [Function.update_self] at there
      cases there
    · rw [Function.update_of_ne different]
    · refine store_of_ne ?_
      rintro rfl
      cases isTable.symm.trans isRole
  · have short : (before ++ [i]).length ≤ 2 := by
      rw [List.length_append, List.length_singleton]
      exact inner
    exact (sound.toTables.locate_attach isTable inner invalid spare zero short).trans (if_pos ⟨rfl, rfl⟩)

/-- A new page table is filled with zeros. -/
theorem Models.newTable [DecidableEq T] (models : Models machine memory root view)
    (here : locate child memory.words root t before = some table) (inner : before.length < 2)
    (invalid : memory.words table i % 2 ≠ pteV) (fresh_eq : Vm.kalloc memory = some (fresh, memory')) :
    Models machine ((memory'.fill fresh 0).setWord table i (pa2pte fresh ||| pteV)) root view ∧
      locate child ((memory'.fill fresh 0).setWord table i (pa2pte fresh ||| pteV)).words root t (before ++
        [i]) = some fresh := by
  have unused := (models.kalloc fresh_eq).1
  obtain ⟨use, sound, rfl⟩ := models
  have isTable := sound.toTables.use_of_locate (Nat.le_of_lt inner) here
  obtain ⟨free, words_eq, sound', view_eq⟩ := sound.kalloc fresh_eq
  have different : table ≠ fresh := by
    rintro rfl
    cases isTable.symm.trans free
  obtain ⟨filled, filled_eq⟩ := sound'.write (Function.update_self fresh (.role .held) use) fun _ => 0
  have fill_eq : (memory'.fill fresh 0).words = Function.update memory.words fresh fun _ => 0 := by
    rw [Memory.fill, words_eq, Function.update_idem]
  have tableHere : Function.update use fresh (.role .held) table = .table t before := by
    rw [Function.update_of_ne different, isTable]
  have invalid' : (memory'.fill fresh 0).words table i % 2 ≠ pteV := by
    rw [fill_eq, Function.update_of_ne different]
    exact invalid
  have zero : ∀ j, (memory'.fill fresh 0).words fresh j = 0 := by
    rw [fill_eq, Function.update_self]
    exact fun _ => rfl
  obtain ⟨attached, located⟩ := filled.attach tableHere inner invalid' (Function.update_self ..) zero
  rw [filled_eq, View.drop_put, view_eq, View.drop_put, View.drop_self unused] at attached
  exact ⟨attached, located⟩

theorem child_valid (valid : memory.words table i % 2 = pteV) :
    child (memory.words table i) = some (pte2pa (memory.words table i)) :=
  if_pos valid

/-- The loop of `walk` reaches the last page table, or it runs out of pages. -/
theorem Models.walkLoop [DecidableEq T] (models : Models machine memory root view)
    (split : before ++ steps va level = way v)
    (here : locate child memory.words root t before = some table) :
    ∃ memory', Models machine memory' root view ∧
      (Vm.walkLoop va true level table memory = (none, memory') ∨
        ∃ last, Vm.walkLoop va true level table memory = (some last, memory') ∧
          locate child memory'.words root t (way v) = some last) := by
  induction level generalizing before table memory with
  | zero =>
      rw [steps, List.append_nil] at split
      exact ⟨memory, models, .inr ⟨table, rfl, split ▸ here⟩⟩
  | succ level inductionHypothesis =>
      have split' : (before ++ [px (level + 1) va]) ++ steps va level = way v := by
        rw [List.append_assoc]
        exact split
      rw [Vm.walkLoop]
      by_cases valid : memory.words table (px (level + 1) va) % 2 = pteV
      · rw [if_pos valid]
        refine inductionHypothesis models split' ?_
        rw [locate_append, here, Option.bind_some, find, child_valid valid, Option.bind_some, find]
      · rw [if_neg valid, if_pos rfl]
        cases fresh_eq : Vm.kalloc memory with
        | none => exact ⟨memory, models, .inl rfl⟩
        | some result =>
            have length_eq := congrArg List.length split
            rw [List.length_append, steps_length] at length_eq
            have inner : before.length < 2 := by
              change _ = 2 at length_eq
              omega
            obtain ⟨models', here'⟩ := models.newTable here inner valid fresh_eq
            exact inductionHypothesis models' split' here'

/-- With allocation `walk` finds the entry, or it runs out of pages. The view is the same. -/
theorem Models.walk [DecidableEq T] (models : Models machine memory root view) (isRoot : root t = some pagetable)
    (few : va / pgSize < 2 ^ 26) :
    ∃ memory', Models machine memory' root view ∧
      (Vm.walk pagetable va true memory = some (none, memory') ∨
        ∃ last, Vm.walk pagetable va true memory = some (some (last, slot (va / pgSize)), memory') ∧
          locate child memory'.words root t (way (va / pgSize)) = some last) := by
  have low : ¬ va ≥ maxVa := by unfold maxVa; unfold pgSize at few; omega
  have split : [] ++ steps va 2 = way (va / pgSize) := steps_two va
  have first : locate child memory.words root t [] = some pagetable := by
    rw [locate, isRoot, Option.bind_some, find]
  obtain ⟨memory', models', failed | ⟨last, found, located⟩⟩ := models.walkLoop split first
  · refine ⟨memory', models', .inl ?_⟩
    rw [Vm.walk, if_neg low, failed]
    rfl
  · refine ⟨memory', models', .inr ⟨last, ?_, located⟩⟩
    rw [Vm.walk, if_neg low, found, px_zero]
    rfl

end

end OSLabs.Xv6.Vm
