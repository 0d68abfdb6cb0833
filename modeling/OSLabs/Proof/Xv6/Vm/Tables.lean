import OSLabs.Construction.Xv6.Vm
import OSLabs.Proof.Radix.Forest

namespace OSLabs.Xv6.Vm

open Radix

section
variable {page perm : Nat}

theorem or_one_mod_two (perm : Nat) : (perm ||| pteV) % 2 = 1 := by
  rw [Nat.mod_two_eq_one_iff_testBit_zero, Nat.testBit_or]
  exact Bool.or_eq_true_iff.mpr (.inr (by decide))

theorem pte_eq (small : perm < 1024) : pa2pte page ||| perm ||| pteV = page * 1024 + (perm ||| pteV) := by
  have fits : perm ||| pteV < 2 ^ 10 := Nat.or_lt_two_pow small (by decide)
  rw [Nat.or_assoc, pa2pte, ← Nat.shiftLeft_add_eq_or_of_lt fits, Nat.shiftLeft_eq]

theorem pte_valid (small : perm < 1024) : (pa2pte page ||| perm ||| pteV) % 2 = pteV := by
  have odd := or_one_mod_two perm
  rw [pte_eq small]
  unfold pteV at *
  omega

theorem pte_pa (small : perm < 1024) : pte2pa (pa2pte page ||| perm ||| pteV) = page := by
  have fits : perm ||| pteV < 2 ^ 10 := Nat.or_lt_two_pow small (by decide)
  rw [pte_eq small, pte2pa, Nat.shiftRight_eq_div_pow]
  omega

theorem pte_flags (small : perm < 1024) : pteFlags (pa2pte page ||| perm ||| pteV) = perm ||| pteV := by
  have fits : perm ||| pteV < 2 ^ 10 := Nat.or_lt_two_pow small (by decide)
  rw [pte_eq small, pteFlags]
  omega

end

/-- The page to which a valid entry leads. -/
def child (pte : Nat) : Option Nat := if pte % 2 = pteV then some (pte2pa pte) else none

/-- The entry of a table that leads to another one. -/
theorem child_inner (page : Nat) : child (pa2pte page ||| pteV) = some page := by
  have valid := @pte_valid page 0 (by decide)
  have pa := @pte_pa page 0 (by decide)
  rw [Nat.or_zero] at valid pa
  rw [child, if_pos valid, pa]

theorem child_zero : child 0 = none := rfl

/-- The virtual pages below the trapframe. -/
def userEnd : Nat := 2 ^ 26 - 2

theorem wide {v : Nat} (few : v < 2 ^ 26) : v < 2 ^ 27 := by omega

/-- The way to the last table for a virtual page. -/
def way (v : Nat) : List (Fin 512) := [index (v / 512 ^ 2), index (v / 512)]

/-- The index of a virtual page in its last table. -/
def slot (v : Nat) : Fin 512 := index v

theorem px_eq (level va : Nat) : px level va = index (va / pgSize / 512 ^ level) := by
  have split : 2 ^ (12 + 9 * level) = pgSize * 512 ^ level := by
    rw [Nat.pow_add, Nat.pow_mul]
    rfl
  rw [px, Nat.shiftRight_eq_div_pow, split, Nat.div_div_eq_div_mul]

theorem way_slot_injective {v w : Nat} (few : v < 2 ^ 27) (few' : w < 2 ^ 27) (same : way v = way w)
    (same' : slot v = slot w) : v = w := by
  unfold way at same
  unfold slot at same'
  simp only [index, List.cons.injEq, and_true, Fin.ext_iff, Fin.val_ofNat] at same same'
  omega

/-- What a page is for that is neither free nor a page table.
A page that is held is in the hands of kernel code. -/
inductive Role (T : Type) where
  | outside
  | held
  | user (t : T) (v : Nat)
  | trapframe (t : T)

/-- What a page is used for. -/
inductive Use (T : Type) where
  | free
  | table (t : T) (path : List (Fin 512))
  | role (role : Role T)

section
variable {T : Type} {words words' : Nat → Fin 512 → Nat} {root : T → Option Nat} {use use' : Nat → Use T}
  {t t' : T}
  {path before : List (Fin 512)} {page table fresh v v' pte : Nat} {i : Fin 512}

/-- The entry for a virtual page of an address space. -/
def entry (words : Nat → Fin 512 → Nat) (root : T → Option Nat) (t : T) (v : Nat) : Nat :=
  match locate child words root t (way v) with
  | some table => words table (slot v)
  | none => 0

/-- Each page table is reached on one path of one address space, and each user page is mapped once. -/
structure Tables (words : Nat → Fin 512 → Nat) (root : T → Option Nat) (use : Nat → Use T) : Prop where
  table : ∀ t path page, path.length ≤ 2 → (locate child words root t path = some page ↔ use page = .table t path)
  short : ∀ t path page, use page = .table t path → path.length ≤ 2
  user : ∀ t v page, v < userEnd → (child (entry words root t v) = some page ↔ use page = .role (.user t v))
  low : ∀ t v page, use page = .role (.user t v) → v < userEnd
  inner : ∀ t path page i, path.length < 2 → use page = .table t path → words page i % 2 = pteV →
    words page i % 16 / 2 = 0
  leaf : ∀ t v, v < 2 ^ 27 → entry words root t v % 2 = pteV → pteFlags (entry words root t v) ≠ pteV

theorem entry_eq (here : locate child words root t (way v) = some table) :
    entry words root t v = words table (slot v) := by
  rw [entry, here]

theorem entry_none (here : locate child words root t (way v) = none) : entry words root t v = 0 := by
  rw [entry, here]

theorem locate_unused (unused : root t = none) : locate child words root t path = none := by
  rw [locate, unused, Option.bind_none]

theorem locate_other [DecidableEq T] (different : t' ≠ t) {first : Option Nat} :
    locate child words (Function.update root t first) t' path = locate child words root t' path := by
  rw [locate, locate, Function.update_of_ne different]

theorem entry_other [DecidableEq T] (different : t' ≠ t) {first : Option Nat} :
    entry words (Function.update root t first) t' v = entry words root t' v := by
  rw [entry, entry, locate_other different]

namespace Tables

theorem separate (tables : Tables words root use) : Separate child words root 2 := by
  intro first second path other table short short' here there
  have same :=
    ((tables.table first path table short).mp here).symm.trans ((tables.table second other table short').mp there)
  rw [Use.table.injEq] at same
  exact same

theorem locate_of_use (tables : Tables words root use) (isTable : use table = .table t path) :
    locate child words root t path = some table :=
  (tables.table t path table (tables.short t path table isTable)).mpr isTable

theorem use_of_locate (tables : Tables words root use) (short : path.length ≤ 2)
    (here : locate child words root t path = some table) : use table = .table t path :=
  (tables.table t path table short).mp here

section
variable (tables : Tables words root use) (same : ∀ page t path, use page = .table t path →
  words' page = words page)
include tables same

/-- What is stored outside of the page tables changes no path. -/
theorem locate_same (short : path.length ≤ 2) : locate child words' root t path = locate child words root t path :=
  locate_outside (fun before next less there =>
    same next t before (tables.use_of_locate (Nat.le_of_lt less) there)) short

theorem entry_same (t : T) (v : Nat) : entry words' root t v = entry words root t v := by
  have located : locate child words' root t (way v) = locate child words root t (way v) :=
    tables.locate_same same (Nat.le_refl 2)
  unfold entry
  rw [located]
  cases here : locate child words root t (way v) with
  | none => rfl
  | some table => exact congrFun (same table t (way v) (tables.use_of_locate (Nat.le_refl 2) here)) _

/-- Pages that are neither tables nor user pages may change, and their use. -/
theorem congr (isTable : ∀ page t path, use' page = .table t path ↔ use page = .table t path)
    (isUser : ∀ page t v, use' page = .role (.user t v) ↔ use page = .role (.user t v)) :
      Tables words' root use' where
  table t path page short := by rw [isTable, ← tables.table t path page short, tables.locate_same same short]
  short t path page there := tables.short t path page ((isTable page t path).mp there)
  user t v page below := by rw [isUser, ← tables.user t v page below, tables.entry_same same]
  low t v page there := tables.low t v page ((isUser page t v).mp there)
  inner t path page i inner there valid := by
    have before := (isTable page t path).mp there
    rw [same page t path before] at valid ⊢
    exact tables.inner t path page i inner before valid
  leaf t v few valid := by
    rw [tables.entry_same same] at valid ⊢
    exact tables.leaf t v few valid

end

section
variable (tables : Tables words root use) (isTable : use table = .table t (way v))
include tables isTable

/-- A store in a table at the last level changes no path. -/
theorem locate_store (short : path.length ≤ 2) :
    locate child (store words table i pte) root t' path = locate child words root t' path :=
  locate_store_leaf tables.separate (tables.locate_of_use isTable) rfl short

/-- A store at the last level changes one entry of one address space. -/
theorem entry_store (few : v < 2 ^ 27) (few' : v' < 2 ^ 27) [Decidable (t' = t ∧ v' = v)] :
    entry (store words table (slot v) pte) root t' v' =
      if t' = t ∧ v' = v then pte else entry words root t' v' := by
  have here := tables.locate_of_use isTable
  have located : locate child (store words table (slot v) pte) root t' (way v') =
      locate child words root t' (way v') :=
    tables.locate_store isTable (Nat.le_refl 2)
  split
  · next same =>
      obtain ⟨rfl, rfl⟩ := same
      rw [entry_eq (located.trans here), store_self]
  · next different =>
      cases there : locate child words root t' (way v') with
      | none => rw [entry_none there, entry_none (located.trans there)]
      | some other =>
          rw [entry_eq there, entry_eq (located.trans there)]
          by_cases hit : other = table
          · subst hit
            obtain ⟨rfl, ways⟩ :=
              tables.separate t' t (way v') (way v) other (Nat.le_refl 2) (Nat.le_refl 2) there here
            exact store_entry_of_ne fun slots => different ⟨rfl, way_slot_injective few' few ways slots⟩
          · rw [store_of_ne hit]

/-- An entry at the last level is stored, and the use of the user pages follows it. -/
theorem assign (few : v < 2 ^ 27) (proper : pte % 2 = pteV → pteFlags pte ≠ pteV)
    (isTable' : ∀ page t path, use' page = .table t path ↔ use page = .table t path)
    (isUser : ∀ page t' v', v' < userEnd → (¬ (t' = t ∧ v' = v)) →
      (use' page = .role (.user t' v') ↔ use page = .role (.user t' v')))
    (isPage : ∀ page, v < userEnd → (use' page = .role (.user t v) ↔ child pte = some page))
    (low : ∀ page t v, use' page = .role (.user t v) → v < userEnd) :
    Tables (store words table (slot v) pte) root use' where
  table t path page short := by rw [isTable', ← tables.table t path page short, tables.locate_store isTable short]
  short t path page there := tables.short t path page ((isTable' page t path).mp there)
  user t' v' page below := by
    classical
    rw [tables.entry_store isTable few (by unfold userEnd at below; omega)]
    split
    · next same =>
        obtain ⟨rfl, rfl⟩ := same
        exact (isPage page below).symm
    · next different => rw [isUser page t' v' below different, tables.user t' v' page below]
  low t' v' page there := low page t' v' there
  inner t' path page i inner there valid := by
    have before := (isTable' page t' path).mp there
    have different : page ≠ table := by
      rintro rfl
      rw [before, Use.table.injEq] at isTable
      rw [isTable.2] at inner
      exact Nat.lt_irrefl 2 inner
    rw [store_of_ne different] at valid ⊢
    exact tables.inner t' path page i inner before valid
  leaf t' v' few' := by
    classical
    rw [tables.entry_store isTable few few']
    split
    · exact proper
    · exact tables.leaf t' v' few'

end

section
variable [DecidableEq T] (tables : Tables words root use) (isTable : use table = .table t before)
  (inner : before.length < 2)
  (invalid : words table i % 2 ≠ pteV) (spare : ∀ t path, use fresh ≠ .table t path)
  (zero : ∀ j, words fresh j = 0)
include tables isTable inner invalid spare zero

/-- A new table adds one path. -/
theorem locate_attach (short : path.length ≤ 2) :
    locate child (store words table i (pa2pte fresh ||| pteV)) root t' path =
      if t' = t ∧ path = before ++ [i] then some fresh else locate child words root t' path := by
  refine Radix.locate_attach tables.separate (tables.locate_of_use isTable) inner ?_
    (child_inner fresh) ?_ ?_ short
  · rw [child, if_neg invalid]
  · intro other path short there
    exact spare other path (tables.use_of_locate short there)
  · intro j
    rw [zero, child_zero]

/-- A new table is empty, and it changes no entry of an address space. -/
theorem entry_attach : entry (store words table i (pa2pte fresh ||| pteV)) root t' v = entry words root t' v := by
  have located : locate child (store words table i (pa2pte fresh ||| pteV)) root t' (way v) =
      if t' = t ∧ way v = before ++ [i] then some fresh else locate child words root t' (way v) :=
    tables.locate_attach isTable inner invalid spare zero (Nat.le_refl 2)
  have different : fresh ≠ table := fun same => spare t before (same ▸ isTable)
  split at located
  · next same =>
      obtain ⟨rfl, same⟩ := same
      have nothing : locate child words root t' (way v) = none := by
        rw [same, locate_append, tables.locate_of_use isTable, Option.bind_some, find, child, if_neg invalid,
          Option.bind_none]
      rw [entry_eq located, entry_none nothing, store_of_ne different, zero]
  · cases there : locate child words root t' (way v) with
    | none => rw [entry_none there, entry_none (located.trans there)]
    | some other =>
        have different : other ≠ table := by
          rintro rfl
          have same : use other = .table t' (way v) := tables.use_of_locate (Nat.le_refl 2) there
          rw [isTable, Use.table.injEq] at same
          rw [same.2] at inner
          exact Nat.lt_irrefl 2 inner
        rw [entry_eq there, entry_eq (located.trans there), store_of_ne different]

/-- An entry of an inner table leads to a new table. -/
theorem attach (unmapped : ∀ t v, use fresh ≠ .role (.user t v)) :
    Tables (store words table i (pa2pte fresh ||| pteV)) root
      (Function.update use fresh (.table t (before ++ [i]))) where
  table t' path page short := by
    rw [tables.locate_attach isTable inner invalid spare zero short]
    by_cases here : page = fresh
    · subst here
      rw [Function.update_self, Use.table.injEq]
      split
      · next same => exact iff_of_true rfl ⟨same.1.symm, same.2.symm⟩
      · next different =>
          refine iff_of_false (fun there => spare t' path (tables.use_of_locate short there)) ?_
          rintro ⟨rfl, rfl⟩
          exact different ⟨rfl, rfl⟩
    · rw [Function.update_of_ne here, ← tables.table t' path page short]
      split
      · next same =>
          obtain ⟨rfl, rfl⟩ := same
          rw [locate_append, tables.locate_of_use isTable, Option.bind_some, find, child, if_neg invalid,
            Option.bind_none]
          exact iff_of_false (fun same => here (Option.some.inj same).symm) (by rintro ⟨⟩)
      · exact Iff.rfl
  short t' path page there := by
    by_cases here : page = fresh
    · subst here
      rw [Function.update_self, Use.table.injEq] at there
      rw [← there.2, List.length_append, List.length_singleton]
      exact inner
    · rw [Function.update_of_ne here] at there
      exact tables.short t' path page there
  user t' v page below := by
    rw [tables.entry_attach isTable inner invalid spare zero, tables.user t' v page below]
    by_cases here : page = fresh
    · subst here
      rw [Function.update_self]
      exact iff_of_false (unmapped t' v) (by rintro ⟨⟩)
    · rw [Function.update_of_ne here]
  low t' v page there := by
    by_cases here : page = fresh
    · subst here
      rw [Function.update_self] at there
      cases there
    · rw [Function.update_of_ne here] at there
      exact tables.low t' v page there
  inner t' path page j inner' there valid := by
    by_cases here : page = fresh
    · subst here
      have different : page ≠ table := fun same => spare t before (same ▸ isTable)
      rw [store_of_ne different, zero] at valid ⊢
    · rw [Function.update_of_ne here] at there
      by_cases hit : page = table ∧ j = i
      · obtain ⟨rfl, rfl⟩ := hit
        have flags : 0 ||| pteV = 1 := rfl
        rw [store_self, ← Nat.or_zero (pa2pte fresh), pte_eq (by decide), flags]
        omega
      · have same : store words table i (pa2pte fresh ||| pteV) page j = words page j := by
          by_cases at_table : page = table
          · exact store_entry_of_ne fun at_entry => hit ⟨at_table, at_entry⟩
          · rw [store_of_ne at_table]
        rw [same] at valid ⊢
        exact tables.inner t' path page j inner' there valid
  leaf t' v few := by
    rw [tables.entry_attach isTable inner invalid spare zero]
    exact tables.leaf t' v few

end

section
variable [DecidableEq T] (tables : Tables words root use) (unused : root t = none)
  (spare : ∀ t path, use fresh ≠ .table t path)
  (zero : ∀ j, words fresh j = 0)
include tables unused spare zero

omit tables unused spare in
/-- A new address space has one path. -/
theorem locate_create : locate child words (Function.update root t (some fresh)) t path =
    if path = [] then some fresh else none := by
  rw [locate, Function.update_self, Option.bind_some]
  cases path with
  | nil => rfl
  | cons i path => rw [find, zero, child_zero, Option.bind_none, if_neg (List.cons_ne_nil i path)]

omit tables spare in
/-- A new address space has no valid entry. -/
theorem entry_create : entry words (Function.update root t (some fresh)) t' v = entry words root t' v := by
  by_cases same : t' = t
  · subst same
    rw [entry_none (locate_unused unused), entry_none]
    exact (locate_create zero).trans (if_neg (List.cons_ne_nil _ _))
  · rw [entry_other same]

theorem create (unmapped : ∀ t v, use fresh ≠ .role (.user t v)) :
    Tables words (Function.update root t (some fresh)) (Function.update use fresh (.table t [])) where
  table t' path page short := by
    by_cases here : page = fresh
    · subst here
      rw [Function.update_self, Use.table.injEq]
      by_cases same : t' = t
      · subst same
        rw [locate_create zero]
        split
        · next empty => exact iff_of_true rfl ⟨rfl, empty.symm⟩
        · next longer => exact iff_of_false nofun fun empty => longer empty.2.symm
      · rw [locate_other same]
        exact iff_of_false (fun there => spare t' path (tables.use_of_locate short there)) fun equal =>
          same equal.1.symm
    · rw [Function.update_of_ne here, ← tables.table t' path page short]
      by_cases same : t' = t
      · subst same
        rw [locate_unused unused, locate_create zero]
        refine iff_of_false ?_ nofun
        split
        · exact fun equal => here (Option.some.inj equal).symm
        · nofun
      · rw [locate_other same]
  short t' path page there := by
    by_cases here : page = fresh
    · subst here
      rw [Function.update_self, Use.table.injEq] at there
      rw [← there.2]
      exact Nat.zero_le 2
    · rw [Function.update_of_ne here] at there
      exact tables.short t' path page there
  user t' v page below := by
    rw [entry_create unused zero, tables.user t' v page below]
    by_cases here : page = fresh
    · subst here
      rw [Function.update_self]
      exact iff_of_false (unmapped t' v) nofun
    · rw [Function.update_of_ne here]
  low t' v page there := by
    by_cases here : page = fresh
    · subst here
      rw [Function.update_self] at there
      cases there
    · rw [Function.update_of_ne here] at there
      exact tables.low t' v page there
  inner t' path page j inner there valid := by
    by_cases here : page = fresh
    · subst here
      rw [zero]
    · rw [Function.update_of_ne here] at there
      exact tables.inner t' path page j inner there valid
  leaf t' v few := by
    rw [entry_create unused zero]
    exact tables.leaf t' v few

end

section
variable [DecidableEq T] (tables : Tables words root use)
  (same : ∀ page t' path, t' ≠ t → use page = .table t' path → words' page = words page)
include tables same

theorem locate_remove (different : t' ≠ t) (short : path.length ≤ 2) :
    locate child words' (Function.update root t none) t' path = locate child words root t' path := by
  rw [locate_other different]
  refine locate_congr fun first i later next split there => ?_
  rw [split, List.length_append, List.length_cons] at short
  rw [same next t' first different (tables.use_of_locate (by omega) there)]

/-- Without valid entries the tables of an address space may go. -/
theorem entry_remove (empty : entry words root t v = 0) :
    entry words' (Function.update root t none) t' v = entry words root t' v := by
  by_cases equal : t' = t
  · subst equal
    rw [empty, entry_none (locate_unused (Function.update_self t' none root))]
  · have located : locate child words' (Function.update root t none) t' (way v) =
        locate child words root t' (way v) :=
      tables.locate_remove same equal (Nat.le_refl 2)
    cases there : locate child words root t' (way v) with
    | none => rw [entry_none there, entry_none (located.trans there)]
    | some other =>
        have isTable : use other = .table t' (way v) := tables.use_of_locate (Nat.le_refl 2) there
        rw [entry_eq there, entry_eq (located.trans there), same other t' (way v) equal isTable]

theorem remove (empty : ∀ v, v < 2 ^ 27 → entry words root t v = 0)
    (isTable : ∀ page t' path, use' page = .table t' path ↔ use page = .table t' path ∧ t' ≠ t)
    (isUser : ∀ page t v, use' page = .role (.user t v) ↔ use page = .role (.user t v)) :
    Tables words' (Function.update root t none) use' where
  table t' path page short := by
    rw [isTable]
    by_cases equal : t' = t
    · rw [equal, locate_unused (Function.update_self t none root)]
      exact iff_of_false nofun fun there => there.2 rfl
    · rw [tables.locate_remove same equal short, tables.table t' path page short]
      exact (and_iff_left equal).symm
  short t' path page there := tables.short t' path page ((isTable page t' path).mp there).1
  user t' v page below := by
    rw [isUser, ← tables.user t' v page below,
      tables.entry_remove same (empty v (by unfold userEnd at below; omega))]
  low t' v page there := tables.low t' v page ((isUser page t' v).mp there)
  inner t' path page i inner there valid := by
    obtain ⟨before, different⟩ := (isTable page t' path).mp there
    rw [same page t' path different before] at valid ⊢
    exact tables.inner t' path page i inner before valid
  leaf t' v few valid := by
    rw [tables.entry_remove same (empty v few)] at valid ⊢
    exact tables.leaf t' v few valid

end

end Tables

end

end OSLabs.Xv6.Vm
