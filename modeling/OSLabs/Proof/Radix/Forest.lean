import OSLabs.Construction.Radix
import Mathlib.Data.List.Basic

namespace OSLabs.Radix

variable {P I E T : Type} {child : E → Option P} {memory changed : P → I → E} {root : T → Option P}
  {table next fresh : P}
  {tree other : T} {path before after : List I} {i j : I} {entry : E} {depth : Nat}

theorem find_append : find child memory table (before ++ after) =
    (find child memory table before).bind fun next => find child memory next after := by
  induction before generalizing table with
  | nil => rfl
  | cons i before inductionHypothesis =>
      rw [List.cons_append, find, find, Option.bind_assoc]
      congr 1
      funext next
      exact inductionHypothesis

theorem locate_append : locate child memory root tree (before ++ after) =
    (locate child memory root tree before).bind fun next => find child memory next after := by
  rw [locate, locate, Option.bind_assoc]
  congr 1
  funext table
  exact find_append

/-- A path is the same while the entries on it are the same. -/
theorem find_congr (same : ∀ before i after next, path = before ++ i :: after →
      find child memory table before = some next → changed next i = memory next i) :
    find child changed table path = find child memory table path := by
  induction path generalizing table with
  | nil => rfl
  | cons i path inductionHypothesis =>
      rw [find, find, same [] i path table rfl rfl]
      cases here : child (memory table i) with
      | none => rfl
      | some second =>
          refine inductionHypothesis fun before j after next split there => ?_
          refine same (i :: before) j after next (by rw [split]; rfl) ?_
          rw [find, here]
          exact there

theorem locate_congr (same : ∀ before i after next, path = before ++ i :: after →
      locate child memory root tree before = some next → changed next i = memory next i) :
    locate child changed root tree path = locate child memory root tree path := by
  unfold locate
  cases here : root tree with
  | none => rfl
  | some first =>
      refine find_congr fun before i after next split there => ?_
      refine same before i after next split ?_
      rw [locate, here]
      exact there

/-- What is stored outside of all tables changes no path. -/
theorem locate_outside (same : ∀ before next, before.length < depth →
    locate child memory root tree before = some next →
      changed next = memory next) (short : path.length ≤ depth) :
    locate child changed root tree path = locate child memory root tree path := by
  refine locate_congr fun before i after next split there => ?_
  subst split
  rw [List.length_append, List.length_cons] at short
  rw [same before next (by omega) there]

section
variable {last : P}

theorem find_cons (leads : child (memory table i) = some next) :
    find child memory table (i :: path) = find child memory next path := by
  rw [find, leads, Option.bind_some]

theorem reach_self : Reach child memory (depth + 1) table table := ⟨[], Nat.succ_pos depth, rfl⟩

theorem Reach.cons (reached : Reach child memory depth next last) (leads : child (memory table i) = some next) :
    Reach child memory (depth + 1) table last := by
  obtain ⟨path, short, here⟩ := reached
  exact ⟨i :: path, Nat.succ_lt_succ short, (find_cons leads).trans here⟩

/-- What a table reaches is the table and what its entries reach. -/
theorem reach_succ : Reach child memory (depth + 1) table last ↔
    last = table ∨ ∃ i next, child (memory table i) = some next ∧ Reach child memory depth next last := by
  constructor
  · rintro ⟨path, short, here⟩
    cases path with
    | nil => exact .inl (Option.some.inj here).symm
    | cons i path =>
        obtain ⟨next, leads, there⟩ := Option.bind_eq_some_iff.mp here
        exact .inr ⟨i, next, leads, path, Nat.lt_of_succ_lt_succ short, there⟩
  · rintro (rfl | ⟨i, next, leads, reached⟩)
    · exact reach_self
    · exact reached.cons leads

/-- A path is the same when no table that is reached changes. -/
theorem find_congr_reach (same : ∀ last, Reach child memory depth table last → changed last = memory last)
    (short : path.length ≤ depth) : find child changed table path = find child memory table path := by
  refine find_congr fun before i after next split here => ?_
  rw [split, List.length_append, List.length_cons] at short
  rw [same next ⟨before, by omega, here⟩]

theorem reach_congr (same : ∀ last, Reach child memory depth table last → changed last = memory last) :
    Reach child changed depth table last ↔ Reach child memory depth table last := by
  refine exists_congr fun path => and_congr_right fun short => ?_
  rw [find_congr_reach same (Nat.le_of_lt short)]

theorem Single.below (single : Single child memory (depth + 1) table)
    (leads : child (memory table i) = some next) :
    Single child memory depth next := by
  intro path other last short short' here there
  have same := single (i :: path) (i :: other) last (Nat.succ_lt_succ short) (Nat.succ_lt_succ short')
    ((find_cons leads).trans here) ((find_cons leads).trans there)
  exact (List.cons.inj same).2

/-- No table leads back. -/
theorem Single.not_reach (single : Single child memory (depth + 1) table)
    (leads : child (memory table i) = some next) :
    ¬ Reach child memory depth next table := by
  rintro ⟨path, short, here⟩
  exact List.cons_ne_nil i path
    (single (i :: path) [] table (Nat.succ_lt_succ short) (Nat.succ_pos depth) ((find_cons leads).trans here) rfl)

/-- Two entries lead to different tables. -/
theorem Single.apart (single : Single child memory (depth + 1) table) {other : P} (different : i ≠ j)
    (leads : child (memory table i) = some next) (leads' : child (memory table j) = some other)
    (reached : Reach child memory depth next last) : ¬ Reach child memory depth other last := by
  rintro ⟨path', short', there⟩
  obtain ⟨path, short, here⟩ := reached
  have same := single (i :: path) (j :: path') last (Nat.succ_lt_succ short) (Nat.succ_lt_succ short')
    ((find_cons leads).trans here) ((find_cons leads').trans there)
  exact different (List.cons.inj same).1

end

section
variable [DecidableEq P] [DecidableEq I]

theorem store_self : store memory table i entry table i = entry := by
  rw [store, Function.update_self, Function.update_self]

theorem store_of_ne (different : next ≠ table) : store memory table i entry next = memory next :=
  Function.update_of_ne different ..

theorem store_entry_of_ne (different : j ≠ i) : store memory table i entry next j = memory next j := by
  by_cases same : next = table
  · subst same
    rw [store, Function.update_self, Function.update_of_ne different]
  · rw [store_of_ne same]

/-- What is stored in a table at the last level changes no path. -/
theorem locate_store_leaf (separate : Separate child memory root depth)
    (here : locate child memory root tree before = some table)
    (last : before.length = depth) (short : path.length ≤ depth) :
    locate child (store memory table i entry) root other path = locate child memory root other path := by
  refine locate_outside (fun between next less there => store_of_ne ?_) short
  rintro rfl
  obtain ⟨-, rfl⟩ := separate tree other before between next (Nat.le_of_eq last) (Nat.le_of_lt less) here there
  omega

/-- An entry that leads to a new empty table adds one path. -/
theorem locate_attach [DecidableEq T] (separate : Separate child memory root depth)
    (here : locate child memory root tree before = some table) (inner : before.length < depth)
    (free : child (memory table i) = none) (leads : child entry = some fresh)
    (unused : ∀ other path, path.length ≤ depth → locate child memory root other path ≠ some fresh)
    (empty : ∀ j, child (memory fresh j) = none) (short : path.length ≤ depth) :
    locate child (store memory table i entry) root other path =
      if other = tree ∧ path = before ++ [i] then some fresh else locate child memory root other path := by
  by_cases through : other = tree ∧ ∃ rest, path = before ++ i :: rest
  · obtain ⟨rfl, rest, rfl⟩ := through
    have different : fresh ≠ table := fun same => unused other before (by omega) (same ▸ here)
    have before_eq : locate child (store memory table i entry) root other before = some table := by
      rw [← here]
      refine locate_congr fun first k later next split there => ?_
      rw [store_of_ne]
      rintro rfl
      rw [split, List.length_append, List.length_cons] at inner
      obtain ⟨-, same⟩ := separate other other before first next (by rw [split]; simp; omega) (by omega) here there
      rw [same] at split
      exact absurd split (by simp)
    rw [locate_append, before_eq, Option.bind_some, find, store_self, leads, Option.bind_some]
    cases rest with
    | nil => rw [if_pos ⟨rfl, rfl⟩, find]
    | cons j rest =>
        rw [if_neg (by simp), find, store_of_ne different, empty, Option.bind_none, locate_append, here,
          Option.bind_some, find,
          free, Option.bind_none]
  · rw [if_neg fun same => through ⟨same.1, [], same.2⟩]
    refine locate_congr fun first k later next split there => ?_
    by_cases same : next = table
    · subst same
      rw [split, List.length_append, List.length_cons] at short
      obtain ⟨rfl, rfl⟩ := separate tree other before first next (by omega) (by omega) here there
      refine store_entry_of_ne ?_
      rintro rfl
      exact through ⟨rfl, later, split⟩
    · rw [store_of_ne same]

end

end OSLabs.Radix
