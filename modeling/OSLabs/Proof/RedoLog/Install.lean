import OSLabs.Construction.RedoLog

namespace OSLabs.RedoLog

section
variable {A V : Type} [DecidableEq A] {slot : Nat → A} {targets : List A} {tail : Nat}
  {store other : A → V} {a : A}

/-- What is no target stays as it is. -/
theorem install_of_notMem (outside : a ∉ targets) : install slot targets tail store a = store a := by
  induction targets generalizing tail store with
  | nil => rfl
  | cons target rest inductionHypothesis =>
      obtain ⟨different, outside⟩ := not_or.mp (mt List.mem_cons.mpr outside)
      rw [install, inductionHypothesis outside, Function.update_of_ne different]

/-- Where the slots hold a value for each target, each target gets its value. -/
theorem install_of_mem {value : A → V} (apart : ∀ i < targets.length, slot (tail + i) ∉ targets)
    (logged : ∀ i target, targets[i]? = some target → store (slot (tail + i)) = value target)
    (member : a ∈ targets) :
    install slot targets tail store a = value a := by
  induction targets generalizing tail store with
  | nil => cases member
  | cons target rest inductionHypothesis =>
      have shift : ∀ i, tail + 1 + i = tail + (i + 1) := fun i => by omega
      have separate : ∀ i < rest.length, slot (tail + 1 + i) ≠ target ∧ slot (tail + 1 + i) ∉ rest := by
        intro i less
        rw [shift]
        exact not_or.mp (mt List.mem_cons.mpr (apart (i + 1) (Nat.succ_lt_succ less)))
      have later : ∀ i target', rest[i]? = some target' →
          Function.update store target (store (slot tail)) (slot (tail + 1 + i)) = value target' := by
        intro i target' here
        rw [Function.update_of_ne (separate i (List.getElem?_eq_some_iff.mp here).1).1, shift]
        exact logged (i + 1) target' here
      rw [install]
      by_cases again : a ∈ rest
      · exact inductionHypothesis (fun i less => (separate i less).2) later again
      · obtain rfl : a = target := (List.mem_cons.mp member).resolve_right again
        rw [install_of_notMem again, Function.update_self]
        exact logged 0 a rfl

end

section
variable {A V : Type} [DecidableEq A] {store : A → V} {updates later : List (Update A V)}

theorem apply_append : apply store (updates ++ later) = apply (apply store updates) later :=
  List.foldl_append

/-- The last change is performed on the result of the others. -/
theorem apply_concat (update : Update A V) : apply store (updates ++ [update]) =
    Function.update (apply store updates) update.target (update.write (apply store updates update.target)) :=
  apply_append

end

section
variable {A V T : Type} [DecidableEq T] {author : T} {written : List (T × Update A V)}

theorem updatesOf_concat_self (update : Update A V) :
    updatesOf author (written ++ [(author, update)]) = updatesOf author written ++ [update] := by
  simp [updatesOf]

theorem updatesOf_concat_of_ne {other : T} (different : other ≠ author) (update : Update A V) :
    updatesOf author (written ++ [(other, update)]) = updatesOf author written := by
  simp [updatesOf, different]

end

end OSLabs.RedoLog
