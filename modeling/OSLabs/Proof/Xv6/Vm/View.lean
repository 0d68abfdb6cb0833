import OSLabs.Proof.Xv6.Vm.FreeList
import OSLabs.Proof.Xv6.Vm.Tables

namespace OSLabs.Xv6.Vm

open Radix

/-- The page tables are in order, and `kmem.freelist` leads through the free pages. -/
structure Sound {T : Type} (machine : Machine) (memory : Memory) (root : T → Option Nat) (use : Nat → Use T) : Prop
    extends Tables memory.words root use where
  free : ∃ free, FreeList memory free ∧ ∀ page, page ∈ free ↔ use page = .free
  outside : ∀ page, use page = .role .outside ↔ ¬ (machine.bottom ≤ page ∧ page < machine.top)

/-- The pages that are in use with their contents, and the entries of the address spaces. -/
@[ext] structure View (T : Type) where
  data : Nat → Option (Role T × (Fin 512 → Nat))
  entry : T → Nat → Nat

namespace View

variable {T : Type}

/-- The view of a memory. -/
def of (words : Nat → Fin 512 → Nat) (root : T → Option Nat) (use : Nat → Use T) : View T where
  data page :=
    match use page with
    | .role role => some (role, words page)
    | _ => none
  entry t v := if v < 2 ^ 27 then Vm.entry words root t v else 0

/-- The role and the content of a page are set. -/
def put (view : View T) (page : Nat) (role : Role T) (content : Fin 512 → Nat) : View T :=
  { view with data := Function.update view.data page (some (role, content)) }

/-- A page is no longer in use. -/
def drop (view : View T) (page : Nat) : View T := { view with data := Function.update view.data page none }

/-- The entry for a virtual page is set. -/
def assign [DecidableEq T] (view : View T) (t : T) (v pte : Nat) : View T :=
  { view with entry := Function.update view.entry t (Function.update (view.entry t) v pte) }

section
variable {view : View T} {page other v v' pte pte' : Nat} {role role' : Role T}
  {content content' : Fin 512 → Nat} {t t' : T}

@[simp] theorem put_entry : (view.put page role content).entry = view.entry := rfl

@[simp] theorem drop_entry : (view.drop page).entry = view.entry := rfl

@[simp] theorem put_data_self : (view.put page role content).data page = some (role, content) :=
    Function.update_self ..

theorem put_data_of_ne (different : other ≠ page) : (view.put page role content).data other = view.data other :=
  Function.update_of_ne different ..

@[simp] theorem drop_data_self : (view.drop page).data page = none := Function.update_self ..

theorem drop_data_of_ne (different : other ≠ page) : (view.drop page).data other = view.data other :=
  Function.update_of_ne different ..

@[simp] theorem put_put : (view.put page role content).put page role' content' = view.put page role' content' := by
  simp [put]

@[simp] theorem drop_put : (view.put page role content).drop page = view.drop page := by
  simp [put, drop]

theorem drop_self (unused : view.data page = none) : view.drop page = view := by
  simp [drop, ← unused]

section
variable [DecidableEq T]

@[simp] theorem assign_data : (view.assign t v pte).data = view.data := rfl

@[simp] theorem assign_put : (view.put page role content).assign t v pte =
    (view.assign t v pte).put page role content := rfl

@[simp] theorem assign_drop : (view.drop page).assign t v pte = (view.assign t v pte).drop page := rfl

theorem assign_entry : (view.assign t v pte).entry t' v' = if t' = t ∧ v' = v then pte else view.entry t' v' := by
  dsimp only [assign]
  rw [Function.update_apply]
  by_cases same : t' = t
  · rw [if_pos same, Function.update_apply, same]
    simp
  · rw [if_neg same, if_neg fun both => same both.1]

@[simp] theorem assign_assign : (view.assign t v pte).assign t v pte' = view.assign t v pte' := by
  simp [assign]

theorem assign_self (here : view.entry t v = pte) : view.assign t v pte = view := by
  simp [assign, ← here]

/-- The entries for a range of virtual pages, and the user pages for them, are taken away. -/
def clear (view : View T) (t : T) (first n : Nat) : View T where
  data page :=
    match view.data page with
    | some (.user t' v, content) => if t' = t ∧ first ≤ v ∧ v < first + n then none else some (.user t' v, content)
    | other => other
  entry t' v := if t' = t ∧ first ≤ v ∧ v < first + n then 0 else view.entry t' v

theorem clear_data {first n : Nat} : (view.clear t first n).data page = some (role, content) ↔
    view.data page = some (role, content) ∧ ∀ v, role = .user t v → ¬ (first ≤ v ∧ v < first + n) := by
  unfold clear
  dsimp only
  split
  · next t' v content' here =>
      rw [here]
      by_cases hit : t' = t ∧ first ≤ v ∧ v < first + n
      · rw [if_pos hit]
        refine iff_of_false nofun ?_
        rintro ⟨⟨⟩, outer⟩
        exact outer v (by rw [hit.1]) hit.2
      · rw [if_neg hit]
        refine (and_iff_left_of_imp ?_).symm
        rintro ⟨⟩ w ⟨⟩ inner
        exact hit ⟨rfl, inner⟩
  · next other =>
      refine (and_iff_left_of_imp ?_).symm
      rintro here v rfl
      exact absurd here (other t v content)

theorem clear_entry {first n : Nat} :
    (view.clear t first n).entry t' v = if t' = t ∧ first ≤ v ∧ v < first + n then 0 else view.entry t' v := rfl

end

theorem eq_of_data {view view' : View T}
    (data : ∀ page role content, view.data page = some (role, content) ↔ view'.data page = some (role, content))
    (same : ∀ t v, view.entry t v = view'.entry t v) : view = view' := by
  apply View.ext
  · funext page
    exact Option.ext fun pair => data page pair.1 pair.2
  · funext t v
    exact same t v

section
variable [DecidableEq T] {first n : Nat}

theorem clear_zero : view.clear t first 0 = view := by
  refine eq_of_data (fun page role content => ?_) fun t' v => ?_
  · rw [clear_data]
    exact and_iff_left fun v _ inner => by omega
  · rw [clear_entry, if_neg]
    omega

/-- The first page of a range is taken away before the rest. -/
theorem clear_step (mapped : view.data page = some (.user t first, content))
    (only : ∀ other content, view.data other = some (.user t first, content) → other = page) :
    ((view.drop page).assign t first 0).clear t (first + 1) n = view.clear t first (n + 1) := by
  refine eq_of_data (fun other role' content' => ?_) fun t' v => ?_
  · rw [clear_data, clear_data, assign_data]
    by_cases equal : other = page
    · rw [equal, drop_data_self, mapped]
      refine iff_of_false (fun there => nomatch there.1) ?_
      rintro ⟨⟨⟩, outer⟩
      exact outer first rfl ⟨Nat.le_refl first, by omega⟩
    · rw [drop_data_of_ne equal]
      refine and_congr_right fun there => forall₂_congr fun v isUser => not_congr ?_
      have different : v ≠ first := by
        rintro rfl
        exact equal (only other content' (isUser ▸ there))
      omega
  · rw [clear_entry, clear_entry, assign_entry, drop_entry]
    by_cases same : t' = t
    · simp only [same, true_and]
      by_cases here : v = first
      · rw [if_pos here, ite_self, if_pos (by omega)]
      · rw [if_neg here]
        exact if_congr (by omega) rfl rfl
    · rw [if_neg fun both => same both.1, if_neg fun both => same both.1, if_neg fun both => same both.1]

/-- A page that is mapped behind a range is taken away with the range. -/
theorem clear_extend (unused : view.data page = none)
    (alone : ∀ other content, view.data other ≠ some (.user t (first + n), content))
    (zero : view.entry t (first + n) = 0) :
    ((view.put page (.user t (first + n)) content).assign t (first + n) pte).clear t first (n + 1) =
      view.clear t first n := by
  refine eq_of_data (fun other role' content' => ?_) fun t' v => ?_
  · rw [clear_data, clear_data, assign_data]
    by_cases equal : other = page
    · rw [equal, put_data_self, unused]
      refine iff_of_false ?_ fun there => nomatch there.1
      rintro ⟨⟨⟩, outer⟩
      exact outer (first + n) rfl (by omega)
    · rw [put_data_of_ne equal]
      refine and_congr_right fun there => forall₂_congr fun v isUser => not_congr ?_
      have different : v ≠ first + n := by
        rintro rfl
        exact alone other content' (isUser ▸ there)
      omega
  · rw [clear_entry, clear_entry, assign_entry, put_entry]
    by_cases same : t' = t
    · simp only [same, true_and]
      by_cases here : v = first + n
      · rw [if_pos (by omega), if_neg (by omega), here, zero]
      · rw [if_neg here]
        exact if_congr (by omega) rfl rfl
    · rw [if_neg fun both => same both.1, if_neg fun both => same both.1, if_neg fun both => same both.1]

end

end

section
variable {words words' : Nat → Fin 512 → Nat} {root root' : T → Option Nat} {use use' : Nat → Use T}
  {page v : Nat} {t : T}
  {role : Role T} {content : Fin 512 → Nat}

theorem of_data : (of words root use).data page = some (role, content) ↔
    use page = .role role ∧ words page = content := by
  cases here : use page with
  | free | table => simp [of, here]
  | role other => simp [of, here]

theorem of_data_none : (of words root use).data page = none ↔ ∀ role, use page ≠ .role role := by
  cases here : use page with
  | free | table => simp [of, here]
  | role other => simp [of, here]

theorem of_entry (few : v < 2 ^ 27) : (of words root use).entry t v = Vm.entry words root t v := if_pos few

theorem of_eq {view : View T} (data : ∀ page role content,
      use page = .role role ∧ words page = content ↔ view.data page = some (role, content))
    (same : ∀ t v, (if v < 2 ^ 27 then Vm.entry words root t v else 0) = view.entry t v) :
    of words root use = view := by
  apply View.ext
  · funext page
    refine Option.ext fun pair => ?_
    exact of_data.trans (data page pair.1 pair.2)
  · funext t v
    exact same t v

section
variable (same : ∀ t v, v < 2 ^ 27 → Vm.entry words' root' t v = Vm.entry words root t v)
include same

/-- Two memories have one view. -/
theorem of_congr (data : ∀ page role, use' page = .role role ↔ use page = .role role)
    (content : ∀ page role, use page = .role role → words' page = words page) :
    of words' root' use' = of words root use := by
  refine of_eq (fun page role _ => ?_) fun t v => if_ctx_congr Iff.rfl (same t v) fun _ => rfl
  rw [of_data, data page role]
  refine and_congr_right fun here => ?_
  rw [content page role here]

/-- A page has a new role or a new content. -/
theorem of_put (isPage : use' page = .role role) (hasContent : words' page = content)
    (data : ∀ other role, other ≠ page → (use' other = .role role ↔ use other = .role role))
    (others : ∀ other role, other ≠ page → use other = .role role → words' other = words other) :
    of words' root' use' = (of words root use).put page role content := by
  refine of_eq (fun other otherRole _ => ?_) fun t v => if_ctx_congr Iff.rfl (same t v) fun _ => rfl
  by_cases equal : other = page
  · subst equal
    rw [put_data_self, isPage, hasContent, Use.role.injEq, Option.some.injEq, Prod.mk.injEq]
  · rw [put_data_of_ne equal, of_data, data other otherRole equal]
    refine and_congr_right fun here => ?_
    rw [others other otherRole equal here]

/-- A page is no longer in use. -/
theorem of_drop (unused : ∀ role, use' page ≠ .role role)
    (data : ∀ other role, other ≠ page → (use' other = .role role ↔ use other = .role role))
    (others : ∀ other role, other ≠ page → use other = .role role → words' other = words other) :
    of words' root' use' = (of words root use).drop page := by
  refine of_eq (fun other otherRole _ => ?_) fun t v => if_ctx_congr Iff.rfl (same t v) fun _ => rfl
  by_cases equal : other = page
  · subst equal
    rw [drop_data_self]
    exact iff_of_false (fun there => unused otherRole there.1) nofun
  · rw [drop_data_of_ne equal, of_data, data other otherRole equal]
    refine and_congr_right fun here => ?_
    rw [others other otherRole equal here]

end

end

end View

end OSLabs.Xv6.Vm
