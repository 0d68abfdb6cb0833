import OSLabs.Proof.Xv6.Log.Operations
import Mathlib.Data.Finset.SDiff

namespace OSLabs.Xv6.Log

open Pthread RedoLog

section
variable {lh more : List Nat} {op : List (Update Nat Block)} {update : Update Nat Block}

/-- This many slots are kept free for the changes that are left of a system call. -/
def need (lh : List Nat) (op : List (Update Nat Block)) : Nat :=
  min op.length (((op.map Update.target).toFinset \ lh.toFinset).card + 1)

theorem need_le (small : Small op) : need lh op ≤ maxOpBlocks := by
  rcases small with short | few
  · exact (Nat.min_le_left _ _).trans short
  · have part : ((op.map Update.target).toFinset \ lh.toFinset).card ≤ (op.map Update.target).toFinset.card :=
      Finset.card_le_card Finset.sdiff_subset
    exact (Nat.min_le_right _ _).trans (by omega)

/-- A longer header needs no more free slots. -/
theorem need_anti (longer : lh ⊆ more) : need more op ≤ need lh op := by
  have fewer : ((op.map Update.target).toFinset \ more.toFinset).card ≤
      ((op.map Update.target).toFinset \ lh.toFinset).card :=
    Finset.card_le_card (Finset.sdiff_subset_sdiff subset_rfl fun b member =>
      List.mem_toFinset.mpr (longer (List.mem_toFinset.mp member)))
  unfold need
  omega

theorem need_pos : 0 < need lh (update :: op) := by
  simp [need]

/-- A change that takes a slot gives back one that was kept free. -/
theorem need_logWrite {T : Type} (memory : Memory T) (process : T) :
    (memory.logWrite process update).lh.length + need (memory.logWrite process update).lh op ≤
      memory.lh.length + need memory.lh (update :: op) := by
  simp only [Memory.logWrite]
  split
  · next member =>
      have part : ((op.map Update.target).toFinset \ memory.lh.toFinset).card ≤
          (((update :: op).map Update.target).toFinset \ memory.lh.toFinset).card :=
        Finset.card_le_card (Finset.sdiff_subset_sdiff (by simp) subset_rfl)
      simp only [need, List.length_cons]
      omega
  · next outside =>
      have part : ((op.map Update.target).toFinset \ (memory.lh ++ [update.target]).toFinset).card <
          (((update :: op).map Update.target).toFinset \ memory.lh.toFinset).card := by
        refine Finset.card_lt_card (Finset.ssubset_iff_subset_ne.mpr ⟨?_, fun same => ?_⟩)
        · intro b member
          simp only [Finset.mem_sdiff, List.mem_toFinset, List.mem_append, not_or, List.map_cons,
            List.mem_cons] at member ⊢
          exact ⟨.inr member.1, member.2.1⟩
        · have here : update.target ∈ ((update :: op).map Update.target).toFinset \ memory.lh.toFinset := by
            simp [outside]
          rw [← same] at here
          simp at here
      simp only [need, List.length_cons, List.length_append, List.length_nil]
      omega

/-- A part of a small system call is small. -/
theorem Small.tail (small : Small (update :: op)) : Small op := by
  rcases small with short | few
  · exact .inl (Nat.le_of_succ_le short)
  · refine .inr (Nat.lt_of_le_of_lt (Finset.card_le_card ?_) few)
    simp

end

section
variable {T : Type} {layout : Layout} {t : T} {place next : Place} {memory after : Memory T}

/-- The changes ahead of a process stay the same, except where a system call begins and where a change is made. -/
theorem ahead_cases (effect : (process layout t place).effect memory = some (after, next)) :
    (next.op = place.op ∧ next.rest = place.rest) ∨ place.rest = next.op :: next.rest ∨
      ∃ update, place.op = update :: next.op ∧ next.rest = place.rest := by
  obtain ⟨point, op, rest⟩ := place
  cases point with
  | idle => cases rest <;> cases effect; exact .inr (.inl rfl)
  | writeAppend =>
      cases op with
      | nil =>
          cases effect
          exact .inl ⟨rfl, rfl⟩
      | cons update op =>
          cases effect
          exact .inr (.inr ⟨update, rfl, rfl⟩)
  | endCount =>
      simp only [process, Instr.effect, Option.some.injEq] at effect
      split at effect
      · cases effect
        exact .inl ⟨rfl, rfl⟩
      · split at effect <;> cases effect <;> exact .inl ⟨rfl, rfl⟩
  | writeLog tail | installTrans tail =>
      simp only [process, Instr.effect, Option.some.injEq] at effect
      split at effect <;> cases effect <;> exact .inl ⟨rfl, rfl⟩
  | logWritePanicked | endOpPanicked => cases effect
  | _ =>
      cases effect
      exact .inl ⟨rfl, rfl⟩

/-- Every system call that is left is small. -/
def Place.IsSmall (place : Place) : Prop := Small place.op ∧ ∀ op ∈ place.rest, Small op

theorem Place.IsSmall.effect (small : place.IsSmall)
    (effect : (process layout t place).effect memory = some (after, next)) :
    next.IsSmall := by
  rcases ahead_cases effect with ⟨sameOp, sameRest⟩ | begun | ⟨update, made, sameRest⟩
  · rwa [Place.IsSmall, sameOp, sameRest]
  · have all := small.2
    rw [begun] at all
    exact ⟨all _ (List.mem_cons_self ..), fun op member => all op (List.mem_cons_of_mem _ member)⟩
  · have first := small.1
    rw [made] at first
    exact ⟨first.tail, sameRest ▸ small.2⟩

/-- A process that is about to make a change has one. -/
def Place.Pending (place : Place) : Prop :=
  match place.point with
  | .acquireWrite | .writePanics | .writeAppend => place.op ≠ []
  | _ => True

theorem Place.Pending.effect (pending : place.Pending)
    (effect : (process layout t place).effect memory = some (after, next)) :
    next.Pending := by
  obtain ⟨point, op, rest⟩ := place
  cases point with
  | idle => cases rest <;> cases effect; trivial
  | inOp =>
      cases effect
      simp only [Place.go]
      split
      · trivial
      · next some => exact some
  | writePanics =>
      cases effect
      simp only [Place.go]
      split
      · trivial
      · split
        · trivial
        · exact pending
  | beginTest =>
      cases effect
      simp only [Place.go]
      split
      · trivial
      · split <;> trivial
  | commitTest =>
      cases effect
      simp only [Place.go]
      split <;> trivial
  | writeAppend => cases op <;> cases effect <;> trivial
  | endCount =>
      simp only [process, Instr.effect, Option.some.injEq] at effect
      split at effect
      · cases effect
        trivial
      · split at effect <;> cases effect <;> trivial
  | writeLog tail | installTrans tail =>
      simp only [process, Instr.effect, Option.some.injEq] at effect
      split at effect <;> cases effect <;> trivial
  | acquireWrite =>
      cases effect
      exact pending
  | logWritePanicked | endOpPanicked => cases effect
  | _ =>
      cases effect
      trivial

end

section
variable {T : Type} {layout : Layout} {calls : T → List (List (Update Nat Block))} {disk : Disk}
  [DecidableEq T] [Fintype T]
  {allowed : History T (Memory T) Place Mutex Chan → State T → T → Prop}
  {history : History T (Memory T) Place Mutex Chan} {config : State T}

theorem isSmall (small : ∀ t, ∀ op ∈ calls t, Small op)
    (reached : Run (process layout) (start disk calls) allowed history config) (t : T) :
    (config.places t).IsSmall := by
  refine reached.located (fun _ place => place.IsSmall) (fun t => ⟨.inl (Nat.zero_le _), small t⟩) ?_ t
  intro _ config t place after next _ _ mine effect
  exact mine.effect effect

theorem pending (reached : Run (process layout) (start disk calls) allowed history config) (t : T) :
    (config.places t).Pending := by
  refine reached.located (fun _ place => place.Pending) (fun t => trivial) ?_ t
  intro _ config t place after next _ _ mine effect
  exact mine.effect effect

/-- The slots that are kept free for a process. -/
def reserve (lh : List Nat) (_ : T) (place : Place) : Int := if place.point.isOpen then need lh place.op else 0

omit [DecidableEq T] [Fintype T] in
theorem reserve_nonneg (lh : List Nat) (t : T) (place : Place) : 0 ≤ reserve lh t place := by
  unfold reserve
  split
  · exact Int.natCast_nonneg _
  · exact le_rfl

/-- The header and the slots that are kept free fit into the log. -/
def Reserved (places : T → Place) (memory : Memory T) : Prop :=
  memory.lh.length + ∑ t, reserve memory.lh t (places t) ≤ logSize

/-- A process that goes on needs no more than before. -/
theorem Reserved.move {places : T → Place} {memory after : Memory T} {t : T} {next : Place}
    (reserved : Reserved places memory) (same : after.lh = memory.lh)
    (less : reserve memory.lh t next ≤ reserve memory.lh t (places t)) :
    Reserved (Function.update places t next) after := by
  have sum := sum_update (reserve memory.lh) places t next
  unfold Reserved at *
  rw [same, sum]
  omega

/-- The next system call is admitted when there are enough slots for all that are open. -/
theorem Reserved.begin {places : T → Place} {memory after : Memory T} {t : T} {next : Place}
    (same : after.lh = memory.lh)
    (small : ∀ other, (places other).IsSmall) (smallNext : next.IsSmall) (closed : (places t).point.isOpen = false)
    (admitted : memory.lh.length + ((∑ other, weigh (fun _ (place : Place) => place.point.isOpen) other
      (places other)) + 1) *
      maxOpBlocks ≤ (logSize : Int)) : Reserved (Function.update places t next) after := by
  have each : ∀ (other : T) (place : Place), place.IsSmall →
      reserve memory.lh other place ≤ weigh (fun _ (place : Place) => place.point.isOpen) other
        place * maxOpBlocks := by
    intro other place isSmall
    unfold reserve weigh
    split
    · rw [one_mul]
      exact_mod_cast need_le isSmall.1
    · rw [zero_mul]
  have total : ∑ other, reserve memory.lh other (places other) ≤
      (∑ other, weigh (fun _ (place : Place) => place.point.isOpen) other (places other)) * maxOpBlocks := by
    rw [Finset.sum_mul]
    exact Finset.sum_le_sum fun other _ => each other _ (small other)
  have mine : reserve memory.lh t next ≤ maxOpBlocks := by
    unfold reserve
    split
    · exact_mod_cast need_le smallNext.1
    · exact Int.natCast_nonneg _
  have before : reserve memory.lh t (places t) = 0 := by
    simp [reserve, closed]
  have sum := sum_update (reserve memory.lh) places t next
  unfold Reserved
  rw [same, sum, before]
  linarith only [admitted, total, mine]

/-- A change uses a slot that is kept free for it. -/
theorem Reserved.logWrite {places : T → Place} {memory : Memory T} {t : T} {update : Update Nat Block}
    {op : List (Update Nat Block)} {rest : List (List (Update Nat Block))} (reserved : Reserved places memory)
    (here : places t = ⟨.writeAppend, update :: op, rest⟩) :
    Reserved (Function.update places t ⟨.releaseWrite, op, rest⟩) (memory.logWrite t update) := by
  have longer : memory.lh ⊆ (memory.logWrite t update).lh := by
    simp only [Memory.logWrite]
    split
    · exact List.Subset.refl _
    · exact List.subset_append_left _ _
  have fewer : ∀ other, other ≠ t →
      reserve (memory.logWrite t update).lh other (places other) ≤ reserve memory.lh other (places other) := by
    intro other _
    unfold reserve
    split
    · exact_mod_cast need_anti longer
    · exact le_rfl
  have sum := sum_update_le fewer ⟨.releaseWrite, op, rest⟩
  have used : (memory.logWrite t update).lh.length + need (memory.logWrite t update).lh op ≤
      memory.lh.length + need memory.lh (update :: op) := need_logWrite memory t
  have before : reserve memory.lh t (places t) = need memory.lh (update :: op) := by
    rw [here]
    rfl
  have after : reserve (memory.logWrite t update).lh t ⟨.releaseWrite, op, rest⟩ =
      need (memory.logWrite t update).lh op := rfl
  unfold Reserved at *
  rw [before, after] at sum
  zify at used
  linarith only [reserved, sum, used]

/-- The commit empties the header while no system call is open. -/
theorem Reserved.commitReset {places : T → Place} {after : Memory T} {t : T} {next : Place}
    (empty : after.lh = []) (closed : ∀ other, (Function.update places t next other).point.isOpen = false) :
    Reserved (Function.update places t next) after := by
  have none : ∑ other, reserve after.lh other (Function.update places t next other) = 0 :=
    Finset.sum_eq_zero fun other _ => by simp [reserve, closed other]
  unfold Reserved
  rw [none, empty]
  decide

theorem reserved (small : ∀ t, ∀ op ∈ calls t, Small op)
    (reached : Run (process layout) (start disk calls) allowed history config) :
    Reserved config.places config.memory := by
  refine reached.placed (fun _ places memory => Reserved places memory) ?_ (fun _ _ _ holds _ => holds) ?_
  · have none : ∑ t, reserve [] t ((start disk calls).places t) = 0 := Finset.sum_eq_zero fun t _ => rfl
    change (([] : List Nat).length : Int) + ∑ t, reserve [] t ((start disk calls).places t) ≤ logSize
    rw [none]
    decide
  · intro _ config t place after next before reserved _ here effect
    have guard := guarded before t
    rw [here] at guard
    have place_eq := Config.places_of_ready here
    have stays : ∀ {memory : Memory T} {point : Point}, memory.lh = config.memory.lh →
        (point.isOpen = true → place.point.isOpen = true) →
        Reserved (Function.update config.places t (place.go point)) memory := by
      intro memory point same outside
      refine reserved.move same ?_
      rw [place_eq]
      unfold reserve
      split
      · next isOpen => rw [if_pos (outside isOpen), Place.go]
      · exact reserve_nonneg _ t place
    obtain ⟨point, op, rest⟩ := place
    cases point with
    | idle =>
        cases rest <;> cases effect
        refine reserved.move rfl ?_
        exact reserve_nonneg _ _ _
    | beginCount =>
        cases effect
        have count := outstanding_eq before
        rw [← tally_weigh] at count
        have room := guard.2
        rw [count] at room
        have isSmall := isSmall small before
        exact Reserved.begin rfl isSmall (place_eq ▸ isSmall t) (by rw [place_eq]; rfl) room
    | writeAppend =>
        cases op with
        | nil =>
            cases effect
            exact stays rfl fun _ => rfl
        | cons update op =>
            cases effect
            exact reserved.logWrite place_eq
    | commitReset =>
        cases effect
        refine Reserved.commitReset rfl fun other => ?_
        by_cases same : other = t
        · subst same
          rw [Function.update_self]
          rfl
        · rw [Function.update_of_ne same]
          exact not_isOpen before (t := t) (by rw [place_eq]; rfl) other
    | endCount =>
        simp only [process, Instr.effect, Option.some.injEq] at effect
        split at effect
        · cases effect
          exact stays rfl fun _ => rfl
        · split at effect <;> cases effect <;> exact stays rfl fun _ => rfl
    | writeLog tail | installTrans tail =>
        simp only [process, Instr.effect, Option.some.injEq] at effect
        split at effect <;> cases effect <;> exact stays rfl (by rintro ⟨⟩)
    | inOp | writePanics | releaseBegin | acquireWrite | releaseWrite | acquireEnd =>
        cases effect
        exact stays rfl fun _ => rfl
    | beginTest =>
        cases effect
        refine stays rfl fun isOpen => ?_
        split at isOpen
        · cases isOpen
        · split at isOpen <;> cases isOpen
    | commitTest =>
        cases effect
        refine stays rfl fun isOpen => ?_
        split at isOpen <;> cases isOpen
    | logWritePanicked | endOpPanicked => cases effect
    | _ =>
        cases effect
        exact stays rfl (by rintro ⟨⟩)

/-- Small system calls never make the log panic when every reserved block has a slot. -/
theorem calm (small : ∀ t, ∀ op ∈ calls t, Small op) (large : logSize < layout.nlog)
    (reached : Run (process layout) (start disk calls) allowed history config) (t : T) :
    (config.places t).point.isPanic = false := by
  refine reached.located (fun _ place => place.point.isPanic = false) (fun t => rfl) ?_ t
  intro _ config t place after next before here mine effect
  have place_eq := Config.places_of_ready here
  obtain ⟨point, op, rest⟩ := place
  cases point with
  | idle => cases rest <;> cases effect; rfl
  | writePanics =>
      cases effect
      have some : op ≠ [] := by
        have := pending before t
        rwa [place_eq] at this
      obtain ⟨update, left, rfl⟩ := List.exists_cons_of_ne_nil some
      have one : 0 < reserve config.memory.lh t (config.places t) := by
        rw [place_eq]
        exact Int.natCast_pos.mpr need_pos
      have fits : reserve config.memory.lh t (config.places t) ≤ ∑ other, reserve config.memory.lh other
          (config.places other) :=
        Finset.single_le_sum (f := fun other => reserve config.memory.lh other (config.places other))
          (fun other _ => reserve_nonneg _ other _) (Finset.mem_univ t)
      have total := reserved small before
      have count := outstanding_eq before
      have isOpen : 0 < config.number fun _ place => place.point.isOpen :=
        number_pos (show (config.places t).point.isOpen = true by rw [place_eq]; rfl)
      unfold Reserved at total
      have room : config.memory.lh.length < logSize := by omega
      simp only [Place.go]
      rw [if_neg (by omega), if_neg (by omega)]
      rfl
  | endCount =>
      have idle := committing_eq_false before (t := t) (by rw [place_eq]; rfl)
      simp only [process, Instr.effect, Option.some.injEq, idle, Bool.false_eq_true, ↓reduceIte] at effect
      split at effect <;> cases effect <;> rfl
  | writeAppend => cases op <;> cases effect <;> rfl
  | writeLog tail | installTrans tail =>
      simp only [process, Instr.effect, Option.some.injEq] at effect
      split at effect <;> cases effect <;> rfl
  | beginTest =>
      cases effect
      simp only [Place.go]
      split
      · rfl
      · split <;> rfl
  | inOp | commitTest =>
      cases effect
      simp only [Place.go]
      split <;> rfl
  | logWritePanicked | endOpPanicked => cases effect
  | _ => cases effect; rfl

end

end OSLabs.Xv6.Log
