import OSLabs.Proof.Xv6.Vm.Processes

namespace OSLabs.Xv6.Vm

open Radix

section
variable {T : Type} [DecidableEq T] {machine : Machine} {memory : Memory} {state : State T}
  {view view' view'' base : View T} {page v n first : Nat} {p : T} {proc : Proc} {content : Fin 512 → Nat}
  {perm : Nat → Nat} {contents : Nat → Fin 512 → Nat}

theorem pages_zero : pages 0 = 0 := rfl

omit [DecidableEq T] in
/-- Only the pages and the entries of one process change. -/
structure Keeps (view view' : View T) (p : T) : Prop where
  data : ∀ page role content, (∀ v, role ≠ .user p v) → role ≠ .trapframe p →
    (view'.data page = some (role, content) ↔ view.data page = some (role, content))
  entry : ∀ t v, t ≠ p → view'.entry t v = view.entry t v

namespace Keeps

omit [DecidableEq T] in
theorem refl : Keeps view view p := ⟨fun _ _ _ _ _ => Iff.rfl, fun _ _ _ => rfl⟩

omit [DecidableEq T] in
theorem trans (keeps : Keeps view view' p) (keeps' : Keeps view' view'' p) : Keeps view view'' p where
  data page role content notUser notFrame :=
    (keeps'.data page role content notUser notFrame).trans (keeps.data page role content notUser notFrame)
  entry t v different := (keeps'.entry t v different).trans (keeps.entry t v different)

theorem clear : Keeps view (view.clear p first n) p where
  data page role content notUser _ := by
    rw [View.clear_data]
    exact and_iff_left fun v isUser => absurd isUser (notUser v)
  entry t v different := by rw [View.clear_entry, if_neg fun both => different both.1]

omit [DecidableEq T] in
/-- A page of the process is written. -/
theorem put {role : Role T} (here : view.data page = some (role, content))
    (own : (∃ v, role = .user p v) ∨ role = .trapframe p)
    (new : Fin 512 → Nat) : Keeps view (view.put page role new) p where
  data other role' content' notUser notFrame := by
    by_cases equal : other = page
    · rw [equal, View.put_data_self, here]
      have different : role ≠ role' := by
        rintro rfl
        obtain ⟨v, rfl⟩ | rfl := own
        · exact notUser v (rfl)
        · exact notFrame (rfl)
      exact iff_of_false (fun same => different (Prod.mk.inj (Option.some.inj same)).1)
        fun same => different (Prod.mk.inj (Option.some.inj same)).1
    · rw [View.put_data_of_ne equal]
  entry _ _ _ := rfl

theorem fresh {trapframe : Nat} (idle : view.data trapframe = none) :
    Keeps view ((view.put trapframe (.trapframe p) content).fresh machine p trapframe) p where
  data page role content' _ notFrame := by
    have data_eq : ((view.put trapframe (.trapframe p) content).fresh machine p trapframe).data page =
        (view.put trapframe (.trapframe p) content).data page := rfl
    rw [data_eq]
    by_cases equal : page = trapframe
    · rw [equal, View.put_data_self, idle]
      refine iff_of_false (fun same => notFrame ?_) (by rintro ⟨⟩)
      exact (Prod.mk.inj (Option.some.inj same)).1.symm
    · rw [View.put_data_of_ne equal]
  entry t v different := by
    rw [View.fresh_entry, if_neg fun both => different both.1, if_neg fun both => different both.1, View.put_entry]

omit [DecidableEq T] in
theorem drop (here : view.data page = some (.trapframe p, content)) : Keeps view (view.drop page) p where
  data other role content' _ notFrame := by
    by_cases equal : other = page
    · rw [equal, View.drop_data_self, here]
      refine iff_of_false (by rintro ⟨⟩) fun same => notFrame ?_
      exact (Prod.mk.inj (Option.some.inj same)).1.symm
    · rw [View.drop_data_of_ne equal]
  entry _ _ _ := rfl

end Keeps

/-- More pages for a process change no page with another role. -/
theorem Extended.data_other {role : Role T} (extended : Extended base view p first n perm contents)
    (notUser : ∀ v, role ≠ .user p v) :
    view.data page = some (role, content) ↔ base.data page = some (role, content) := by
  rw [← extended.rest, View.clear_data]
  exact (and_iff_left fun v isUser => absurd isUser (notUser v)).symm

theorem Extended.keeps (extended : Extended base view p first n perm contents) : Keeps base view p where
  data _ _ _ notUser _ := extended.data_other notUser
  entry _ _ different := extended.entry_base fun both => different both.1

theorem flag_set {perm i : Nat} (isSet : perm / 2 ^ i % 2 = 1) :
    (pa2pte page ||| perm ||| pteV) / 2 ^ i % 2 = 1 := by
  rw [← Nat.shiftRight_eq_div_pow, Nat.mod_two_eq_one_iff_testBit_zero] at isSet ⊢
  rw [Nat.shiftRight_or_distrib, Nat.shiftRight_or_distrib, Nat.testBit_or, Nat.testBit_or, isSet,
    Bool.or_true, Bool.true_or]

/-- A user page keeps the flags for which it is mapped. -/
theorem userFlags {perm : Nat} (isUser : perm / pteU % 2 = 1 ∧ perm / pteW % 2 = 1) :
    (pa2pte page ||| perm ||| pteV) / pteU % 2 = 1 ∧ (pa2pte page ||| perm ||| pteV) / pteW % 2 = 1 := by
  have user : pteU = 2 ^ 4 := rfl
  have writable : pteW = 2 ^ 2 := rfl
  rw [user, writable] at *
  exact ⟨flag_set isUser.1, flag_set isUser.2⟩

/-- An address space with more pages is an address space. -/
theorem Extended.space {root : T → Option Nat} {trapframe : Nat}
    (extended : Extended base view p first n perm contents)
    (models : Models machine memory root view) (space : Space machine base p trapframe first)
    (flags : ∀ v, first ≤ v → v < first + n → perm v / pteU % 2 = 1 ∧ perm v / pteW % 2 = 1) :
    Space machine view p trapframe (first + n) := by
  have user : ∀ v, v < first + n → ∃ page content, view.data page = some (.user p v, content) := by
    intro v inner
    by_cases old : v < first
    · obtain ⟨page, content, here⟩ := space.user v old
      exact ⟨page, content, extended.data_base here⟩
    · obtain ⟨page, here, -⟩ := extended.mapped v (Nat.le_of_not_lt old) inner
      exact ⟨page, contents v, here⟩
  have few := models.bounded user
  have end_eq : userEnd = 2 ^ 26 - 2 := rfl
  refine ⟨user, fun v inner => ?_, ?_, ?_, fun v outer notEnd notNext => ?_⟩
  · by_cases old : v < first
    · rw [extended.entry_base (by omega)]
      exact space.flags v old
    · obtain ⟨page, -, entry_eq⟩ := extended.mapped v (Nat.le_of_not_lt old) inner
      rw [entry_eq]
      exact userFlags (flags v (Nat.le_of_not_lt old) inner)
  · rw [extended.entry_base (by omega)]
    exact space.trapframe_eq
  · rw [extended.entry_base (by omega)]
    exact space.trampoline_eq
  · rw [extended.entry_base (by omega)]
    exact space.zero v (by omega) notEnd notNext

/-- The page tables of the processes. -/
def State.root (state : State T) (t : T) : Option Nat := (state.procs t).map Proc.pagetable

/-- The memory holds the address spaces of the processes,
their trapframes and the pages that other code has taken. -/
structure Sane (machine : Machine) (state : State T) (view : View T) : Prop where
  models : Models machine state.memory state.root view
  space : ∀ t proc, state.procs t = some proc → Space machine view t proc.trapframe (pages proc.sz)
  holds : ∀ t proc, state.procs t = some proc → ∃ content, view.data proc.trapframe = some (.trapframe t, content)
  trapframe : ∀ t page content, view.data page = some (.trapframe t, content) →
    ∃ proc, state.procs t = some proc ∧ proc.trapframe = page
  taken : ∀ page, page ∈ state.taken ↔ ∃ content, view.data page = some (.held, content)
  nodup : state.taken.Nodup

namespace Sane

omit [DecidableEq T] in
theorem isRoot (here : state.procs p = some proc) : state.root p = some proc.pagetable := by
  rw [State.root, here, Option.map_some]

omit [DecidableEq T] in
theorem unused (idle : state.procs p = none) : state.root p = none := by
  rw [State.root, idle, Option.map_none]

omit [DecidableEq T] in
/-- A user page belongs to a process. -/
theorem user_lt (sane : Sane machine state view) (here : state.procs p = some proc)
    (data : view.data page = some (.user p v, content)) : v < pages proc.sz := by
  have below := sane.models.user_below data
  by_contra outer
  have leads := (sane.models.user_iff below).mpr ⟨content, data⟩
  rw [(sane.space p proc here).zero v (Nat.le_of_not_lt outer) (by omega) (by omega), child_zero] at leads
  cases leads

omit [DecidableEq T] in
theorem alone (sane : Sane machine state view) (idle : state.procs p = none) (page v : Nat)
    (content : Fin 512 → Nat) :
    view.data page ≠ some (.user p v, content) := by
  intro here
  have leads := (sane.models.user_iff (sane.models.user_below here)).mpr ⟨content, here⟩
  rw [sane.models.entry_unused (unused idle), child_zero] at leads
  cases leads

theorem root_update {proc' : Option Proc} {memory' : Memory} :
    (State.root { state with memory := memory', procs := Function.update state.procs p proc' }) =
      Function.update state.root p (proc'.map Proc.pagetable) := by
  funext t
  by_cases same : t = p
  · subst same
    rw [Function.update_self]
    exact congrArg (Option.map Proc.pagetable) (Function.update_self ..)
  · rw [Function.update_of_ne same]
    exact congrArg (Option.map Proc.pagetable) (Function.update_of_ne same ..)

omit [DecidableEq T] in
theorem space_keeps {t : T} {trapframe : Nat} (keeps : Keeps view view' p) (different : t ≠ p)
    (space : Space machine view t trapframe n) : Space machine view' t trapframe n := by
  refine ⟨fun v inner => ?_, fun v inner => ?_, ?_, ?_, fun v outer notEnd notNext => ?_⟩
  · obtain ⟨page, content, here⟩ := space.user v inner
    refine ⟨page, content, (keeps.data page (.user t v) content (fun w same => ?_) (by rintro ⟨⟩)).mpr here⟩
    exact different (Role.user.inj same).1
  · rw [keeps.entry t v different]
    exact space.flags v inner
  · rw [keeps.entry t _ different]
    exact space.trapframe_eq
  · rw [keeps.entry t _ different]
    exact space.trampoline_eq
  · rw [keeps.entry t v different]
    exact space.zero v outer notEnd notNext

/-- A call that changes one process keeps the invariant when it does so for this process. -/
theorem change (sane : Sane machine state view) {memory' : Memory} {proc' : Option Proc}
    (keeps : Keeps view view' p)
    (models' : Models machine memory' (Function.update state.root p (proc'.map Proc.pagetable)) view')
    (own : ∀ proc, proc' = some proc → Space machine view' p proc.trapframe (pages proc.sz) ∧
      ∃ content, view'.data proc.trapframe = some (.trapframe p, content))
    (frame : ∀ page content, view'.data page = some (.trapframe p, content) → ∃ proc, proc' = some proc ∧
      proc.trapframe = page) :
    Sane machine { state with memory := memory', procs := Function.update state.procs p proc' } view' := by
  refine ⟨?_, fun t proc here => ?_, fun t proc here => ?_, fun t page content data => ?_, fun page => ?_,
    sane.nodup⟩
  all_goals dsimp only at *
  · rw [root_update]
    exact models'
  · by_cases same : t = p
    · subst same
      rw [Function.update_self] at here
      exact (own proc here).1
    · rw [Function.update_of_ne same] at here
      exact space_keeps keeps same (sane.space t proc here)
  · by_cases same : t = p
    · subst same
      rw [Function.update_self] at here
      exact (own proc here).2
    · rw [Function.update_of_ne same] at here
      obtain ⟨content, data⟩ := sane.holds t proc here
      exact ⟨content, (keeps.data _ _ _ (by rintro v ⟨⟩) fun equal => same (Role.trapframe.inj equal)).mpr data⟩
  · by_cases same : t = p
    · subst same
      rw [Function.update_self]
      exact frame page content data
    · rw [Function.update_of_ne same]
      refine sane.trapframe t page content ?_
      exact (keeps.data _ _ _ (by rintro v ⟨⟩) fun equal => same (Role.trapframe.inj equal)).mp data
  · rw [sane.taken]
    exact exists_congr fun content => (keeps.data page .held content (by rintro v ⟨⟩) (by rintro ⟨⟩)).symm

/-- The user pages and the entries of one process may change when its trapframe stays. -/
theorem change_user (sane : Sane machine state view) {memory' : Memory} (sz : Nat)
    (here : state.procs p = some proc)
    (keeps : Keeps view view' p) (models' : Models machine memory' state.root view')
    (frame : ∀ page content, view'.data page = some (.trapframe p, content) ↔
      view.data page = some (.trapframe p, content))
    (space : Space machine view' p proc.trapframe (pages sz)) :
    Sane machine
      { state with memory := memory', procs := Function.update state.procs p (some { proc with sz }) } view' := by
  refine sane.change keeps ?_ (fun proc' same => ?_) fun page content data => ?_
  · rw [Option.map_some, ← isRoot here, Function.update_eq_self]
    exact models'
  · cases same
    obtain ⟨content, data⟩ := sane.holds p proc here
    exact ⟨space, content, (frame _ content).mpr data⟩
  · obtain ⟨proc', there, trapframe_eq⟩ := sane.trapframe p page content ((frame page content).mp data)
    cases here.symm.trans there
    exact ⟨_, rfl, trapframe_eq⟩

/-- What `growproc` does to the pages of the process:
those below the new size stay, and new ones are filled with zeros. -/
structure Grown (view view' : View T) (p : T) (sz : Nat) : Prop where
  old : ∀ page v content, v < pages sz → view.data page = some (.user p v, content) →
    view'.data page = some (.user p v, content)
  new : ∀ page v content, view'.data page = some (.user p v, content) →
    view.data page = some (.user p v, content) ∨ content = fun _ => 0

/-- `growproc` with a positive number adds pages of zeros, or it fails and the view is the same. -/
theorem grow_up (sane : Sane machine state view) (here : state.procs p = some proc) {more : Nat}
    (positive : 0 < more) :
    ∃ sz memory' view', Vm.uvmalloc machine proc.pagetable proc.sz (proc.sz + more) pteW state.memory =
      some (sz, memory') ∧
      ((sz = 0 ∧ view' = view) ∨ sz = proc.sz + more) ∧
      Sane machine { state with
        memory := memory', procs :=
          Function.update state.procs p (some { proc with sz := if sz = 0 then proc.sz else sz }) } view' ∧
      Keeps view view' p ∧ Grown view view' p (if sz = 0 then proc.sz else sz) := by
  have space := sane.space p proc here
  have zero : ∀ v, pages proc.sz ≤ v → v < userEnd → view.entry p v = 0 := fun v outer below =>
    space.zero v outer (Nat.ne_of_lt below) (Nat.ne_of_lt (Nat.lt_succ_of_lt below))
  obtain ⟨memory', ⟨failed, models'⟩ | ⟨added, view', models', extended⟩⟩ :=
    sane.models.uvmalloc pteW (isRoot here)
    (Nat.le_add_right proc.sz more) (by decide) (by decide) space.user zero
  · refine ⟨0, memory', view, failed, .inl ⟨rfl, rfl⟩, ?_, Keeps.refl,
      ⟨fun _ _ _ _ data => data, fun _ _ _ data => .inl data⟩⟩
    exact sane.change_user _ here Keeps.refl models' (fun _ _ => Iff.rfl) space
  · have notZero : proc.sz + more ≠ 0 := by omega
    refine ⟨proc.sz + more, memory', view', added, .inr rfl, ?_, extended.keeps, ?_⟩
    · have count : pages proc.sz + (pages (proc.sz + more) - pages proc.sz) = pages (proc.sz + more) :=
        Nat.add_sub_cancel' (pages_mono (Nat.le_add_right proc.sz more))
      have space' := extended.space models' space fun _ _ _ => ⟨by decide, by decide⟩
      rw [count] at space'
      rw [if_neg notZero]
      exact sane.change_user _ here extended.keeps models' (fun page content =>
        extended.data_other (by rintro v ⟨⟩)) space'
    · refine ⟨fun page v content _ data => extended.data_base data, fun page v content data => ?_⟩
      by_cases inner : pages proc.sz ≤ v ∧ v < pages proc.sz + (pages (proc.sz + more) - pages proc.sz)
      · obtain ⟨other, data', -⟩ := extended.mapped v inner.1 inner.2
        have below := models'.user_below data
        have leads := (models'.user_iff below).mpr ⟨content, data⟩
        have leads' := (models'.user_iff below).mpr ⟨_, data'⟩
        cases leads.symm.trans leads'
        exact .inr (Prod.mk.inj (Option.some.inj (data.symm.trans data'))).2
      · refine .inl ?_
        rw [← extended.rest, View.clear_data]
        refine ⟨data, fun w isUser => ?_⟩
        cases isUser
        exact inner

/-- `uvmdealloc` takes away the pages that a smaller size does not need. -/
theorem shrink (sane : Sane machine state view) (here : state.procs p = some proc) (newsz : Nat) :
    ∃ memory' view', Vm.uvmdealloc machine proc.pagetable proc.sz newsz state.memory =
      some (min proc.sz newsz, memory') ∧
      Sane machine { state with
        memory := memory', procs :=
          Function.update state.procs p (some { proc with sz := min proc.sz newsz }) } view' ∧
      Keeps view view' p ∧ Grown view view' p (min proc.sz newsz) := by
  have space := sane.space p proc here
  have few := sane.models.space_few space
  have end_eq : userEnd = 2 ^ 26 - 2 := rfl
  obtain ⟨memory', deallocated, models'⟩ :=
    sane.models.uvmdealloc proc.sz newsz (isRoot here) fun v _ inner => space.user v inner
  have count : pages (min proc.sz newsz) = min (pages proc.sz) (pages newsz) := by
    rcases Nat.le_total proc.sz newsz with less | less
    · rw [Nat.min_eq_left less, Nat.min_eq_left (pages_mono less)]
    · rw [Nat.min_eq_right less, Nat.min_eq_right (pages_mono less)]
  refine ⟨memory', view.clear p (pages newsz) (pages proc.sz - pages newsz), deallocated, ?_, Keeps.clear,
    fun page v content inner data => ?_, fun page v content data => ?_⟩
  · refine sane.change_user _ here Keeps.clear models' (fun page content => ?_) ?_
    · rw [View.clear_data]
      exact and_iff_left fun v isUser => nomatch isUser
    · rw [count]
      refine ⟨fun v inner => ?_, fun v inner => ?_, ?_, ?_, fun v outer notEnd notNext => ?_⟩
      · obtain ⟨page, content, data⟩ := space.user v (by omega)
        refine ⟨page, content, View.clear_data.mpr ⟨data, fun w same => ?_⟩⟩
        cases same
        omega
      · rw [View.clear_entry, if_neg (by omega)]
        exact space.flags v (by omega)
      · rw [View.clear_entry, if_neg (by omega)]
        exact space.trapframe_eq
      · rw [View.clear_entry, if_neg (by omega)]
        exact space.trampoline_eq
      · rw [View.clear_entry]
        split
        · rfl
        · next other =>
            refine space.zero v ?_ notEnd notNext
            by_contra inner
            exact other ⟨rfl, by omega, by omega⟩
  · rw [count] at inner
    refine View.clear_data.mpr ⟨data, fun w same => ?_⟩
    cases same
    omega
  · exact .inl (View.clear_data.mp data).1

/-- `allocproc` adds a process of size 0, or the view is the same. -/
theorem alloc (sane : Sane machine state view) (idle : state.procs p = none) :
    ∃ child memory' view', Vm.allocproc machine state.memory = some (child, memory') ∧
      Sane machine { state with memory := memory', procs := Function.update state.procs p child } view' ∧
      Keeps view view' p ∧
      ((child = none ∧ view' = view) ∨ ∃ pagetable trapframe content, child = some ⟨pagetable, trapframe, 0⟩ ∧
        view.data trapframe = none ∧ view' = (view.put trapframe (.trapframe p) content).fresh
          machine p trapframe) := by
  have nothing : ∀ page content, view.data page ≠ some (.trapframe p, content) := by
    intro page content here
    obtain ⟨proc, there, -⟩ := sane.trapframe p page content here
    cases idle.symm.trans there
  obtain ⟨memory', ⟨failed, models'⟩ | ⟨pagetable, trapframe, content, made, free, models'⟩⟩ :=
    sane.models.allocproc (unused idle)
  · refine ⟨none, memory', view, failed, ?_, Keeps.refl, .inl ⟨rfl, rfl⟩⟩
    refine sane.change Keeps.refl ?_ (by rintro proc ⟨⟩) fun page content here =>
      absurd here (nothing page content)
    rw [Option.map_none, ← unused idle, Function.update_eq_self]
    exact models'
  · have keeps : Keeps view ((view.put trapframe (.trapframe p) content).fresh machine p trapframe) p :=
      Keeps.fresh free
    refine ⟨_, memory', _, made, ?_, keeps, .inr ⟨pagetable, trapframe, content, rfl, free, rfl⟩⟩
    refine sane.change keeps models' (fun proc same => ?_) fun page content' here => ?_
    · cases same
      have space : Space machine ((view.put trapframe (.trapframe p) content).fresh machine p trapframe) p
          trapframe (pages 0) := by
        rw [pages_zero]
        exact Space.fresh fun v => sane.models.entry_unused (unused idle)
      exact ⟨space, content, View.put_data_self⟩
    · refine ⟨_, rfl, ?_⟩
      by_contra different
      exact nothing page content' ((View.put_data_of_ne fun equal => different equal.symm).symm.trans here)

/-- `freeproc` takes a process away. -/
theorem free (sane : Sane machine state view) (here : state.procs p = some proc) :
    ∃ memory', Vm.freeproc machine proc state.memory = some memory' ∧
      Sane machine { state with memory := memory', procs := Function.update state.procs p none }
        ((view.drop proc.trapframe).without p) ∧ Keeps view ((view.drop proc.trapframe).without p) p := by
  obtain ⟨content, data⟩ := sane.holds p proc here
  obtain ⟨memory', freed, models'⟩ := sane.models.freeproc (isRoot here) (sane.space p proc here) data
  have keeps : Keeps view ((view.drop proc.trapframe).without p) p := (Keeps.drop data).trans Keeps.clear
  refine ⟨memory', freed, ?_, keeps⟩
  refine sane.change keeps models' (by rintro proc ⟨⟩) fun page content' there => ?_
  rw [View.without, View.clear_data] at there
  by_cases equal : page = proc.trapframe
  · rw [equal, View.drop_data_self] at there
    cases there.1
  · rw [View.drop_data_of_ne equal] at there
    obtain ⟨proc', here', trapframe_eq⟩ := sane.trapframe p page content' there.1
    cases here.symm.trans here'
    exact absurd trapframe_eq.symm equal

/-- The pages of a new process have the contents of the pages of its parent. -/
def Copied (view view' : View T) (p np : T) (sz : Nat) : Prop :=
  ∀ v, v < pages sz → ∃ page page' content, view.data page = some (.user p v, content) ∧
    view'.data page' = some (.user np v, content) ∧ page ≠ page'

/-- `fork` adds a copy of a process, or the view is the same. -/
theorem fork {np : T} (sane : Sane machine state view) (here : state.procs p = some proc)
    (idle : state.procs np = none) :
    ∃ next view', state.fire machine (.fork p np) = some next ∧ Sane machine next view' ∧ Keeps view view' np ∧
      ((next.procs = state.procs ∧ view' = view) ∨ (Copied view view' p np proc.sz ∧
        ∃ child, next.procs = Function.update state.procs np (some child) ∧ child.sz = proc.sz)) := by
  have different : p ≠ np := by
    rintro rfl
    cases here.symm.trans idle
  obtain ⟨child, memory₁, view₁, made, sane₁, keeps₁, ⟨rfl, rfl⟩ | ⟨pagetable, trapframe, content, rfl, free, view_eq⟩⟩ :=
    sane.alloc idle
  · refine ⟨_, _, ?_, sane₁, keeps₁, .inl ⟨?_, rfl⟩⟩
    · rw [← idle, Function.update_eq_self]
      simp only [State.fire, here, made, Option.bind_eq_bind, Option.bind_some, Option.pure_def]
    · exact idle ▸ Function.update_eq_self np state.procs
  · have space := sane.space p proc here
    have space₁ := Sane.space_keeps keeps₁ different space
    have isOld : Function.update state.root np (some pagetable) p = some proc.pagetable := by
      rw [Function.update_of_ne different, isRoot here]
    have isNew : Function.update state.root np (some pagetable) np = some pagetable := Function.update_self ..
    have models₁ : Models machine memory₁ (Function.update state.root np (some pagetable)) view₁ := by
      have models₁ := sane₁.models
      rw [root_update] at models₁
      exact models₁
    have own : Space machine view₁ np trapframe (pages 0) :=
      sane₁.space np ⟨pagetable, trapframe, 0⟩ (Function.update_self ..)
    have source : ∀ v, ∃ content, v < pages proc.sz → ∃ page, view₁.data page = some (.user p v, content) := by
      intro v
      by_cases inner : v < pages proc.sz
      · obtain ⟨page, content, data⟩ := space₁.user v inner
        exact ⟨content, fun _ => ⟨page, data⟩⟩
      · exact ⟨fun _ => 0, fun inner' => absurd inner' inner⟩
    choose contents source using source
    have zero : ∀ v, v < userEnd → view₁.entry np v = 0 := fun v below =>
      own.zero v (pages_zero ▸ Nat.zero_le v) (Nat.ne_of_lt below) (Nat.ne_of_lt (Nat.lt_succ_of_lt below))
    have frame : view₁.data trapframe = some (.trapframe np, content) := by
      rw [view_eq]
      exact View.put_data_self
    have kept : Function.update state.procs np none = state.procs := idle ▸ Function.update_eq_self np state.procs
    obtain ⟨memory₂, ⟨failed, models₂⟩ | ⟨copied, view₂, models₂, extended⟩⟩ :=
      models₁.uvmcopy isOld isNew different source zero
    · obtain ⟨memory₃, freed, models₃⟩ :=
        @Models.freeproc _ _ _ _ _ _ _ _ ⟨pagetable, trapframe, 0⟩ models₂ isNew own frame
      have same : (view₁.drop trapframe).without np = view := by
        rw [view_eq]
        exact View.without_fresh free (fun v => sane.models.entry_unused (unused idle)) (sane.alone idle)
      rw [Function.update_idem] at models₃
      dsimp only at models₃
      rw [same] at models₃
      have sane₃ : Sane machine { state with memory := memory₃, procs := Function.update state.procs np none }
          view := by
        refine sane.change Keeps.refl models₃ (by rintro proc ⟨⟩) fun page content data => ?_
        obtain ⟨proc', there, -⟩ := sane.trapframe np page content data
        cases idle.symm.trans there
      rw [kept] at sane₃
      refine ⟨_, _, ?_, sane₃, Keeps.refl, .inl ⟨rfl, rfl⟩⟩
      simp only [State.fire, here, made, failed, freed, Option.bind_eq_bind, Option.bind_some,
        Option.pure_def, Bool.false_eq_true,
        if_false]
    · have space₂ : Space machine view₂ np trapframe (pages proc.sz) := by
        have space₂ := extended.space models₂ (pages_zero ▸ own) fun v _ inner => ?_
        · rw [Nat.zero_add] at space₂
          exact space₂
        · rw [Nat.zero_add] at inner
          have isUser := space₁.flags v inner
          unfold pteFlags
          unfold pteU pteW at *
          omega
      have frame₂ : view₂.data trapframe = some (.trapframe np, content) :=
        (extended.data_other (by rintro v ⟨⟩)).mpr frame
      have sane₂ : Sane machine { state with
          memory := memory₂, procs := Function.update state.procs np (some ⟨pagetable, trapframe, proc.sz⟩) }
            view₂ := by
        refine sane.change (keeps₁.trans extended.keeps) models₂ (fun proc' same => ?_)
          fun page content' data => ?_
        · cases same
          exact ⟨space₂, content, frame₂⟩
        · obtain ⟨proc', there, trapframe_eq⟩ :=
            sane₁.trapframe np page content' ((extended.data_other (by rintro v ⟨⟩)).mp data)
          dsimp only at there
          rw [Function.update_self] at there
          cases there
          exact ⟨_, rfl, trapframe_eq⟩
      refine ⟨_, _, ?_, sane₂, keeps₁.trans extended.keeps, .inr ⟨fun v inner => ?_, _, rfl, rfl⟩⟩
      · simp only [State.fire, here, made, copied, Option.bind_eq_bind, Option.bind_some, Option.pure_def, if_true]
      · obtain ⟨page, data⟩ := source v inner
        obtain ⟨page', data', -⟩ := extended.mapped v (Nat.zero_le v) ((Nat.zero_add (pages proc.sz)).symm ▸ inner)
        refine ⟨page, page', contents v, (keeps₁.data page _ _ (fun w same => ?_) (by rintro ⟨⟩)).mp data,
          data', ?_⟩
        · exact different (Role.user.inj same).1
        · rintro rfl
          cases (extended.data_base data).symm.trans data'
          exact different rfl

omit [DecidableEq T] in
/-- Only the entries of the user pages allow access by the program. -/
theorem lt_of_user (sane : Sane machine state view) (here : state.procs p = some proc)
    (valid : view.entry p v % 2 = pteV)
    (isUser : view.entry p v / pteU % 2 = 1) : v < pages proc.sz := by
  have space := sane.space p proc here
  by_contra outer
  by_cases isEnd : v = userEnd
  · rw [isEnd, space.trapframe_eq, trapframePte, pte_eq (by decide)] at isUser
    have flags : pteR ||| pteW ||| pteV = 7 := rfl
    rw [flags] at isUser
    unfold pteU at isUser
    omega
  by_cases isNext : v = userEnd + 1
  · rw [isNext, space.trampoline_eq, trampolinePte, pte_eq (by decide)] at isUser
    have flags : pteR ||| pteX ||| pteV = 11 := rfl
    rw [flags] at isUser
    unfold pteU at isUser
    omega
  rw [space.zero v (Nat.le_of_not_lt outer) isEnd isNext] at valid
  cases valid

omit [DecidableEq T] in
/-- `walkaddr` finds the user pages of a process. -/
theorem walkaddr_iff {va : Nat} (sane : Sane machine state view) (here : state.procs p = some proc) :
    walkaddr proc.pagetable va state.memory = some page ↔
      ∃ content, view.data page = some (.user p (va / pgSize), content) := by
  have end_eq : userEnd = 2 ^ 26 - 2 := rfl
  by_cases few : va / pgSize < 2 ^ 26
  · rw [walkaddr, walk_lookup (isRoot here) few]
    constructor
    · intro found
      cases located : locate child state.memory.words state.root p (way (va / pgSize)) with
      | none =>
          rw [located] at found
          cases found
      | some table =>
          simp only [located, Option.bind_eq_bind, Option.bind_some, Option.map_some,
            sane.models.entry_at (wide few) located] at found
          split at found
          · cases found
          · split at found
            · cases found
            · next valid isUser =>
                have inner := sane.lt_of_user here (not_not.mp valid) (by omega)
                obtain ⟨other, content, data⟩ := (sane.space p proc here).user _ inner
                have leads := (sane.models.user_iff (sane.models.user_below data)).mpr ⟨content, data⟩
                rw [(child_eq_some.mp leads).2, Option.some.injEq] at found
                exact ⟨content, found ▸ data⟩
    · rintro ⟨content, data⟩
      have leads := (sane.models.user_iff (sane.models.user_below data)).mpr ⟨content, data⟩
      obtain ⟨valid, pa⟩ := child_eq_some.mp leads
      have isUser := ((sane.space p proc here).flags _ (sane.user_lt here data)).1
      obtain ⟨table, located, word_eq⟩ := sane.models.table_of_valid few valid
      simp only [located, word_eq, valid, pa, isUser, Option.bind_eq_bind, Option.bind_some, Option.map_some,
        ne_eq, not_true_eq_false,
        if_false, one_ne_zero]
  · refine iff_of_false (fun found => ?_) ?_
    · have high : va ≥ maxVa := by unfold maxVa; unfold pgSize at few; omega
      rw [walkaddr, walk, if_pos high] at found
      cases found
    · rintro ⟨content, data⟩
      have below := sane.models.user_below data
      omega

omit [DecidableEq T] in
/-- A store of the program goes to one of its pages, or it changes nothing. -/
theorem userStore (sane : Sane machine state view) (here : state.procs p = some proc) {va word : Nat}
    {memory' : Memory}
    (stored : Vm.userStore proc.pagetable va word state.memory = some memory') :
    ∃ page content, view.data page = some (.user p (va / pgSize), content) ∧
      memory' = { state.memory with
        words := Function.update state.memory.words page (Function.update content (index (va / 8)) word) } := by
  by_cases few : va / pgSize < 2 ^ 26
  · rw [Vm.userStore, walk_lookup (isRoot here) few] at stored
    cases located : locate child state.memory.words state.root p (way (va / pgSize)) with
    | none =>
        rw [located] at stored
        cases stored
    | some table =>
        simp only [located, Option.bind_eq_bind, Option.bind_some, Option.map_some,
          sane.models.entry_at (wide few) located] at stored
        split at stored
        · next flags =>
            obtain ⟨page, content, data⟩ :=
              (sane.space p proc here).user _ (sane.lt_of_user here flags.1 flags.2.2)
            have leads := (sane.models.user_iff (sane.models.user_below data)).mpr ⟨content, data⟩
            rw [(child_eq_some.mp leads).2, Option.some.injEq] at stored
            refine ⟨page, content, data, stored ▸ ?_⟩
            rw [Memory.setWord, store, sane.models.content_eq data]
        · cases stored
  · have high : va ≥ maxVa := by unfold maxVa; unfold pgSize at few; omega
    rw [Vm.userStore, walk, if_pos high] at stored
    cases stored

omit [DecidableEq T] in
/-- A store of the program to one of its pages succeeds. -/
theorem userStore_eq (sane : Sane machine state view) (here : state.procs p = some proc) {va : Nat} (word : Nat)
    (data : view.data page = some (.user p (va / pgSize), content)) :
    Vm.userStore proc.pagetable va word state.memory = some { state.memory with
      words := Function.update state.memory.words page (Function.update content (index (va / 8)) word) } := by
  have end_eq : userEnd = 2 ^ 26 - 2 := rfl
  have below := sane.models.user_below data
  have few : va / pgSize < 2 ^ 26 := by omega
  obtain ⟨valid, pa⟩ := child_eq_some.mp ((sane.models.user_iff below).mpr ⟨content, data⟩)
  obtain ⟨isUser, writable⟩ := (sane.space p proc here).flags _ (sane.user_lt here data)
  obtain ⟨table, located, word_eq⟩ := sane.models.table_of_valid few valid
  rw [Vm.userStore, walk_lookup (isRoot here) few]
  simp only [located, word_eq, valid, pa, isUser, writable, Option.bind_eq_bind, Option.bind_some,
    Option.map_some, and_self, if_true]
  rw [Memory.setWord, Radix.store, sane.models.content_eq data]

omit [DecidableEq T] in
/-- The contents of pages do not matter for an address space. -/
theorem space_data {t : T} {trapframe : Nat} (space : Space machine view t trapframe n)
    (entry_eq : view'.entry = view.entry)
    (user : ∀ page v content, view.data page = some (.user t v, content) →
      ∃ content', view'.data page = some (.user t v, content')) :
    Space machine view' t trapframe n := by
  refine ⟨fun v inner => ?_, ?_, ?_, ?_, ?_⟩
  · obtain ⟨page, content, data⟩ := space.user v inner
    exact ⟨page, user page v content data⟩
  all_goals rw [entry_eq]
  · exact space.flags
  · exact space.trapframe_eq
  · exact space.trampoline_eq
  · exact space.zero

/-- A store of the program changes nothing for other processes. -/
theorem store (sane : Sane machine state view) (here : state.procs p = some proc) (va word : Nat) :
    ∃ next view', state.fire machine (.store p va word) = some next ∧ Sane machine next view' ∧
      Keeps view view' p ∧
      next.procs = state.procs ∧ ∀ page v, (∃ content, view'.data page = some (.user p v, content)) ↔
        ∃ content, view.data page = some (.user p v, content) := by
  cases stored : Vm.userStore proc.pagetable va word state.memory with
  | none =>
      refine ⟨state, view, ?_, sane, Keeps.refl, rfl, fun _ _ => Iff.rfl⟩
      simp only [State.fire, here, stored, Option.bind_eq_bind, Option.bind_some, Option.pure_def,
        Option.getD_none]
  | some memory' =>
      obtain ⟨page, content, data, rfl⟩ := sane.userStore here stored
      have models' := sane.models.write data (Function.update content (index (va / 8)) word)
      have keeps := Keeps.put data (.inl ⟨va / pgSize, rfl⟩) (Function.update content (index (va / 8)) word)
      have sane' := sane.change_user proc.sz here keeps models' (fun other content' => ?_) ?_
      · have same : Function.update state.procs p (some proc) = state.procs :=
          here ▸ Function.update_eq_self p state.procs
        rw [same] at sane'
        refine ⟨_, _, ?_, sane', keeps, rfl, fun other v => ?_⟩
        · simp only [State.fire, here, stored, Option.bind_eq_bind, Option.bind_some, Option.pure_def,
            Option.getD_some]
        · by_cases equal : other = page
          · rw [equal, View.put_data_self, data]
            simp only [Option.some.injEq, Prod.mk.injEq, exists_and_left, exists_eq', and_true]
          · rw [View.put_data_of_ne equal]
      · by_cases equal : other = page
        · rw [equal, View.put_data_self, data]
          exact iff_of_false (by rintro ⟨⟩) (by rintro ⟨⟩)
        · rw [View.put_data_of_ne equal]
      · refine space_data (sane.space p proc here) rfl fun other v content' there => ?_
        by_cases equal : other = page
        · subst equal
          cases data.symm.trans there
          exact ⟨_, View.put_data_self⟩
        · exact ⟨content', (View.put_data_of_ne equal).trans there⟩

omit [DecidableEq T] in
/-- Other kernel code takes pages and gives them back without a change for the processes. -/
theorem others (sane : Sane machine state view) {memory' : Memory} {taken : List Nat}
    (models' : Models machine memory' state.root view')
    (entry_eq : view'.entry = view.entry)
    (data : ∀ page role content, role ≠ .held → (view'.data page = some (role, content) ↔
      view.data page = some (role, content)))
    (taken_iff : ∀ page, page ∈ taken ↔ ∃ content, view'.data page = some (.held, content)) (nodup : taken.Nodup) :
    Sane machine { state with memory := memory', taken } view' := by
  refine ⟨models', fun t proc here => ?_, fun t proc here => ?_, fun t page content there => ?_, taken_iff, nodup⟩
  · refine space_data (sane.space t proc here) entry_eq fun page v content there => ⟨content, ?_⟩
    exact (data page _ content (by rintro ⟨⟩)).mpr there
  · obtain ⟨content, there⟩ := sane.holds t proc here
    exact ⟨content, (data _ _ content (by rintro ⟨⟩)).mpr there⟩
  · exact sane.trapframe t page content ((data page _ content (by rintro ⟨⟩)).mp there)

omit [DecidableEq T] in
theorem take (sane : Sane machine state view) {memory' : Memory}
    (taken : Vm.kalloc state.memory = some (page, memory')) :
    view.data page = none ∧ Sane machine { state with memory := memory', taken := page :: state.taken }
      (view.put page .held fun _ => 0x0505050505050505) := by
  obtain ⟨idle, models'⟩ := sane.models.kalloc taken
  refine ⟨idle, sane.others models' rfl (fun other role content notHeld => ?_) (fun other => ?_)
    (List.nodup_cons.mpr ⟨?_, sane.nodup⟩)⟩
  · by_cases equal : other = page
    · rw [equal, View.put_data_self, idle]
      refine iff_of_false (fun same => notHeld ?_) (by rintro ⟨⟩)
      exact (Prod.mk.inj (Option.some.inj same)).1.symm
    · rw [View.put_data_of_ne equal]
  · by_cases equal : other = page
    · rw [equal]
      exact iff_of_true List.mem_cons_self ⟨_, View.put_data_self⟩
    · rw [List.mem_cons, or_iff_right equal, View.put_data_of_ne equal]
      exact sane.taken other
  · rw [sane.taken]
    rintro ⟨content, there⟩
    cases idle.symm.trans there

omit [DecidableEq T] in
theorem give (sane : Sane machine state view) (member : page ∈ state.taken) :
    ∃ memory', Vm.kfree machine page state.memory = some memory' ∧
      Sane machine { state with memory := memory', taken := state.taken.erase page } (view.drop page) := by
  obtain ⟨content, held⟩ := (sane.taken page).mp member
  obtain ⟨memory', freed, models'⟩ := sane.models.kfree held Use.held_plain
  refine ⟨memory', freed, sane.others models' rfl (fun other role content' notHeld => ?_) (fun other => ?_)
    (sane.nodup.erase page)⟩
  · by_cases equal : other = page
    · rw [equal, View.drop_data_self, held]
      refine iff_of_false (by rintro ⟨⟩) fun same => notHeld ?_
      exact (Prod.mk.inj (Option.some.inj same)).1.symm
    · rw [View.drop_data_of_ne equal]
  · rw [sane.nodup.mem_erase_iff]
    by_cases equal : other = page
    · rw [equal, View.drop_data_self]
      exact iff_of_false (fun both => both.1 rfl) (by rintro ⟨content, ⟨⟩⟩)
    · rw [and_iff_right equal, View.drop_data_of_ne equal]
      exact sane.taken other

end Sane

end

end OSLabs.Xv6.Vm
