import OSLabs.Proof.Transition.Run
import OSLabs.Proof.Xv6.Vm.Calls

namespace OSLabs.Xv6.Vm

open Radix Transition

section
variable {T : Type} [DecidableEq T] {machine : Machine} {memory : Memory} {words : Nat → Fin 512 → Nat}
  {state next : State T} {view view' : View T} {page v : Nat} {p q : T} {proc : Proc} {call : Call T}

/-- After `kinit` each page of the memory is free. -/
def bootUse (machine : Machine) (page : Nat) : Use T :=
  if machine.bottom ≤ page ∧ page < machine.top then .free else .role .outside

omit [DecidableEq T] in
/-- After `kinit` the state is in order. -/
theorem kinit_sane (started : kinit machine words = some memory) :
    ∃ view, Sane machine (State.start memory : State T) view := by
  have list : FreeList memory (List.range' machine.bottom (machine.top - machine.bottom)).reverse := by
    have empty : FreeList ⟨words, 0⟩ [] := .nil rfl
    by_cases any : machine.bottom ≤ machine.top
    · obtain ⟨memory', freed, list⟩ := empty.freerange (Nat.le_refl machine.bottom)
        (Nat.le_of_eq (Nat.add_sub_cancel' any)) fun page member => absurd member List.not_mem_nil
      rw [kinit, freed, Option.some.injEq] at started
      rw [← started, ← List.append_nil (List.reverse _)]
      exact list
    · have nothing : machine.top - machine.bottom = 0 := by omega
      rw [kinit, nothing, freerange, Option.some.injEq] at started
      rw [← started, nothing]
      exact empty
  have others : ∀ page {wanted : Use T}, wanted ≠ .free → wanted ≠ .role .outside →
      bootUse machine page ≠ wanted := by
    intro page wanted notFree notOutside
    unfold bootUse
    split
    · exact notFree.symm
    · exact notOutside.symm
  have noRoot : ∀ t : T, (State.start memory).root t = none := fun _ => rfl
  have nothing : ∀ (t : T) v, entry memory.words (State.start memory : State T).root t v = 0 := fun t v =>
    entry_none (locate_unused (noRoot t))
  have tables : Tables memory.words (State.start memory : State T).root (bootUse machine) := by
    refine ⟨fun t path page _ => ?_, fun t path page there => ?_, fun t v page _ => ?_, fun t v page there => ?_,
      fun t path page i _ there => ?_, fun t v _ valid => ?_⟩
    · rw [locate_unused (noRoot t)]
      exact iff_of_false (by rintro ⟨⟩) (others page (by rintro ⟨⟩) (by rintro ⟨⟩))
    · exact absurd there (others page (by rintro ⟨⟩) (by rintro ⟨⟩))
    · rw [nothing]
      exact iff_of_false (by rintro ⟨⟩) (others page (by rintro ⟨⟩) (by rintro ⟨⟩))
    · exact absurd there (others page (by rintro ⟨⟩) (by rintro ⟨⟩))
    · exact absurd there (others page (by rintro ⟨⟩) (by rintro ⟨⟩))
    · rw [nothing] at valid
      cases valid
  refine ⟨View.of memory.words (State.start memory : State T).root (bootUse machine),
    ⟨bootUse machine, ⟨tables, ⟨_, list, fun page => ?_⟩, fun page => ?_⟩, rfl⟩,
    fun t proc here => ?_, fun t proc here => ?_, fun t page content here => ?_, fun page => ?_, List.nodup_nil⟩
  · unfold bootUse
    rw [List.mem_reverse, List.mem_range'_1]
    split
    · exact iff_of_true (by omega) rfl
    · exact iff_of_false (by omega) (by rintro ⟨⟩)
  · unfold bootUse
    split
    · next inside => exact iff_of_false (by rintro ⟨⟩) (not_not.mpr inside)
    · next outer => exact iff_of_true rfl outer
  · cases here
  · cases here
  · exact absurd (View.of_data.mp here).1 (others page (by rintro ⟨⟩) (by rintro ⟨⟩))
  · refine iff_of_false (by rintro ⟨⟩) ?_
    rintro ⟨content, here⟩
    exact others page (by rintro ⟨⟩) (by rintro ⟨⟩) (View.of_data.mp here).1

/-- The process whose memory a call changes. -/
def Call.target : Call T → Option T
  | .alloc p => some p
  | .grow p _ => some p
  | .fork _ np => some np
  | .free p => some p
  | .store p _ _ => some p
  | .take => none
  | .give _ => none

omit [DecidableEq T] in
/-- The user pages of a process are the same. -/
structure Untouched (view view' : View T) (q : T) : Prop where
  entry : ∀ v, view'.entry q v = view.entry q v
  data : ∀ page v content, view'.data page = some (.user q v, content) ↔ view.data page = some (.user q v, content)

omit [DecidableEq T] in
theorem Keeps.untouched (keeps : Keeps view view' p) (different : q ≠ p) : Untouched view view' q where
  entry v := keeps.entry q v different
  data page v content := keeps.data page _ content (fun w same => different (Role.user.inj same).1) (by rintro ⟨⟩)

namespace Sane

/-- `growproc` changes the size, or it fails and the view is the same. -/
theorem grow (sane : Sane machine state view) (here : state.procs p = some proc) {n : Int} (bound : -2 ^ 31 ≤ n) :
    ∃ ok sz memory' view', growproc machine n proc state.memory = some (ok, sz, memory') ∧
      Sane machine
        { state with memory := memory', procs := Function.update state.procs p (some { proc with sz }) } view' ∧
      Keeps view view' p ∧ Grown view view' p sz ∧ (ok = false → sz = proc.sz ∧ view' = view) ∧
      (ok = true → (sz : Int) = if 0 ≤ (proc.sz : Int) + n then (proc.sz : Int) + n else proc.sz) := by
  unfold growproc
  by_cases positive : n > 0
  · rw [if_pos positive]
    obtain ⟨sz, memory', view', result, outcome, sane', keeps, grown⟩ :=
      sane.grow_up here (Int.pos_iff_toNat_pos.mp positive)
    rw [result, Option.map_some]
    by_cases zero : sz = 0
    · rw [if_pos zero] at sane' grown
      refine ⟨false, proc.sz, memory', view', ?_, sane', keeps, grown, fun _ => ⟨rfl, ?_⟩, by rintro ⟨⟩⟩
      · dsimp only
        rw [if_pos zero]
      · exact outcome.elim (fun both => both.2) fun same => by omega
    · rw [if_neg zero] at sane' grown
      refine ⟨true, sz, memory', view', ?_, sane', keeps, grown, by rintro ⟨⟩, fun _ => ?_⟩
      · dsimp only
        rw [if_neg zero]
      · have same := outcome.resolve_left fun both => zero both.1
        rw [if_pos (by omega)]
        omega
  · rw [if_neg positive]
    by_cases negative : n < 0
    · rw [if_pos negative]
      obtain ⟨memory', view', result, sane', keeps, grown⟩ := sane.shrink here
        (if 0 ≤ (proc.sz : Int) + n then ((proc.sz : Int) + n).toNat else ((proc.sz : Int) + n + 2 ^ 64).toNat)
      refine ⟨true, _, memory', view', ?_, sane', keeps, grown, by rintro ⟨⟩, fun _ => ?_⟩
      · dsimp only
        rw [result, Option.map_some]
      · split
        · omega
        · omega
    · rw [if_neg negative]
      have same : Function.update state.procs p (some { proc with sz := proc.sz }) = state.procs :=
        here ▸ Function.update_eq_self p state.procs
      refine ⟨true, proc.sz, state.memory, view, rfl, same.symm ▸ sane, Keeps.refl,
        ⟨fun _ _ _ _ data => data, fun _ _ _ data => .inl data⟩, by rintro ⟨⟩, fun _ => ?_⟩
      rw [if_pos (by omega)]
      omega

/-- Each call succeeds, and it changes the memory of one process at most. -/
theorem fire (sane : Sane machine state view) (permitted : state.Allowed call) :
    ∃ next view', state.fire machine call = some next ∧ Sane machine next view' ∧
      ∀ q, call.target ≠ some q → next.procs q = state.procs q ∧ Untouched view view' q := by
  cases call with
  | alloc p =>
      obtain ⟨child, memory', view', made, sane', keeps, -⟩ := sane.alloc permitted
      refine ⟨_, view', ?_, sane', fun q different => ?_⟩
      · simp only [State.fire, made, Option.bind_eq_bind, Option.bind_some, Option.pure_def]
      · have apart : q ≠ p := fun same => different (congrArg some same.symm)
        exact ⟨Function.update_of_ne apart .., keeps.untouched apart⟩
  | grow p n =>
      obtain ⟨proc, here⟩ := Option.ne_none_iff_exists'.mp permitted.1
      obtain ⟨ok, sz, memory', view', grown, sane', keeps, -⟩ := sane.grow here permitted.2.1
      refine ⟨_, view', ?_, sane', fun q different => ?_⟩
      · simp only [State.fire, here, grown, Option.bind_eq_bind, Option.bind_some, Option.pure_def]
      · have apart : q ≠ p := fun same => different (congrArg some same.symm)
        exact ⟨Function.update_of_ne apart .., keeps.untouched apart⟩
  | fork p np =>
      obtain ⟨proc, here⟩ := Option.ne_none_iff_exists'.mp permitted.1
      obtain ⟨next, view', forked, sane', keeps, outcome⟩ := sane.fork here permitted.2
      refine ⟨next, view', forked, sane', fun q different => ?_⟩
      have apart : q ≠ np := fun same => different (congrArg some same.symm)
      refine ⟨?_, keeps.untouched apart⟩
      obtain ⟨same, -⟩ | ⟨-, child, same, -⟩ := outcome
      · rw [same]
      · rw [same, Function.update_of_ne apart]
  | free p =>
      obtain ⟨proc, here⟩ := Option.ne_none_iff_exists'.mp permitted
      obtain ⟨memory', freed, sane', keeps⟩ := sane.free here
      refine ⟨_, _, ?_, sane', fun q different => ?_⟩
      · simp only [State.fire, here, freed, Option.bind_eq_bind, Option.bind_some, Option.pure_def]
      · have apart : q ≠ p := fun same => different (congrArg some same.symm)
        exact ⟨Function.update_of_ne apart .., keeps.untouched apart⟩
  | store p va word =>
      obtain ⟨proc, here⟩ := Option.ne_none_iff_exists'.mp permitted
      obtain ⟨next, view', stored, sane', keeps, same, -⟩ := sane.store here va word
      exact ⟨next, view', stored, sane', fun q different =>
        ⟨congrFun same q, keeps.untouched fun equal => different (congrArg some equal.symm)⟩⟩
  | take =>
      cases taken : Vm.kalloc state.memory with
      | none =>
          refine ⟨state, view, ?_, sane, fun q _ => ⟨rfl, fun _ => rfl, fun _ _ _ => Iff.rfl⟩⟩
          simp only [State.fire, taken]
      | some result =>
          obtain ⟨idle, sane'⟩ := sane.take taken
          refine ⟨_, _, ?_, sane', fun q _ => ⟨rfl, fun _ => rfl, fun page v content => ?_⟩⟩
          · simp only [State.fire, taken]
          · by_cases equal : page = result.1
            · rw [equal, View.put_data_self, idle]
              exact iff_of_false (by rintro ⟨⟩) (by rintro ⟨⟩)
            · rw [View.put_data_of_ne equal]
  | give page =>
      obtain ⟨memory', freed, sane'⟩ := sane.give permitted
      obtain ⟨content, held⟩ := (sane.taken page).mp permitted
      refine ⟨_, _, ?_, sane', fun q _ => ⟨rfl, fun _ => rfl, fun other v content' => ?_⟩⟩
      · simp only [State.fire, freed, Option.map_some]
      · by_cases equal : other = page
        · rw [equal, View.drop_data_self, held]
          exact iff_of_false (by rintro ⟨⟩) (by rintro ⟨⟩)
        · rw [View.drop_data_of_ne equal]

end Sane

/-- The states that calls reach are in order. -/
theorem sane (started : kinit machine words = some memory)
    (reached : Reachable (State.fire machine) State.Allowed (State.start memory) state) :
    ∃ view, Sane machine state view := by
  refine reached.invariant (fun state => ∃ view, Sane machine state view) (kinit_sane started) ?_
  rintro state next call ⟨view, sane⟩ permitted fired
  obtain ⟨next', view', fired', sane', -⟩ := sane.fire permitted
  rw [fired, Option.some.injEq] at fired'
  exact ⟨view', fired' ▸ sane'⟩

/-- What a page of the memory belongs to. -/
inductive Owner (T : Type) where
  | free
  | taken
  | table (p : T) (path : List (Fin 512))
  | user (p : T) (v : Nat)
  | trapframe (p : T)

/-- A page is free, other kernel code has it, or it is in the address space of a process. -/
def State.Owns (state : State T) (page : Nat) : Owner T → Prop
  | .free => ∃ free, FreeList state.memory free ∧ page ∈ free
  | .taken => page ∈ state.taken
  | .table p path =>
      path.length ≤ 2 ∧ ∃ proc, state.procs p = some proc ∧
        find child state.memory.words proc.pagetable path = some page
  | .user p v => ∃ proc, state.procs p = some proc ∧ walkaddr proc.pagetable (v * pgSize) state.memory = some page
  | .trapframe p => ∃ proc, state.procs p = some proc ∧ proc.trapframe = page

/-- The use of a page that has an owner. -/
def Owner.use : Owner T → Use T
  | .free => .free
  | .taken => .role .held
  | .table p path => .table p path
  | .user p v => .role (.user p v)
  | .trapframe p => .role (.trapframe p)

omit [DecidableEq T] in
theorem Owner.use_injective {owner other : Owner T} (same : owner.use = other.use) : owner = other := by
  cases owner <;> cases other <;> simp_all [Owner.use]

omit [DecidableEq T] in
/-- The owner of a page is its use. -/
theorem Sane.owns_iff {use : Nat → Use T} (sane : Sane machine state (View.of state.memory.words state.root use))
    (sound : Sound machine state.memory state.root use) {owner : Owner T} : state.Owns page owner ↔
      use page = owner.use := by
  have data : ∀ role, (∃ content, (View.of state.memory.words state.root use).data page = some (role, content)) ↔
      use page = .role role := by
    intro role
    simp only [View.of_data, exists_and_left, exists_eq', and_true]
  cases owner with
  | free =>
      obtain ⟨free, list, mem_iff⟩ := sound.free
      rw [State.Owns, Owner.use, ← mem_iff]
      constructor
      · rintro ⟨free', list', member⟩
        rw [list.unique list']
        exact member
      · exact fun member => ⟨free, list, member⟩
  | taken => exact (sane.taken page).trans (data .held)
  | table p path =>
      constructor
      · rintro ⟨short, proc, here, found⟩
        refine sound.toTables.use_of_locate short ?_
        rw [locate, Sane.isRoot here, Option.bind_some, found]
      · intro isTable
        have short := sound.short p path page isTable
        have located := sound.toTables.locate_of_use isTable
        obtain ⟨table, isRoot, found⟩ := Option.bind_eq_some_iff.mp located
        obtain ⟨proc, here, rfl⟩ := Option.map_eq_some_iff.mp isRoot
        exact ⟨short, proc, here, found⟩
  | user p v =>
      refine Iff.trans ?_ (data (.user p v))
      constructor
      · rintro ⟨proc, here, found⟩
        have inside := (sane.walkaddr_iff here).mp found
        rw [page_div] at inside
        exact inside
      · rintro ⟨content, inside⟩
        cases here : state.procs p with
        | none => exact absurd inside (sane.alone here page v content)
        | some proc =>
            refine ⟨proc, here, (sane.walkaddr_iff here).mpr ⟨content, ?_⟩⟩
            rw [page_div]
            exact inside
  | trapframe p =>
      refine Iff.trans ?_ (data (.trapframe p))
      constructor
      · rintro ⟨proc, here, rfl⟩
        exact sane.holds p proc here
      · rintro ⟨content, inside⟩
        exact sane.trapframe p page content inside

theorem smallMachine_kernel : 5 < 10 := by decide

theorem smallMachine_few : 40 ≤ 10 + 2 ^ 15 := by decide

/-- A machine with 30 pages. -/
def smallMachine : Machine := ⟨10, 40, 5, smallMachine_kernel, smallMachine_few⟩

theorem smallMachine_starts : (kinit smallMachine fun _ _ => 0).isSome = true := by decide +kernel

/-- The memory of this machine after `kinit`. -/
def smallMemory : Memory := (kinit smallMachine fun _ _ => 0).get smallMachine_starts

theorem smallMemory_eq : kinit smallMachine (fun _ _ => 0) = some smallMemory :=
    (Option.some_get smallMachine_starts).symm

/-- A process gets two pages, stores in the first one, and is ready for `fork`. -/
theorem exists_oneProcess : ∃ (state : State Bool) (parent : Proc),
    Reachable (State.fire smallMachine) State.Allowed (State.start smallMemory) state ∧
      state.procs false = some parent ∧
      parent.sz = 5000 ∧ state.procs true = none ∧
      ∃ next child, state.fire smallMachine (.fork false true) = some next ∧ next.procs true = some child := by
  obtain ⟨state, reached, holds⟩ :=
    exists_reachable (State.fire smallMachine) State.Allowed (State.start smallMemory : State Bool)
    [.alloc false, .grow false 5000, .store false 8 7]
    (fun state => (state.procs false).any (fun parent => parent.sz = 5000) && (state.procs true).isNone &&
      (state.fire smallMachine (.fork false true)).any fun next => (next.procs true).isSome) (by decide +kernel)
  rw [Bool.and_eq_true, Bool.and_eq_true, Option.any_eq_true, Option.any_eq_true,
    Option.isNone_iff_eq_none] at holds
  obtain ⟨⟨⟨parent, here, sz_eq⟩, idle⟩, next, fired, made⟩ := holds
  obtain ⟨child, made⟩ := Option.isSome_iff_exists.mp made
  exact ⟨state, parent, reached, here, of_decide_eq_true sz_eq, idle, next, child, fired, made⟩

/-- The kernel does not panic. -/
theorem never_panics (started : kinit machine words = some memory)
    (reached : Reachable (State.fire machine) State.Allowed (State.start memory) state)
    (permitted : state.Allowed call) : ∃ next, state.fire machine call = some next := by
  obtain ⟨view, sane⟩ := sane started reached
  obtain ⟨next, -, fired, -⟩ := sane.fire permitted
  exact ⟨next, fired⟩

theorem never_panics_free : ∃ state : State Bool,
    Reachable (State.fire smallMachine) State.Allowed (State.start smallMemory) state ∧
      ∃ next, state.fire smallMachine (.free false) = some next := by
  obtain ⟨state, parent, reached, here, -⟩ := exists_oneProcess
  have permitted : state.procs false ≠ none := by
    rw [here]
    exact Option.some_ne_none parent
  exact ⟨state, reached, never_panics smallMemory_eq reached permitted⟩

/-- Without `exec` each page of the memory has one owner, and no other page has one. -/
theorem one_owner (started : kinit machine words = some memory)
    (reached : Reachable (State.fire machine) State.Allowed (State.start memory) state) :
    (machine.bottom ≤ page ∧ page < machine.top → ∃! owner, state.Owns page owner) ∧
    (¬ (machine.bottom ≤ page ∧ page < machine.top) → ∀ owner, ¬ state.Owns page owner) := by
  obtain ⟨view, sane⟩ := sane started reached
  obtain ⟨use, sound, rfl⟩ := sane.models
  have outside := sound.outside page
  refine ⟨fun inside => ?_, fun outer owner owned => ?_⟩
  · obtain ⟨owner, use_eq⟩ : ∃ owner : Owner T, use page = owner.use := by
      cases here : use page with
      | free => exact ⟨.free, rfl⟩
      | table p path => exact ⟨.table p path, rfl⟩
      | role role =>
          cases role with
          | outside => exact absurd inside (outside.mp here)
          | held => exact ⟨.taken, rfl⟩
          | user p v => exact ⟨.user p v, rfl⟩
          | trapframe p => exact ⟨.trapframe p, rfl⟩
    refine ⟨owner, (sane.owns_iff sound).mpr use_eq, fun other owned => Owner.use_injective ?_⟩
    rw [← use_eq, (sane.owns_iff sound).mp owned]
  · have use_eq := (sane.owns_iff sound).mp owned
    rw [outside.mpr outer] at use_eq
    cases owner <;> cases use_eq

theorem one_owner_twenty : ∃ state : State Bool,
    Reachable (State.fire smallMachine) State.Allowed (State.start smallMemory) state ∧
      ∃! owner, state.Owns 20 owner := by
  obtain ⟨state, parent, reached, -⟩ := exists_oneProcess
  exact ⟨state, reached, (one_owner smallMemory_eq reached).1 ⟨by decide, by decide⟩⟩

omit [DecidableEq T] in
/-- The user pages lie below the trapframe. -/
theorem Sane.size_le (sane : Sane machine state view) (here : state.procs p = some proc) :
    pgRoundUp proc.sz ≤ trapframeVa := by
  have few := sane.models.space_few (sane.space p proc here)
  have room : 2 ^ 15 ≤ userEnd := by decide
  rw [pgRoundUp_eq, trapframeVa_eq]
  exact Nat.mul_le_mul_right pgSize (Nat.le_trans few room)

omit [DecidableEq T] in
theorem Sane.found_iff (sane : Sane machine state view) (here : state.procs p = some proc) {va : Nat} :
    (∃ page, walkaddr proc.pagetable va state.memory = some page) ↔ va < pgRoundUp proc.sz := by
  rw [pgRoundUp_eq, ← Nat.div_lt_iff_lt_mul (by decide)]
  constructor
  · rintro ⟨page, found⟩
    obtain ⟨content, data⟩ := (sane.walkaddr_iff here).mp found
    exact sane.user_lt here data
  · intro below
    obtain ⟨page, content, data⟩ := (sane.space p proc here).user _ below
    exact ⟨page, (sane.walkaddr_iff here).mpr ⟨content, data⟩⟩

/-- Without `exec` a process may use the addresses below its size, rounded up to a page, and no others.
The trapframe and the trampoline, which are mapped above them, are not found. -/
theorem mapped_iff (started : kinit machine words = some memory)
    (reached : Reachable (State.fire machine) State.Allowed (State.start memory) state)
    (here : state.procs p = some proc) :
    (∀ va, (∃ page, walkaddr proc.pagetable va state.memory = some page) ↔ va < pgRoundUp proc.sz) ∧
      pgRoundUp proc.sz ≤ trapframeVa ∧ ∀ va, trapframeVa ≤ va →
        walkaddr proc.pagetable va state.memory = none := by
  obtain ⟨view, sane⟩ := sane started reached
  have low := sane.size_le here
  refine ⟨fun va => sane.found_iff here, low, fun va high => ?_⟩
  rw [Option.eq_none_iff_forall_ne_some]
  intro page found
  exact Nat.not_le.mpr ((sane.found_iff here).mp ⟨page, found⟩) (Nat.le_trans low high)

theorem mapped_iff_last : ∃ (state : State Bool) (parent : Proc),
    Reachable (State.fire smallMachine) State.Allowed (State.start smallMemory) state ∧
      state.procs false = some parent ∧
      (∃ page, walkaddr parent.pagetable 8191 state.memory = some page) ∧
      ¬ (∃ page, walkaddr parent.pagetable 8192 state.memory = some page) ∧
      walkaddr parent.pagetable trapframeVa state.memory = none := by
  obtain ⟨state, parent, reached, here, sz_eq, -⟩ := exists_oneProcess
  obtain ⟨found_iff, -, high⟩ := mapped_iff smallMemory_eq reached here
  refine ⟨state, parent, reached, here, (found_iff 8191).mpr ?_, fun found => ?_, high trapframeVa (Nat.le_refl _)⟩
  · rw [sz_eq]
    decide
  · have below := (found_iff 8192).mp found
    rw [sz_eq] at below
    exact absurd below (by decide)

/-- A call changes no address and no byte of the memory of another process. -/
theorem isolated (started : kinit machine words = some memory)
    (reached : Reachable (State.fire machine) State.Allowed (State.start memory) state)
    (permitted : state.Allowed call) (fired : state.fire machine call = some next)
    (different : call.target ≠ some q)
    (here : state.procs q = some proc) :
    next.procs q = some proc ∧ ∀ va, walkaddr proc.pagetable va next.memory = walkaddr
      proc.pagetable va state.memory ∧
      ∀ page, walkaddr proc.pagetable va state.memory = some page →
        next.memory.words page = state.memory.words page := by
  obtain ⟨view, sane⟩ := sane started reached
  obtain ⟨next', view', fired', sane', rest⟩ := sane.fire permitted
  rw [fired, Option.some.injEq] at fired'
  subst fired'
  obtain ⟨same, untouched⟩ := rest q different
  have here' := same.trans here
  refine ⟨here', fun va => ⟨Option.ext fun page => ?_, fun page found => ?_⟩⟩
  · rw [sane.walkaddr_iff here, sane'.walkaddr_iff here']
    exact exists_congr fun content => untouched.data page _ content
  · obtain ⟨content, data⟩ := (sane.walkaddr_iff here).mp found
    rw [sane.models.content_eq data, sane'.models.content_eq ((untouched.data page _ content).mpr data)]

theorem isolated_fork : ∃ (state next : State Bool) (parent : Proc),
    Reachable (State.fire smallMachine) State.Allowed (State.start smallMemory) state ∧
      state.fire smallMachine (.fork false true) = some next ∧ state.procs false = some parent ∧
      walkaddr parent.pagetable 8 next.memory = walkaddr parent.pagetable 8 state.memory := by
  obtain ⟨state, parent, reached, here, -, idle, next, child, fired, -⟩ := exists_oneProcess
  have permitted : state.Allowed (.fork false true) := by
    refine ⟨?_, idle⟩
    rw [here]
    exact Option.some_ne_none parent
  exact ⟨state, next, parent, reached, fired, here,
    ((isolated smallMemory_eq reached permitted fired (by decide) here).2 8).1⟩

/-- A store to a mapped address is kept, and it changes no address of the process
and no other word of the memory. -/
theorem store_kept (started : kinit machine words = some memory)
    (reached : Reachable (State.fire machine) State.Allowed (State.start memory) state)
    {va word : Nat} (here : state.procs p = some proc)
    (mapped : walkaddr proc.pagetable va state.memory = some page)
    (fired : state.fire machine (.store p va word) = some next) :
    next.procs = state.procs ∧
      (∀ other, walkaddr proc.pagetable other next.memory = walkaddr proc.pagetable other state.memory) ∧
      ∀ other i, next.memory.words other i =
        if other = page ∧ i = index (va / 8) then word else state.memory.words other i := by
  obtain ⟨view, sane⟩ := sane started reached
  obtain ⟨next', view', fired', sane', -, same, data_iff⟩ := sane.store here va word
  rw [fired, Option.some.injEq] at fired'
  subst fired'
  have here' : next.procs p = some proc := by rw [same, here]
  obtain ⟨content, data⟩ := (sane.walkaddr_iff here).mp mapped
  have stored := sane.userStore_eq here word data
  simp only [State.fire, here, stored, Option.bind_eq_bind, Option.bind_some, Option.pure_def, Option.getD_some,
    Option.some.injEq] at fired
  refine ⟨same, fun other => Option.ext fun page' => ?_, fun other i => ?_⟩
  · rw [sane.walkaddr_iff here, sane'.walkaddr_iff here']
    exact data_iff page' _
  · rw [← fired]
    dsimp only
    by_cases equal : other = page
    · subst equal
      rw [Function.update_self, Function.update_apply, ← sane.models.content_eq data]
      exact if_congr (by rw [and_iff_right rfl]) rfl rfl
    · rw [Function.update_of_ne equal, if_neg fun both => equal both.1]

theorem store_kept_first : ∃ (state next : State Bool) (parent : Proc) (page : Nat),
    Reachable (State.fire smallMachine) State.Allowed (State.start smallMemory) state ∧
      state.fire smallMachine (.store false 8 9) = some next ∧
      walkaddr parent.pagetable 8 next.memory = some page ∧
      next.memory.words page 1 = 9 := by
  obtain ⟨state, parent, reached, here, sz_eq, -⟩ := exists_oneProcess
  have permitted : state.Allowed (.store false 8 9) := by
    change state.procs false ≠ none
    rw [here]
    exact Option.some_ne_none parent
  obtain ⟨view, sane⟩ := sane smallMemory_eq reached
  obtain ⟨next, -, fired, -⟩ := sane.fire permitted
  obtain ⟨page, mapped⟩ := (sane.found_iff here).mpr (show 8 < pgRoundUp parent.sz by rw [sz_eq]; decide)
  obtain ⟨-, same, kept⟩ := store_kept smallMemory_eq reached here mapped fired
  exact ⟨state, next, parent, page, reached, fired, (same 8).trans mapped, (kept page 1).trans (if_pos ⟨rfl, rfl⟩)⟩

/-- `growproc` keeps the pages below the new size, and a new page holds zeros.
When it fails the process is the same. -/
theorem grow_zeroed (started : kinit machine words = some memory)
    (reached : Reachable (State.fire machine) State.Allowed (State.start memory) state)
    {n : Int} (here : state.procs p = some proc) (bound : -2 ^ 31 ≤ n) :
    ∃ ok sz memory', growproc machine n proc state.memory = some (ok, sz, memory') ∧
      (sz : Int) = (if ok = true ∧ 0 ≤ (proc.sz : Int) + n then (proc.sz : Int) + n else proc.sz) ∧
      (∀ va page, va < pgRoundUp sz → walkaddr proc.pagetable va state.memory = some page →
        walkaddr proc.pagetable va memory' = some page ∧ memory'.words page = state.memory.words page) ∧
      ∀ va page, walkaddr proc.pagetable va memory' = some page →
        walkaddr proc.pagetable va state.memory = some page ∨ memory'.words page = fun _ => 0 := by
  obtain ⟨view, sane⟩ := sane started reached
  obtain ⟨ok, sz, memory', view', result, sane', -, grown, failed, succeeded⟩ := sane.grow here bound
  have here' : (Function.update state.procs p (some { proc with sz })) p = some { proc with sz } :=
    Function.update_self ..
  refine ⟨ok, sz, memory', result, ?_, fun va page below found => ?_, fun va page found => ?_⟩
  · cases ok with
    | true =>
        rw [succeeded rfl]
        simp only [true_and]
    | false =>
        rw [(failed rfl).1]
        simp only [Bool.false_eq_true, false_and, if_false]
  · obtain ⟨content, data⟩ := (sane.walkaddr_iff here).mp found
    have data' := grown.old page _ content ((Nat.div_lt_iff_lt_mul (by decide)).mpr below) data
    refine ⟨(sane'.walkaddr_iff here').mpr ⟨content, data'⟩, ?_⟩
    rw [sane.models.content_eq data]
    exact sane'.models.content_eq data'
  · obtain ⟨content, data⟩ := (sane'.walkaddr_iff here').mp found
    obtain old | rfl := grown.new page _ content data
    · exact .inl ((sane.walkaddr_iff here).mpr ⟨content, old⟩)
    · exact .inr (sane'.models.content_eq data)

theorem grow_zeroed_less : ∃ (state : State Bool) (parent : Proc) (memory' : Memory) (page : Nat),
    Reachable (State.fire smallMachine) State.Allowed (State.start smallMemory) state ∧
      state.procs false = some parent ∧
      growproc smallMachine (-1000) parent state.memory = some (true, 4000, memory') ∧
      walkaddr parent.pagetable 8 state.memory = some page ∧ walkaddr parent.pagetable 8 memory' = some page ∧
      memory'.words page = state.memory.words page ∧
      ∀ va other, walkaddr parent.pagetable va memory' = some other →
        walkaddr parent.pagetable va state.memory = some other ∨ memory'.words other = fun _ => 0 := by
  obtain ⟨state, parent, reached, here, sz_eq, -⟩ := exists_oneProcess
  obtain ⟨ok, sz, memory', result, size, kept, fresh⟩ :=
    grow_zeroed smallMemory_eq reached (n := -1000) here (by decide)
  -- A shrinking `growproc` does not fail.
  have shrunk := result
  rw [growproc, if_neg (by decide), if_pos (by decide), Option.map_eq_some_iff] at shrunk
  obtain ⟨_, -, shrunk⟩ := shrunk
  obtain rfl : true = ok := congrArg (fun outcome => outcome.1) shrunk
  rw [sz_eq, if_pos ⟨rfl, by decide⟩] at size
  obtain rfl : sz = 4000 := by omega
  obtain ⟨view, sane⟩ := sane smallMemory_eq reached
  obtain ⟨page, mapped⟩ := (sane.found_iff here).mpr (show 8 < pgRoundUp parent.sz by rw [sz_eq]; decide)
  obtain ⟨still, same⟩ := kept 8 page (by decide) mapped
  exact ⟨state, parent, memory', page, reached, here, result, mapped, still, same, fresh⟩

/-- After `fork`, in runs without `exec`, the child has the memory of its parent on pages of its own. -/
theorem fork_copies (started : kinit machine words = some memory)
    (reached : Reachable (State.fire machine) State.Allowed (State.start memory) state)
    {np : T} {child : Proc} (here : state.procs p = some proc) (idle : state.procs np = none)
    (fired : state.fire machine (.fork p np) = some next) (made : next.procs np = some child) :
    child.sz = proc.sz ∧ ∀ va, va < pgRoundUp proc.sz →
      ∃ page page', walkaddr proc.pagetable va next.memory = some page ∧
      walkaddr child.pagetable va next.memory = some page' ∧ page ≠ page' ∧
      next.memory.words page' = state.memory.words page := by
  obtain ⟨view, sane⟩ := sane started reached
  obtain ⟨next', view', fired', sane', keeps, outcome⟩ := sane.fork here idle
  rw [fired, Option.some.injEq] at fired'
  subst fired'
  have different : p ≠ np := by
    rintro rfl
    cases here.symm.trans idle
  obtain ⟨same, -⟩ | ⟨copied, child', same, sz_eq⟩ := outcome
  · rw [same, idle] at made
    cases made
  · have here' : next.procs p = some proc := by rw [same, Function.update_of_ne different, here]
    have made' := made
    rw [same, Function.update_self, Option.some.injEq] at made'
    subst made'
    refine ⟨sz_eq, fun va below => ?_⟩
    obtain ⟨page, page', content, data, data', apart⟩ :=
      copied (va / pgSize) ((Nat.div_lt_iff_lt_mul (by decide)).mpr below)
    refine ⟨page, page', (sane'.walkaddr_iff here').mpr ⟨content, ?_⟩,
      (sane'.walkaddr_iff made).mpr ⟨content, data'⟩, apart, ?_⟩
    · exact ((keeps.untouched different).data page _ content).mpr data
    · rw [sane.models.content_eq data, sane'.models.content_eq data']

theorem fork_copies_small : ∃ (state next : State Bool) (parent child : Proc),
    Reachable (State.fire smallMachine) State.Allowed (State.start smallMemory) state ∧
      state.fire smallMachine (.fork false true) = some next ∧ next.procs true = some child ∧
      ∃ page page', walkaddr parent.pagetable 8 next.memory = some page ∧
        walkaddr child.pagetable 8 next.memory = some page' ∧
        page ≠ page' ∧ next.memory.words page' = state.memory.words page := by
  obtain ⟨state, parent, reached, here, sz_eq, idle, next, child, fired, made⟩ := exists_oneProcess
  exact ⟨state, next, parent, child, reached, fired, made,
    (fork_copies smallMemory_eq reached here idle fired made).2 8 (by rw [sz_eq]; decide)⟩

end

end OSLabs.Xv6.Vm
