import OSLabs.Proof.Xv6.Log.Calls
import OSLabs.Proof.Xv6.Log.Recovery

namespace OSLabs.Xv6.Log

open Pthread RedoLog

section
variable {T : Type} {layout : Layout} {first : Disk} {memory : Memory T}

/-- The file system with all changes. -/
def Memory.view (memory : Memory T) (first : Disk) : Disk := apply first (memory.written.map Prod.snd)

/-- The file system with the changes that the last commit has covered. -/
def Memory.durableView (memory : Memory T) (first : Disk) : Disk :=
  apply first ((memory.written.take memory.durable).map Prod.snd)

theorem view_logWrite (process : T) (update : Update Nat Block) :
    (memory.logWrite process update).view first =
      Function.update (memory.view first) update.target (update.write (memory.view first update.target)) := by
  rw [Memory.view, Memory.logWrite, List.map_append, List.map_singleton, apply_concat]
  rfl

/-- A change replaces the contents of its buffer. -/
theorem bread_logWrite (process : T) (update : Update Nat Block) :
    (memory.logWrite process update).bread =
      Function.update memory.bread update.target (update.write (memory.bread update.target)) := by
  funext blockno
  simp only [Memory.bread, Memory.logWrite]
  by_cases same : blockno = update.target
  · subst same
    rw [Function.update_self, Function.update_self, Option.getD_some]
  · rw [Function.update_of_ne same, Function.update_of_ne same, Memory.bread]

/-- The buffers show all changes, and the header in memory names the pinned buffers and fits into the log. -/
structure Stored (layout : Layout) (first : Disk) (memory : Memory T) : Prop where
  ahead : memory.durable ≤ memory.written.length
  current : ∀ blockno, layout.Home blockno → memory.bread blockno = memory.view first blockno
  logged : ∀ blockno, memory.pinned blockno ≠ none → blockno ∈ memory.lh
  home : ∀ blockno ∈ memory.lh, layout.Home blockno
  few : memory.lh.length ≤ logSize
  short : memory.lh.length < layout.nlog
  fresh : memory.lh = [] → memory.durable = memory.written.length

namespace Stored

/-- A covered change is no later change. -/
theorem durableView_logWrite (stored : Stored layout first memory) (process : T) (update : Update Nat Block) :
    (memory.logWrite process update).durableView first = memory.durableView first := by
  simp only [Memory.durableView, Memory.logWrite]
  rw [List.take_append_of_le_length stored.ahead]

/-- Where everything is covered, the last commit gives the whole file system. -/
theorem durableView_eq (covered : memory.durable = memory.written.length) :
    memory.durableView first = memory.view first := by
  rw [Memory.durableView, covered, List.take_length, Memory.view]

/-- A slot of the log is not pinned. -/
theorem bread_slot (stored : Stored layout first memory) {tail : Nat} (inside : tail < memory.lh.length) :
    memory.bread (layout.slot tail) = memory.disk (layout.slot tail) := by
  have short := stored.short
  have none : memory.pinned (layout.slot tail) = none := by
    by_contra pinned
    exact not_home_slot (by omega) (stored.home _ (stored.logged _ pinned))
  rw [Memory.bread, none, Option.getD_none]

theorem logWrite (stored : Stored layout first memory) {process : T} {update : Update Nat Block}
    (isHome : layout.Home update.target) (few : memory.lh.length < logSize)
    (short : memory.lh.length < layout.nlog - 1) :
    Stored layout first (memory.logWrite process update) := by
  constructor
  · have ahead := stored.ahead
    simp only [Memory.logWrite, List.length_append]
    omega
  · intro blockno here
    rw [view_logWrite, bread_logWrite]
    by_cases same : blockno = update.target
    · subst same
      rw [Function.update_self, Function.update_self, stored.current _ here]
    · rw [Function.update_of_ne same, Function.update_of_ne same, stored.current _ here]
  · intro blockno pinned
    simp only [Memory.logWrite] at pinned ⊢
    by_cases same : blockno = update.target
    · subst same
      split
      · assumption
      · simp
    · rw [Function.update_of_ne same] at pinned
      have member := stored.logged _ pinned
      split
      · exact member
      · exact List.mem_append_left _ member
  · intro blockno member
    simp only [Memory.logWrite] at member
    split at member
    · exact stored.home _ member
    · rcases List.mem_append.mp member with old | new
      · exact stored.home _ old
      · rwa [List.mem_singleton.mp new]
  · simp only [Memory.logWrite]
    split
    · exact stored.few
    · rw [List.length_append, List.length_singleton]
      omega
  · simp only [Memory.logWrite]
    split
    · exact stored.short
    · rw [List.length_append, List.length_singleton]
      omega
  · intro empty
    simp only [Memory.logWrite] at empty
    split at empty
    · next member => simp [empty] at member
    · simp at empty

theorem writeLog (stored : Stored layout first memory) {tail blockno : Nat} (inside : tail < memory.lh.length) :
    Stored layout first (memory.writeLog layout tail blockno) := by
  have short := stored.short
  refine ⟨stored.ahead, ?_, stored.logged, stored.home, stored.few, stored.short, stored.fresh⟩
  intro there isHome
  have different : there ≠ layout.slot tail := by
    rintro rfl
    exact not_home_slot (by omega) isHome
  simp only [Memory.writeLog, Memory.bread, Function.update_of_ne different]
  exact stored.current there isHome

/-- A write of the header on the disk changes no buffer of the file system. -/
theorem bread_writeHead (stored : Stored layout first memory) (lh : List Nat) (there : Nat)
    (isHome : layout.Home there) :
    (memory.pinned there).getD (Log.writeHead layout lh memory.disk there) = memory.view first there := by
  have different : there ≠ layout.logstart := by
    rintro rfl
    exact not_home_logstart isHome
  rw [Log.writeHead, Function.update_of_ne different]
  exact stored.current there isHome

theorem installTrans (stored : Stored layout first memory) {tail blockno : Nat}
    (here : memory.lh[tail]? = some blockno)
    (slot : memory.disk (layout.slot tail) = memory.view first blockno) :
    Stored layout first (memory.installTrans layout tail blockno) := by
  refine ⟨stored.ahead, ?_, ?_, stored.home, stored.few, stored.short, stored.fresh⟩
  · intro there isHome
    simp only [Memory.installTrans, Memory.bread]
    by_cases same : there = blockno
    · subst same
      rw [Function.update_self, Function.update_self, Option.getD_none]
      exact (stored.bread_slot (List.getElem?_eq_some_iff.mp here).1).trans slot
    · rw [Function.update_of_ne same, Function.update_of_ne same]
      exact stored.current there isHome
  · intro there pinned
    simp only [Memory.installTrans] at pinned ⊢
    by_cases same : there = blockno
    · subst same
      simp at pinned
    · rw [Function.update_of_ne same] at pinned
      exact stored.logged there pinned

end Stored

/-- What a commit has done so far. -/
def Phase (layout : Layout) (first : Disk) (memory : Memory T) : Point → Prop
  | .releaseCommit | .commitTest => Logged layout memory.disk [] (memory.durableView first)
  | .writeLog tail =>
      Logged layout memory.disk [] (memory.durableView first) ∧
        ∀ i < tail, ∀ blockno, memory.lh[i]? = some blockno →
          memory.disk (layout.slot i) = memory.view first blockno
  | .writeHead =>
      Logged layout memory.disk [] (memory.durableView first) ∧
        ∀ i blockno, memory.lh[i]? = some blockno → memory.disk (layout.slot i) = memory.view first blockno
  | .installTrans tail =>
      Logged layout memory.disk memory.lh (memory.view first) ∧ memory.durable = memory.written.length ∧
        ∀ i < tail, ∀ blockno, memory.lh[i]? = some blockno → memory.pinned blockno = none
  | .commitReset =>
      Logged layout memory.disk memory.lh (memory.view first) ∧ memory.durable = memory.written.length ∧
        ∀ blockno, memory.pinned blockno = none
  | .clearHead =>
      memory.lh = [] ∧ (∃ old, Logged layout memory.disk old (memory.view first)) ∧
        ∀ blockno, memory.pinned blockno = none
  | .acquireFinish | .finishCommit => memory.lh = [] ∧ Logged layout memory.disk [] (memory.durableView first)
  | _ => True

/-- Outside a commit nothing is asked. -/
theorem phase_of_not_commits {point : Point} (outside : point.commits = false) :
    Phase layout first memory point := by
  cases point <;> trivial

/-- The buffers, the header and the disk fit to the program points of all processes.
While no commit runs, the log on the disk is empty, and so is the header in memory when no system call is open. -/
structure Consistent (layout : Layout) (first : Disk) (places : T → Place) (memory : Memory T) : Prop where
  stored : Stored layout first memory
  phase : ∀ t, Phase layout first memory (places t).point
  settled : memory.committing = false →
    Logged layout memory.disk [] (memory.durableView first) ∧ (memory.outstanding = 0 → memory.lh = [])

namespace Consistent
variable {places : T → Place}

/-- Every disk that the run reaches has a complete log that gives the file system of the last commit. -/
theorem exists_logged (consistent : Consistent layout first places memory)
    (running : memory.committing = true → ∃ t, (places t).point.commits = true) :
    ∃ lh, Logged layout memory.disk lh (memory.durableView first) := by
  cases flag : memory.committing with
  | false => exact ⟨[], (consistent.settled flag).1⟩
  | true =>
      obtain ⟨t, commits⟩ := running flag
      have phase := consistent.phase t
      cases here : (places t).point with
      | releaseCommit | commitTest =>
          rw [here] at phase
          exact ⟨[], phase⟩
      | writeLog tail | writeHead =>
          rw [here] at phase
          exact ⟨[], phase.1⟩
      | installTrans tail | commitReset =>
          rw [here] at phase
          rw [Stored.durableView_eq phase.2.1]
          exact ⟨memory.lh, phase.1⟩
      | clearHead =>
          rw [here] at phase
          rw [Stored.durableView_eq (consistent.stored.fresh phase.1)]
          exact phase.2.1
      | acquireFinish | finishCommit =>
          rw [here] at phase
          exact ⟨[], phase.2⟩
      | _ =>
          rw [here] at commits
          cases commits

variable [DecidableEq T] {t : T} {next : Place}

/-- A process goes on without a change of the memory. -/
theorem move (consistent : Consistent layout first places memory) (phase : Phase layout first memory next.point) :
    Consistent layout first (Function.update places t next) memory := by
  refine ⟨consistent.stored, fun other => ?_, consistent.settled⟩
  by_cases same : other = t
  · subst same
    rwa [Function.update_self]
  · rw [Function.update_of_ne same]
    exact consistent.phase other

/-- A process changes the memory while no other process is in a commit. -/
theorem change {after : Memory T} (others : ∀ other, other ≠ t → (places other).point.commits = false)
    (stored : Stored layout first after) (phase : Phase layout first after next.point)
    (settled : after.committing = false →
      Logged layout after.disk [] (after.durableView first) ∧ (after.outstanding = 0 → after.lh = [])) :
    Consistent layout first (Function.update places t next) after := by
  refine ⟨stored, fun other => ?_, settled⟩
  by_cases same : other = t
  · subst same
    rwa [Function.update_self]
  · rw [Function.update_of_ne same]
    exact phase_of_not_commits (others other same)

end Consistent

end

section
variable {T : Type} {layout : Layout} {first : Disk} {memory : Memory T}

/-- After the last slot the header completes the log. -/
theorem Stored.logged_writeHead (stored : Stored layout first memory)
    (phase : Phase layout first memory .writeHead) :
    Logged layout (writeHead layout memory.lh memory.disk) memory.lh (memory.view first) := by
  have kept : ∀ blockno, blockno ≠ layout.logstart →
      writeHead layout memory.lh memory.disk blockno = memory.disk blockno :=
    fun blockno different => Function.update_of_ne different _ _
  constructor
  · rw [writeHead, Function.update_self]
    refine decodeHead_encodeHead stored.few (fun blockno member => ?_) _
    exact Nat.lt_of_lt_of_le (stored.home _ member).1 layout.word
  · exact stored.home
  · exact stored.short
  · intro i blockno here
    rw [kept _ (slot_ne_logstart i)]
    exact phase.2 i blockno here
  · intro blockno isHome outside
    have different : blockno ≠ layout.logstart := by
      rintro rfl
      exact not_home_logstart isHome
    have unpinned : memory.pinned blockno = none := by
      by_contra pinned
      exact outside (stored.logged _ pinned)
    rw [kept _ different, ← stored.current _ isHome, Memory.bread, unpinned, Option.getD_none]

/-- A write of a slot below the header changes no block that the empty log needs. -/
theorem Logged.writeLog {disk view : Disk} (logged : Logged layout disk [] view) {tail : Nat}
    (inside : tail + 1 < layout.nlog)
    (block : Block) : Logged layout (Function.update disk (layout.slot tail) block) [] view := by
  constructor
  · rw [Function.update_of_ne (slot_ne_logstart tail).symm]
    exact logged.head
  · exact logged.home
  · exact logged.short
  · intro i blockno here
    cases here
  · intro blockno isHome outside
    have different : blockno ≠ layout.slot tail := by
      rintro rfl
      exact not_home_slot inside isHome
    rw [Function.update_of_ne different]
    exact logged.others blockno isHome outside

/-- A write of a target changes nothing that the log does not cover. -/
theorem Logged.installTrans {disk view : Disk} {lh : List Nat} (logged : Logged layout disk lh view)
    {blockno : Nat}
    (member : blockno ∈ lh) (block : Block) : Logged layout (Function.update disk blockno block) lh view := by
  constructor
  · have different : layout.logstart ≠ blockno := by
      rintro rfl
      exact not_home_logstart (logged.home _ member)
    rw [Function.update_of_ne different]
    exact logged.head
  · exact logged.home
  · exact logged.short
  · intro i there here
    have different : layout.slot i ≠ blockno := by
      rintro rfl
      exact logged.apart (List.getElem?_eq_some_iff.mp here).1 member
    rw [Function.update_of_ne different]
    exact logged.slots i there here
  · intro there isHome outside
    have different : there ≠ blockno := by
      rintro rfl
      exact outside member
    rw [Function.update_of_ne different]
    exact logged.others there isHome outside

end

section
variable {T : Type} {layout : Layout} {first : Disk} {memory : Memory T} {tail blockno : Nat}

/-- When all slots are written, the header may follow. -/
theorem Phase.slotsWritten (phase : Phase layout first memory (.writeLog tail))
    (behind : memory.lh[tail]? = none) :
    Phase layout first memory .writeHead := by
  refine ⟨phase.1, fun i blockno entry => phase.2 i ?_ blockno entry⟩
  have inside := (List.getElem?_eq_some_iff.mp entry).1
  have behind := List.getElem?_eq_none_iff.mp behind
  omega

/-- When all blocks are installed, no buffer is pinned. -/
theorem Phase.installed (stored : Stored layout first memory)
    (phase : Phase layout first memory (.installTrans tail))
    (behind : memory.lh[tail]? = none) : Phase layout first memory .commitReset := by
  obtain ⟨logged, covered, unpinned⟩ := phase
  refine ⟨logged, covered, fun blockno => ?_⟩
  by_contra pinned
  obtain ⟨i, inside, entry⟩ := List.getElem_of_mem (stored.logged blockno pinned)
  have behind := List.getElem?_eq_none_iff.mp behind
  exact pinned (unpinned i (by omega) blockno (List.getElem?_eq_some_iff.mpr ⟨inside, entry⟩))

/-- The counters of the log say nothing about the buffers. -/
theorem Stored.count (stored : Stored layout first memory) (outstanding : Int) (committing : Bool) :
    Stored layout first { memory with outstanding, committing } :=
  ⟨stored.ahead, stored.current, stored.logged, stored.home, stored.few, stored.short, stored.fresh⟩

/-- Where nothing is pinned, the disk shows the file system. -/
theorem Stored.disk_eq (stored : Stored layout first memory) (unpinned : ∀ blockno, memory.pinned blockno = none)
    (isHome : layout.Home blockno) : memory.disk blockno = memory.view first blockno := by
  rw [← stored.current _ isHome, Memory.bread, unpinned, Option.getD_none]

namespace Consistent
variable {places : T → Place} [DecidableEq T] {t : T} {next : Place}
  (consistent : Consistent layout first places memory)
  (others : ∀ other, other ≠ t → (places other).point.commits = false)
include consistent others

/-- `log_write` by an open call. -/
theorem logWrite {process : T} {update : Update Nat Block} (isHome : layout.Home update.target)
    (few : memory.lh.length < logSize) (short : memory.lh.length < layout.nlog - 1) (busy : memory.outstanding ≠ 0)
    (outside : next.point.commits = false) :
    Consistent layout first (Function.update places t next) (memory.logWrite process update) := by
  refine change others (consistent.stored.logWrite isHome few short) (phase_of_not_commits outside)
    fun idle => ⟨?_, fun none => ?_⟩
  · rw [consistent.stored.durableView_logWrite]
    exact (consistent.settled idle).1
  · exact absurd none busy

/-- `begin_op`, `end_op` and the end of a commit change the counters. -/
theorem count {outstanding : Int} {committing : Bool}
    (phase : Phase layout first { memory with outstanding, committing } next.point)
    (settled : committing = false → Logged layout memory.disk [] (memory.durableView first) ∧
      (outstanding = 0 → memory.lh = [])) :
    Consistent layout first (Function.update places t next) { memory with outstanding, committing } :=
  change others (consistent.stored.count outstanding committing) phase settled

variable (running : memory.committing ≠ false)
include running

/-- `write_log` writes one slot. -/
theorem writeLog (phase : Phase layout first memory (.writeLog tail)) (entry : memory.lh[tail]? = some blockno)
    (there : next.point = .writeLog (tail + 1)) :
    Consistent layout first (Function.update places t next) (memory.writeLog layout tail blockno) := by
  have stored := consistent.stored
  have short := stored.short
  have inside := (List.getElem?_eq_some_iff.mp entry).1
  refine change others (stored.writeLog inside) ?_ fun idle => absurd idle running
  rw [there]
  refine ⟨phase.1.writeLog (by omega) _, fun i less other entry' => ?_⟩
  simp only [Memory.writeLog] at entry' ⊢
  by_cases last : i = tail
  · subst last
    obtain rfl : blockno = other := Option.some.inj (entry.symm.trans entry')
    rw [Function.update_self]
    exact stored.current _ (stored.home _ (List.mem_of_getElem? entry))
  · rw [Function.update_of_ne fun same => last (slot_injective same)]
    exact phase.2 i (by omega) other entry'

/-- `write_head` commits the transaction. -/
theorem writeHead (phase : Phase layout first memory .writeHead) (there : next.point = .installTrans 0) :
    Consistent layout first (Function.update places t next)
      { memory with disk := Log.writeHead layout memory.lh memory.disk, durable := memory.written.length } := by
  have stored := consistent.stored
  refine change others ⟨le_rfl, stored.bread_writeHead _, stored.logged, stored.home, stored.few,
    stored.short, fun _ => rfl⟩ ?_
    fun idle => absurd idle running
  rw [there]
  exact ⟨stored.logged_writeHead phase, rfl, fun i less => absurd less (Nat.not_lt_zero i)⟩

/-- `install_trans` installs one block. -/
theorem installTrans (phase : Phase layout first memory (.installTrans tail))
    (entry : memory.lh[tail]? = some blockno)
    (there : next.point = .installTrans (tail + 1)) :
    Consistent layout first (Function.update places t next) (memory.installTrans layout tail blockno) := by
  obtain ⟨logged, covered, unpinned⟩ := phase
  refine change others (consistent.stored.installTrans entry (logged.slots tail blockno entry)) ?_ fun idle =>
    absurd idle running
  rw [there]
  refine ⟨logged.installTrans (List.mem_of_getElem? entry) _, covered, fun i less other entry' => ?_⟩
  simp only [Memory.installTrans] at entry' ⊢
  by_cases same : other = blockno
  · rw [same, Function.update_self]
  · rw [Function.update_of_ne same]
    refine unpinned i ?_ other entry'
    by_contra last
    obtain rfl : i = tail := by omega
    exact same (Option.some.inj (entry'.symm.trans entry))

/-- `commit` empties the header in memory. -/
theorem commitReset (phase : Phase layout first memory .commitReset) (there : next.point = .clearHead) :
    Consistent layout first (Function.update places t next) { memory with lh := [] } := by
  have stored := consistent.stored
  obtain ⟨logged, covered, unpinned⟩ := phase
  refine change others ⟨stored.ahead, stored.current, fun blockno pinned => absurd (unpinned blockno) pinned,
    fun blockno member => absurd member List.not_mem_nil, Nat.zero_le _, layout.positive, fun _ => covered⟩ ?_
    fun idle => absurd idle running
  rw [there]
  exact ⟨rfl, ⟨_, logged⟩, unpinned⟩

/-- The second `write_head` empties the log on the disk. -/
theorem clearHead (phase : Phase layout first memory .clearHead) (there : next.point = .acquireFinish) :
    Consistent layout first (Function.update places t next)
      { memory with disk := Log.writeHead layout memory.lh memory.disk } := by
  have stored := consistent.stored
  obtain ⟨none, _, unpinned⟩ := phase
  refine change others ⟨stored.ahead, stored.bread_writeHead _, stored.logged, stored.home, stored.few,
    stored.short,
    stored.fresh⟩ ?_ fun idle => absurd idle running
  rw [there]
  refine ⟨none, ?_⟩
  have covered : memory.durableView first = memory.view first := Stored.durableView_eq (stored.fresh none)
  have logged : Logged layout (Log.writeHead layout memory.lh memory.disk) [] (memory.durableView first) := by
    rw [none, covered]
    exact Logged.cleared fun blockno isHome => stored.disk_eq unpinned isHome
  exact logged

end Consistent

end

section
variable {T : Type} {layout : Layout} {calls : T → List (List (Update Nat Block))} {disk : Disk}
  [DecidableEq T] [Fintype T]
  {allowed : History T (Memory T) Place Mutex Chan → State T → T → Prop}
  {history : History T (Memory T) Place Mutex Chan} {config : State T}

theorem consistent (fits : Fits layout calls) (empty : decodeHead (disk layout.logstart) = some [])
    (reached : Run (process layout) (start disk calls) allowed history config) :
    Consistent layout disk config.places config.memory := by
  refine reached.placed (fun _ places memory => Consistent layout disk places memory) ?_ (fun _ _ _ holds _ =>
    holds) ?_
  · have logged : Logged layout disk [] disk :=
      ⟨empty, by simp, layout.positive, by simp, fun _ _ _ => rfl⟩
    exact ⟨⟨le_rfl, fun _ _ =>
      rfl, by simp [start, Config.initial, Memory.start], by simp [start, Config.initial, Memory.start],
      Nat.zero_le _, layout.positive, fun _ => rfl⟩, fun _ => trivial, fun _ => ⟨logged, fun _ => rfl⟩⟩
  · intro history config t place after next before consistent _ here effect
    have phase := consistent.phase t
    have guard := guarded before t
    have mine := progress before t
    rw [Config.places_of_ready here] at phase mine
    rw [here] at guard
    have alone : place.point.commits = true → ∀ other, other ≠ t →
        (config.places other).point.commits = false := by
      intro commits other different
      by_contra second
      exact different (commits_unique before (by simpa using second) (by rwa [Config.places_of_ready here]))
    have closed : place.point.isOpen = true → ∀ other, other ≠ t → (config.places other).point.commits = false :=
      fun isOpen other _ => not_commits before (by rwa [Config.places_of_ready here]) other
    have quiet : config.memory.committing = false → ∀ other, other ≠ t →
        (config.places other).point.commits = false := by
      intro idle other _
      by_contra commits
      rw [committing_of_commits before (t := other) (by simpa using commits)] at idle
      cases idle
    have running : place.point.commits = true → config.memory.committing ≠ false := by
      intro commits
      simp [committing_of_commits before (t := t) (by rwa [Config.places_of_ready here])]
    have busy : place.point.isOpen = true → config.memory.outstanding ≠ 0 := by
      intro isOpen none
      have count := outstanding_eq before
      have one : 0 < config.number fun _ place => place.point.isOpen :=
        number_pos (show (config.status t).place.point.isOpen = true by rw [here]; exact isOpen)
      omega
    obtain ⟨point, op, rest⟩ := place
    cases point with
    | idle => cases rest <;> cases effect; exact consistent.move trivial
    | writeAppend =>
        cases op with
        | nil =>
            cases effect
            exact consistent.move trivial
        | cons update op =>
            cases effect
            have isHome : layout.Home update.target := mine.home fits (List.mem_cons_self ..)
            exact consistent.logWrite (closed rfl) isHome guard.1 guard.2 (busy rfl) rfl
    | beginCount =>
        cases effect
        refine consistent.count (quiet guard.1) trivial fun idle => ⟨(consistent.settled idle).1, fun none => ?_⟩
        have count := outstanding_eq before
        omega
    | endCount =>
        have idle : config.memory.committing = false :=
          committing_eq_false before (t := t) (by rw [Config.places_of_ready here]; rfl)
        simp only [process, Instr.effect, Option.some.injEq, idle, Bool.false_eq_true, ↓reduceIte] at effect
        split at effect
        · cases effect
          exact consistent.count (quiet idle) (consistent.settled idle).1 fun idle => by cases idle
        · next more =>
            cases effect
            exact consistent.count (quiet idle) trivial fun _ =>
              ⟨(consistent.settled idle).1, fun none => absurd none more⟩
    | commitTest =>
        cases effect
        refine consistent.move ?_
        simp only [Place.go]
        split
        · exact ⟨phase, fun i less => absurd less (Nat.not_lt_zero i)⟩
        · next empty => exact ⟨List.eq_nil_of_length_eq_zero (by omega), phase⟩
    | writeLog tail =>
        simp only [process, Instr.effect, Option.some.injEq] at effect
        cases entry : config.memory.lh[tail]? with
        | some blockno =>
            rw [entry] at effect
            cases effect
            exact consistent.writeLog (alone rfl) (running rfl) phase entry rfl
        | none =>
            rw [entry] at effect
            cases effect
            exact consistent.move (phase.slotsWritten entry)
    | writeHead =>
        cases effect
        exact consistent.writeHead (alone rfl) (running rfl) phase rfl
    | installTrans tail =>
        simp only [process, Instr.effect, Option.some.injEq] at effect
        cases entry : config.memory.lh[tail]? with
        | some blockno =>
            rw [entry] at effect
            cases effect
            exact consistent.installTrans (alone rfl) (running rfl) phase entry rfl
        | none =>
            rw [entry] at effect
            cases effect
            exact consistent.move (Phase.installed consistent.stored phase entry)
    | commitReset =>
        cases effect
        exact consistent.commitReset (alone rfl) (running rfl) phase rfl
    | clearHead =>
        cases effect
        exact consistent.clearHead (alone rfl) (running rfl) phase rfl
    | finishCommit =>
        cases effect
        exact consistent.count (alone rfl) trivial fun _ => ⟨phase.2, fun _ => phase.1⟩
    | releaseCommit | acquireFinish =>
        cases effect
        exact consistent.move phase
    | logWritePanicked | endOpPanicked => cases effect
    | beginTest | inOp | writePanics =>
        cases effect
        refine consistent.move (phase_of_not_commits ?_)
        simp only [Place.go]
        split
        · rfl
        · first | rfl | (split <;> rfl)
    | _ =>
        cases effect
        exact consistent.move trivial

end

end OSLabs.Xv6.Log
