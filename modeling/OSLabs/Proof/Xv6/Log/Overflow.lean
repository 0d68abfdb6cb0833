import OSLabs.Proof.Pthread.Frame
import OSLabs.Proof.Xv6.Log.Reservation

namespace OSLabs.Xv6.Log

open Pthread RedoLog

section
variable {T : Type} {layout : Layout} {t : T} {memory : Memory T} {op : List (Update Nat Block)}
  {rest : List (List (Update Nat Block))}

/-- A process that is alone begins a system call when there is room. -/
theorem solo_begin (idle : memory.committing = false)
    (room : memory.lh.length + (memory.outstanding + 1) * maxOpBlocks ≤ (logSize : Int)) :
    Reachable (fun _ : Unit => process layout t) (Config.initial memory fun _ => ⟨.idle, [], op :: rest⟩)
      (Config.initial { memory with outstanding := memory.outstanding + 1 } fun _ => ⟨.inOp, op, rest⟩) := by
  have followed : follow (fun _ : Unit => process layout t) (Config.initial memory fun _ =>
    ⟨.idle, [], op :: rest⟩)
      (turns 5 ()) = some (Config.initial { memory with outstanding := memory.outstanding + 1 } fun _ =>
        ⟨.inOp, op, rest⟩) := by
    simp [turns, follow, fire, perform, process, idle, Config.initial, List.replicate, Place.go, Config.setStatus,
      Config.setMemory, Config.setOwner, not_lt.mpr room]
    rfl
  exact (Reachable.refl _ _).follow followed

/-- A process that is alone makes a change while there is a free slot. -/
theorem solo_write {update : Update Nat Block} (isOpen : 1 ≤ memory.outstanding)
    (few : memory.lh.length < logSize) (short : memory.lh.length < layout.nlog - 1) :
    Reachable (fun _ : Unit => process layout t) (Config.initial memory fun _ => ⟨.inOp, update :: op, rest⟩)
      (Config.initial (memory.logWrite t update) fun _ => ⟨.inOp, op, rest⟩) := by
  have free : ¬ layout.nlog ≤ memory.lh.length + 1 := by omega
  have followed : follow (fun _ : Unit => process layout t) (Config.initial memory fun _ =>
    ⟨.inOp, update :: op, rest⟩)
      (turns 5 ()) = some (Config.initial (memory.logWrite t update) fun _ => ⟨.inOp, op, rest⟩) := by
    simp [turns, follow, fire, perform, process, Config.initial, List.replicate, Place.go, Config.setStatus,
      Config.setMemory, Config.setOwner, not_le.mpr few, free, not_lt.mpr isOpen]
    rfl
  exact (Reachable.refl _ _).follow followed

/-- A process that is alone makes changes of new blocks while there are free slots. -/
theorem exists_solo_writes (isOpen : 1 ≤ memory.outstanding) {written : List (Update Nat Block)}
    (fresh : (memory.lh ++ written.map Update.target).Nodup)
    (few : memory.lh.length + written.length ≤ logSize)
    (short : memory.lh.length + written.length ≤ layout.nlog - 1) :
    ∃ after : Memory T, Reachable (fun _ : Unit => process layout t)
      (Config.initial memory fun _ => ⟨.inOp, written ++ op, rest⟩)
      (Config.initial after fun _ => ⟨.inOp, op, rest⟩) ∧
      after.lh = memory.lh ++ written.map Update.target ∧ after.outstanding = memory.outstanding := by
  induction written generalizing memory with
  | nil => exact ⟨memory, Reachable.refl _ _, by simp, rfl⟩
  | cons update written inductionHypothesis =>
      rw [List.length_cons] at few short
      have outside : update.target ∉ memory.lh := fun member =>
        (List.nodup_append.mp fresh).2.2 _ member _ (by simp) rfl
      have grown : (memory.logWrite t update).lh = memory.lh ++ [update.target] := if_neg outside
      have isOpen' : 1 ≤ (memory.logWrite t update).outstanding := isOpen
      obtain ⟨after, reached, lh, outstanding⟩ := inductionHypothesis isOpen'
        (by simpa [grown] using fresh) (by simp [grown]; omega) (by simp [grown]; omega)
      refine ⟨after, (solo_write isOpen (by omega) (by omega)).trans reached, ?_, outstanding⟩
      rw [lh, grown, List.append_assoc]
      rfl

end

/-- This system call changes as many blocks as a system call may, from this block on. -/
def fill (first : Nat) : List (Update Nat Block) := (List.range maxOpBlocks).map fun i => ⟨first + i, id⟩

theorem small_fill (first : Nat) : Small (fill first) := .inl (by simp [fill])

theorem targets_take_fill {first count : Nat} (atMost : count ≤ maxOpBlocks) :
    ((fill first).take count).map Update.target = List.range' first count := by
  rw [fill, ← List.map_take, List.map_map, List.take_range, Nat.min_eq_left atMost, List.range'_eq_map_range]
  rfl

section
variable {T : Type} [DecidableEq T] [Fintype T] {layout : Layout} {calls : T → List (List (Update Nat Block))}
  {disk : Disk}

/-- A process with an open system call makes the next changes of new blocks. -/
theorem exists_filled {memory : Memory T} {places : T → Place} {t : T} {base count : Nat}
    (reached : Reachable (process layout) (start disk calls) (Config.initial memory places))
    (here : places t = ⟨.inOp, fill (base + memory.lh.length), []⟩)
    (blocks : memory.lh = List.range' base memory.lh.length)
    (isOpen : 1 ≤ memory.outstanding) (atMost : count ≤ maxOpBlocks) (few : memory.lh.length + count ≤ logSize)
    (short : memory.lh.length + count ≤ layout.nlog - 1) :
    ∃ after : Memory T, Reachable (process layout) (start disk calls) (Config.initial after
        (Function.update places t ⟨.inOp, (fill (base + memory.lh.length)).drop count, []⟩)) ∧
      after.lh = List.range' base (memory.lh.length + count) ∧ after.outstanding = memory.outstanding := by
  have length : ((fill (base + memory.lh.length)).take count).length = count := by
    simpa [fill] using atMost
  have targets : memory.lh ++ ((fill (base + memory.lh.length)).take count).map Update.target =
      List.range' base (memory.lh.length + count) := by
    rw [targets_take_fill atMost]
    conv_lhs => rw [blocks]
    simp
  obtain ⟨after, alone, lh, outstanding⟩ := @exists_solo_writes T layout t memory
    ((fill (base + memory.lh.length)).drop count) [] isOpen ((fill (base + memory.lh.length)).take count)
    (by rw [targets]; exact List.nodup_range') (by rwa [length]) (by rwa [length])
  rw [List.take_append_drop] at alone
  exact ⟨after, reached.solo (by rwa [here]), lh.trans targets, outstanding⟩

/-- A process that changes a block while the header is full panics. -/
theorem exists_panic_of_full {memory : Memory T} {places : T → Place} {t : T} {update : Update Nat Block}
    {op : List (Update Nat Block)}
    (reached : Reachable (process layout) (start disk calls) (Config.initial memory places))
    (here : places t = ⟨.inOp, update :: op, []⟩) (full : layout.nlog - 1 ≤ memory.lh.length) :
    ∃ config, Reachable (process layout) (start disk calls) config ∧ (config.places t).point.isPanic = true := by
  have panics : layout.nlog ≤ memory.lh.length + 1 := by omega
  have followed : follow (process layout) (Config.initial memory places) (turns 3 t) =
      some ((Config.initial memory places).setOwner .lock (some t) |>.setStatus t
        (.ready ⟨.logWritePanicked, update :: op, []⟩)) := by
    simp [turns, follow, fire, perform, process, Config.initial, List.replicate, Place.go, Config.setStatus,
      Config.setMemory, Config.setOwner, here, panics]
  refine ⟨_, reached.follow followed, ?_⟩
  rw [Config.places_setStatus, Function.update_self]
  rfl

/-- The memory in which so many system calls are open and nothing is changed. -/
def opened (disk : Disk) (count : Int) : Memory T := { Memory.start disk with outstanding := count }

variable (layout disk) in
/-- Three processes begin their system calls. -/
theorem exists_begun {a b c : T} (first : a ≠ b) (second : a ≠ c) (third : b ≠ c)
    {opA opB opC : List (Update Nat Block)}
    (callsA : calls a = [opA]) (callsB : calls b = [opB]) (callsC : calls c = [opC]) :
    ∃ places : T → Place, Reachable (process layout) (start disk calls) (Config.initial (opened disk 3) places) ∧
      places a = ⟨.inOp, opA, []⟩ ∧ places b = ⟨.inOp, opB, []⟩ ∧ places c = ⟨.inOp, opC, []⟩ := by
  have begun : ∀ (count : Int) {places : T → Place} (t : T) {op : List (Update Nat Block)},
      Reachable (process layout) (start disk calls) (Config.initial (opened disk count) places) →
      places t = ⟨.idle, [], [op]⟩ → 0 + (count + 1) * maxOpBlocks ≤ (logSize : Int) →
      Reachable (process layout) (start disk calls) (Config.initial (opened disk (count + 1))
        (Function.update places t ⟨.inOp, op, []⟩)) := by
    intro count places t op reached here room
    exact reached.solo (by rw [here]; exact solo_begin rfl room)
  have one := begun 0 a (Reachable.refl (process layout) (start disk calls)) (by rw [callsA]) (by decide)
  have two := begun 1 b one (by rw [Function.update_of_ne first.symm, callsB]) (by decide)
  have three := begun 2 c two
    (by rw [Function.update_of_ne third.symm, Function.update_of_ne second.symm, callsC]) (by decide)
  refine ⟨_, three, ?_, ?_, Function.update_self _ _ _⟩
  · rw [Function.update_of_ne second, Function.update_of_ne first, Function.update_self]
  · rw [Function.update_of_ne third, Function.update_self]

/-- The first process fills the log from its first block on, and two more processes go on behind it. -/
def three (a b c : T) (base x y : Nat) (t : T) : List (List (Update Nat Block)) :=
  if t = a then [fill base] else if t = b then [fill (base + x)] else if t = c then [fill (base + (x + y))] else []

omit [Fintype T] in
theorem exists_of_mem_three {a b c : T} {base x y : Nat} {t : T} {op : List (Update Nat Block)}
    (member : op ∈ three a b c base x y t) : ∃ i, i ≤ x + y ∧ op = fill (base + i) := by
  unfold three at member
  split at member
  · exact ⟨0, Nat.zero_le _, List.mem_singleton.mp member⟩
  · split at member
    · exact ⟨x, Nat.le_add_right x y, List.mem_singleton.mp member⟩
    · split at member
      · exact ⟨x + y, le_rfl, List.mem_singleton.mp member⟩
      · cases member

variable (disk) in
/-- Three system calls that are open together fill a log whose slots are too few by one. -/
theorem exists_panic {a b c : T} (first : a ≠ b) (second : a ≠ c) (third : b ≠ c) (few : layout.nlog ≤ logSize)
    (room : layout.logstart + layout.nlog + logSize ≤ layout.size) :
    ∃ calls : T → List (List (Update Nat Block)), Fits layout calls ∧ (∀ t, ∀ op ∈ calls t, Small op) ∧
      ∃ config, Reachable (process layout) (start disk calls) config ∧
        ∃ t, (config.places t).point.isPanic = true := by
  obtain ⟨x, y, z, atMostX, atMostY, atMostZ, total⟩ :
    ∃ x y z, x ≤ maxOpBlocks ∧ y ≤ maxOpBlocks ∧ z < maxOpBlocks ∧
      x + y + z = layout.nlog - 1 := by
    unfold logSize at few
    unfold maxOpBlocks
    exact ⟨min 10 (layout.nlog - 1), min 10 (layout.nlog - 1 - 10),
      layout.nlog - 1 - 20, by omega, by omega, by omega,
      by omega⟩
  obtain ⟨base, isBase⟩ : ∃ base, base = layout.logstart + layout.nlog := ⟨_, rfl⟩
  refine ⟨three a b c base x y, ?_, ?_, ?_⟩
  · intro t op member update change
    obtain ⟨i, atMost, rfl⟩ := exists_of_mem_three member
    obtain ⟨j, less, rfl⟩ := List.mem_map.mp change
    rw [List.mem_range] at less
    unfold Layout.Home
    unfold maxOpBlocks at *
    unfold logSize at *
    dsimp only
    omega
  · intro t op member
    obtain ⟨i, _, rfl⟩ := exists_of_mem_three member
    exact small_fill _
  · have callsA : three a b c base x y a = [fill base] := by simp [three]
    have callsB : three a b c base x y b = [fill (base + x)] := by simp [three, first.symm]
    have callsC : three a b c base x y c = [fill (base + (x + y))] := by simp [three, second.symm, third.symm]
    obtain ⟨places, begun, atA, atB, atC⟩ := exists_begun layout disk first second third callsA callsB callsC
    have slots : x + y + z < logSize := by
      have positive := layout.positive
      omega
    have empty : (opened disk 3 : Memory T).lh.length = 0 := rfl
    have three : (1 : Int) ≤ (opened disk 3 : Memory T).outstanding := (by decide : (1 : Int) ≤ 3)
    have nextA : places a = ⟨.inOp, fill (base + (opened disk 3 : Memory T).lh.length), []⟩ := atA
    obtain ⟨afterA, filledA, lhA, openA⟩ := exists_filled begun nextA rfl three atMostX (by omega) (by omega)
    have lengthA : afterA.lh.length = x := by simp [lhA, empty]
    have nextB : Function.update places a ⟨.inOp, (fill (base + (opened disk 3 : Memory T).lh.length)).drop x,
      []⟩ b =
        ⟨.inOp, fill (base + afterA.lh.length), []⟩ := by
      rw [Function.update_of_ne first.symm, atB, lengthA]
    obtain ⟨afterB, filledB, lhB, openB⟩ := exists_filled filledA nextB (by rw [lengthA, lhA, empty, Nat.zero_add])
      (openA ▸ three) atMostY (by omega) (by omega)
    have lengthB : afterB.lh.length = x + y := by simp [lhB, lengthA]
    have nextC : Function.update (Function.update places a
          ⟨.inOp, (fill (base + (opened disk 3 : Memory T).lh.length)).drop x, []⟩) b
          ⟨.inOp, (fill (base + afterA.lh.length)).drop y, []⟩ c =
            ⟨.inOp, fill (base + afterB.lh.length), []⟩ := by
      rw [Function.update_of_ne third.symm, Function.update_of_ne second.symm, atC, lengthB]
    obtain ⟨afterC, filledC, lhC, openC⟩ :=
      exists_filled filledB nextC (by rw [lengthB, lhB, lengthA]) (openB ▸ openA ▸ three) atMostZ.le
        (by omega) (by omega)
    obtain ⟨update, op, left⟩ := List.exists_cons_of_length_pos
      (show 0 < ((fill (base + afterB.lh.length)).drop z).length by simp [fill]; omega)
    obtain ⟨config, reached, panics⟩ := exists_panic_of_full (t := c) filledC (by rw [Function.update_self, left])
      (by rw [lhC, List.length_range', lengthB]; omega)
    exact ⟨config, reached, c, panics⟩

end

/-- With three processes or more, small system calls never make the log panic exactly when the log has more blocks
than `LOGSIZE`. -/
theorem never_panics_iff {T : Type} [DecidableEq T] [Fintype T] {layout : Layout} (disk : Disk)
    (many : 3 ≤ Fintype.card T)
    (room : layout.logstart + layout.nlog + logSize ≤ layout.size) :
    (∀ calls : T → List (List (Update Nat Block)), Fits layout calls → (∀ t, ∀ op ∈ calls t, Small op) →
      ∀ config, Reachable (process layout) (start disk calls) config →
        ∀ t, (config.places t).point.isPanic = false) ↔
      logSize < layout.nlog := by
  constructor
  · intro never
    by_contra few
    obtain ⟨a, b, c, first, second, third⟩ := Fintype.two_lt_card_iff.mp many
    obtain ⟨calls, fits, small, config, reached, t, panics⟩ :=
      exists_panic disk first second third (Nat.not_lt.mp few) room
    rw [never calls fits small config reached t] at panics
    cases panics
  · intro large calls _ small config reached t
    obtain ⟨history, reached⟩ := reached
    exact calm small large reached t

/-- The layout that `mkfs` gives a file system of 2000 blocks. -/
def mkfsLayout : Layout := ⟨2, logSize, 2000, by decide, by decide, by decide⟩

/-- On the file system of `mkfs` some small system calls of three processes make the log panic. -/
theorem mkfs_panics : ¬ ∀ calls : Fin 3 → List (List (Update Nat Block)), Fits mkfsLayout calls →
    (∀ t, ∀ op ∈ calls t, Small op) → ∀ config, Reachable (process mkfsLayout)
    (start (fun _ _ => 0) calls) config →
      ∀ t, (config.places t).point.isPanic = false := by
  intro never
  have room : mkfsLayout.logstart + mkfsLayout.nlog + logSize ≤ mkfsLayout.size := by decide
  have larger := (never_panics_iff (fun _ _ => 0) (by decide) room).mp never
  exact absurd larger (by decide)

end OSLabs.Xv6.Log
