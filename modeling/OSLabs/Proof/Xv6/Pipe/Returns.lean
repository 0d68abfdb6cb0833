import OSLabs.Proof.Xv6.Pipe.Stream

namespace OSLabs.Xv6.Pipe

open Pthread Fifo

/-- The process owns `pi->lock` at these points. -/
def Point.locked : Point → Bool
  | .idle | .acquireWrite | .acquireRead | .acquireClose => false
  | _ => true

section
variable {T : Type}

def held (place : Place T) (_ : Mutex) : Bool := place.point.locked

/-- What the call that runs has done so far. -/
def Place.Faithful (t : T) (memory : Memory T) (place : Place T) : Prop :=
  match place.point, place.call with
  | .idle, _ => True
  | .acquireWrite, .write _ _ => place.moved = []
  | .writeLoop, .write bytes n => place.moved <+: bytes ∧ place.moved.length ≤ n.toNat
  | .wakeFull, .write bytes n =>
      (place.moved <+: bytes ∧ place.moved.length ≤ n.toNat) ∧
        memory.nwrite = memory.nread + UInt32.ofNat pipeSize ∧ memory.readopen = true
  | .sleepFull, .write bytes n => (place.moved <+: bytes ∧ place.moved.length ≤ n.toNat) ∧ place.fresh = false
  | .writeFull, .write bytes n => place.moved <+: bytes ∧ place.moved.length < n ∧ memory.readopen = true
  | .wakeWritten, .write bytes n | .releaseWrite, .write bytes n => Wrote bytes n place.moved place.result
  | .acquireRead, .read _ _ | .readEmpty, .read _ _ | .readSleep, .read _ _ => place.moved = []
  | .readBegin, .read _ _ => place.moved = [] ∧ (memory.nread = memory.nwrite → memory.writeopen = false)
  | .readLoop, .read room n =>
      place.moved.length ≤ room ∧ place.moved.length ≤ n.toNat ∧ place.first ≤ memory.left.length ∧
        memory.left.drop place.first = place.moved.map (Prod.mk t) ∧
        (place.moved = [] → memory.nread = memory.nwrite → memory.writeopen = false)
  | .wakeRead, .read room n | .releaseRead, .read room n =>
      Took t room n place.first place.moved place.result memory
  | .acquireClose, .close _ | .closeSide, .close _ | .wakeReaders, .close _ | .wakeWriters, .close _ | .releaseClose, .close _ =>
      True
  | _, _ => False

/-- The running call is faithful, and each sleep continues at its test. -/
def Guard (t : T) (status : Status (Place T) Mutex Chan) (memory : Memory T) : Prop :=
  status.place.Faithful t memory ∧
    match status with
    | .ready _ => True
    | .blocked .nread _ place => place.point = .readEmpty
    | .blocked .nwrite _ place => place.point = .writeLoop ∧ place.fresh = false
    | .woken _ place => place.point = .readEmpty ∨ place.point = .writeLoop ∧ place.fresh = false

/-- More bytes may leave and the write side may close. -/
theorem Took.mono {t : T} {room : Nat} {n : Int} {first : Nat} {moved : List UInt8} {result : Int}
    {memory after : Memory T}
    (took : Took t room n first moved result memory) (more : memory.left <+: after.left)
    (closes : memory.writeopen = false → after.writeopen = false) : Took t room n first moved result after := by
  rcases took with failed | ⟨returned, fits, asked, within, bytes, ended⟩
  · exact .inl failed
  · obtain ⟨later, same⟩ := more
    refine .inr ⟨returned, fits, asked, ?_, ?_, fun none roomy some => closes (ended none roomy some)⟩
    · rw [← same, List.length_append]
      omega
    · rw [← same, List.drop_append_of_le_length (by omega),
        List.take_append_of_le_length (by rw [List.length_drop]; omega), bytes]

theorem Return.Faithful.mono {t : T} {return' : Return T} {memory after : Memory T}
    (faithful : return'.Faithful t memory)
    (more : memory.left <+: after.left) (closes : memory.writeopen = false → after.writeopen = false) :
    return'.Faithful t after := by
  unfold Return.Faithful at *
  split at *
  · exact faithful
  · exact faithful.mono more closes
  · trivial

/-- Outside the mutex nothing is said about the memory. -/
theorem Place.Faithful.unlocked {t : T} {place : Place T} {memory : Memory T} (faithful : place.Faithful t memory)
    (unlocked : place.point.locked = false ∨ place.point = .readEmpty ∨ place.point = .writeLoop)
    (after : Memory T) :
    place.Faithful t after := by
  obtain ⟨point, call, moved, fresh, first, result, returns, rest⟩ := place
  cases point <;> cases call <;> first | exact faithful | simp [Point.locked] at unlocked

theorem guard_stable (t : T) (status : Status (Place T) Mutex Chan) (memory memory' : Memory T)
    (free : status.holds held .lock = false) (guard : Guard t status memory) : Guard t status memory' := by
  refine ⟨guard.1.unlocked ?_ memory', guard.2⟩
  cases status with
  | ready place => exact .inl free
  | blocked chan mutex place =>
      cases chan with
      | nread => exact .inr (.inl guard.2)
      | nwrite => exact .inr (.inr guard.2.1)
  | woken mutex place => exact .inr (guard.2.imp id And.left)

variable [DecidableEq T] {calls : T → List (Call T)}

theorem process_respects (t : T) (place : Place T) : (process t place).Respects held place := by
  obtain ⟨point, call, moved, fresh, first, result, returns, rest⟩ := place
  cases point with
  | idle =>
      cases rest with
      | nil => trivial
      | cons next rest =>
          intro before after there effect
          cases next <;> cases effect <;> rfl
  | writeLoop =>
      intro before after there effect
      cases call with
      | write bytes n =>
          simp only at effect
          split at effect
          · split at effect <;> cases effect <;> rfl
          · cases effect
            rfl
      | _ => cases effect; rfl
  | writeFull =>
      intro before after there effect
      simp only at effect
      split at effect
      · cases effect
        rfl
      · cases call with
        | write bytes n =>
            simp only at effect
            split at effect <;> cases effect <;> rfl
        | _ => cases effect; rfl
  | readEmpty =>
      intro before after there effect
      simp only at effect
      split at effect
      · split at effect <;> cases effect <;> rfl
      · cases effect
        rfl
  | readLoop =>
      intro before after there effect
      cases call with
      | read room n =>
          simp only at effect
          split at effect
          · split at effect
            · cases effect
              rfl
            · split at effect <;> cases effect <;> rfl
          · cases effect
            rfl
      | _ => cases effect; rfl
  | closeSide =>
      intro before after there effect
      cases call with
      | close writable => cases writable <;> cases effect <;> rfl
      | _ => cases effect; rfl
  | readBegin =>
      intro before after there effect
      cases effect
      rfl
  | acquireWrite | acquireRead | acquireClose | releaseWrite | releaseRead | releaseClose =>
      funext mutex
      cases mutex
      rfl
  | sleepFull | readSleep => exact ⟨rfl, rfl⟩
  | wakeFull | wakeWritten | wakeRead | wakeReaders | wakeWriters => rfl

namespace Place.Faithful
variable {t : T} {place next : Place T} {memory after : Memory T} (faithful : place.Faithful t memory)
include faithful

/-- The loop of `pipewrite` has moved all bytes, or it goes on while the read side is open. -/
theorem writeLoop (here : place.point = .writeLoop)
    (effect : (process t place).effect memory = some (after, next)) :
    next.Faithful t after := by
  obtain ⟨point, call, moved, fresh, first, result, returns, rest⟩ := place
  cases here
  cases call with
  | write bytes n =>
      obtain ⟨starts, asked⟩ := faithful
      have fits := starts.length_le
      simp only at starts asked fits
      simp only [process, Instr.effect, Option.some.injEq] at effect
      split at effect
      · next less =>
          split at effect
          · cases effect
            exact ⟨starts, asked, .inl rfl⟩
          · next isOpen =>
              cases effect
              exact ⟨starts, less, by simpa using (not_or.mp isOpen).1⟩
      · cases effect
        have all : moved.length = min n.toNat bytes.length := by omega
        exact ⟨starts, asked, .inr ⟨rfl, all⟩⟩
  | _ => cases faithful

/-- `pipewrite` waits for room, or it moves one byte, or `copyin` has failed. -/
theorem writeFull (here : place.point = .writeFull)
    (effect : (process t place).effect memory = some (after, next)) :
    next.Faithful t after := by
  obtain ⟨point, call, moved, fresh, first, result, returns, rest⟩ := place
  cases here
  cases call with
  | write bytes n =>
      obtain ⟨starts, less, isOpen⟩ := faithful
      have fits := starts.length_le
      simp only at starts less fits
      have asked : moved.length ≤ n.toNat := by omega
      simp only [process, Instr.effect, Option.some.injEq] at effect
      split at effect
      · next full =>
          cases effect
          exact ⟨⟨starts, asked⟩, full, isOpen⟩
      · split at effect
        · next ch more =>
            cases effect
            have longer : moved ++ [ch] <+: bytes := by
              obtain ⟨later, rfl⟩ := starts
              rw [List.getElem?_append_right le_rfl, Nat.sub_self] at more
              cases later with
              | nil => cases more
              | cons head later =>
                  obtain rfl : head = ch := Option.some.inj more
                  exact ⟨later, by simp⟩
            have room : (moved ++ [ch]).length ≤ n.toNat := by
              rw [List.length_append, List.length_singleton]
              omega
            exact ⟨longer, room⟩
        · next none =>
            cases effect
            have behind := List.getElem?_eq_none_iff.mp none
            have all : moved.length = min n.toNat bytes.length := by omega
            exact ⟨starts, asked, .inr ⟨rfl, all⟩⟩
  | _ => cases faithful

/-- `piperead` finds the pipe empty and open, or it goes on to its loop. -/
theorem readEmpty (here : place.point = .readEmpty)
    (effect : (process t place).effect memory = some (after, next)) :
    next.Faithful t after := by
  obtain ⟨point, call, moved, fresh, first, result, returns, rest⟩ := place
  cases here
  cases call with
  | read room n =>
      simp only [process, Instr.effect, Option.some.injEq] at effect
      split at effect
      · split at effect <;> cases effect
        · exact .inl ⟨rfl, faithful⟩
        · exact faithful
      · next some =>
          cases effect
          refine ⟨faithful, fun empty => ?_⟩
          simpa [empty] using some
  | _ => cases faithful

theorem readBegin (here : place.point = .readBegin)
    (effect : (process t place).effect memory = some (after, next)) :
    next.Faithful t after := by
  obtain ⟨point, call, moved, fresh, first, result, returns, rest⟩ := place
  cases here
  cases call with
  | read room n =>
      cases effect
      obtain ⟨none, ended⟩ := faithful
      cases none
      exact ⟨Nat.zero_le _, Nat.zero_le _, le_rfl, List.drop_length, fun _ => ended⟩
  | _ => cases faithful

/-- The loop of `piperead` moves one byte, or it ends. A byte for which `copyout` fails has left the pipe. -/
theorem readLoop (here : place.point = .readLoop) (effect : (process t place).effect memory = some (after, next)) :
    next.Faithful t after := by
  obtain ⟨point, call, moved, fresh, first, result, returns, rest⟩ := place
  cases here
  cases call with
  | read room n =>
      obtain ⟨fits, asked, within, bytes, ended⟩ := faithful
      simp only at fits asked within bytes ended
      have count := congrArg List.length bytes
      rw [List.length_drop, List.length_map] at count
      have bound : first + moved.length ≤ memory.left.length := by omega
      have sofar : (memory.left.drop first).take moved.length = moved.map (Prod.mk t) := by
        rw [bytes, ← List.length_map (Prod.mk t), List.take_length]
      simp only [process, Instr.effect, Option.some.injEq] at effect
      split at effect
      · next less =>
          split at effect
          · next empty =>
              cases effect
              exact .inr ⟨rfl, fits, asked, bound, sofar, fun none _ _ => ended none empty⟩
          · have more : (memory.pop t).left.drop first = moved.map (Prod.mk t) ++ [(t, memory.head)] := by
              rw [Memory.pop, List.drop_append_of_le_length within, bytes]
            have longer : memory.left.length ≤ (memory.pop t).left.length := by
              rw [Memory.pop, List.length_append]
              omega
            split at effect
            · next roomy =>
                cases effect
                have count : (moved ++ [memory.head]).length = moved.length + 1 := by
                  rw [List.length_append, List.length_singleton]
                have some : moved ++ [memory.head] ≠ [] := by simp
                have fits : (moved ++ [memory.head]).length ≤ room := by omega
                have asked : (moved ++ [memory.head]).length ≤ n.toNat := by omega
                have all : (memory.pop t).left.drop first = (moved ++ [memory.head]).map (Prod.mk t) := by
                  rw [more, List.map_append, List.map_singleton]
                exact ⟨fits, asked, within.trans longer, all, fun none => absurd none some⟩
            · next full =>
                cases effect
                have taken : ((memory.pop t).left.drop first).take moved.length = moved.map (Prod.mk t) := by
                  rw [more, List.take_append_of_le_length (by rw [List.length_map]), ← List.length_map (Prod.mk t),
                    List.take_length]
                refine .inr ⟨rfl, fits, asked, bound.trans longer, taken, fun none roomy => ?_⟩
                cases none
                exact absurd roomy full
      · next done =>
          cases effect
          refine .inr ⟨rfl, fits, asked, bound, sofar, fun none _ positive => ?_⟩
          cases none
          exact absurd positive done
  | _ => cases faithful

theorem closeSide (here : place.point = .closeSide)
    (effect : (process t place).effect memory = some (after, next)) :
    next.Faithful t after := by
  obtain ⟨point, call, moved, fresh, first, result, returns, rest⟩ := place
  cases here
  cases call with
  | close writable => cases writable <;> cases effect <;> trivial
  | _ => cases faithful

/-- A call that has got the mutex begins. -/
theorem lock (instr : process t place = .lock .lock next) : next.Faithful t memory := by
  obtain ⟨point, call, moved, fresh, first, result, returns, rest⟩ := place
  cases point with
  | idle => cases rest <;> cases instr
  | acquireWrite =>
      cases call with
      | write bytes n =>
          cases instr
          cases faithful
          exact ⟨List.nil_prefix, Nat.zero_le _⟩
      | _ => cases faithful
  | acquireRead =>
      cases call with
      | read room n =>
          cases instr
          exact faithful
      | _ => cases faithful
  | acquireClose =>
      cases call with
      | close writable =>
          cases instr
          trivial
      | _ => cases faithful
  | _ => cases instr

/-- A wakeup changes nothing for the call that makes it. -/
theorem broadcast {chan : Chan} (instr : process t place = .broadcast chan next) : next.Faithful t memory := by
  obtain ⟨point, call, moved, fresh, first, result, returns, rest⟩ := place
  cases point with
  | idle => cases rest <;> cases instr
  | wakeFull =>
      cases call with
      | write bytes n =>
          cases instr
          exact ⟨faithful.1, rfl⟩
      | _ => cases faithful
  | wakeWritten =>
      cases call with
      | write bytes n =>
          cases instr
          exact faithful
      | _ => cases faithful
  | wakeRead =>
      cases call with
      | read room n =>
          cases instr
          exact faithful
      | _ => cases faithful
  | wakeReaders | wakeWriters =>
      cases call with
      | close writable =>
          cases instr
          trivial
      | _ => cases faithful
  | _ => cases instr

end Place.Faithful

omit [DecidableEq T] in
theorem start_owned : Owned (fun _ => held) (start calls) := by
  refine ⟨fun mutex t => ?_, fun t => trivial⟩
  simp [start, Status.holds, held, Point.locked]

variable [Fintype T] {allowed : History T (Memory T) (Place T) Mutex Chan → State T → T → Prop}
  {history : History T (Memory T) (Place T) Mutex Chan} {config : State T}

theorem owned (reached : Run process (start calls) allowed history config) : Owned (fun _ => held) config := by
  refine reached.owned process_respects start_owned ?_
  intro _ _ t place mutex next _ _ _ unlocks unheld
  obtain ⟨point, call, moved, fresh, first, result, returns, rest⟩ := place
  cases point with
  | idle => cases rest <;> cases unlocks
  | _ => cases unlocks <;> cases unheld

theorem guarded (reached : Run process (start calls) allowed history config) : Everywhere Guard config := by
  refine Run.everywhere Guard ?_ ?_ ?_ ?_ reached
  · exact fun t => ⟨trivial, trivial⟩
  · intro t chan mutex place memory guard
    cases chan with
    | nread => exact ⟨guard.1, .inl guard.2⟩
    | nwrite => exact ⟨guard.1, .inr guard.2⟩
  · exact fun t mutex place memory guard => ⟨guard.1, trivial⟩
  · intro history config t place before all _ here
    have others : place.point.locked = true → ∀ memory other, other ≠ t →
        Guard other (config.status other) memory :=
      fun locked memory other different =>
        all.undisturbed (owned before) guard_stable here (locked : held place .lock = true) memory different
    have faithful : place.Faithful t config.memory := by
      have guard := all t
      rw [here] at guard
      exact guard.1
    obtain ⟨point, call, moved, fresh, first, result, returns, rest⟩ := place
    cases point with
    | idle =>
        cases rest with
        | nil => trivial
        | cons next rest =>
            intro after there effect
            cases next <;> cases effect <;> exact ⟨⟨by first | exact rfl | trivial, trivial⟩, fun other _ => all other⟩
    | writeLoop => exact fun _ _ effect => ⟨⟨faithful.writeLoop rfl (congrArg some effect), trivial⟩, others rfl _⟩
    | writeFull => exact fun _ _ effect => ⟨⟨faithful.writeFull rfl (congrArg some effect), trivial⟩, others rfl _⟩
    | readEmpty => exact fun _ _ effect => ⟨⟨faithful.readEmpty rfl (congrArg some effect), trivial⟩, others rfl _⟩
    | readBegin => exact fun _ _ effect => ⟨⟨faithful.readBegin rfl (congrArg some effect), trivial⟩, others rfl _⟩
    | readLoop => exact fun _ _ effect => ⟨⟨faithful.readLoop rfl (congrArg some effect), trivial⟩, others rfl _⟩
    | closeSide => exact fun _ _ effect => ⟨⟨faithful.closeSide rfl (congrArg some effect), trivial⟩, others rfl _⟩
    | acquireWrite | acquireRead | acquireClose => exact fun _ => ⟨faithful.lock rfl, trivial⟩
    | wakeFull | wakeWritten | wakeRead | wakeReaders | wakeWriters => exact ⟨faithful.broadcast rfl, trivial⟩
    | sleepFull =>
        cases call with
        | write bytes n => exact ⟨faithful.1, rfl, faithful.2⟩
        | _ => cases faithful
    | readSleep =>
        cases call with
        | read room n => exact ⟨faithful, rfl⟩
        | _ => cases faithful
    | releaseWrite | releaseRead | releaseClose => exact ⟨trivial, trivial⟩

omit [Fintype T] in
/-- What a step changes: it may let bytes leave or close the write side, it may put a byte into the pipe,
and it may return from the call. -/
theorem step_cases {t : T} {place next : Place T} {memory after : Memory T}
    (effect : (process t place).effect memory = some (after, next)) :
    memory.left <+: after.left ∧ (memory.writeopen = false → after.writeopen = false) ∧
      (next.returns = place.returns ∨ next.returns = place.returns ++
        [⟨place.call, place.result, place.first, place.moved⟩] ∧
        (place.point = .releaseWrite ∨ place.point = .releaseRead ∨ place.point = .releaseClose) ∨
        ∃ victim, next.returns = place.returns ++ [⟨.kill victim, 0, 0, []⟩]) := by
  obtain ⟨point, call, moved, fresh, first, result, returns, rest⟩ := place
  cases point with
  | idle =>
      cases rest with
      | nil => cases effect
      | cons next rest =>
          cases next with
          | kill victim =>
              cases effect
              exact ⟨List.prefix_refl _, id, .inr (.inr ⟨victim, rfl⟩)⟩
          | _ => cases effect; exact ⟨List.prefix_refl _, id, .inl rfl⟩
  | writeLoop =>
      cases call with
      | write bytes n =>
          simp only [process, Instr.effect, Option.some.injEq] at effect
          split at effect
          · split at effect <;> cases effect <;> exact ⟨List.prefix_refl _, id, .inl rfl⟩
          · cases effect
            exact ⟨List.prefix_refl _, id, .inl rfl⟩
      | _ => cases effect; exact ⟨List.prefix_refl _, id, .inl rfl⟩
  | writeFull =>
      simp only [process, Instr.effect, Option.some.injEq] at effect
      split at effect
      · cases effect
        exact ⟨List.prefix_refl _, id, .inl rfl⟩
      · cases call with
        | write bytes n =>
            simp only at effect
            split at effect <;> cases effect <;> exact ⟨List.prefix_refl _, id, .inl rfl⟩
        | _ => cases effect; exact ⟨List.prefix_refl _, id, .inl rfl⟩
  | readEmpty =>
      simp only [process, Instr.effect, Option.some.injEq] at effect
      split at effect
      · split at effect <;> cases effect <;> exact ⟨List.prefix_refl _, id, .inl rfl⟩
      · cases effect
        exact ⟨List.prefix_refl _, id, .inl rfl⟩
  | readLoop =>
      cases call with
      | read room n =>
          simp only [process, Instr.effect, Option.some.injEq] at effect
          split at effect
          · split at effect
            · cases effect
              exact ⟨List.prefix_refl _, id, .inl rfl⟩
            · split at effect <;> cases effect <;> exact ⟨List.prefix_append _ _, id, .inl rfl⟩
          · cases effect
            exact ⟨List.prefix_refl _, id, .inl rfl⟩
      | _ => cases effect; exact ⟨List.prefix_refl _, id, .inl rfl⟩
  | closeSide =>
      cases call with
      | close writable =>
          cases writable <;> cases effect <;> exact ⟨List.prefix_refl _, fun closed => by trivial, .inl rfl⟩
      | _ => cases effect; exact ⟨List.prefix_refl _, id, .inl rfl⟩
  | releaseWrite | releaseRead | releaseClose =>
      cases effect
      exact ⟨List.prefix_refl _, id, .inr (.inl ⟨rfl, by simp⟩)⟩
  | _ => cases effect; exact ⟨List.prefix_refl _, id, .inl rfl⟩

omit [DecidableEq T] [Fintype T] in
/-- A faithful call that is about to return gives a faithful return. -/
theorem Place.Faithful.returns {t : T} {place : Place T} {memory : Memory T} (faithful : place.Faithful t memory)
    (released : place.point = .releaseWrite ∨ place.point = .releaseRead ∨ place.point = .releaseClose) :
    Return.Faithful t memory ⟨place.call, place.result, place.first, place.moved⟩ := by
  obtain ⟨point, call, moved, fresh, first, result, returns, rest⟩ := place
  rcases released with same | same | same <;> cases same <;> cases call <;> first | exact faithful | cases faithful

theorem returned (reached : Run process (start calls) allowed history config) (t : T) :
    ∀ return' ∈ (config.places t).returns, return'.Faithful t config.memory := by
  refine reached.placed (fun _ (places : T → Place T) memory =>
    ∀ t, ∀ return' ∈ (places t).returns, return'.Faithful t memory) ?_ (fun _ _ _ holds _ => holds) ?_ t
  · intro t return' member
    cases member
  · intro _ config t place after next before all _ here effect other return' member
    obtain ⟨more, closes, cases⟩ := step_cases effect
    refine Return.Faithful.mono ?_ more closes
    by_cases same : other = t
    · subst same
      have mine := all other
      have guard := guarded before other
      rw [Config.places_of_ready here] at mine
      rw [here] at guard
      rw [Function.update_self] at member
      rcases cases with kept | ⟨added, released⟩ | ⟨victim, added⟩
      · exact mine _ (kept ▸ member)
      · rw [added] at member
        rcases List.mem_append.mp member with old | new
        · exact mine _ old
        · rw [List.mem_singleton.mp new]
          exact Place.Faithful.returns guard.1 released
      · rw [added] at member
        rcases List.mem_append.mp member with old | new
        · exact mine _ old
        · rw [List.mem_singleton.mp new]
          trivial
    · rw [Function.update_of_ne same] at member
      exact all other _ member

omit [DecidableEq T] [Fintype T] in
/-- A process that goes on inside its call puts nothing into the pipe. -/
theorem Place.puts_of_same {place next : Place T} (returns : next.returns = place.returns)
    (call : next.call = place.call)
    (moved : next.moved = place.moved) (before : place.point ≠ .idle) (after : next.point ≠ .idle) :
    next.puts = place.puts := by
  rw [Place.puts, Place.puts, returns, call, moved, if_neg before, if_neg after]

omit [DecidableEq T] [Fintype T] in
theorem Place.puts_leave {place : Place T} (inside : place.point ≠ .idle) : place.leave.puts = place.puts := by
  rw [Place.puts, Place.puts, if_neg inside, Place.leave, if_pos rfl, List.append_nil, List.flatMap_append,
    List.flatMap_singleton]

omit [Fintype T] in
/-- Each byte that enters the pipe is put there by a call. -/
theorem puts_cases {t : T} {place next : Place T} {memory after : Memory T}
    (effect : (process t place).effect memory = some (after, next)) :
    after.entered = memory.entered ∧ next.puts = place.puts ∨
      ∃ ch, after.entered = memory.entered ++ [(t, ch)] ∧ next.puts = place.puts ++ [ch] := by
  obtain ⟨point, call, moved, fresh, first, result, returns, rest⟩ := place
  cases point with
  | idle =>
      cases rest with
      | nil => cases effect
      | cons next rest =>
          cases next <;> cases effect <;> refine .inl ⟨rfl, ?_⟩ <;>
            simp [Place.puts, Place.enter, Place.leave, Call.puts]
  | writeLoop =>
      cases call with
      | write bytes n =>
          simp only [process, Instr.effect, Option.some.injEq] at effect
          split at effect
          · split at effect <;> cases effect <;>
              exact .inl ⟨rfl, Place.puts_of_same rfl rfl rfl (by rintro ⟨⟩) (by rintro ⟨⟩)⟩
          · cases effect
            exact .inl ⟨rfl, Place.puts_of_same rfl rfl rfl (by rintro ⟨⟩) (by rintro ⟨⟩)⟩
      | _ => cases effect; exact .inl ⟨rfl, Place.puts_of_same rfl rfl rfl (by rintro ⟨⟩) (by rintro ⟨⟩)⟩
  | writeFull =>
      simp only [process, Instr.effect, Option.some.injEq] at effect
      split at effect
      · cases effect
        exact .inl ⟨rfl, Place.puts_of_same rfl rfl rfl (by rintro ⟨⟩) (by rintro ⟨⟩)⟩
      · cases call with
        | write bytes n =>
            simp only at effect
            split at effect
            · next ch _ =>
                cases effect
                refine .inr ⟨ch, rfl, ?_⟩
                rw [Place.puts, Place.puts, if_neg (by rintro ⟨⟩), if_neg (by rintro ⟨⟩), List.append_assoc]
                rfl
            · cases effect
              exact .inl ⟨rfl, Place.puts_of_same rfl rfl rfl (by rintro ⟨⟩) (by rintro ⟨⟩)⟩
        | _ => cases effect; exact .inl ⟨rfl, Place.puts_of_same rfl rfl rfl (by rintro ⟨⟩) (by rintro ⟨⟩)⟩
  | readEmpty =>
      simp only [process, Instr.effect, Option.some.injEq] at effect
      split at effect
      · split at effect <;> cases effect <;> exact .inl ⟨rfl,
          Place.puts_of_same rfl rfl rfl (by rintro ⟨⟩) (by rintro ⟨⟩)⟩
      · cases effect
        exact .inl ⟨rfl, Place.puts_of_same rfl rfl rfl (by rintro ⟨⟩) (by rintro ⟨⟩)⟩
  | readLoop =>
      cases call with
      | read room n =>
          simp only [process, Instr.effect, Option.some.injEq] at effect
          split at effect
          · split at effect
            · cases effect
              exact .inl ⟨rfl, Place.puts_of_same rfl rfl rfl (by rintro ⟨⟩) (by rintro ⟨⟩)⟩
            · split at effect
              · cases effect
                refine .inl ⟨rfl, ?_⟩
                rw [Place.puts, Place.puts, if_neg (by rintro ⟨⟩), if_neg (by rintro ⟨⟩)]
                rfl
              · cases effect
                exact .inl ⟨rfl, Place.puts_of_same rfl rfl rfl (by rintro ⟨⟩) (by rintro ⟨⟩)⟩
          · cases effect
            exact .inl ⟨rfl, Place.puts_of_same rfl rfl rfl (by rintro ⟨⟩) (by rintro ⟨⟩)⟩
      | _ => cases effect; exact .inl ⟨rfl, Place.puts_of_same rfl rfl rfl (by rintro ⟨⟩) (by rintro ⟨⟩)⟩
  | closeSide =>
      cases call with
      | close writable =>
          cases writable <;> cases effect <;> exact .inl ⟨rfl, Place.puts_of_same rfl rfl rfl (by rintro ⟨⟩) (by rintro ⟨⟩)⟩
      | _ => cases effect; exact .inl ⟨rfl, Place.puts_of_same rfl rfl rfl (by rintro ⟨⟩) (by rintro ⟨⟩)⟩
  | releaseWrite | releaseRead | releaseClose =>
      cases effect
      exact .inl ⟨rfl, Place.puts_leave (by rintro ⟨⟩)⟩
  | _ => cases effect; exact .inl ⟨rfl, Place.puts_of_same rfl rfl rfl (by rintro ⟨⟩) (by rintro ⟨⟩)⟩

theorem entered_eq (reached : Run process (start calls) allowed history config) (t : T) :
    bytesOf t config.memory.entered = (config.places t).puts := by
  refine reached.placed (fun _ (places : T → Place T) (memory : Memory T) =>
    ∀ t, bytesOf t memory.entered = (places t).puts) ?_
    (fun _ _ _ holds _ => holds) ?_ t
  · exact fun t => rfl
  · intro _ config t place after next before all _ here effect other
    have before := all other
    rcases puts_cases effect with ⟨same, puts⟩ | ⟨ch, added, puts⟩
    · rw [same, before]
      by_cases mine : other = t
      · subst mine
        rw [Function.update_self, puts, Config.places_of_ready here]
      · rw [Function.update_of_ne mine]
    · by_cases mine : other = t
      · subst mine
        rw [Function.update_self, puts, added, ← Config.places_of_ready here, ← before]
        simp [bytesOf]
      · rw [Function.update_of_ne mine, ← before, added]
        simp [bytesOf, Ne.symm mine]

/-- In every run the bytes that have left the pipe and those that wait in it are the bytes that have entered it,
in order. The bytes of each process are those that its writes have put there,
and each call that has returned is faithful. -/
theorem pipe_fifo (reached : Reachable process (start calls) config) :
    config.memory.left.map Prod.snd ++ config.memory.waiting = config.memory.entered.map Prod.snd ∧
      config.memory.waiting.length ≤ pipeSize ∧
      ∀ t, bytesOf t config.memory.entered = (config.places t).puts ∧
        ∀ return' ∈ (config.places t).returns, return'.Faithful t config.memory := by
  obtain ⟨history, reached⟩ := reached
  have stored := stored reached
  refine ⟨?_, ?_, fun t => ⟨entered_eq reached t, returned reached t⟩⟩
  · rw [stored.waiting_eq, stored.took, ← List.map_append, List.take_append_drop]
  · have room := stored.room
    rw [stored.waiting_eq, List.length_map, List.length_drop]
    omega

end

/-- A write of three bytes and a read into a buffer of which only two bytes are mapped. -/
def shortBuffer : Fin 2 → List (Call (Fin 2)) := fun t => if t.val = 0 then [.write [7, 8, 9] 3] else [.read 2 5]

/-- The read returns two bytes and loses the third one. -/
theorem short_read_loses : ∃ config, Reachable process (start shortBuffer) config ∧
    (config.places 1).returns.map (fun return' => (return'.result, return'.moved)) = [(2, [7, 8])] ∧
    config.memory.left.map Prod.snd ++ config.memory.waiting = [7, 8, 9] ∧
    ∀ return' ∈ (config.places 1).returns, return'.Faithful 1 config.memory := by
  obtain ⟨config, reached, holds⟩ := exists_reachable process (start shortBuffer) (turns 11 0 ++ turns 9 1)
    (fun config => (config.places 1).returns.map (fun return' => (return'.result, return'.moved)) = [(2, [7, 8])] ∧
      config.memory.entered.map Prod.snd = [7, 8, 9]) (by decide +kernel)
  simp only [decide_eq_true_eq] at holds
  have fifo := pipe_fifo reached
  exact ⟨config, reached, holds.1, fifo.1.trans holds.2, (fifo.2.2 1).2⟩

end OSLabs.Xv6.Pipe
