import OSLabs.Proof.Xv6.Pipe.Returns

namespace OSLabs.Xv6.Pipe

open Pthread Fifo

namespace Point

/-- The process will wake the writers before it frees the mutex. -/
def makesRoom : Point → Bool
  | .readLoop | .wakeRead | .wakeWriters => true
  | _ => false

/-- A write can have put bytes into the pipe of which it has told nobody. -/
def mayBeFresh : Point → Bool
  | .writeLoop | .writeFull | .wakeFull | .wakeWritten => true
  | _ => false

theorem locked_of_makesRoom {point : Point} (makes : point.makesRoom = true) : point.locked = true := by
  cases point <;> first | rfl | cases makes

theorem locked_of_mayBeFresh {point : Point} (may : point.mayBeFresh = true) : point.locked = true := by
  cases point <;> first | rfl | cases may

end Point

section
variable {T : Type}

/-- The process will wake the readers before it frees the mutex. -/
def Place.tells (place : Place T) : Bool := place.fresh || place.point = .wakeReaders

/-- Whoever waits for bytes finds none, or a write was cut, or a process will wake the readers. -/
def Starved (places : T → Place T) (memory : Memory T) : Prop :=
  (memory.nread = memory.nwrite ∧ memory.writeopen = true) ∨ memory.cut = true ∨ ∃ t, (places t).tells = true

/-- Whoever waits for room finds none, or a process will wake the writers. -/
def Clogged (places : T → Place T) (memory : Memory T) : Prop :=
  (memory.nwrite = memory.nread + UInt32.ofNat pipeSize ∧ memory.readopen = true) ∨
    ∃ t, (places t).point.makesRoom = true

variable [DecidableEq T]

/-- A step that does not concern the readers leaves them as they were. -/
theorem Starved.move {places : T → Place T} {memory after : Memory T} {t : T} {next : Place T}
    (starved : Starved places memory)
    (nread : after.nread = memory.nread) (nwrite : after.nwrite = memory.nwrite)
    (writeopen : after.writeopen = memory.writeopen)
    (cut : after.cut = memory.cut) (tells : (places t).tells = true → next.tells = true) :
    Starved (Function.update places t next) after := by
  rcases starved with ⟨empty, isOpen⟩ | aborted | found
  · exact .inl ⟨by rw [nread, nwrite, empty], writeopen.trans isOpen⟩
  · exact .inr (.inl (cut.trans aborted))
  · refine .inr (.inr (exists_update Place.tells ?_ found))
    cases before : (places t).tells with
    | true => rw [tells before]; rfl
    | false => rfl

/-- A step that does not concern the writers leaves them as they were. -/
theorem Clogged.move {places : T → Place T} {memory after : Memory T} {t : T} {next : Place T}
    (clogged : Clogged places memory)
    (nread : after.nread = memory.nread) (nwrite : after.nwrite = memory.nwrite)
    (readopen : after.readopen = memory.readopen)
    (makes : (places t).point.makesRoom = true → next.point.makesRoom = true) :
    Clogged (Function.update places t next) after := by
  rcases clogged with ⟨full, isOpen⟩ | found
  · exact .inl ⟨by rw [nread, nwrite, full], readopen.trans isOpen⟩
  · refine .inr (exists_update (fun place : Place T => place.point.makesRoom) ?_ found)
    cases before : (places t).point.makesRoom with
    | true => rw [makes before]; rfl
    | false => rfl

omit [DecidableEq T] in
theorem Place.tells_of_fresh {place : Place T} (fresh : place.fresh = true) : place.tells = true := by
  rw [Place.tells, fresh, Bool.true_or]

omit [DecidableEq T] in
theorem Place.tells_eq {place : Place T} (elsewhere : place.point ≠ .wakeReaders) : place.tells = place.fresh := by
  rw [Place.tells, decide_eq_false elsewhere, Bool.or_false]

/-- The counters, the two sides and the flag of cut writes are the same, and nobody who was killed comes back. -/
structure Still (memory after : Memory T) : Prop where
  nread : after.nread = memory.nread
  nwrite : after.nwrite = memory.nwrite
  readopen : after.readopen = memory.readopen
  writeopen : after.writeopen = memory.writeopen
  cut : after.cut = memory.cut
  killed : ∀ t, memory.killed t = true → after.killed t = true

omit [DecidableEq T] in
theorem Still.refl (memory : Memory T) : Still memory memory := ⟨rfl, rfl, rfl, rfl, rfl, fun _ => id⟩

theorem Still.kill (memory : Memory T) (victim : T) :
    Still memory { memory with killed := Function.update memory.killed victim true } := by
  refine ⟨rfl, rfl, rfl, rfl, rfl, fun t dead => ?_⟩
  change Function.update memory.killed victim true t = true
  by_cases same : t = victim
  · rw [same, Function.update_self]
  · rw [Function.update_of_ne same, dead]

/-- A step that leaves the counters and the two sides alone:
it puts nothing into the pipe, and it stops telling others only by a wakeup. -/
structure Quiet (memory : Memory T) (place : Place T) (after : Memory T) (next : Place T) :
    Prop extends Still memory after where
  fresh : next.fresh = true → place.fresh = true ∧ (place.point.mayBeFresh = true → next.point.mayBeFresh = true)
  tells : place.tells = true → next.tells = true ∨
    place.point = .wakeFull ∨ place.point = .wakeWritten ∨ place.point = .wakeReaders ∨
      place.point.mayBeFresh = false
  makes : place.point.makesRoom = true → next.point.makesRoom = true ∨ place.point = .wakeRead ∨
    place.point = .wakeWriters
  starves : next.point = .readSleep → memory.nread = memory.nwrite ∧ memory.writeopen = true
  clogs : next.point = .sleepFull → memory.nwrite = memory.nread + UInt32.ofNat pipeSize ∧ memory.readopen = true

/-- These are the steps of a process, seen by those that sleep. -/
inductive Turn (t : T) (memory : Memory T) (place : Place T) (after : Memory T) (next : Place T) : Prop where
  | quiet (quiet : Quiet memory place after next)
  | push (ch : UInt8) (pushed : after = memory.push t ch) (here : place.point = .writeFull)
      (room : memory.nwrite ≠ memory.nread + UInt32.ofNat pipeSize) (isOpen : memory.readopen = true)
      (fresh : next.fresh = true)
      (there : next.point = .writeLoop)
  | pop (popped : after = memory.pop t) (here : place.point = .readLoop) (some : memory.nread ≠ memory.nwrite)
      (fresh : next.fresh = place.fresh) (there : next.point.makesRoom = true)
  | abort (cut : after = { memory with cut := memory.cut || place.fresh }) (here : place.point = .writeLoop)
      (stopped : memory.readopen = false ∨ memory.killed t = true) (fresh : next.fresh = false)
      (there : next.point = .releaseWrite)
  | closeRead (closed : after = { memory with readopen := false }) (here : place.point = .closeSide)
      (fresh : next.fresh = place.fresh) (there : next.point = .wakeWriters)
  | closeWrite (closed : after = { memory with writeopen := false }) (here : place.point = .closeSide)
      (fresh : next.fresh = place.fresh) (there : next.point = .wakeReaders)

namespace Turn
variable {t : T} {place next : Place T} {memory after : Memory T}

omit [DecidableEq T] in
/-- A step that changes no memory, wakes nobody and is not about to sleep. -/
theorem silent (fresh : next.fresh = place.fresh) (elsewhere : place.point ≠ .wakeReaders)
    (may : place.point.mayBeFresh = true → next.point.mayBeFresh = true)
    (makes : place.point.makesRoom = true → next.point.makesRoom = true) (awake : next.point ≠ .readSleep)
    (awake' : next.point ≠ .sleepFull) : Turn t memory place memory next := by
  refine .quiet { Still.refl memory with
    fresh := fun isFresh => ⟨fresh ▸ isFresh, may⟩
    tells := fun tells => .inl (Place.tells_of_fresh ?_)
    makes := fun isRoom => .inl (makes isRoom)
    starves := fun sleeps => absurd sleeps awake
    clogs := fun sleeps => absurd sleeps awake' }
  rw [fresh, ← Place.tells_eq elsewhere]
  exact tells

omit [DecidableEq T] in
/-- A step outside the loop of a write, which cannot be fresh, and which leads to no sleep. -/
theorem outside (still : Still memory after) (stale : place.point.mayBeFresh = false)
    (fresh : next.fresh = true → place.fresh = true)
    (makes : place.point.makesRoom = true → next.point.makesRoom = true ∨ place.point = .wakeRead ∨
      place.point = .wakeWriters)
    (awake : next.point ≠ .readSleep) (awake' : next.point ≠ .sleepFull) : Turn t memory place after next :=
  .quiet { still with
    fresh := fun isFresh => ⟨fresh isFresh, fun may => absurd may (by rw [stale]; rintro ⟨⟩)⟩
    tells := fun _ => .inr (.inr (.inr (.inr stale)))
    makes := makes
    starves := fun sleeps => absurd sleeps awake
    clogs := fun sleeps => absurd sleeps awake' }

end Turn

theorem turn_of_effect {t : T} {place next : Place T} {memory after : Memory T}
    (faithful : place.Faithful t memory)
    (effect : (process t place).effect memory = some (after, next)) : Turn t memory place after next := by
  obtain ⟨point, call, moved, fresh, first, result, returns, rest⟩ := place
  cases point with
  | idle =>
      cases rest with
      | nil => cases effect
      | cons next rest =>
          cases next with
          | kill victim =>
              cases effect
              exact .outside (.kill memory victim) rfl (by rintro ⟨⟩) (by rintro ⟨⟩) (by rintro ⟨⟩) (by rintro ⟨⟩)
          | _ =>
              cases effect
              exact .outside (.refl memory) rfl (by rintro ⟨⟩) (by rintro ⟨⟩) (by rintro ⟨⟩) (by rintro ⟨⟩)
  | writeLoop =>
      cases call with
      | write bytes n =>
          simp only [process, Instr.effect, Option.some.injEq] at effect
          split at effect
          · split at effect <;> cases effect
            · next stopped => exact .abort rfl rfl stopped rfl rfl
            · exact .silent rfl (by rintro ⟨⟩) (fun _ => rfl) (by rintro ⟨⟩) (by rintro ⟨⟩) (by rintro ⟨⟩)
          · cases effect
            exact .silent rfl (by rintro ⟨⟩) (fun _ => rfl) (by rintro ⟨⟩) (by rintro ⟨⟩) (by rintro ⟨⟩)
      | _ => cases faithful
  | writeFull =>
      cases call with
      | write bytes n =>
          simp only [process, Instr.effect, Option.some.injEq] at effect
          split at effect
          · cases effect
            exact .silent rfl (by rintro ⟨⟩) (fun _ => rfl) (by rintro ⟨⟩) (by rintro ⟨⟩) (by rintro ⟨⟩)
          · next room =>
              split at effect
              · next ch _ =>
                  cases effect
                  exact .push ch rfl rfl room faithful.2.2 rfl rfl
              · cases effect
                exact .silent rfl (by rintro ⟨⟩) (fun _ => rfl) (by rintro ⟨⟩) (by rintro ⟨⟩) (by rintro ⟨⟩)
      | _ => cases faithful
  | readEmpty =>
      simp only [process, Instr.effect, Option.some.injEq] at effect
      split at effect
      · next empty =>
          split at effect <;> cases effect
          · exact .silent rfl (by rintro ⟨⟩) (by rintro ⟨⟩) (by rintro ⟨⟩) (by rintro ⟨⟩) (by rintro ⟨⟩)
          · exact .quiet { Still.refl memory with
              fresh := fun isFresh => ⟨isFresh, by rintro ⟨⟩⟩
              tells := fun _ => .inr (.inr (.inr (.inr rfl)))
              makes := by rintro ⟨⟩
              starves := fun _ => empty
              clogs := by rintro ⟨⟩ }
      · cases effect
        exact .silent rfl (by rintro ⟨⟩) (by rintro ⟨⟩) (by rintro ⟨⟩) (by rintro ⟨⟩) (by rintro ⟨⟩)
  | readLoop =>
      cases call with
      | read room n =>
          simp only [process, Instr.effect, Option.some.injEq] at effect
          split at effect
          · split at effect
            · cases effect
              exact .silent rfl (by rintro ⟨⟩) (by rintro ⟨⟩) (fun _ => rfl) (by rintro ⟨⟩) (by rintro ⟨⟩)
            · next some => split at effect <;> cases effect <;> exact .pop rfl rfl some rfl rfl
          · cases effect
            exact .silent rfl (by rintro ⟨⟩) (by rintro ⟨⟩) (fun _ => rfl) (by rintro ⟨⟩) (by rintro ⟨⟩)
      | _ => cases faithful
  | closeSide =>
      cases call with
      | close writable =>
          cases writable <;> cases effect
          · exact .closeRead rfl rfl rfl rfl
          · exact .closeWrite rfl rfl rfl rfl
      | _ => cases faithful
  | wakeFull =>
      cases call with
      | write bytes n =>
          cases effect
          exact .quiet { Still.refl memory with
            fresh := by rintro ⟨⟩
            tells := fun _ => .inr (.inl rfl)
            makes := by rintro ⟨⟩
            starves := by rintro ⟨⟩
            clogs := fun _ => faithful.2 }
      | _ => cases faithful
  | wakeWritten =>
      cases effect
      exact .quiet { Still.refl memory with
        fresh := by rintro ⟨⟩
        tells := fun _ => .inr (.inr (.inl rfl))
        makes := by rintro ⟨⟩
        starves := by rintro ⟨⟩
        clogs := by rintro ⟨⟩ }
  | wakeRead =>
      cases effect
      exact .outside (.refl memory) rfl id (fun _ => .inr (.inl rfl)) (by rintro ⟨⟩) (by rintro ⟨⟩)
  | wakeWriters =>
      cases effect
      exact .outside (.refl memory) rfl id (fun _ => .inr (.inr rfl)) (by rintro ⟨⟩) (by rintro ⟨⟩)
  | _ =>
      cases effect
      exact .outside (.refl memory) rfl id (by rintro ⟨⟩) (by rintro ⟨⟩) (by rintro ⟨⟩)

variable [Fintype T] {calls : T → List (Call T)}
  {allowed : History T (Memory T) (Place T) Mutex Chan → State T → T → Prop}
  {history : History T (Memory T) (Place T) Mutex Chan} {config : State T}

theorem turn (reached : Run process (start calls) allowed history config) {t : T} {place next : Place T}
    {after : Memory T}
    (here : config.status t = .ready place)
    (effect : (process t place).effect config.memory = some (after, next)) :
    Turn t config.memory place after next := by
  have guard := guarded reached t
  rw [here] at guard
  exact turn_of_effect guard.1 effect

/-- Only a write in its loop has bytes of which it has told nobody. -/
theorem mayBeFresh (reached : Run process (start calls) allowed history config) (t : T) :
    (config.places t).fresh = true → (config.places t).point.mayBeFresh = true := by
  refine reached.located (fun _ place => place.fresh = true →
    place.point.mayBeFresh = true) (fun _ fresh => by cases fresh) ?_ t
  intro history config t place after next before here mine effect fresh
  cases turn before here effect with
  | quiet quiet => exact (quiet.fresh fresh).2 (mine (quiet.fresh fresh).1)
  | push ch pushed here room isOpen isFresh there =>
      rw [there]
      rfl
  | pop popped here some same there =>
      have may := mine (same ▸ fresh)
      rw [here] at may
      cases may
  | abort cut here stopped stale there =>
      rw [stale] at fresh
      cases fresh
  | closeRead closed here same there | closeWrite closed here same there =>
      have may := mine (same ▸ fresh)
      rw [here] at may
      cases may

/-- Who sleeps continues at its test and has told the readers. -/
theorem ready_of_locked (reached : Run process (start calls) allowed history config) {t : T}
    (inside : (config.places t).point ≠ .readEmpty)
    (busy : (config.places t).point ≠ .writeLoop ∨ (config.places t).fresh = true) :
    config.status t = .ready (config.places t) := by
  have guard := guarded reached t
  rw [Config.places] at inside busy ⊢
  cases here : config.status t with
  | ready place => rfl
  | blocked chan mutex place =>
      rw [here] at guard inside busy
      cases chan with
      | nread => exact absurd guard.2 inside
      | nwrite =>
          rcases busy with elsewhere | fresh
          · exact absurd guard.2.1 elsewhere
          · exact absurd fresh (by rw [Status.place_blocked, guard.2.2]; rintro ⟨⟩)
  | woken mutex place =>
      rw [here] at guard inside busy
      rcases guard.2 with elsewhere | ⟨point, stale⟩
      · exact absurd elsewhere inside
      · rcases busy with elsewhere | fresh
        · exact absurd point elsewhere
        · exact absurd fresh (by rw [Status.place_woken, stale]; rintro ⟨⟩)

/-- Who will wake the readers runs under the mutex. -/
theorem runs_of_tells (reached : Run process (start calls) allowed history config) {t : T}
    (tells : (config.places t).tells = true) :
    config.status t = .ready (config.places t) ∧ (config.places t).point.locked = true := by
  rw [Place.tells, Bool.or_eq_true, decide_eq_true_eq] at tells
  rcases tells with fresh | wakes
  · have may := mayBeFresh reached t fresh
    refine ⟨ready_of_locked reached ?_ (.inr fresh), Point.locked_of_mayBeFresh may⟩
    intro empty
    rw [empty] at may
    cases may
  · refine ⟨ready_of_locked reached ?_ (.inl ?_), ?_⟩ <;> rw [wakes] <;> first | rfl | rintro ⟨⟩

/-- Who will wake the writers runs under the mutex. -/
theorem runs_of_makesRoom (reached : Run process (start calls) allowed history config) {t : T}
    (makes : (config.places t).point.makesRoom = true) :
    config.status t = .ready (config.places t) ∧ (config.places t).point.locked = true := by
  refine ⟨ready_of_locked reached ?_ (.inl ?_), Point.locked_of_makesRoom makes⟩ <;>
    intro same <;> rw [same] at makes <;> cases makes

/-- Two processes that run under the mutex are the same process. -/
theorem eq_of_locked (reached : Run process (start calls) allowed history config) {t other : T}
    {place there : Place T}
    (here : config.status t = .ready place) (locked : place.point.locked = true)
    (otherHere : config.status other = .ready there) (otherLocked : there.point.locked = true) : other = t :=
  (owned reached).unique (show (config.status other).holds held .lock = true by rw [otherHere]; exact otherLocked)
    (by rw [here]; exact locked)

/-- The read side is open while a write has bytes of which it has told nobody. -/
theorem open_of_fresh (reached : Run process (start calls) allowed history config) (t : T) :
    (config.places t).fresh = true → config.memory.readopen = true := by
  refine reached.placed (fun _ (places : T → Place T) (memory : Memory T) =>
    ∀ t, (places t).fresh = true → memory.readopen = true) ?_ (fun _ _ _ holds _ => holds) ?_ t
  · exact fun _ fresh => by cases fresh
  · intro history config t place after next before opened _ here effect other fresh
    have place_eq := Config.places_of_ready here
    -- Who is fresh after the step was fresh before it, or it has put a byte into the pipe now.
    have earlier : (next.fresh = true → place.fresh = true) → (config.places other).fresh = true := by
      intro kept
      by_cases mine : other = t
      · subst mine
        rw [Function.update_self] at fresh
        rw [place_eq]
        exact kept fresh
      · rwa [Function.update_of_ne mine] at fresh
    cases turn before here effect with
    | quiet quiet => exact quiet.readopen.trans (opened other (earlier fun isFresh => (quiet.fresh isFresh).1))
    | push ch pushed point room isOpen isFresh there =>
        rw [pushed]
        exact isOpen
    | pop popped point some same there =>
        rw [popped]
        exact opened other (earlier (by rw [same]; exact id))
    | abort cut point stopped stale there =>
        rw [cut]
        exact opened other (earlier (by rw [stale]; rintro ⟨⟩))
    | closeRead closed point same there =>
        have isFresh := earlier (by rw [same]; exact id)
        obtain ⟨status, holds⟩ := runs_of_tells before (Place.tells_of_fresh isFresh)
        obtain rfl := eq_of_locked before here (by rw [point]; rfl) status holds
        have may := mayBeFresh before other isFresh
        rw [place_eq, point] at may
        cases may
    | closeWrite closed point same there =>
        rw [closed]
        exact opened other (earlier (by rw [same]; exact id))

/-- Only a kill stops a write that has bytes of which it has told nobody. -/
theorem killed_of_cut (reached : Run process (start calls) allowed history config)
    (cut : config.memory.cut = true) :
    ∃ t, config.memory.killed t = true := by
  refine reached.placed (fun _ (_ : T → Place T) (memory : Memory T) =>
    memory.cut = true → ∃ t, memory.killed t = true) ?_ (fun _ _ _ holds _ => holds) ?_ cut
  · exact fun cut => by cases cut
  · intro history config t place after next before killed _ here effect cut
    cases turn before here effect with
    | quiet quiet =>
        rw [quiet.cut] at cut
        obtain ⟨victim, dead⟩ := killed cut
        exact ⟨victim, quiet.killed victim dead⟩
    | push ch same | pop same | closeRead same | closeWrite same =>
        rw [same] at cut ⊢
        exact killed cut
    | abort same point stopped stale there =>
        rw [same] at cut ⊢
        rcases Bool.or_eq_true_iff.mp cut with earlier | fresh
        · exact killed earlier
        · have isOpen := open_of_fresh before t (by rw [Config.places_of_ready here]; exact fresh)
          exact ⟨t, stopped.resolve_left (by rw [isOpen]; rintro ⟨⟩)⟩

/-- While a process runs under the mutex, no other one is about to wait. -/
theorem not_about (reached : Run process (start calls) allowed history config) {t waiter : T}
    {place : Place T} {about : Point}
    (here : config.status t = .ready place) (locked : place.point.locked = true) (sleeps : about.locked = true)
    (elsewhere : place.point ≠ about) : (config.status waiter).runs (fun place => place.point = about) =
      false := by
  have inside : ∀ there : Place T, decide (there.point = about) = true → held there .lock = true := by
    intro there same
    rw [decide_eq_true_eq] at same
    rw [held, same, sleeps]
  exact (owned reached).runs_eq_false here inside locked (by simpa using elsewhere)

theorem starved (reached : Run process (start calls) allowed history config) (waiter : T)
    (awaits : (config.status waiter).awaits .nread (fun place => place.point = .readSleep) = true) :
    Starved config.places config.memory := by
  refine reached.awaited .nread (fun place => place.point = .readSleep) (fun _ places memory =>
    Starved places memory)
    (fun _ => rfl) ?_ ?_ ?_ ?_ waiter awaits
  · intro history config t mutex place before here
    have guard := guarded before t
    rw [here] at guard
    rcases guard.2 with point | ⟨point, _⟩ <;> rw [point] <;> rfl
  · intro t place mutex next wait
    obtain ⟨point, call, moved, fresh, first, result, returns, rest⟩ := place
    cases point with
    | idle => cases rest <;> cases wait
    | readSleep => rfl
    | _ => cases wait
  · intro history config t place after next before _ here effect about
    rw [decide_eq_true_eq] at about
    cases turn before here effect with
    | quiet quiet =>
        have starves := quiet.starves about
        exact .inl ⟨by rw [quiet.nread, quiet.nwrite, starves.1], quiet.writeopen.trans starves.2⟩
    | push _ _ _ _ _ _ there | abort _ _ _ _ there | closeRead _ _ _ there | closeWrite _ _ _ there =>
        rw [there] at about
        cases about
    | pop _ _ _ _ there =>
        rw [about] at there
        cases there
  · intro history config t place after next waiter before _ here effect awaits still starved
    have place_eq := Config.places_of_ready here
    -- A wakeup finds only processes that are about to sleep, and these would own the mutex.
    have alone : ¬ (place.point = .wakeFull ∨ place.point = .wakeWritten ∨ place.point = .wakeReaders) := by
      intro wakes
      have about : (config.status waiter).runs (fun place => place.point = .readSleep) = false := by
        refine not_about before here ?_ rfl ?_ <;> rcases wakes with point | point | point <;> rw [point] <;>
          first | rfl | rintro ⟨⟩
      rw [still ?_] at about
      · cases about
      · obtain ⟨point, call, moved, fresh, first, result, returns, rest⟩ := place
        rcases wakes with same | same | same <;> cases same <;> cases effect <;> rfl
    -- Who will wake the readers is this process, and then its write has told nobody.
    have mine : place.point.locked = true → place.point ≠ .wakeReaders →
      ∀ other, (config.places other).tells = true →
        place.fresh = true ∧ place.point.mayBeFresh = true := by
      intro locked elsewhere other tells
      obtain ⟨status, holds⟩ := runs_of_tells before tells
      obtain rfl := eq_of_locked before here locked status holds
      rw [place_eq, Place.tells, Bool.or_eq_true, decide_eq_true_eq] at tells
      have fresh := tells.resolve_right elsewhere
      exact ⟨fresh, place_eq ▸ mayBeFresh before other (place_eq ▸ fresh)⟩
    cases turn before here effect with
    | quiet quiet =>
        refine starved.move quiet.nread quiet.nwrite quiet.writeopen quiet.cut fun tells => ?_
        rw [place_eq] at tells
        rcases quiet.tells tells with kept | full | written | readers | stale
        · exact kept
        · exact (alone (.inl full)).elim
        · exact (alone (.inr (.inl written))).elim
        · exact (alone (.inr (.inr readers))).elim
        · rw [Place.tells, Bool.or_eq_true, decide_eq_true_eq] at tells
          rcases tells with fresh | readers
          · rw [← place_eq] at fresh stale
            rw [mayBeFresh before t fresh] at stale
            cases stale
          · exact (alone (.inr (.inr readers))).elim
    | push ch pushed point room isOpen fresh there =>
        exact .inr (.inr ⟨t, by rw [Function.update_self]; exact Place.tells_of_fresh fresh⟩)
    | pop popped point some fresh there =>
        rcases starved with ⟨empty, _⟩ | aborted | ⟨other, tells⟩
        · exact absurd empty some
        · exact .inr (.inl (by rw [popped]; exact aborted))
        · have may := (mine (by rw [point]; rfl) (by rw [point]; rintro ⟨⟩) other tells).2
          rw [point] at may
          cases may
    | abort cut point stopped fresh there =>
        rcases starved with empty | aborted | ⟨other, tells⟩
        · exact .inl (by rw [cut]; exact empty)
        · exact .inr (.inl (by rw [cut]; simp [aborted]))
        · have told := (mine (by rw [point]; rfl) (by rw [point]; rintro ⟨⟩) other tells).1
          exact .inr (.inl (by rw [cut]; simp [told]))
    | closeRead closed point fresh there =>
        rcases starved with empty | aborted | ⟨other, tells⟩
        · exact .inl (by rw [closed]; exact empty)
        · exact .inr (.inl (by rw [closed]; exact aborted))
        · have may := (mine (by rw [point]; rfl) (by rw [point]; rintro ⟨⟩) other tells).2
          rw [point] at may
          cases may
    | closeWrite closed point fresh there =>
        exact .inr (.inr ⟨t, by rw [Function.update_self, Place.tells, there]; simp⟩)

theorem clogged (reached : Run process (start calls) allowed history config) (waiter : T)
    (awaits : (config.status waiter).awaits .nwrite (fun place => place.point = .sleepFull) = true) :
    Clogged config.places config.memory := by
  refine reached.awaited .nwrite (fun place => place.point = .sleepFull) (fun _ places memory =>
    Clogged places memory)
    (fun _ => rfl) ?_ ?_ ?_ ?_ waiter awaits
  · intro history config t mutex place before here
    have guard := guarded before t
    rw [here] at guard
    rcases guard.2 with point | ⟨point, _⟩ <;> rw [point] <;> rfl
  · intro t place mutex next wait
    obtain ⟨point, call, moved, fresh, first, result, returns, rest⟩ := place
    cases point with
    | idle => cases rest <;> cases wait
    | sleepFull => rfl
    | _ => cases wait
  · intro history config t place after next before _ here effect about
    rw [decide_eq_true_eq] at about
    cases turn before here effect with
    | quiet quiet =>
        have clogs := quiet.clogs about
        exact .inl ⟨by rw [quiet.nread, quiet.nwrite, clogs.1], quiet.readopen.trans clogs.2⟩
    | push _ _ _ _ _ _ there | abort _ _ _ _ there | closeRead _ _ _ there | closeWrite _ _ _ there =>
        rw [there] at about
        cases about
    | pop _ _ _ _ there =>
        rw [about] at there
        cases there
  · intro history config t place after next waiter before _ here effect awaits still clogged
    have place_eq := Config.places_of_ready here
    have alone : ¬ (place.point = .wakeRead ∨ place.point = .wakeWriters) := by
      intro wakes
      have about : (config.status waiter).runs (fun place => place.point = .sleepFull) = false := by
        refine not_about before here ?_ rfl ?_ <;> rcases wakes with point | point <;> rw [point] <;>
          first | rfl | rintro ⟨⟩
      rw [still ?_] at about
      · cases about
      · obtain ⟨point, call, moved, fresh, first, result, returns, rest⟩ := place
        rcases wakes with same | same <;> cases same <;> cases effect <;> rfl
    cases turn before here effect with
    | quiet quiet =>
        refine clogged.move quiet.nread quiet.nwrite quiet.readopen fun makes => ?_
        rw [place_eq] at makes
        rcases quiet.makes makes with kept | wakes
        · exact kept
        · exact (alone wakes).elim
    | push ch pushed point room isOpen fresh there =>
        rcases clogged with ⟨full, _⟩ | ⟨other, makes⟩
        · exact absurd full room
        · obtain ⟨status, holds⟩ := runs_of_makesRoom before makes
          obtain rfl := eq_of_locked before here (by rw [point]; rfl) status holds
          rw [place_eq, point] at makes
          cases makes
    | pop popped point some fresh there => exact .inr ⟨t, by rw [Function.update_self, there]⟩
    | abort cut point stopped fresh there =>
        exact clogged.move (by rw [cut]) (by rw [cut]) (by rw [cut]) (by rw [place_eq, point]; rintro ⟨⟩)
    | closeRead closed point fresh there =>
        exact .inr ⟨t, by rw [Function.update_self, there]; rfl⟩
    | closeWrite closed point fresh there =>
        exact clogged.move (by rw [closed]) (by rw [closed]) (by rw [closed]) (by rw [place_eq, point]; rintro ⟨⟩)

/-- Nobody wakes others while the mutex is free. -/
theorem not_locked_of_free (reached : Run process (start calls) allowed history config)
    (free : config.owner .lock = none)
    {t : T} (runs : config.status t = .ready (config.places t) ∧ (config.places t).point.locked = true) :
    False := by
  have unheld := (owned reached).free free t
  rw [runs.1] at unheld
  have holds : (config.places t).point.locked = false := unheld
  rw [runs.2] at holds
  cases holds

/-- While `pi->lock` is free, a process sleeps in `pipewrite` only when the pipe is full and its read side open,
and in `piperead` only when the pipe is empty and its write side open,
unless a kill has stopped a write that had told nobody of its bytes. -/
theorem sleeps_justified (reached : Reachable process (start calls) config) (free : config.owner .lock = none)
    (t : T) :
    ((config.status t).blockedOn .nwrite = true →
      config.memory.waiting.length = pipeSize ∧ config.memory.readopen = true) ∧
    ((config.status t).blockedOn .nread = true →
      (config.memory.waiting = [] ∧ config.memory.writeopen = true) ∨
        config.memory.cut = true ∧ ∃ victim, config.memory.killed victim = true) := by
  obtain ⟨history, reached⟩ := reached
  have stored := stored reached
  constructor
  · intro blocked
    rcases clogged reached t (by rw [Status.awaits, blocked, Bool.true_or]) with ⟨full, isOpen⟩ | ⟨other, makes⟩
    · refine ⟨?_, isOpen⟩
      have total := stored.full_iff.mp full
      rw [stored.waiting_eq, List.length_map, List.length_drop]
      omega
    · exact (not_locked_of_free reached free (runs_of_makesRoom reached makes)).elim
  · intro blocked
    rcases starved reached t (by rw [Status.awaits, blocked, Bool.true_or]) with ⟨empty, isOpen⟩ | cut | ⟨other, tells⟩
    · refine .inl ⟨?_, isOpen⟩
      rw [stored.waiting_eq, stored.empty_iff.mp empty, List.drop_length, List.map_nil]
    · exact .inr ⟨cut, killed_of_cut reached cut⟩
    · exact (not_locked_of_free reached free (runs_of_tells reached tells)).elim

end

/-- A process waits for two bytes, and another one kills the writer between its two bytes.
The reader sleeps for ever beside a byte, as the killed write wakes nobody. -/
theorem killed_writer_strands : ∃ (calls : Fin 3 → List (Call (Fin 3))) (config : State (Fin 3)),
    calls 0 = [.read 2 2] ∧ calls 1 = [.write [7, 8] 2] ∧ calls 2 = [.kill 1] ∧
    Reachable process (start calls) config ∧ config.memory.waiting = [7] ∧ Stalled process config ∧
    ((config.memory.waiting = [] ∧ config.memory.writeopen = true) ∨
      config.memory.cut = true ∧ ∃ victim, config.memory.killed victim = true) := by
  obtain ⟨config, reached, holds⟩ := exists_reachable process
    (start fun t : Fin 3 => if t = 0 then [.read 2 2] else if t = 1 then [.write [7, 8] 2] else [.kill 1])
    (turns 4 0 ++ turns 4 1 ++ turns 1 2 ++ turns 2 1)
    (fun config => config.memory.waiting = [7] ∧ Stalled process config ∧ config.owner .lock = none ∧
      (config.status 0).blockedOn .nread = true) (by decide +kernel)
  simp only [decide_eq_true_eq] at holds
  exact ⟨_, config, rfl, rfl, rfl, reached, holds.1, holds.2.1,
    (sleeps_justified reached holds.2.2.1 0).2 holds.2.2.2⟩

end OSLabs.Xv6.Pipe
