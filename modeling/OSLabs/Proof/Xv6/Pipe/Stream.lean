import OSLabs.Construction.Xv6.Pipe
import OSLabs.Proof.Fifo.Window
import OSLabs.Proof.Pthread.Local
import OSLabs.Proof.Pthread.Placed

namespace OSLabs.Xv6.Pipe

open Pthread Fifo

section
variable {T : Type} {memory : Memory T}

/-- The counters count the bytes that have left and entered the pipe, and the array holds those between. -/
structure Stored (memory : Memory T) : Prop where
  nread : memory.nread = UInt32.ofNat memory.left.length
  nwrite : memory.nwrite = UInt32.ofNat memory.entered.length
  within : memory.left.length ≤ memory.entered.length
  room : memory.entered.length ≤ memory.left.length + pipeSize
  waiting : window pipeSize_pos memory.data memory.left.length (memory.entered.length - memory.left.length) =
    (memory.entered.drop memory.left.length).map Prod.snd
  took : memory.left.map Prod.snd = (memory.entered.take memory.left.length).map Prod.snd

/-- Two numbers that are no further apart than the pipe is long are the same when their counters are. -/
theorem ofNat_eq_iff {first count : Nat} (close : count ≤ pipeSize) :
    UInt32.ofNat (first + count) = UInt32.ofNat first ↔ count = 0 := by
  rw [← UInt32.toNat_inj, UInt32.toNat_ofNat', UInt32.toNat_ofNat']
  unfold pipeSize at close
  omega

/-- The index of a counter in the array is that of the number that it stands for. -/
theorem toNat_mod (number : Nat) : (UInt32.ofNat number).toNat % pipeSize = number % pipeSize := by
  rw [UInt32.toNat_ofNat']
  unfold pipeSize
  omega

namespace Stored

/-- The test for an empty pipe. -/
theorem empty_iff (stored : Stored memory) : memory.nread = memory.nwrite ↔
    memory.left.length = memory.entered.length := by
  have within := stored.within
  have room := stored.room
  obtain ⟨count, total⟩ := Nat.exists_eq_add_of_le within
  rw [stored.nread, stored.nwrite, total, eq_comm, ofNat_eq_iff (by omega)]
  omega

/-- The test for a full pipe. -/
theorem full_iff (stored : Stored memory) : memory.nwrite = memory.nread + UInt32.ofNat pipeSize ↔
    memory.entered.length = memory.left.length + pipeSize := by
  have within := stored.within
  have room := stored.room
  obtain ⟨count, total⟩ := Nat.exists_eq_add_of_le room
  rw [stored.nread, stored.nwrite, ← UInt32.ofNat_add, total, eq_comm, ofNat_eq_iff (by omega)]
  omega

/-- The bytes between the counters are those that have entered and not left. -/
theorem waiting_eq (stored : Stored memory) :
    memory.waiting = (memory.entered.drop memory.left.length).map Prod.snd := by
  have within := stored.within
  have room := stored.room
  have count : (memory.nwrite - memory.nread).toNat = memory.entered.length - memory.left.length := by
    rw [stored.nwrite, stored.nread, UInt32.toNat_sub, UInt32.toNat_ofNat', UInt32.toNat_ofNat']
    unfold pipeSize at room
    omega
  rw [Memory.waiting, count, ← stored.waiting, ← window_mod, stored.nread, toNat_mod, window_mod]

/-- The byte at the read index is the next byte of the stream. -/
theorem head_eq (stored : Stored memory) (some : memory.left.length < memory.entered.length) :
    (memory.entered.drop memory.left.length).map Prod.snd =
      memory.head :: (memory.entered.drop (memory.left.length + 1)).map Prod.snd ∧
    window pipeSize_pos memory.data (memory.left.length + 1) (memory.entered.length - (memory.left.length + 1)) =
      (memory.entered.drop (memory.left.length + 1)).map Prod.snd := by
  obtain ⟨count, total⟩ : ∃ count, memory.entered.length - memory.left.length = count + 1 :=
    ⟨_, (Nat.succ_pred (by omega)).symm⟩
  have waiting := stored.waiting
  have index : (⟨memory.nread.toNat % pipeSize, Nat.mod_lt _ pipeSize_pos⟩ : Fin pipeSize) =
      ⟨memory.left.length % pipeSize, Nat.mod_lt _ pipeSize_pos⟩ := by
    rw [Fin.mk.injEq, stored.nread, toNat_mod]
  have less : memory.entered.length - (memory.left.length + 1) = count := by omega
  rw [total, window_cons, List.drop_eq_getElem_cons some, List.map_cons, List.cons.injEq] at waiting
  rw [List.drop_eq_getElem_cons some, List.map_cons, Memory.head, index, less]
  exact ⟨by rw [waiting.1], waiting.2⟩

theorem push (stored : Stored memory) (process : T) (ch : UInt8)
    (some : memory.entered.length < memory.left.length + pipeSize) : Stored (memory.push process ch) := by
  have within := stored.within
  obtain ⟨count, total⟩ := Nat.exists_eq_add_of_le within
  have waiting := stored.waiting
  rw [show memory.entered.length - memory.left.length = count by omega] at waiting
  have index : memory.nwrite.toNat % pipeSize = (memory.left.length + count) % pipeSize := by
    rw [stored.nwrite, toNat_mod, total]
  constructor
  · exact stored.nread
  · simp only [Memory.push, List.length_append, List.length_singleton, UInt32.ofNat_add, stored.nwrite]
    rfl
  · simp only [Memory.push, List.length_append]
    omega
  · simp only [Memory.push, List.length_append, List.length_singleton]
    omega
  · simp only [Memory.push, List.length_append, List.length_singleton, index]
    rw [show memory.entered.length + 1 - memory.left.length = count + 1 by omega,
      window_push (by omega), waiting, List.drop_append_of_le_length within, List.map_append]
    rfl
  · simp only [Memory.push]
    rw [List.take_append_of_le_length within]
    exact stored.took

theorem pop (stored : Stored memory) (process : T) (some : memory.left.length < memory.entered.length) :
    Stored (memory.pop process) := by
  obtain ⟨first, later⟩ := stored.head_eq some
  have within := stored.within
  have room := stored.room
  constructor
  · rw [Memory.pop, List.length_append, List.length_singleton, UInt32.ofNat_add, stored.nread]
    rfl
  · exact stored.nwrite
  · simp only [Memory.pop, List.length_append, List.length_singleton]
    omega
  · simp only [Memory.pop, List.length_append]
    omega
  · simp only [Memory.pop, List.length_append, List.length_singleton]
    exact later
  · simp only [Memory.pop, List.length_append, List.length_singleton, List.map_append, List.map_singleton]
    rw [List.drop_eq_getElem_cons some, List.map_cons, List.cons.injEq] at first
    rw [← first.1, stored.took, List.take_add_one, List.getElem?_eq_getElem some, List.map_append]
    rfl

end Stored

end

section
variable {T : Type} [DecidableEq T] [Fintype T] {calls : T → List (Call T)}
  {allowed : History T (Memory T) (Place T) Mutex Chan → State T → T → Prop}
  {history : History T (Memory T) (Place T) Mutex Chan} {config : State T}

omit [Fintype T] in
/-- An access changes the bytes of the pipe only by a push to a pipe that is not full
and by a pop from one that is not empty. -/
theorem access_cases {t : T} {place next : Place T} {memory after : Memory T}
    (effect : (process t place).effect memory = some (after, next)) :
    (after.data = memory.data ∧ after.nread = memory.nread ∧ after.nwrite = memory.nwrite ∧
      after.entered = memory.entered ∧
      after.left = memory.left) ∨
    (∃ ch, after = memory.push t ch ∧ memory.nwrite ≠ memory.nread + UInt32.ofNat pipeSize) ∨
    (after = memory.pop t ∧ memory.nread ≠ memory.nwrite) := by
  obtain ⟨point, call, moved, fresh, first, result, returns, rest⟩ := place
  cases point with
  | idle =>
      cases rest with
      | nil => cases effect
      | cons next rest => cases next <;> cases effect <;> exact .inl ⟨rfl, rfl, rfl, rfl, rfl⟩
  | writeLoop =>
      cases call with
      | write bytes n =>
          simp only [process, Instr.effect, Option.some.injEq] at effect
          split at effect
          · split at effect <;> cases effect <;> exact .inl ⟨rfl, rfl, rfl, rfl, rfl⟩
          · cases effect
            exact .inl ⟨rfl, rfl, rfl, rfl, rfl⟩
      | _ => cases effect; exact .inl ⟨rfl, rfl, rfl, rfl, rfl⟩
  | writeFull =>
      simp only [process, Instr.effect, Option.some.injEq] at effect
      split at effect
      · cases effect
        exact .inl ⟨rfl, rfl, rfl, rfl, rfl⟩
      · next room =>
          cases call with
          | write bytes n =>
              simp only at effect
              split at effect
              · next ch _ =>
                  cases effect
                  exact .inr (.inl ⟨ch, rfl, room⟩)
              · cases effect
                exact .inl ⟨rfl, rfl, rfl, rfl, rfl⟩
          | _ => cases effect; exact .inl ⟨rfl, rfl, rfl, rfl, rfl⟩
  | readEmpty =>
      simp only [process, Instr.effect, Option.some.injEq] at effect
      split at effect
      · split at effect <;> cases effect <;> exact .inl ⟨rfl, rfl, rfl, rfl, rfl⟩
      · cases effect
        exact .inl ⟨rfl, rfl, rfl, rfl, rfl⟩
  | readLoop =>
      cases call with
      | read room n =>
          simp only [process, Instr.effect, Option.some.injEq] at effect
          split at effect
          · split at effect
            · cases effect
              exact .inl ⟨rfl, rfl, rfl, rfl, rfl⟩
            · next some => split at effect <;> cases effect <;> exact .inr (.inr ⟨rfl, some⟩)
          · cases effect
            exact .inl ⟨rfl, rfl, rfl, rfl, rfl⟩
      | _ => cases effect; exact .inl ⟨rfl, rfl, rfl, rfl, rfl⟩
  | closeSide =>
      cases call with
      | close writable => cases writable <;> cases effect <;> exact .inl ⟨rfl, rfl, rfl, rfl, rfl⟩
      | _ => cases effect; exact .inl ⟨rfl, rfl, rfl, rfl, rfl⟩
  | _ => cases effect; exact .inl ⟨rfl, rfl, rfl, rfl, rfl⟩

theorem stored (reached : Run process (start calls) allowed history config) : Stored config.memory := by
  refine reached.placed (fun _ _ memory => Stored memory) ?_ (fun _ _ _ holds _ => holds) ?_
  · exact ⟨rfl, rfl, le_rfl, Nat.zero_le _, rfl, rfl⟩
  · intro _ config t place after next _ stored _ _ effect
    have within := stored.within
    have room := stored.room
    rcases access_cases effect with ⟨data, nread, nwrite, entered, left⟩ | ⟨ch, rfl, notFull⟩ | ⟨rfl, notEmpty⟩
    · obtain ⟨d, r, w, _, _, _, e, l, _⟩ := after
      dsimp only at data nread nwrite entered left
      subst data nread nwrite entered left
      exact ⟨stored.nread, stored.nwrite, stored.within, stored.room, stored.waiting, stored.took⟩
    · refine stored.push t ch (lt_of_le_of_ne room fun full => ?_)
      exact notFull (stored.full_iff.mpr full)
    · refine stored.pop t (lt_of_le_of_ne within fun empty => ?_)
      exact notEmpty (stored.empty_iff.mpr empty)

end

end OSLabs.Xv6.Pipe
