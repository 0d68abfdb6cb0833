import OSLabs.Proof.Xv6.Log.Transactions

namespace OSLabs.Xv6.Log

open Pthread RedoLog

section
variable {T : Type} {layout : Layout} {calls : T → List (List (Update Nat Block))} {disk : Disk}
  [DecidableEq T] [Fintype T]
  {allowed : History T (Memory T) Place Mutex Chan → State T → T → Prop}
  {history : History T (Memory T) Place Mutex Chan} {config : State T}

/-- The changes that a commit has covered are those of whole system calls. -/
theorem whole_durable (fits : Fits layout calls) (empty : decodeHead (disk layout.logstart) = some [])
    (reached : Run (process layout) (start disk calls) allowed history config) (t : T) :
    ∃ j, updatesOf t (config.memory.written.take config.memory.durable) = ((calls t).take j).flatten := by
  refine reached.stored
    (fun memory => ∀ t, ∃ j, updatesOf t (memory.written.take memory.durable) = ((calls t).take j).flatten) ?_ ?_ t
  · exact fun t => ⟨0, rfl⟩
  · intro history config t place update after next before whole _ here instr effect
    obtain ⟨point, op, rest⟩ := place
    cases point with
    | idle => cases rest <;> cases instr; cases effect; exact whole
    | writeAppend =>
        cases op with
        | nil =>
            cases instr
            cases effect
            exact whole
        | cons update op =>
            cases instr
            cases effect
            have ahead := (consistent fits empty before).stored.ahead
            simpa only [Memory.logWrite, List.take_append_of_le_length ahead] using whole
    | writeHead =>
        cases instr
        cases effect
        intro other
        have closed := not_isOpen before (t := t) (by rw [Config.places_of_ready here]; rfl) other
        simpa only [List.take_length] using (progress before other).whole closed
    | endCount =>
        cases instr
        simp only at effect
        split at effect
        · cases effect
          exact whole
        · split at effect <;> cases effect <;> exact whole
    | writeLog tail | installTrans tail =>
        cases instr
        simp only at effect
        split at effect <;> cases effect <;> exact whole
    | beginTest | beginCount | inOp | writePanics | commitTest | commitReset | clearHead | finishCommit =>
        cases instr
        cases effect
        exact whole
    | _ => cases instr

/-- A crash at any moment, followed by any number of recoveries that crash themselves and by one that does not,
leaves an empty log and the first changes of the run. These are the changes of whole system calls of each process,
and all changes when no system call is open and no commit runs. -/
theorem crash_atomic (fits : Fits layout calls) (empty : decodeHead (disk layout.logstart) = some [])
    (reached : Reachable (process layout) (start disk calls) config) {crashed : Disk}
    (stopped : Interrupted layout config.memory.disk crashed) :
    ∃ recovered count, recoverFromLog layout crashed = some recovered ∧
      decodeHead (recovered layout.logstart) = some [] ∧
      (∀ blockno, layout.Home blockno →
        recovered blockno = apply disk ((config.memory.written.take count).map Prod.snd) blockno) ∧
      (∀ t, ∃ j, updatesOf t (config.memory.written.take count) = ((calls t).take j).flatten) ∧
      (config.memory.outstanding = 0 → config.memory.committing = false →
        count = config.memory.written.length) := by
  obtain ⟨history, reached⟩ := reached
  have consistent := consistent fits empty reached
  obtain ⟨lh, logged⟩ := consistent.exists_logged (exists_of_committing reached)
  obtain ⟨recovered, recovers, final⟩ := (logged.interrupted stopped).exists_recovered
  refine ⟨recovered, config.memory.durable, recovers, final.head, ?_, whole_durable fits empty reached, ?_⟩
  · intro blockno isHome
    exact final.others blockno isHome List.not_mem_nil
  · intro none idle
    exact consistent.stored.fresh ((consistent.settled idle).2 none)

end

section

theorem smallLayout_positive : 0 < 4 := by decide

theorem smallLayout_within : 2 + 4 ≤ 8 := by decide

theorem smallLayout_word : 8 ≤ 2 ^ 32 := by decide

/-- The log has three slots behind its header at block 2, and the blocks from 6 on belong to the file system. -/
def smallLayout : Layout := ⟨2, 4, 8, smallLayout_positive, smallLayout_within, smallLayout_word⟩

/-- A system call changes blocks 6 and 7. -/
def twoBlocks : List (Update Nat Block) := [⟨6, fun _ _ => 1⟩, ⟨7, fun _ _ => 2⟩]

/-- The machine stops when the commit has written the header and installed one block.
The recovery gives both blocks. -/
theorem crash_atomic_installing :
    ∃ (config : State (Fin 1)) (crashed recovered : Disk) (count : Nat),
      Reachable (process smallLayout) (start (fun _ _ => 0) fun _ => [twoBlocks]) config ∧
      config.memory.disk 6 0 = 1 ∧ config.memory.disk 7 0 = 0 ∧
      Interrupted smallLayout config.memory.disk crashed ∧
      recoverFromLog smallLayout crashed = some recovered ∧
      ∀ blockno, smallLayout.Home blockno →
        recovered blockno = apply (fun _ _ => 0) ((config.memory.written.take count).map Prod.snd) blockno := by
  obtain ⟨config, reached, holds⟩ := exists_reachable (process smallLayout)
    (start (T := Fin 1) (fun _ _ => 0) fun _ => [twoBlocks]) (turns 25 0)
    (fun config => config.memory.disk 6 0 = 1 ∧ config.memory.disk 7 0 = 0) (by decide +kernel)
  simp only [decide_eq_true_eq] at holds
  have fits : Fits smallLayout fun _ : Fin 1 => [twoBlocks] := by
    unfold Fits
    decide
  obtain ⟨recovered, count, recovers, _, shown, _⟩ := crash_atomic fits (by decide) reached .refl
  exact ⟨config, _, recovered, count, reached, holds.1, holds.2, .refl, recovers, shown⟩

end

end OSLabs.Xv6.Log
