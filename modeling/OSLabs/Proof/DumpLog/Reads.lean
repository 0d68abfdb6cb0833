import OSLabs.Construction.DumpLog
import OSLabs.Proof.Buffer.Loops
import OSLabs.Proof.Stdio.Text

namespace OSLabs.DumpLog

open Buffer Stdio

section Terminator
variable {readbuf bytes : List UInt8}

/-- The terminator is stored behind the bytes. -/
theorem storeAt_fill (fits : bytes.length < readbuf.length) :
    storeAt (fill readbuf bytes) bytes.length 0 = some (bytes ++ 0 :: readbuf.drop (bytes.length + 1)) := by
  rw [storeAt, if_pos (by omega), Int.toNat_natCast, fill, List.drop_eq_getElem_cons fits]
  exact store_append

/-- The terminator of a full buffer is stored behind the buffer. -/
theorem lt_of_storeAt_fill {next : List UInt8} (fits : bytes.length ≤ readbuf.length)
    (stored : storeAt (fill readbuf bytes) bytes.length 0 = some next) :
    bytes.length < readbuf.length ∧ next.length = readbuf.length := by
  rw [storeAt, if_pos (by omega), Int.toNat_natCast] at stored
  have inside := length_of_store stored
  rw [length_fill fits] at inside
  exact inside.symm

end Terminator

section Pipe
variable {reads : Nat → Read} {log : List UInt8} {rounds j : Nat} {readbuf : List UInt8}

theorem delivered_succ (reads : Nat → Read) (j : Nat) :
    delivered reads (j + 1) = delivered reads j ++ (reads j).getD [] := by
  simp [delivered, List.range_succ]

/-- The loop ends with the pipe. -/
theorem dumpPipe_end (read : reads j = some []) : dumpPipe reads (rounds + 1) j readbuf = some ([], readbuf) := by
  rw [dumpPipe, read]
  rfl

/-- A round in which the terminator is inside the buffer. -/
theorem dumpPipe_round {bytes : List UInt8} (read : reads j = some bytes) (nonempty : bytes ≠ [])
    (clean : 0 ∉ bytes)
    (fits : bytes.length < readbuf.length) :
    dumpPipe reads (rounds + 1) j readbuf =
      (dumpPipe reads rounds (j + 1) (bytes ++ 0 :: readbuf.drop (bytes.length + 1))).map
        fun rest => (bytes :: rest.1, rest.2) := by
  have nonzero : ¬ Read.len (some bytes) = 0 := by
    have positive := List.length_pos_iff.mpr nonempty
    simp only [Read.len]
    omega
  rw [dumpPipe, read, if_neg nonzero, Read.received, Read.len, storeAt_fill fits]
  simp only [Option.bind_eq_bind, Option.bind_some, string_append_zero clean]
  exact Option.map_eq_bind.symm

/-- Where the reads are small, the loop prints what is still to be delivered. -/
theorem exists_dumpPipe (delivers : Delivers log reads) (clean : 0 ∉ log) (small : Small reads)
    (size : readbuf.length = 1024) (unfinished : ∀ k < j, reads k ≠ some [])
    (enough : log.length < rounds + (delivered reads j).length) (within : delivered reads j <+: log) :
    ∃ lines after, dumpPipe reads rounds j readbuf = some (lines, after) ∧ after.length = 1024 ∧
      delivered reads j ++ lines.flatten = log := by
  induction rounds generalizing j readbuf with
  | zero =>
      have short := within.length_le
      omega
  | succ rounds inductionHypothesis =>
      obtain ⟨bytes, read, few⟩ := small j unfinished
      obtain ⟨_, next, whole⟩ := delivers j bytes read
      by_cases finished : bytes = []
      · subst finished
        exact ⟨[], readbuf, dumpPipe_end read, size, by simpa using whole rfl⟩
      · have progress : delivered reads (j + 1) = delivered reads j ++ bytes := by rw [delivered_succ, read]; rfl
        have cleanBytes : 0 ∉ bytes := fun member => clean (next.subset (List.mem_append_right _ member))
        have later : ∀ k < j + 1, reads k ≠ some [] := by
          intro k less
          rcases Nat.lt_succ_iff_lt_or_eq.mp less with before | rfl
          · exact unfinished k before
          · rw [read]
            exact fun same => finished (Option.some.inj same)
        have positive := List.length_pos_iff.mpr finished
        obtain ⟨lines, after, ran, kept, rest⟩ :=
          @inductionHypothesis (j + 1) (bytes ++ 0 :: readbuf.drop (bytes.length + 1))
          (by simp; omega) later (by rw [progress, List.length_append]; omega) (by rw [progress]; exact next)
        refine ⟨bytes :: lines, after, ?_, kept, ?_⟩
        · rw [dumpPipe_round read finished cleanBytes (by omega), ran]
          rfl
        · rw [List.flatten_cons, ← List.append_assoc, ← progress]
          exact rest

/-- A round of a loop that ends: the read is the last one, or it is small and the loop goes on. -/
theorem dumpPipe_cases {lines : List (List UInt8)} {after : List UInt8} (delivers : Delivers log reads)
    (size : readbuf.length = 1024) (ran : dumpPipe reads (rounds + 1) j readbuf = some (lines, after)) :
    reads j = some [] ∧ after = readbuf ∨ ∃ bytes next rest, reads j = some bytes ∧ bytes.length < 1024 ∧
      next.length = 1024 ∧ dumpPipe reads rounds (j + 1) next = some (rest, after) := by
  rw [dumpPipe] at ran
  cases read : reads j with
  | none =>
      -- A failed read stores the terminator in front of the buffer.
      rw [read] at ran
      cases ran
  | some bytes =>
      rw [read] at ran
      split at ran
      · next ended =>
          obtain ⟨rfl, rfl⟩ := Prod.mk.inj (Option.some.inj ran)
          have none : bytes = [] := List.eq_nil_of_length_eq_zero (Int.ofNat_eq_zero.mp ended)
          exact .inl ⟨congrArg some none, rfl⟩
      · obtain ⟨next, stored, ran⟩ := Option.bind_eq_some_iff.mp ran
        obtain ⟨line, _, ran⟩ := Option.bind_eq_some_iff.mp ran
        obtain ⟨rest, continued, same⟩ := Option.bind_eq_some_iff.mp ran
        cases same
        obtain ⟨few, length⟩ := lt_of_storeAt_fill ((delivers j bytes read).1.trans_eq size.symm) stored
        exact .inr ⟨bytes, next, rest.1, rfl, few.trans_eq size, length.trans size, continued⟩

/-- Where the loop ends, its reads were small. -/
theorem small_of_dumpPipe {lines : List (List UInt8)} {after : List UInt8} (delivers : Delivers log reads)
    (size : readbuf.length = 1024) (ran : dumpPipe reads rounds j readbuf = some (lines, after)) :
    after.length = 1024 ∧ ∀ m, j ≤ m → (∀ k < m, j ≤ k → reads k ≠ some []) →
      ∃ bytes, reads m = some bytes ∧ bytes.length < 1024 := by
  induction rounds generalizing j readbuf lines with
  | zero => cases ran
  | succ rounds inductionHypothesis =>
      rcases dumpPipe_cases delivers size ran with ⟨read, rfl⟩ | ⟨bytes, next, rest, read, few, length, continued⟩
      · refine ⟨size, fun m lower unfinished => ?_⟩
        rcases Nat.eq_or_lt_of_le lower with rfl | before
        · exact ⟨[], read, by decide⟩
        · exact absurd read (unfinished j before (Nat.le_refl j))
      · obtain ⟨kept, others⟩ := inductionHypothesis length continued
        refine ⟨kept, fun m lower unfinished => ?_⟩
        rcases Nat.eq_or_lt_of_le lower with rfl | before
        · exact ⟨bytes, read, few⟩
        · exact others m before fun k less above => unfinished k less (Nat.le_of_succ_le above)

end Pipe

section Connections
variable {logs : List Text} {reads : Nat → Nat → Read} {rounds i : Nat} {readbuf : List UInt8}

/-- Where the reads from all pipes are small, all logs are printed. -/
theorem exists_dumpLog (delivers : ∀ k log, logs[k]? = some log → Delivers log.bytes (reads (i + k)))
    (small : ∀ k < logs.length, Small (reads (i + k))) (size : readbuf.length = 1024)
    (enough : ∀ log ∈ logs, log.bytes.length < rounds) :
    ∃ dumped, dumpLog reads rounds i logs.length readbuf = some dumped ∧
      dumped.map List.flatten = logs.map Text.bytes := by
  induction logs generalizing i readbuf with
  | nil => exact ⟨[], rfl, rfl⟩
  | cons log logs inductionHypothesis =>
      obtain ⟨lines, after, ran, kept, whole⟩ := @exists_dumpPipe (reads i) log.bytes rounds 0 readbuf
        (delivers 0 log rfl) log.clean (small 0 (by simp)) size (by simp)
          (by simpa [delivered] using enough log (by simp))
        List.nil_prefix
      have shift (k : Nat) : i + 1 + k = i + (k + 1) := by omega
      obtain ⟨dumped, others, flat⟩ := @inductionHypothesis (i + 1) after
        (fun k log member => by rw [shift]; exact delivers (k + 1) log member)
        (fun k less => by rw [shift]; exact small (k + 1) (by simpa using less)) kept
        (fun log member => enough log (by simp [member]))
      refine ⟨lines :: dumped, ?_, ?_⟩
      · rw [List.length_cons, dumpLog, ran]
        simp [others]
      · rw [List.map_cons, List.map_cons, flat]
        exact congrArg (· :: _) whole

/-- Where `dump_log` ends, the reads from all pipes were small. -/
theorem small_of_dumpLog {dumped : List (List (List UInt8))}
    (delivers : ∀ k log, logs[k]? = some log → Delivers log.bytes (reads (i + k))) (size : readbuf.length = 1024)
    (ran : dumpLog reads rounds i logs.length readbuf = some dumped) :
    ∀ k < logs.length, Small (reads (i + k)) := by
  induction logs generalizing i readbuf dumped with
  | nil => simp
  | cons log logs inductionHypothesis =>
      obtain ⟨⟨lines, after⟩, first, ran⟩ := Option.bind_eq_some_iff.mp ran
      obtain ⟨rest, others, _⟩ := Option.bind_eq_some_iff.mp ran
      obtain ⟨kept, small⟩ := small_of_dumpPipe (delivers 0 log rfl) size first
      have shift (k : Nat) : i + 1 + k = i + (k + 1) := by omega
      intro k less
      cases k with
      | zero => exact fun m unfinished => small m (Nat.zero_le m) fun k less _ => unfinished k less
      | succ k =>
          have later := @inductionHypothesis (i + 1) after rest
            (fun k log member => by rw [shift]; exact delivers (k + 1) log member) kept others k
              (by simpa using less)
          rwa [shift] at later

/-- The longest log bounds the rounds. -/
theorem exists_enough (logs : List Text) : ∃ rounds, ∀ log ∈ logs, log.bytes.length < rounds := by
  induction logs with
  | nil => exact ⟨0, by simp⟩
  | cons log logs inductionHypothesis =>
      obtain ⟨rounds, enough⟩ := inductionHypothesis
      apply Exists.intro (max rounds (log.bytes.length + 1))
      intro other member
      rcases List.mem_cons.mp member with rfl | member
      · omega
      · have less := enough other member
        omega

end Connections

/-- All logs are printed exactly when every read up to the end of its pipe succeeds with fewer than 1024 bytes. -/
theorem dumpsAll_iff (logs : List Text) (reads : Nat → Nat → Read) (readbuf : List UInt8)
    (size : readbuf.length = 1024)
    (delivers : ∀ i log, logs[i]? = some log → Delivers log.bytes (reads i)) :
    DumpsAll logs reads readbuf ↔ ∀ i < logs.length, Small (reads i) := by
  have fromZero (i : Nat) : 0 + i = i := Nat.zero_add i
  constructor
  · rintro ⟨rounds, dumped, ran, _⟩
    have small :=
      @small_of_dumpLog logs reads rounds 0 readbuf dumped (by simpa only [fromZero] using delivers) size ran
    simpa only [fromZero] using small
  · intro small
    obtain ⟨rounds, enough⟩ := exists_enough logs
    obtain ⟨dumped, ran, whole⟩ :=
      @exists_dumpLog logs reads rounds 0 readbuf (by simpa only [fromZero] using delivers)
      (by simpa only [fromZero] using small) size enough
    exact ⟨rounds, dumped, ran, whole⟩

/-- The parts of a log are delivered when none of them is empty or longer than the buffer. -/
theorem delivers_inReads {parts : List (List UInt8)} (pieces : ∀ part ∈ parts, part ≠ [] ∧ part.length ≤ 1024) :
    Delivers parts.flatten (inReads parts) := by
  have before (j : Nat) : delivered (inReads parts) j = (parts.take j).flatten := by
    induction j with
    | zero => rfl
    | succ j inductionHypothesis =>
        rw [delivered_succ, inductionHypothesis, List.take_add_one, List.flatten_append, inReads, Option.getD_some]
        cases parts[j]? <;> simp
  rintro j bytes read
  obtain rfl : parts[j]?.getD [] = bytes := Option.some.inj read
  rw [before]
  cases entry : parts[j]? with
  | some part =>
      obtain ⟨nonempty, short⟩ := pieces part (List.mem_of_getElem? entry)
      have longer : (parts.take j).flatten ++ part = (parts.take (j + 1)).flatten := by
        rw [List.take_add_one, entry, List.flatten_append, Option.toList_some, List.flatten_singleton]
      refine ⟨short, ?_, fun empty => absurd empty nonempty⟩
      rw [Option.getD_some, longer]
      exact ⟨(parts.drop (j + 1)).flatten, by rw [← List.flatten_append, List.take_append_drop]⟩
  | none =>
      have whole : parts.take j = parts := List.take_of_length_le (List.getElem?_eq_none_iff.mp entry)
      rw [whole, Option.getD_none, List.append_nil]
      exact ⟨Nat.zero_le _, List.prefix_refl _, fun _ => rfl⟩

theorem small_inReads {parts : List (List UInt8)} (pieces : ∀ part ∈ parts, part.length < 1024) :
    Small (inReads parts) := by
  intro j _
  refine ⟨parts[j]?.getD [], rfl, ?_⟩
  cases entry : parts[j]? with
  | some part => exact pieces part (List.mem_of_getElem? entry)
  | none => exact Nat.zero_lt_succ 1023

/-- The first log comes in two reads, and the second one in three. -/
def splitReads (i : Nat) : Nat → Read :=
    if i = 0 then inReads [[97], [98, 99]] else inReads [[100, 101], [102], [103]]

/-- Both logs are printed. -/
theorem split_logs_dumped : DumpsAll [⟨[97, 98, 99], by decide⟩, ⟨[100, 101, 102, 103], by decide⟩] splitReads
    (List.replicate 1024 0) := by
  have first : Delivers [97, 98, 99] (inReads [[97], [98, 99]]) := @delivers_inReads [[97], [98, 99]] (by decide)
  have second : Delivers [100, 101, 102, 103] (inReads [[100, 101], [102], [103]]) :=
    @delivers_inReads [[100, 101], [102], [103]] (by decide)
  refine (dumpsAll_iff _ splitReads _ List.length_replicate fun i log member => ?_).mpr fun i _ => ?_
  · match i, member with
    | 0, member =>
        cases member
        exact first
    | 1, member =>
        cases member
        exact second
  · unfold splitReads
    split
    · exact small_inReads (by decide)
    · exact small_inReads (by decide)

theorem fullLog_clean : (0 : UInt8) ∉ List.replicate 1024 97 := by
  rw [List.mem_replicate]
  decide

/-- A log of 1024 bytes. -/
def fullLog : Text := ⟨List.replicate 1024 97, fullLog_clean⟩

/-- For a log of 1024 bytes the terminator is stored behind `readbuf`. -/
theorem full_log_outside : Delivers fullLog.bytes (inReads [fullLog.bytes]) ∧
    storeAt (fill (List.replicate 1024 0) fullLog.bytes) fullLog.bytes.length 0 = none ∧
      ¬ DumpsAll [fullLog] (fun _ => inReads [fullLog.bytes]) (List.replicate 1024 0) := by
  have length : fullLog.bytes.length = 1024 := List.length_replicate
  have delivers : Delivers fullLog.bytes (inReads [fullLog.bytes]) := by
    have pieces : ∀ part ∈ [fullLog.bytes], part ≠ [] ∧ part.length ≤ 1024 := by
      intro part member
      obtain rfl := List.mem_singleton.mp member
      exact ⟨List.ne_nil_of_length_eq_add_one length, Nat.le_of_eq length⟩
    have whole := delivers_inReads pieces
    rwa [List.flatten_singleton] at whole
  have size : (List.replicate 1024 (0 : UInt8)).length = 1024 := List.length_replicate
  refine ⟨delivers, ?_, ?_⟩
  · cases stored : storeAt (fill (List.replicate 1024 0) fullLog.bytes) fullLog.bytes.length 0 with
    | none => rfl
    | some next =>
        have inside := (lt_of_storeAt_fill (Nat.le_of_eq (length.trans size.symm)) stored).1
        rw [length, size] at inside
        exact absurd inside (Nat.lt_irrefl 1024)
  · rintro ⟨rounds, dumped, ran, _⟩
    have only : ∀ (k : Nat) (log : Text), [fullLog][k]? = some log →
        Delivers log.bytes (inReads [fullLog.bytes]) := by
      intro k log member
      obtain rfl : log = fullLog := List.mem_singleton.mp (List.mem_of_getElem? member)
      exact delivers
    have small := @small_of_dumpLog [fullLog] (fun _ => inReads [fullLog.bytes]) rounds 0 _ dumped only size ran 0
      (Nat.lt_succ_self 0)
    obtain ⟨bytes, read, few⟩ := small 0 (by simp)
    obtain rfl : fullLog.bytes = bytes := Option.some.inj read
    rw [length] at few
    exact Nat.lt_irrefl 1024 few

end OSLabs.DumpLog
