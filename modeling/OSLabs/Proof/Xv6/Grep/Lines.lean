import OSLabs.Proof.Xv6.Grep.Match

namespace OSLabs.Xv6.Grep

section
variable {line p later : List UInt8}

/-- Bytes without a newline only make the line longer. -/
theorem linesFrom_append (none : newline ∉ p) : linesFrom line (p ++ later) = linesFrom (line ++ p) later := by
  induction p generalizing line with
  | nil => rw [List.nil_append, List.append_nil]
  | cons c p inductionHypothesis =>
      obtain ⟨different, none⟩ := not_or.mp (mt List.mem_cons.mpr none)
      rw [List.cons_append, linesFrom, if_neg (Ne.symm different), inductionHypothesis none, List.append_assoc]
      rfl

/-- The first line begins with the bytes that were there before, and it has a newline behind them. -/
theorem prefix_of_head? {found : List UInt8} (first : (linesFrom line later).head? = some found) :
    ∃ more, found = line ++ more ++ [newline] := by
  induction later generalizing line with
  | nil => cases first
  | cons c later inductionHypothesis =>
      rw [linesFrom] at first
      split at first
      · next same =>
          obtain rfl : line ++ [c] = found := Option.some.inj first
          exact ⟨[], by rw [List.append_nil, same]⟩
      · obtain ⟨more, rfl⟩ := inductionHypothesis first
        exact ⟨c :: more, by simp⟩

/-- A newline that is found ends a line without a newline and a zero byte. -/
theorem eq_of_strchr (found : strchr p = some line) :
    p = line ++ newline :: p.drop (line.length + 1) ∧ newline ∉ line ∧ 0 ∉ line := by
  induction p generalizing line with
  | nil => cases found
  | cons c p inductionHypothesis =>
      rw [strchr] at found
      split at found
      · cases found
      · next nonzero =>
          split at found
          · next same =>
              cases found
              rw [same]
              exact ⟨rfl, List.not_mem_nil, List.not_mem_nil⟩
          · next other =>
              obtain ⟨rest, later, rfl⟩ := Option.map_eq_some_iff.mp found
              obtain ⟨split, clean, bare⟩ := inductionHypothesis later
              refine ⟨?_, ?_, ?_⟩
              · conv_lhs => rw [split]
                rfl
              · exact fun member => (List.mem_cons.mp member).elim (Ne.symm other) clean
              · exact fun member => (List.mem_cons.mp member).elim (Ne.symm nonzero) bare

/-- A newline that is not found is not there or stands behind a zero byte. -/
theorem cases_of_strchr (missing : strchr p = none) :
    newline ∉ p ∨ ∃ before after, p = before ++ 0 :: after ∧ newline ∉ before := by
  induction p with
  | nil => exact .inl List.not_mem_nil
  | cons c p inductionHypothesis =>
      rw [strchr] at missing
      split at missing
      · next zero => exact .inr ⟨[], p, by rw [zero]; rfl, List.not_mem_nil⟩
      · split at missing
        · cases missing
        · next other =>
            rcases inductionHypothesis (Option.map_eq_none_iff.mp missing) with clean | ⟨before, after, rfl, clean⟩
            · exact .inl fun member => (List.mem_cons.mp member).elim (Ne.symm other) clean
            · exact .inr ⟨c :: before, after, rfl, fun member =>
                (List.mem_cons.mp member).elim (Ne.symm other) clean⟩

end

section
variable {pattern : List UInt8} {lines : List (List UInt8)} {line buf later : List UInt8}

/-- A line that does not fit ends the output. -/
theorem selected_eq_nil (first : ∀ found, lines.head? = some found → fits found = false) :
    selected pattern lines = [] := by
  cases lines with
  | nil => rfl
  | cons found lines =>
      rw [selected, List.takeWhile_cons_of_neg (by rw [first found rfl]; rintro ⟨⟩), List.filter_nil,
        List.flatten_nil]

/-- A line that fits is written when it matches. -/
theorem selected_cons (clean : 0 ∉ line) (short : line.length + 1 < bufSize) :
    selected pattern ((line ++ [newline]) :: lines) =
      (if match' pattern line then line ++ [newline] else []) ++ selected pattern lines := by
  have fitting : fits (line ++ [newline]) = true := by
    have bare : 0 ∉ line ++ [newline] := by simpa [clean] using (by decide : (0 : UInt8) ≠ newline)
    simpa [fits, bare] using short
  rw [selected, List.takeWhile_cons_of_pos fitting, List.filter_cons, List.dropLast_concat, selected]
  split <;> rfl

/-- Where no newline is found, nothing more is written once the buffer is full or the input has ended. -/
theorem selected_stopped (missing : strchr buf = none) (ends : bufSize ≤ buf.length + 1 ∨ later = []) :
    selected pattern (linesFrom [] (buf ++ later)) = [] := by
  apply selected_eq_nil
  intro found first
  rcases cases_of_strchr missing with clean | ⟨before, after, rfl, clean⟩
  · rw [linesFrom_append clean, List.nil_append] at first
    rcases ends with full | rfl
    · obtain ⟨more, rfl⟩ := prefix_of_head? first
      have long : ¬ (buf ++ more ++ [newline]).length < bufSize := by
        simp only [List.length_append, List.length_singleton]
        omega
      rw [fits, decide_eq_false long, Bool.false_and]
    · cases first
  · rw [List.append_assoc, linesFrom_append clean, List.nil_append, List.cons_append, linesFrom,
      if_neg (by decide)] at first
    obtain ⟨more, rfl⟩ := prefix_of_head? first
    simp [fits]

/-- The inner loop writes the matching lines of the buffer and keeps a rest without a newline. -/
theorem selected_scan (fuel : Nat) (enough : buf.length ≤ fuel) (short : buf.length < bufSize) :
    selected pattern (linesFrom [] (buf ++ later)) =
        (scan pattern fuel buf).1 ++ selected pattern (linesFrom [] ((scan pattern fuel buf).2 ++ later)) ∧
      strchr (scan pattern fuel buf).2 = none ∧ (scan pattern fuel buf).2.length ≤ buf.length := by
  induction fuel generalizing buf with
  | zero =>
      obtain rfl := List.eq_nil_of_length_eq_zero (Nat.le_zero.mp enough)
      exact ⟨rfl, rfl, le_rfl⟩
  | succ fuel inductionHypothesis =>
      rw [scan]
      cases found : strchr buf with
      | none => exact ⟨rfl, found, le_rfl⟩
      | some line =>
          obtain ⟨split, clean, bare⟩ := eq_of_strchr found
          have total := congrArg List.length split
          rw [List.length_append, List.length_cons] at total
          have enough' : (buf.drop (line.length + 1)).length ≤ fuel := by omega
          obtain ⟨output, missing, fewer⟩ := inductionHypothesis enough' (by omega)
          have kept : (scan pattern fuel (buf.drop (line.length + 1))).2.length ≤ buf.length := by omega
          refine ⟨?_, missing, kept⟩
          conv_lhs => rw [split]
          rw [List.append_assoc, linesFrom_append clean, List.nil_append, List.cons_append, linesFrom, if_pos rfl,
            selected_cons bare (by omega), output, List.append_assoc]

end

/-- The loop writes the lines that are left and match, up to one that does not fit. -/
theorem grepLoop_eq {pattern : List UInt8} {choices : Nat → Nat} {fuel round : Nat} {buf input : List UInt8}
    (missing : strchr buf = none) (short : buf.length < bufSize) (enough : input.length < fuel) :
    grepLoop pattern choices fuel round buf input = selected pattern (linesFrom [] (buf ++ input)) := by
  induction fuel generalizing round buf input with
  | zero => cases enough
  | succ fuel inductionHypothesis =>
      rw [grepLoop]
      cases got : read (choices round) (bufSize - buf.length - 1) input with
      | nil =>
          refine (selected_stopped missing ?_).symm
          rw [read, List.take_eq_nil_iff] at got
          rcases got with none | ended
          · exact .inl (by omega)
          · exact .inr ended
      | cons c chunk =>
          have pieces : (c :: chunk) ++ input.drop (chunk.length + 1) = input := by
            have part :=
              List.prefix_iff_eq_take.mp (List.take_prefix
                (min (bufSize - buf.length - 1) (max 1 (choices round))) input)
            rw [read] at got
            rw [got, List.length_cons] at part
            rw [part, List.take_append_drop]
          have count := congrArg List.length got
          have total := congrArg List.length pieces
          rw [read, List.length_take, List.length_cons] at count
          rw [List.length_append, List.length_cons] at total
          have grown : (buf ++ c :: chunk).length = buf.length + (chunk.length + 1) := by
            rw [List.length_append, List.length_cons]
          obtain ⟨output, missing', fewer⟩ :=
            @selected_scan pattern (buf ++ c :: chunk) (input.drop (chunk.length + 1))
            (buf ++ c :: chunk).length le_rfl (by omega)
          rw [List.append_assoc, pieces] at output
          rw [output]
          refine congrArg _ (inductionHypothesis missing' ?_ ?_)
          · exact Nat.lt_of_le_of_lt fewer (by omega)
          · omega

/-- Whatever the pieces in which the input arrives, `grep` writes the lines that match the pattern,
each with its newline and in order, up to the first line that does not fit into the buffer or has a zero byte. -/
theorem grep_eq (pattern : List UInt8) (choices : Nat → Nat) (input : List UInt8) :
    grep pattern choices input =
      (((linesFrom [] input).takeWhile fits).filter fun line => match' pattern line.dropLast).flatten :=
  grepLoop_eq rfl (by decide) (Nat.lt_succ_self _)

end OSLabs.Xv6.Grep
