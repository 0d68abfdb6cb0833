import OSLabs.Construction.SimpleShell
import OSLabs.Proof.Stdio.Text

namespace OSLabs.SimpleShell

open Stdio

section Strings

variable {text tail line rest buffer stream : List UInt8}

theorem not_mem_cString (buffer : List UInt8) : 0 ∉ cString 0 buffer := by
  intro member
  unfold cString at member
  simpa using List.mem_takeWhile_imp member

/-- A buffer with a null character is a string, the null character, and something else. -/
theorem exists_cString (null : 0 ∈ buffer) : ∃ tail, buffer = cString 0 buffer ++ 0 :: tail := by
  induction buffer with
  | nil => cases null
  | cons character later inductionHypothesis =>
      by_cases isNull : character = 0
      · exact ⟨later, by simp [cString, isNull]⟩
      · obtain ⟨tail, same⟩ := inductionHypothesis ((List.mem_cons.mp null).resolve_left (Ne.symm isNull))
        refine ⟨tail, ?_⟩
        have first : cString 0 (character :: later) = character :: cString 0 later := by simp [cString, isNull]
        rw [first, List.cons_append, ← same]

/-- Where the string is cut off, a shorter string is left. -/
theorem cString_set {length : Nat} (long : strlen buffer = some (length + 1)) :
    cString 0 (buffer.set length 0) = (cString 0 buffer).take length ∧ 0 ∈ buffer.set length 0 := by
  unfold strlen at long
  split at long
  · next null =>
      obtain ⟨tail, same⟩ := exists_cString null
      have size : (cString 0 buffer).length = length + 1 := Option.some.inj long
      have inRange : length < buffer.length := by
        rw [same, List.length_append]
        omega
      have cut : buffer.take length = (cString 0 buffer).take length := by
        conv_lhs => rw [same]
        rw [List.take_append_of_le_length (by omega)]
      rw [List.set_eq_take_append_cons_drop, if_pos inRange, cut]
      refine ⟨cString_append fun member => not_mem_cString buffer (List.mem_of_mem_take member), by simp⟩
  · cases long

theorem strlen_write_le (buffer line : List UInt8) :
    ∀ length, strlen (write buffer line) = some length → length ≤ line.length := by
  intro length long
  unfold strlen at long
  rw [if_pos (by simp [write])] at long
  have same : (cString 0 (write buffer line)).length = length := Option.some.inj long
  rw [← same]
  have before : cString 0 (write buffer line) <+: write buffer line := List.takeWhile_prefix _
  by_contra longer
  rw [not_le] at longer
  have inside : line ++ [0] <+: write buffer line := ⟨buffer.drop (line.length + 1), by simp [write]⟩
  have covered : line ++ [0] <+: cString 0 (write buffer line) :=
    List.prefix_of_prefix_length_le inside before (by simpa using Nat.succ_le_of_lt longer)
  exact not_mem_cString _ (covered.subset (by simp))

/-- Reading a short line leaves the line in the buffer. -/
theorem readLine_short (short : Short line) (noNewline : 10 ∉ line) (buffer rest : List UInt8) :
    ∃ tail, readLine buffer (line ++ 10 :: rest) = some (line ++ 0 :: tail, rest) := by
  have read : fgets 10 82 (line ++ 10 :: rest) = some (line ++ [10], rest) := by
    have fits : line.length < 81 := Nat.lt_succ_of_le short.1
    cases line with
    | nil => exact congrArg some (takeLine_append noNewline fits rest)
    | cons character later => exact congrArg some (takeLine_append noNewline fits rest)
  have noNull : 0 ∉ line ++ [10] := by simpa using short.2
  have written : ∃ tail, write buffer (line ++ [10]) = (line ++ [10]) ++ 0 :: tail := ⟨_, rfl⟩
  obtain ⟨tail, written⟩ := written
  have long : strlen ((line ++ [10]) ++ 0 :: tail) = some (line.length + 1) := by
    rw [strlen, cString_append noNull, if_pos (by simp), List.length_append]
    rfl
  refine ⟨0 :: tail, ?_⟩
  simp only [readLine, read, written, long]
  simp [List.set_append_right]

/-- What is left in the buffer is a string without its last character. -/
theorem readLine_eq_some {after : List UInt8 × List UInt8} (read : readLine buffer stream = some after) :
    ∃ raw length, strlen raw = some (length + 1) ∧ after.1 = raw.set length 0 ∧
      (stream ≠ [] → raw = write buffer (takeLine 10 81 stream).1) := by
  cases stream with
  | nil =>
      simp only [readLine, fgets] at read
      split at read
      · next length long => exact ⟨buffer, length, long, by cases read; rfl, by simp⟩
      · cases read
  | cons character later =>
      simp only [readLine, fgets] at read
      split at read
      · next length long => exact ⟨_, length, long, by cases read; rfl, fun _ => rfl⟩
      · cases read

/-- A line that is read from the stream is a short string in the buffer. -/
theorem exists_of_readLine {after : List UInt8 × List UInt8} (read : readLine buffer stream = some after) :
    ∃ (text tail : List UInt8), after.1 = text ++ 0 :: tail ∧ 0 ∉ text ∧ (stream ≠ [] → text.length ≤ 80) := by
  obtain ⟨raw, length, long, left, written⟩ := readLine_eq_some read
  obtain ⟨cut, null⟩ := cString_set long
  obtain ⟨tail, same⟩ := exists_cString null
  refine ⟨_, tail, left.trans same, not_mem_cString _, fun notEnd => ?_⟩
  rw [written notEnd] at long
  have room : length + 1 ≤ (takeLine 10 81 stream).1.length := strlen_write_le buffer _ _ long
  have bound : (takeLine 10 81 stream).1.length ≤ 81 := length_takeLine_le 10 81 stream
  rw [cut, List.length_take]
  omega

end Strings

section Parsing

variable {line text tail command argument : List UInt8}

theorem splitLine_of_not_mem (noSpace : 32 ∉ line) : splitLine line = ⟨line, none⟩ := by
  unfold splitLine
  rw [List.dropWhile_eq_nil_iff.mpr]
  intro character member
  simpa using ne_of_mem_of_not_mem member noSpace

theorem splitLine_append (noSpace : 32 ∉ command) :
    splitLine (command ++ 32 :: argument) = ⟨command, some argument⟩ := by
  unfold splitLine
  have others : ∀ character ∈ command, character ≠ 32 :=
    fun character member => ne_of_mem_of_not_mem member noSpace
  rw [List.dropWhile_append_of_pos (by simpa using others), List.takeWhile_append_of_pos (by simpa using others)]
  simp

/-- Both parts joined by the space are the line. -/
theorem join_splitLine (line : List UInt8) : (splitLine line).join = line := by
  by_cases space : 32 ∈ line
  · obtain ⟨command, argument, rfl, noSpace⟩ := List.eq_append_cons_of_mem space
    rw [splitLine_append noSpace]
    rfl
  · rw [splitLine_of_not_mem space]
    rfl

theorem splitLine_injective : Function.Injective splitLine :=
  Function.LeftInverse.injective join_splitLine

/-- The loop over the buffer splits the line that is in the buffer. -/
theorem parse_eq (noNull : 0 ∉ text) (tail : List UInt8) : (parse (text ++ 0 :: tail)).1 = splitLine text := by
  simp only [parse, cString_append noNull]
  by_cases space : 32 ∈ text
  · obtain ⟨command, argument, rfl, noSpace⟩ := List.eq_append_cons_of_mem space
    have before : ((command ++ 32 :: argument).takeWhile (· ≠ 32)) = command := cString_append noSpace
    have cut : (command ++ 32 :: argument ++ 0 :: tail).set command.length 0 =
        command ++ 0 :: (argument ++ 0 :: tail) := by
      simp [List.set_append_right]
    have notCommand : 0 ∉ command := fun member => noNull (List.mem_append_left _ member)
    have notArgument : 0 ∉ argument :=
      fun member => noNull (List.mem_append_right _ (List.mem_cons_of_mem _ member))
    rw [before, if_neg (by simp), cut, splitLine_append noSpace, cString_append notCommand]
    simp [cString_append notArgument]
  · have whole : text.takeWhile (· ≠ 32) = text := by
      rw [List.takeWhile_eq_self_iff]
      intro character member
      simpa using ne_of_mem_of_not_mem member space
    rw [whole, if_pos rfl, splitLine_of_not_mem space]

end Parsing

section Loop

variable {lines before after : List (List UInt8)} {line buffer : List UInt8}

theorem input_cons (line : List UInt8) (lines : List (List UInt8)) :
    input (line :: lines) = line ++ 10 :: input lines := by simp [input]

theorem input_ne_nil (line : List UInt8) (lines : List (List UInt8)) : input (line :: lines) ≠ [] := by
  simp [input]

/-- A round that reads a string works on this string. -/
theorem mainLoop_succ {stream text tail rest : List UInt8} (noNull : 0 ∉ text)
    (read : readLine buffer stream = some (text ++ 0 :: tail, rest)) (rounds : Nat) :
    mainLoop (rounds + 1) buffer stream =
      if quits (stripBackground (splitLine text).command) then ([splitLine text], .exited)
      else (splitLine text :: (mainLoop rounds (parse (text ++ 0 :: tail)).2 rest).1,
        (mainLoop rounds (parse (text ++ 0 :: tail)).2 rest).2) := by
  simp only [mainLoop, read, parse_eq noNull]

/-- At the end of the file the shell works on the old buffer again. -/
theorem not_lineByLine_nil (buffer : List UInt8) : ¬ LineByLine [] buffer := by
  intro lineByLine
  obtain ⟨works, defined⟩ := lineByLine 1
  cases read : readLine buffer (input []) with
  | none => exact defined (by simp [mainLoop, read])
  | some after =>
      have nonempty : (mainLoop 1 buffer (input [])).1 ≠ [] := by
        simp only [mainLoop, read]
        split <;> simp
      exact nonempty (List.prefix_nil.mp works)

/-- The first line has to be a short one. -/
theorem LineByLine.short (lineByLine : LineByLine (line :: after) buffer) : Short line := by
  obtain ⟨works, defined⟩ := lineByLine 1
  cases read : readLine buffer (input (line :: after)) with
  | none => exact absurd (by simp [mainLoop, read]) defined
  | some next =>
      obtain ⟨text, tail, left, noNull, bound⟩ := exists_of_readLine read
      obtain ⟨contents, rest⟩ := next
      obtain rfl : contents = text ++ 0 :: tail := left
      have first : (mainLoop 1 buffer (input (line :: after))).1 = [splitLine text] := by
        rw [mainLoop_succ noNull read]
        split <;> rfl
      rw [first, List.map_cons, List.cons_prefix_cons] at works
      rw [← splitLine_injective works.1]
      exact ⟨bound (input_ne_nil line after), noNull⟩

/-- The other lines are handled with what the first line left in the buffer. -/
theorem LineByLine.tail (lineByLine : LineByLine (line :: after) buffer) (noNewline : 10 ∉ line)
    (goesOn : quits (stripBackground (splitLine line).command) = false) : ∃ buffer, LineByLine after buffer := by
  obtain ⟨tail, read⟩ := readLine_short lineByLine.short noNewline buffer (input after)
  refine ⟨(parse (line ++ 0 :: tail)).2, fun rounds => ?_⟩
  obtain ⟨works, defined⟩ := lineByLine (rounds + 1)
  rw [input_cons, mainLoop_succ lineByLine.short.2 read, goesOn] at works defined
  exact ⟨(List.cons_prefix_cons.mp works).2, defined⟩

/-- A short line in front is one more round. -/
theorem LineByLine.cons (short : Short line) (noNewline : 10 ∉ line)
    (later : quits (stripBackground (splitLine line).command) = true ∨ ∀ buffer, LineByLine after buffer) :
    LineByLine (line :: after) buffer := by
  intro rounds
  cases rounds with
  | zero => exact ⟨List.nil_prefix, by simp [mainLoop]⟩
  | succ rounds =>
      obtain ⟨tail, read⟩ := readLine_short short noNewline buffer (input after)
      rw [input_cons, mainLoop_succ short.2 read]
      split
      · exact ⟨by simp, by simp⟩
      · next goesOn =>
          obtain ⟨works, defined⟩ := later.resolve_left goesOn (parse (line ++ 0 :: tail)).2 rounds
          exact ⟨List.cons_prefix_cons.mpr ⟨rfl, works⟩, defined⟩

/-- The shell handles its input line by line exactly when it gets a line that ends it
and when no line up to this one has more than 80 characters or a null character. -/
theorem line_by_line (lines : List (List UInt8)) (noNewline : ∀ line ∈ lines, 10 ∉ line) (buffer : List UInt8) :
    (LineByLine lines buffer ∧ ∀ line ∈ lines, (splitLine line).join = line) ↔
      ∃ before line after, lines = before ++ line :: after ∧
        quits (stripBackground (splitLine line).command) = true ∧ ∀ other ∈ before ++ [line], Short other := by
  constructor
  · rintro ⟨lineByLine, -⟩
    induction lines generalizing buffer with
    | nil => exact absurd lineByLine (not_lineByLine_nil buffer)
    | cons line after inductionHypothesis =>
        by_cases ends : quits (stripBackground (splitLine line).command) = true
        · exact ⟨[], line, after, rfl, ends, by simpa using lineByLine.short⟩
        · obtain ⟨buffer, tail⟩ := lineByLine.tail (noNewline line (by simp)) (by simpa using ends)
          obtain ⟨before, last, rest, rfl, ends, short⟩ :=
            inductionHypothesis (fun other member => noNewline other (by simp [member])) buffer tail
          refine ⟨line :: before, last, rest, rfl, ends, ?_⟩
          simpa using ⟨lineByLine.short, by simpa using short⟩
  · rintro ⟨before, line, after, rfl, ends, short⟩
    refine ⟨?_, fun line _ => join_splitLine line⟩
    induction before generalizing buffer with
    | nil => exact LineByLine.cons (short line (by simp)) (noNewline line (by simp)) (Or.inl ends)
    | cons first before inductionHypothesis =>
        apply LineByLine.cons (short first (by simp)) (noNewline first (by simp))
        right
        intro buffer
        exact inductionHypothesis buffer (fun other member => noNewline other (List.mem_cons_of_mem _ member))
          fun other member => short other (List.mem_cons_of_mem _ member)

/-- The lines `ls -l` and `quit` are handled one after the other. -/
theorem line_by_line_quit :
    LineByLine [[108, 115, 32, 45, 108], [113, 117, 105, 116]] (List.replicate 82 0) :=
  ((line_by_line [[108, 115, 32, 45, 108], [113, 117, 105, 116]] (by decide) (List.replicate 82 0)).mpr
    ⟨[[108, 115, 32, 45, 108]], [113, 117, 105, 116], [], rfl, by decide, by simp [Short]⟩).1

/-- A line with 81 characters loses its last one, and after the only line `ls` the shell runs `l`. -/
theorem boundary_and_end :
    ¬ LineByLine [List.replicate 81 97, [113, 117, 105, 116]] (List.replicate 82 0) ∧
      ¬ LineByLine [[108, 115]] (List.replicate 82 0) := by
  constructor
  · intro lineByLine
    have works := (lineByLine 1).1
    revert works
    decide
  · intro lineByLine
    have works := (lineByLine 2).1
    revert works
    decide

end Loop

end OSLabs.SimpleShell
