import Mathlib.Data.List.Induction
import OSLabs.Construction.SequentialCount
import OSLabs.Proof.Stdio.Text

namespace OSLabs.CountChars

open Stdio

variable {content buff buffer bytes : List UInt8} {earlier later : List (List UInt8)} {seqSum : Nat}

section Contents

theorem countE_append (first second : List UInt8) : countE (first ++ second) = countE first + countE second :=
  List.count_append

theorem length_stored_le (content : List UInt8) : (stored content).length ≤ fileSize := by
  cases content with
  | nil => exact Nat.zero_le _
  | cons byte rest =>
      have line := length_takeLine_le 10 (fileSize - 1) (byte :: rest)
      have positive : 0 < fileSize := by decide
      simp only [stored, fgets, List.length_append, List.length_singleton]
      omega

/-- What is not stored of a content is what is behind its first line. -/
theorem countE_content (content : List UInt8) : countE content = countE (stored content) + unread content := by
  cases content with
  | nil => rfl
  | cons byte rest =>
      have null : countE [0] = 0 := by decide
      have whole := congrArg countE (takeLine_append_rest 10 (fileSize - 1) (byte :: rest))
      rw [countE_append] at whole
      simp only [stored, fgets, unread, countE_append, null]
      omega

/-- The characters behind a place, counted place by place. -/
theorem countE_drop (bytes : List UInt8) (start : Nat) : countE (bytes.drop start) =
    (List.range bytes.length).countP fun place => start ≤ place ∧ bytes[place]? = some 101 := by
  induction bytes generalizing start with
  | nil => simp [countE]
  | cons byte rest inductionHypothesis =>
      rw [List.length_cons, List.range_succ_eq_map, List.countP_cons, List.countP_map]
      cases start with
      | zero =>
          have tail := inductionHypothesis 0
          rw [List.drop_zero] at tail
          rw [List.drop_zero, countE, List.count_cons, ← countE, tail]
          simp [Function.comp_def]
      | succ start =>
          rw [List.drop_succ_cons, inductionHypothesis start]
          simp [Function.comp_def]

end Contents

section Residues

theorem length_readFileToBuffer (sized : buffer.length = fileSize) (content : List UInt8) :
    (readFileToBuffer buffer content).length = fileSize := by
  rw [readFileToBuffer, length_fill (sized ▸ length_stored_le content), sized]

theorem length_buffered (sized : buff.length = fileSize) (earlier : List (List UInt8)) :
    (earlier.foldl readFileToBuffer buff).length = fileSize := by
  induction earlier generalizing buff with
  | nil => exact sized
  | cons content earlier inductionHypothesis => exact inductionHypothesis (length_readFileToBuffer sized content)

theorem residue_nil (buff : List UInt8) (place : Nat) : residue buff [] place = buff[place]? := rfl

theorem residue_append (buff : List UInt8) (earlier : List (List UInt8)) (content : List UInt8) (place : Nat) :
    residue buff (earlier ++ [content]) place =
      if place < (stored content).length then (stored content)[place]? else residue buff earlier place := by
  rw [residue, List.reverse_append, List.reverse_singleton, List.singleton_append, List.find?_cons]
  by_cases inside : place < (stored content).length
  · simp [inside]
  · simp [inside, residue]

/-- The buffer holds at each place what the contents have left there. -/
theorem getElem?_buffered (buff : List UInt8) (earlier : List (List UInt8)) (place : Nat) :
    (earlier.foldl readFileToBuffer buff)[place]? = residue buff earlier place := by
  induction earlier using List.reverseRecOn with
  | nil => exact (residue_nil buff place).symm
  | append_singleton earlier content inductionHypothesis =>
      rw [List.foldl_append, List.foldl_cons, List.foldl_nil, readFileToBuffer, getElem?_fill, residue_append,
        inductionHypothesis]

/-- A round of the counting loop counts what has been stored and what is stale. -/
theorem countE_readFileToBuffer (sized : buff.length = fileSize) (earlier : List (List UInt8))
    (content : List UInt8) :
    countE (readFileToBuffer (earlier.foldl readFileToBuffer buff) content) = countE (stored content) +
      (List.range fileSize).countP fun place =>
        (stored content).length ≤ place ∧ residue buff earlier place = some 101 := by
  rw [readFileToBuffer, fill, countE_append, countE_drop, length_buffered sized]
  simp only [getElem?_buffered]

end Residues

section Phase

/-- The counting loop adds what has been stored and what is stale, as long as the sum is an `int`. -/
theorem countFiles_eq (sized : buff.length = fileSize) (small : seqSum < 2 ^ 31) :
    countFiles later (earlier.foldl readFileToBuffer buff) seqSum =
      if seqSum + (later.map fun content => countE (stored content)).sum + stale buff earlier later < 2 ^ 31 then
        some (seqSum + (later.map fun content => countE (stored content)).sum + stale buff earlier later)
      else none := by
  induction later generalizing earlier seqSum with
  | nil =>
      rw [countFiles, List.map_nil, List.sum_nil, stale, Nat.add_zero, Nat.add_zero, if_pos small]
  | cons content later inductionHypothesis =>
      have next : readFileToBuffer (earlier.foldl readFileToBuffer buff) content =
          (earlier ++ [content]).foldl readFileToBuffer buff := by
        rw [List.foldl_append, List.foldl_cons, List.foldl_nil]
      rw [countFiles, countE_readFileToBuffer sized, next, List.map_cons, List.sum_cons, stale]
      set new := countE (stored content)
      set old := (List.range fileSize).countP fun place =>
        (stored content).length ≤ place ∧ residue buff earlier place = some 101
      set news := (later.map fun content => countE (stored content)).sum
      set olds := stale buff (earlier ++ [content]) later
      have order : seqSum + (new + news) + (old + olds) = seqSum + (new + old) + news + olds := by omega
      rw [order]
      by_cases step : seqSum + (new + old) < 2 ^ 31
      · rw [if_pos step, inductionHypothesis step]
      · rw [if_neg step, if_neg (by omega)]

theorem sequentialSum_eq (files : List (List UInt8)) (sized : buff.length = fileSize) :
    sequentialSum files buff =
      let contents := files.map transformFile
      let sum := (contents.map fun content => countE (stored content)).sum + stale buff [] contents
      if sum < 2 ^ 31 then some sum else none := by
  have run := @countFiles_eq buff [] (files.map transformFile) 0 sized (by decide)
  simpa only [sequentialSum, List.foldl_nil, Nat.zero_add] using run

/-- The characters of the files are those of the first lines and those that are not read. -/
theorem totalE_eq (files : List (List UInt8)) :
    totalE files = ((files.map transformFile).map fun content => countE (stored content)).sum +
      ((files.map transformFile).map unread).sum := by
  induction files with
  | nil => rfl
  | cons file files inductionHypothesis =>
      have content := countE_content (transformFile file)
      simp only [totalE, List.map_cons, List.sum_cons] at inductionHypothesis ⊢
      omega

/-- The sum is right exactly when as many stale characters are counted as unread ones are missed,
and when it is an `int`. -/
theorem sequentialSum_eq_iff (files : List (List UInt8)) (sized : buff.length = fileSize) :
    sequentialSum files buff = some (totalE files) ↔
      stale buff [] (files.map transformFile) = ((files.map transformFile).map unread).sum ∧
        totalE files < 2 ^ 31 := by
  simp only [sequentialSum_eq files sized, totalE_eq files]
  split
  · rw [Option.some.injEq]
    omega
  · simp only [reduceCtorEq, false_iff]
    omega

/-- The only file lists the character `e`, and the buffer holds null characters. -/
theorem letter_counted :
    sequentialSum [[48, 120, 54, 53]] (List.replicate fileSize 0) = some (totalE [[48, 120, 54, 53]]) := by
  have decoded : transformFile [48, 120, 54, 53] = [101] := by decide
  have read : unread [101] = 0 := by decide
  have clean : stale (List.replicate fileSize 0) [] [[101]] = 0 := by
    rw [stale, stale, Nat.add_zero, List.countP_eq_zero]
    intro place _ counted
    obtain ⟨-, lies⟩ := of_decide_eq_true counted
    rw [residue_nil] at lies
    cases List.eq_of_mem_replicate (List.mem_of_getElem? lies)
  refine (sequentialSum_eq_iff [[48, 120, 54, 53]] List.length_replicate).mpr ⟨?_, by decide⟩
  rw [List.map_singleton, decoded, clean, List.map_singleton, read, List.sum_singleton]

/-- The files list `eee` and then `a`, and a character of the first file is counted again. -/
theorem letter_recounted : ¬ ∀ (files : List (List UInt8)) (buff : List UInt8), buff.length = fileSize →
    (∀ file ∈ files, (transformFile file).length < fileSize) → sequentialSum files buff = some (totalE files) := by
  intro right
  have eee : transformFile [48, 120, 54, 53, 48, 120, 54, 53, 48, 120, 54, 53] = [101, 101, 101] := by decide
  have a : transformFile [48, 120, 54, 49] = [97] := by decide
  have total : totalE [[48, 120, 54, 53, 48, 120, 54, 53, 48, 120, 54, 53], [48, 120, 54, 49]] = 3 := by decide
  have first : readFileToBuffer (List.replicate fileSize 0) [101, 101, 101] =
      [101, 101, 101, 0] ++ List.replicate (fileSize - 4) 0 := by
    rw [readFileToBuffer, fill, List.drop_replicate]
    exact rfl
  have second : readFileToBuffer ([101, 101, 101, 0] ++ List.replicate (fileSize - 4) 0) [97] =
      [97, 0, 101, 0] ++ List.replicate (fileSize - 4) 0 := rfl
  have nulls : countE (List.replicate (fileSize - 4) 0) = 0 := List.count_replicate
  have threes : countE [101, 101, 101, 0] = 3 := by decide
  have one : countE [97, 0, 101, 0] = 1 := by decide
  have sum := right [[48, 120, 54, 53, 48, 120, 54, 53, 48, 120, 54, 53], [48, 120, 54, 49]]
    (List.replicate fileSize 0) List.length_replicate (by
      intro file listed
      rcases List.mem_pair.mp listed with rfl | rfl
      · rw [eee]
        decide
      · rw [a]
        decide)
  rw [sequentialSum, List.map_cons, List.map_singleton, eee, a, total] at sum
  simp only [countFiles, first, second, countE_append, nulls, threes, one] at sum
  revert sum
  decide

end Phase

end OSLabs.CountChars
