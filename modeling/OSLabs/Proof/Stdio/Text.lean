import OSLabs.Construction.Stdio
import Mathlib.Data.List.Basic
import Mathlib.Data.List.TakeWhile

namespace OSLabs.Stdio

section Digits
variable {text : List UInt8} {number : Int}

/-- A text of digits starts with no space and no sign. -/
theorem eq_cons_of_digits (digits : text.takeWhile isDigit ≠ []) : ∃ first rest, text = first :: rest ∧
    isSpace first = false ∧ first ≠ 45 ∧ first ≠ 43 := by
  cases text with
  | nil => exact absurd rfl digits
  | cons first rest =>
      have digit : isDigit first = true := by
        by_contra other
        exact digits (List.takeWhile_cons_of_neg other)
      simp only [isDigit, Bool.and_eq_true, decide_eq_true_eq, UInt8.le_iff_toNat_le] at digit
      have lower : 48 ≤ first.toNat := digit.1
      have upper : first.toNat ≤ 57 := digit.2
      refine ⟨first, rest, rfl, ?_, ?_, ?_⟩
      · simp only [isSpace, UInt8.le_iff_toNat_le, ← UInt8.toNat_inj, Bool.or_eq_false_iff, Bool.and_eq_false_iff,
          decide_eq_false_iff_not, UInt8.reduceToNat]
        omega
      · rintro rfl
        exact absurd lower (by decide)
      · rintro rfl
        exact absurd lower (by decide)

theorem strtol_digits (digits : text.takeWhile isDigit ≠ []) :
    strtol text = (min (decimal text : Int) (2 ^ 63 - 1), text.dropWhile isDigit) := by
  obtain ⟨first, rest, rfl, noSpace, noMinus, noPlus⟩ := eq_cons_of_digits digits
  simp only [strtol, List.dropWhile_cons (p := isSpace), noSpace, Bool.false_eq_true, if_false]
  split
  · rename_i shape
    exact absurd (List.cons.inj shape).1 noMinus
  · rename_i shape
    exact absurd (List.cons.inj shape).1 noPlus
  · simp only [digits, Bool.false_eq_true, if_false]

theorem strtol_plus (digits : text.takeWhile isDigit ≠ []) :
    strtol (43 :: text) = (min (decimal text : Int) (2 ^ 63 - 1), text.dropWhile isDigit) := by
  have noSpace : (43 :: text).dropWhile isSpace = 43 :: text := List.dropWhile_cons_of_neg (by decide)
  simp only [strtol, noSpace, digits, Bool.false_eq_true, if_false]

theorem strtol_minus (digits : text.takeWhile isDigit ≠ []) :
    strtol (45 :: text) = (max (-(decimal text : Int)) (-2 ^ 63), text.dropWhile isDigit) := by
  have noSpace : (45 :: text).dropWhile isSpace = 45 :: text := List.dropWhile_cons_of_neg (by decide)
  simp only [strtol, noSpace, digits, if_false, if_true]

theorem toInt_range (number : Int) : -2 ^ 31 ≤ toInt number ∧ toInt number < 2 ^ 31 := by
  rw [toInt]
  omega

theorem toInt_eq_self (lower : -2 ^ 31 ≤ number) (upper : number < 2 ^ 31) : toInt number = number := by
  rw [toInt]
  omega

end Digits

section Numbers
variable (value : Nat)

/-- The characters of a decimal number fit in a byte. -/
theorem digit_range : ∀ digit ∈ Nat.toDigits 10 value,
    digit.toNat.toUInt8.toNat = digit.toNat ∧ 48 ≤ digit.toNat ∧ digit.toNat ≤ 57 := by
  intro digit member
  have isDigit := Nat.isDigit_of_mem_toDigits (by decide) (by decide) member
  simp only [Char.isDigit, ge_iff_le, Bool.and_eq_true, decide_eq_true_eq] at isDigit
  obtain ⟨lower, upper⟩ := isDigit
  have least : 48 ≤ digit.toNat := lower
  have most : digit.toNat ≤ 57 := upper
  refine ⟨?_, least, most⟩
  rw [Nat.toUInt8, UInt8.toNat_ofNat', Nat.mod_eq_of_lt (by omega)]

theorem isDigit_decimalText : ∀ byte ∈ decimalText value, isDigit byte = true := by
  intro byte member
  obtain ⟨digit, isMember, rfl⟩ := List.mem_map.mp member
  obtain ⟨same, lower, upper⟩ := digit_range value digit isMember
  simp only [isDigit, Bool.and_eq_true, decide_eq_true_eq, UInt8.le_iff_toNat_le, same]
  exact ⟨lower, upper⟩

theorem decimalText_ne_nil : decimalText value ≠ [] := by
  simp [decimalText, Nat.toDigits_ne_nil]

theorem dropWhile_decimalText : (decimalText value).dropWhile isDigit = [] :=
  List.dropWhile_eq_nil_iff.mpr (isDigit_decimalText value)

theorem takeWhile_decimalText : (decimalText value).takeWhile isDigit = decimalText value :=
  List.takeWhile_eq_self_iff.mpr (isDigit_decimalText value)

theorem decimal_decimalText : decimal (decimalText value) = value := by
  have digits : (Nat.toDigits 10 value).foldl (fun sum digit => 10 * sum + (digit.toNat.toUInt8.toNat - 48)) 0 =
      (Nat.toDigits 10 value).foldl (fun sum digit => 10 * sum + (digit.toNat - '0'.toNat)) 0 := by
    refine List.foldl_ext _ _ 0 fun sum digit member => ?_
    rw [(digit_range value digit member).1]
    rfl
  rw [decimal, takeWhile_decimalText, decimalText, List.foldl_map, digits, ← Nat.ofDigitChars_eq_foldl,
    Nat.ofDigitChars_ten_toDigits]

theorem decimalText_eq_cons : ∃ first rest, decimalText value = first :: rest ∧
    isSpace first = false ∧ first ≠ 45 ∧ first ≠ 43 := by
  refine eq_cons_of_digits ?_
  rw [takeWhile_decimalText]
  exact decimalText_ne_nil value

theorem atoi_decimalText (small : value < 2 ^ 31) : atoi (decimalText value) = value := by
  obtain ⟨first, rest, shape, noSpace, noMinus, noPlus⟩ := decimalText_eq_cons value
  have same := decimal_decimalText value
  rw [shape] at same ⊢
  simp only [atoi, List.dropWhile_cons, noSpace, Bool.false_eq_true, if_false]
  split
  · rename_i shape'
    exact absurd (List.cons.inj shape').1 noMinus
  · rename_i shape'
    exact absurd (List.cons.inj shape').1 noPlus
  · rw [same]
    omega

theorem strtol_decimalText (small : value < 2 ^ 63) : strtol (decimalText value) = ((value : Int), []) := by
  have digits : (decimalText value).takeWhile isDigit ≠ [] := by
    rw [takeWhile_decimalText]
    exact decimalText_ne_nil value
  rw [strtol_digits digits, decimal_decimalText, dropWhile_decimalText, Int.min_eq_left (by omega)]

end Numbers

section Strings
variable {text rest buffer bytes : List UInt8}

/-- The first null character ends the string in a buffer. -/
theorem cString_append {null : UInt8} (clean : null ∉ text) : cString null (text ++ null :: rest) = text := by
  unfold cString
  rw [List.takeWhile_append_of_pos]
  · simp
  · intro byte member
    exact decide_eq_true (ne_of_mem_of_not_mem member clean)

theorem string_append_zero (clean : 0 ∉ text) : string (text ++ 0 :: rest) = some text := by
  rw [string, if_pos (by simp), cString_append clean]

theorem clean_take (clean : 0 ∉ text) (count : Nat) : 0 ∉ text.take count :=
  fun member => clean (List.mem_of_mem_take member)

theorem string_snprintf (clean : 0 ∉ text) (size : Nat) :
    string (snprintf buffer size text) = some (text.take (size - 1)) :=
  string_append_zero (clean_take clean _)

/-- A buffer behind `snprintf` always holds a string. -/
theorem string_snprintf_eq (size : Nat) :
    string (snprintf buffer size text) = some (cString 0 (snprintf buffer size text)) := by
  have ends : 0 ∈ snprintf buffer size text := List.mem_append_right _ List.mem_cons_self
  rw [string, if_pos ends]

theorem length_snprintf {size : Nat} (positive : 0 < size) (sized : buffer.length = size) :
    (snprintf buffer size text).length = size := by
  simp only [snprintf, List.length_append, List.length_take, List.length_cons, List.length_drop]
  omega

/-- Bytes that fill the whole buffer replace it. -/
theorem fill_eq (full : buffer.length ≤ bytes.length) : fill buffer bytes = bytes := by
  rw [fill, List.drop_eq_nil_of_le full, List.append_nil]

theorem length_fill (fits : bytes.length ≤ buffer.length) : (fill buffer bytes).length = buffer.length := by
  rw [fill, List.length_append, List.length_drop]
  omega

/-- The same bytes of the buffer are written again. -/
theorem fill_fill {other : List UInt8} (same : other.length = bytes.length) :
    fill (fill buffer other) bytes = fill buffer bytes := by
  rw [fill, fill, fill, ← same, List.drop_left]

theorem fill_inj {other : List UInt8} (same : other.length = bytes.length)
    (equal : fill buffer other = fill buffer bytes) : other = bytes :=
  List.append_inj_left equal same

theorem getElem?_fill (place : Nat) :
    (fill buffer bytes)[place]? = if place < bytes.length then bytes[place]? else buffer[place]? := by
  rw [fill, List.getElem?_append]
  split
  · rfl
  · rw [List.getElem?_drop]
    congr 1
    omega

/-- Behind fewer bytes the cleared buffer ends the string. -/
theorem string_fill {size : Nat} (clean : 0 ∉ bytes) (room : bytes.length < size) :
    string (fill (List.replicate size 0) bytes) = some bytes := by
  have more : size - bytes.length = (size - bytes.length - 1) + 1 := by omega
  rw [fill, List.drop_replicate, more, List.replicate_succ, string_append_zero clean]

end Strings

section Lines
variable {A : Type} [DecidableEq A]

theorem takeLine_append {line : List A} {newline : A} {room : Nat} (noNewline : newline ∉ line)
    (fits : line.length < room) (rest : List A) :
    takeLine newline room (line ++ newline :: rest) = (line ++ [newline], rest) := by
  induction line generalizing room with
  | nil =>
      cases room with
      | zero => cases fits
      | succ room => simp [takeLine]
  | cons character later inductionHypothesis =>
      cases room with
      | zero => cases fits
      | succ room =>
          rw [List.mem_cons, not_or] at noNewline
          have tail := inductionHypothesis noNewline.2 (Nat.lt_of_succ_lt_succ fits)
          simp [takeLine, Ne.symm noNewline.1, tail]

theorem length_takeLine_le (newline : A) (room : Nat) (stream : List A) :
    (takeLine newline room stream).1.length ≤ room := by
  induction room generalizing stream with
  | zero => simp [takeLine]
  | succ room inductionHypothesis =>
      cases stream with
      | nil => simp [takeLine]
      | cons character later =>
          unfold takeLine
          split
          · simp
          · simpa using inductionHypothesis later

/-- The line and the rest make up the stream. -/
theorem takeLine_append_rest (newline : A) (room : Nat) (stream : List A) :
    (takeLine newline room stream).1 ++ (takeLine newline room stream).2 = stream := by
  induction room generalizing stream with
  | zero => rfl
  | succ room inductionHypothesis =>
      cases stream with
      | nil => rfl
      | cons character later =>
          unfold takeLine
          split
          · next same => simp [same]
          · simpa using inductionHypothesis later

end Lines

section Tokens
variable {delimiter : UInt8} {text token rest : List UInt8}

theorem tokens_delimiter (delimiter : UInt8) (text : List UInt8) :
    tokens delimiter (delimiter :: text) = tokens delimiter text := by
  simp [tokens, List.splitOn_eq_splitOnP, List.splitOnP_cons_eq_if_modifyHead]

theorem tokens_single (clean : delimiter ∉ token) (nonempty : token ≠ []) : tokens delimiter token = [token] := by
  have whole : token.splitOn delimiter = [token] := by
    refine List.splitOnP_eq_singleton fun byte member => ?_
    exact beq_false_of_ne fun same => clean (same ▸ member)
  simp [tokens, whole, nonempty]

theorem tokens_append (clean : delimiter ∉ token) (nonempty : token ≠ []) (text : List UInt8) :
    tokens delimiter (token ++ delimiter :: text) = token :: tokens delimiter text := by
  have parts : (token ++ delimiter :: text).splitOn delimiter = token :: text.splitOn delimiter := by
    rw [List.splitOn_eq_splitOnP, List.splitOn_eq_splitOnP]
    refine List.splitOnP_append_cons_of_forall_mem (fun byte member => ?_) delimiter (by simp) text
    exact beq_false_of_ne fun same => clean (same ▸ member)
  simp [tokens, parts, nonempty]

theorem tokens_dropWhile (delimiter : UInt8) (text : List UInt8) :
    tokens delimiter (text.dropWhile (· = delimiter)) = tokens delimiter text := by
  induction text with
  | nil => rfl
  | cons byte text inductionHypothesis =>
      by_cases same : byte = delimiter
      · rw [List.dropWhile_cons_of_pos (by simpa using same), inductionHypothesis, same, tokens_delimiter]
      · rw [List.dropWhile_cons_of_neg (by simpa using same)]

/-- The tokenizer finds no token in a text of delimiters only. -/
theorem strtok_eq_none_iff : strtok delimiter text = none ↔ ∀ byte ∈ text, byte = delimiter := by
  have only : text.dropWhile (· = delimiter) = [] ↔ ∀ byte ∈ text, byte = delimiter := by
    simp [List.dropWhile_eq_nil_iff]
  rw [← only, strtok]
  cases text.dropWhile (· = delimiter) with
  | nil => simp
  | cons => simp

theorem tokens_of_none (none : strtok delimiter text = none) : tokens delimiter text = [] := by
  have only := List.dropWhile_eq_nil_iff.mpr fun byte member =>
    decide_eq_true (strtok_eq_none_iff.mp none byte member)
  rw [← tokens_dropWhile, only]
  rfl

/-- A text that starts with no delimiter starts with its first token. -/
theorem tokens_takeWhile (nonempty : text.takeWhile (· ≠ delimiter) ≠ []) :
    tokens delimiter text =
      text.takeWhile (· ≠ delimiter) :: tokens delimiter (text.dropWhile (· ≠ delimiter)).tail := by
  have whole : text.takeWhile (· ≠ delimiter) ++ text.dropWhile (· ≠ delimiter) = text :=
    List.takeWhile_append_dropWhile
  have clean : delimiter ∉ text.takeWhile (· ≠ delimiter) := by
    intro member
    simpa using List.mem_takeWhile_imp member
  nth_rewrite 1 [← whole]
  cases behind : text.dropWhile (· ≠ delimiter) with
  | nil =>
      rw [List.append_nil, tokens_single clean nonempty]
      rfl
  | cons byte rest =>
      have more : text.dropWhile (· ≠ delimiter) ≠ [] := behind ▸ List.cons_ne_nil byte rest
      have ends := List.head_dropWhile_not (fun byte => decide (byte ≠ delimiter)) more
      simp only [behind, List.head_cons] at ends
      have same : byte = delimiter := by simpa using ends
      rw [same, tokens_append clean nonempty, List.tail_cons]

/-- The tokenizer splits off the first token. -/
theorem tokens_of_some (found : strtok delimiter text = some (token, rest)) :
    tokens delimiter text = token :: tokens delimiter rest := by
  rw [← tokens_dropWhile]
  rw [strtok] at found
  cases shape : text.dropWhile (· = delimiter) with
  | nil => simp [shape] at found
  | cons first behind =>
      have different : first ≠ delimiter := by
        have head := List.head_dropWhile_not (fun byte => decide (byte = delimiter)) (l := text) (by simp [shape])
        simpa [shape] using head
      simp only [shape, Option.some.injEq, Prod.mk.injEq] at found
      obtain ⟨rfl, rfl⟩ := found
      exact tokens_takeWhile (by simp [different])

end Tokens

end OSLabs.Stdio
