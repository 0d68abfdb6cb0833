import OSLabs.Construction.CommanderLine
import OSLabs.Proof.Stdio.Text

namespace OSLabs.Commander

open Stdio

variable {text : List UInt8} {line : Text} {word : String}

section Words

theorem starts_iff : starts text word = true ↔ ascii word <+: text := List.isPrefixOf_iff_prefix

/-- A word of a command is not empty and has no space. -/
theorem solid_of_mem : ∀ word ∈ commandWords, ascii word ≠ [] ∧ 32 ∉ ascii word := by
  decide

/-- A word at the beginning of the line is at the beginning of the first token. -/
theorem starts_token (solid : ascii word ≠ [] ∧ 32 ∉ ascii word) (begins : starts text word = true) :
    ∃ name, (tokens 32 text)[0]? = some name ∧ starts name word = true := by
  obtain ⟨rest, rfl⟩ := starts_iff.mp begins
  have taken : (ascii word ++ rest).takeWhile (· ≠ 32) = ascii word ++ rest.takeWhile (· ≠ 32) := by
    refine List.takeWhile_append_of_pos fun byte member => ?_
    exact decide_eq_true fun same => solid.2 (same ▸ member)
  have nonempty : (ascii word ++ rest).takeWhile (· ≠ 32) ≠ [] := by
    rw [taken]
    exact List.append_ne_nil_of_left_ne_nil solid.1 _
  refine ⟨(ascii word ++ rest).takeWhile (· ≠ 32), ?_, ?_⟩
  · rw [tokens_takeWhile nonempty]
    rfl
  · rw [taken, starts_iff]
    exact List.prefix_append _ _

end Words

section Stages

/-- The parser finds the first two tokens, or a null pointer where there is none. -/
theorem strtok_tokens (text : List UInt8) : (strtok 32 text).map Prod.fst = (tokens 32 text)[0]? ∧
    ((strtok 32 text).bind fun name => strtok 32 name.2).map Prod.fst = (tokens 32 text)[1]? := by
  cases name : strtok 32 text with
  | none => simp [tokens_of_none name]
  | some found =>
      obtain ⟨first, rest⟩ := found
      cases target : strtok 32 rest with
      | none => simp [tokens_of_some name, tokens_of_none target, target]
      | some found =>
          obtain ⟨second, rest⟩ := found
          simp [tokens_of_some name, tokens_of_some target, target]

/-- A run that reads no null pointer and calls at most one handler, and none with a number. -/
structure Simple (run : List Event × Ending) : Prop where
  pointers : run.2 ≠ .nullPointer
  atMostOne : (calls run.1).length ≤ 1
  numberless : ∀ handler ∈ calls run.1, handler.pid = none

/-- The runs of the parser: the line is empty, or a word is at its beginning, or its tokens are parsed. -/
inductive Parsed (line : Text) : List Event × Ending → Prop where
  | empty : line.bytes = [] → Parsed line ([], .returned)
  | word {word : String} {run : List Event × Ending} : word ∈ commandWords → starts line.bytes word = true →
      Simple run → Parsed line run
  | tokens : line.bytes ≠ [] → Parsed line (parseTokens (tokens 32 line.bytes)[0]? (tokens 32 line.bytes)[1]?)

theorem Parsed.test {run rest : List Event × Ending} (isWord : word ∈ commandWords) (simple : Simple run)
    (other : Parsed line rest) : Parsed line (if starts line.bytes word then run else rest) := by
  by_cases begins : starts line.bytes word = true
  · rw [if_pos begins]
    exact .word isWord begins simple
  · rwa [if_neg begins]

theorem simple_log (message : String) : Simple ([.log message], .exited) :=
  ⟨nofun, Nat.zero_le 1, nofun⟩

theorem simple_call {handler : Handler} (numberless : handler.pid = none) : Simple ([.call handler], .returned) :=
  ⟨nofun, Nat.le_refl 1, List.forall_mem_singleton.mpr numberless⟩

/-- The tests are made in the order of the source. -/
theorem parsed_parseCommand (line : Text) : Parsed line (parseCommand (some line)) := by
  obtain ⟨name, target⟩ := strtok_tokens line.bytes
  rw [parseCommand]
  by_cases empty : line.bytes = []
  · rw [if_pos empty]
    exact .empty empty
  · rw [if_neg empty]
    apply Parsed.test (by decide) (simple_log _)
    apply Parsed.test (by decide) (simple_call rfl)
    apply Parsed.test (by decide) (simple_call rfl)
    apply Parsed.test (by decide) (simple_call rfl)
    apply Parsed.test (by decide) (simple_call rfl)
    apply Parsed.test (by decide) (simple_call rfl)
    simp only [name, target]
    exact .tokens empty

end Stages

section Targets

variable {name target : Option (List UInt8)} {events : List Event} {missing : String} {blank shot : Int → Event}
  {handler : Int → Handler} {number : Int}

/-- The handler receives the number, and it kills no other process. -/
structure Receives (handler : Handler) (number : Int) : Prop where
  pid : handler.pid = some number
  kill : handler.kill = none ∨ handler.kill = some number

/-- No handler is called, or one that receives the number of the target, which is not zero as a `long`. -/
def Aimed (target : Option (List UInt8)) (events : List Event) : Prop :=
  calls events = [] ∨ ∃ text handler, target = some text ∧ (strtol text).1 ≠ 0 ∧
    Receives handler (toInt (strtol text).1) ∧ calls events = [handler]

theorem calls_append (first second : List Event) : calls (first ++ second) = calls first ++ calls second :=
  List.filterMap_append

theorem aimed_aim (silent : ∀ number, calls [blank number] = []) (announced : ∀ number, calls [shot number] = [])
    (receives : ∀ number, Receives (handler number) number) :
    Aimed target (aim missing blank shot handler target) := by
  cases target with
  | none => exact .inl rfl
  | some text =>
      simp only [aim]
      split
      · exact .inl (silent _)
      · rename_i nonzero
        have called : calls [shot (strtol text).1, .call (handler (toInt (strtol text).1))] =
            calls [shot (strtol text).1] ++ [handler (toInt (strtol text).1)] :=
          calls_append [shot (strtol text).1] [.call (handler (toInt (strtol text).1))]
        exact .inr ⟨text, _, rfl, nonzero, receives _, by rw [called, announced, List.nil_append]⟩

theorem aimed_fire (target : Option (List UInt8)) : Aimed target (aimFire target) := by
  have receives : ∀ number, Receives (.fire number) number := fun _ => ⟨rfl, .inr rfl⟩
  exact aimed_aim (fun _ => rfl) (fun _ => rfl) receives

theorem aimed_support (target : Option (List UInt8)) : Aimed target (aimSupport target) := by
  have receives : ∀ number, Receives (.support number) number := fun _ => ⟨rfl, .inl rfl⟩
  exact aimed_aim (fun _ => rfl) (fun _ => rfl) receives

theorem aimed_dezombify (target : Option (List UInt8)) : Aimed target (aimDezombify target) := by
  have receives : ∀ number, Receives (.dezombify number) number := fun _ => ⟨rfl, .inl rfl⟩
  exact aimed_aim (fun _ => rfl) (fun _ => rfl) receives

theorem aimed_parseTokens : Aimed target (parseTokens name target).1 := by
  cases name with
  | none => exact .inl rfl
  | some name =>
      simp only [parseTokens]
      by_cases fire : starts name "fire" = true
      · rw [if_pos fire]
        exact aimed_fire target
      · rw [if_neg fire]
        by_cases support : starts name "support" = true
        · rw [if_pos support]
          exact aimed_support target
        · rw [if_neg support]
          by_cases dezombify : starts name "dezombify" = true
          · rw [if_pos dezombify]
            exact aimed_dezombify target
          · rw [if_neg dezombify]
            exact .inl rfl

theorem Aimed.length_le (aimed : Aimed target events) : (calls events).length ≤ 1 := by
  rcases aimed with none | ⟨text, handler, -, -, -, one⟩
  · rw [none]
    exact Nat.zero_le 1
  · rw [one]
    exact Nat.le_refl 1

/-- The pointer to the first token is the only one that can be null. -/
theorem pointers_parseTokens : (parseTokens name target).2 = .nullPointer ↔ name = none := by
  cases name with
  | none => simp [parseTokens]
  | some name =>
      simp only [parseTokens, reduceCtorEq, iff_false]
      split_ifs <;> exact nofun

theorem parseTokens_unknown {name : List UInt8} (unknown : ∀ word ∈ commandWords, starts name word = false) :
    parseTokens (some name) target = ([.error "Unknow command, please try again....\n"], .returned) := by
  have fire := unknown "fire" (by decide)
  have support := unknown "support" (by decide)
  have dezombify := unknown "dezombify" (by decide)
  simp [parseTokens, fire, support, dezombify]

end Targets

section Lines

/-- There is a first token unless the line has only spaces. -/
theorem head_tokens (text : List UInt8) : (tokens 32 text)[0]? = none ↔ ∀ byte ∈ text, byte = 32 := by
  rw [← (strtok_tokens text).1, Option.map_eq_none_iff, strtok_eq_none_iff]

/-- A null pointer is read for a line of spaces and nothing else. -/
theorem pointers_parseCommand (line : Text) :
    (parseCommand (some line)).2 = .nullPointer ↔ line.bytes ≠ [] ∧ ∀ byte ∈ line.bytes, byte = 32 := by
  rw [← head_tokens]
  generalize run : parseCommand (some line) = result
  cases run ▸ parsed_parseCommand line with
  | empty empty => simp [empty]
  | word isWord begins simple =>
      obtain ⟨name, first, -⟩ := starts_token (solid_of_mem _ isWord) begins
      simp [simple.pointers, first]
  | tokens nonempty => rw [pointers_parseTokens, and_iff_right nonempty]

theorem atMostOne_parseCommand (line : Text) : (calls (parseCommand (some line)).1).length ≤ 1 := by
  generalize run : parseCommand (some line) = result
  cases run ▸ parsed_parseCommand line with
  | empty => exact Nat.zero_le 1
  | word _ _ simple => exact simple.atMostOne
  | tokens => exact aimed_parseTokens.length_le

/-- A line whose first token starts with no word is reported. -/
theorem unknown_parseCommand (unknown : Unknown line) (filled : ∃ byte ∈ line.bytes, byte ≠ 32) :
    parseCommand (some line) = ([.error "Unknow command, please try again....\n"], .returned) := by
  obtain ⟨byte, member, different⟩ := filled
  have token : (tokens 32 line.bytes)[0]? ≠ none :=
    mt (head_tokens line.bytes).mp fun spaces => different (spaces byte member)
  obtain ⟨name, first⟩ := Option.ne_none_iff_exists'.mp token
  generalize run : parseCommand (some line) = result
  cases run ▸ parsed_parseCommand line with
  | empty empty =>
      rw [empty] at member
      cases member
  | word isWord begins =>
      obtain ⟨name, first, starts⟩ := starts_token (solid_of_mem _ isWord) begins
      cases starts.symm.trans (unknown name first _ isWord)
  | tokens => rw [first, parseTokens_unknown (unknown name first)]

/-- The parser is right unless the line has spaces and nothing else. -/
theorem parsesRight_iff (line : Option Text) :
    ParsesRight line ↔ ∀ text, line = some text → text.bytes = [] ∨ ∃ byte ∈ text.bytes, byte ≠ 32 := by
  constructor
  · rintro right text rfl
    have pointers := mt (pointers_parseCommand text).mpr right.pointers
    by_contra spaces
    simp only [not_or, not_exists, not_and, not_not] at spaces
    exact pointers spaces
  · intro filled
    cases line with
    | none => exact ⟨nofun, Nat.zero_le 1, nofun⟩
    | some text =>
        refine ⟨fun pointer => ?_, atMostOne_parseCommand text, ?_⟩
        · obtain ⟨nonempty, spaces⟩ := (pointers_parseCommand text).mp pointer
          obtain ⟨byte, member, different⟩ := (filled text rfl).resolve_left nonempty
          exact different (spaces byte member)
        · rintro text same nonempty unknown
          cases same
          rw [unknown_parseCommand unknown ((filled _ rfl).resolve_left nonempty)]
          exact ⟨List.mem_singleton_self _, rfl⟩

/-- A line of one space reads a null pointer. -/
theorem space_reads_null : ¬ ∀ line, ParsesRight line := by
  intro right
  exact (right (some ⟨[32], by decide⟩)).pointers (by decide)

end Lines

end OSLabs.Commander
