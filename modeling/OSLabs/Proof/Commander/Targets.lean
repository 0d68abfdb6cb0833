import OSLabs.Proof.Commander.Parsing

namespace OSLabs.Commander

open Stdio

variable {text : List UInt8} {line : Text} {number pid : Int} {handler : Handler}

/-- The number of the digits is read, and it is saturated in 64 bits. -/
theorem strtol_denotes (denotes : Denotes text number) :
    (strtol text).1 = max (min number (2 ^ 63 - 1)) (-2 ^ 63) := by
  cases denotes with
  | digits digits =>
      obtain ⟨some, rfl⟩ := digits
      rw [strtol_digits some]
      omega
  | plus digits =>
      obtain ⟨some, rfl⟩ := digits
      rw [strtol_plus some]
      omega
  | minus digits =>
      obtain ⟨some, rfl⟩ := digits
      rw [strtol_minus some]
      omega

/-- A handler that is called with a number receives that of the second token, cut to an `int`. -/
theorem exists_token (called : handler ∈ calls (parseCommand (some line)).1) (received : handler.pid = some pid) :
    ∃ text, (tokens 32 line.bytes)[1]? = some text ∧ (strtol text).1 ≠ 0 ∧ pid = toInt (strtol text).1 ∧
      (handler.kill = none ∨ handler.kill = some pid) := by
  generalize run : parseCommand (some line) = result at called
  cases run ▸ parsed_parseCommand line with
  | empty => cases called
  | word _ _ simple => cases received.symm.trans (simple.numberless handler called)
  | tokens =>
      rcases aimed_parseTokens with none | ⟨text, aimed, second, nonzero, receives, one⟩
      · rw [none] at called
        cases called
      · rw [one, List.mem_singleton] at called
        subst called
        have same : pid = toInt (strtol text).1 := Option.some.inj (received.symm.trans receives.pid)
        exact ⟨text, second, nonzero, same, same ▸ receives.kill⟩

/-- The targets are right exactly when the second token denotes a number that is an `int`. -/
theorem targetsRight_iff (accepted : Accepted line) :
    TargetsRight line ↔ ∃ text number, (tokens 32 line.bytes)[1]? = some text ∧ Denotes text number ∧
      -2 ^ 31 ≤ number ∧ number < 2 ^ 31 := by
  constructor
  · intro right
    obtain ⟨handler, called, aims⟩ := accepted
    obtain ⟨pid, received⟩ := Option.isSome_iff_exists.mp aims
    obtain ⟨text, second, denotes⟩ := (right handler called pid received).denoted
    obtain ⟨found, isFound, nonzero, rfl, kills⟩ := exists_token called received
    exact ⟨text, _, second, denotes, toInt_range _⟩
  · rintro ⟨text, number, second, denotes, lower, upper⟩ handler called pid received
    obtain ⟨found, isFound, nonzero, rfl, kills⟩ := exists_token called received
    obtain rfl := Option.some.inj (second.symm.trans isFound)
    have whole : (strtol text).1 = number := by
      rw [strtol_denotes denotes]
      omega
    rw [whole] at nonzero
    rw [whole, toInt_eq_self lower upper] at kills ⊢
    refine ⟨nonzero, ⟨text, second, denotes⟩, ?_⟩
    rcases kills with none | some
    · rw [none]
      exact nofun
    · rw [some]
      exact mt Option.some.inj nonzero

/-- The line `fire -12x` fires at the process group 12. -/
theorem minus_twelve_right : TargetsRight ⟨ascii "fire -12x", by decide⟩ := by
  have accepted : Accepted ⟨ascii "fire -12x", by decide⟩ := ⟨.fire (-12), by decide, rfl⟩
  have twelve : Denotes (ascii "-12x") (-12) := .minus ⟨by decide, by decide⟩
  exact (targetsRight_iff accepted).mpr ⟨ascii "-12x", -12, by decide, twelve, by decide, by decide⟩

/-- The line `fire 4294967296` fires at the process group of the commander. -/
theorem zero_fired : ¬ ∀ line, Accepted line → TargetsRight line := by
  intro right
  have called : Handler.fire 0 ∈ calls (parseCommand (some ⟨ascii "fire 4294967296", by decide⟩)).1 := by decide
  exact (right _ ⟨.fire 0, called, rfl⟩ (.fire 0) called 0 rfl).nonzero rfl

end OSLabs.Commander
