import OSLabs.Construction.SequentialCount

namespace OSLabs.CountChars

open Stdio

variable {high low digit : UInt8} {first second value rounds : Nat} {text bytes rest : List UInt8}

/-- A hexadecimal digit is neither the null character nor a newline. -/
theorem hexDigit_ne (isDigit : hexDigit digit = some value) : digit ≠ 0 ∧ digit ≠ 10 := by
  constructor
  · rintro rfl
    cases isDigit
  · rintro rfl
    cases isDigit

section Token
variable (isHigh : hexDigit high = some first) (isLow : hexDigit low = some second)

include isHigh isLow

/-- A call of `fgets` takes exactly one token, and the window does not slip. -/
theorem fgets_token : fgets 10 5 (48 :: 120 :: high :: low :: rest) = some ([48, 120, high, low], rest) := by
  have noHigh := (hexDigit_ne isHigh).2
  have noLow := (hexDigit_ne isLow).2
  simp [fgets, takeLine, noHigh, noLow]

theorem cString_token : cString 0 [48, 120, high, low] = [48, 120, high, low] := by
  have noHigh := (hexDigit_ne isHigh).1
  have noLow := (hexDigit_ne isLow).1
  simp [cString, noHigh, noLow]

theorem strtoul16_token : strtoul16 [48, 120, high, low] = 16 * first + second := by
  have space : isSpace 48 = false := by decide
  simp [strtoul16, space, dropHexPrefix, hexDigits, isHigh, isLow]

theorem transformLoop_token : transformLoop (rounds + 1) (48 :: 120 :: high :: low :: text) =
    UInt8.ofNat (16 * first + second) :: transformLoop rounds text := by
  have noNewline : ¬ ([48, 120, high, low] : List UInt8) = [10] := by simp
  rw [transformLoop, fgets_token isHigh isLow]
  simp only [cString_token isHigh isLow, noNewline, if_false, strtoul16_token isHigh isLow]

end Token

/-- A newline is a line of its own, which is skipped. -/
theorem transformLoop_newline : transformLoop (rounds + 1) (10 :: text) = transformLoop rounds text := by
  have alone : fgets (10 : UInt8) 5 (10 :: text) = some ([10], text) := by simp [fgets, takeLine]
  have newline : cString 0 [10] = ([10] : List UInt8) := by decide
  rw [transformLoop, alone]
  exact if_pos newline

/-- The loop needs a round for each token and each newline. -/
theorem transformLoop_listing (listing : Listing text bytes) (enough : text.length ≤ rounds) :
    transformLoop rounds text = bytes := by
  induction listing generalizing rounds with
  | done =>
      cases rounds with
      | zero => rfl
      | succ rounds => rfl
  | newline listing inductionHypothesis =>
      cases rounds with
      | zero => cases enough
      | succ rounds =>
          rw [transformLoop_newline]
          exact inductionHypothesis (Nat.le_of_succ_le_succ enough)
  | token isHigh isLow listing inductionHypothesis =>
      cases rounds with
      | zero => cases enough
      | succ rounds =>
          rw [transformLoop_token isHigh isLow]
          refine congrArg (List.cons _) (inductionHypothesis ?_)
          simp only [List.length_cons] at enough
          omega

/-- The listed bytes are written, in order and with nothing else. -/
theorem transformFile_listing (listing : Listing text bytes) : transformFile text = bytes :=
  transformLoop_listing listing (Nat.le_refl _)

/-- The bytes `e` and 255 with digits of both cases, between newlines. -/
theorem two_tokens : transformFile [10, 48, 120, 54, 53, 10, 10, 48, 120, 70, 102, 10] = [101, 255] := by
  have six : hexDigit 54 = some 6 := by decide
  have five : hexDigit 53 = some 5 := by decide
  have upper : hexDigit 70 = some 15 := by decide
  have lower : hexDigit 102 = some 15 := by decide
  exact transformFile_listing
    (.newline (.token six five (.newline (.newline (.token upper lower (.newline .done))))))

end OSLabs.CountChars
