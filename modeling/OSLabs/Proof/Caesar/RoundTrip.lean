import OSLabs.Proof.Caesar.Messages

namespace OSLabs.Caesar

open Stdio

/-- A byte is a character with a sign. -/
theorem toInt_toInt8 (byte : UInt8) :
    byte.toInt8.toInt = if byte.toNat < 128 then (byte.toNat : Int) else byte.toNat - 256 := by
  have range : byte.toNat < 256 := byte.toNat_lt
  change byte.toBitVec.toInt = _
  rw [BitVec.toInt_eq_toNat_cond, UInt8.toNat_toBitVec]
  split <;> split <;> omega

section Letters
variable {first last letter : UInt8} (alphabet : first.toNat + 25 = last.toNat) (least : 65 ≤ first.toNat)
  (most : last.toNat ≤ 122) (lower : first.toNat ≤ letter.toNat) (upper : letter.toNat ≤ last.toNat)

include alphabet least most lower upper

/-- The sum of a letter and the key has a negative sign from `x` on, and then it is not wrapped. -/
theorem toNat_encryptLetter : (encryptLetter first last letter).toNat =
    if last.toNat < letter.toNat + 8 ∧ letter.toNat < 120 then letter.toNat - 18 else letter.toNat + 8 := by
  have sum : (letter + studentKey).toNat = letter.toNat + 8 := by
    simp only [UInt8.toNat_add, studentKey, UInt8.reduceToNat]
    omega
  have wraps : last.toInt8 < (letter + studentKey).toInt8 ↔
      last.toNat < letter.toNat + 8 ∧ letter.toNat < 120 := by
    rw [Int8.lt_iff_toInt_lt, toInt_toInt8, toInt_toInt8, sum]
    split <;> split <;> omega
  unfold encryptLetter
  by_cases beyond : last.toNat < letter.toNat + 8 ∧ letter.toNat < 120
  · rw [if_pos (wraps.mpr beyond), if_pos beyond]
    simp only [UInt8.toNat_sub, UInt8.toNat_add, sum, UInt8.reduceToNat]
    omega
  · rw [if_neg (mt wraps.mp beyond), if_neg beyond, sum]

theorem toNat_decryptLetter : (decryptLetter first last letter).toNat =
    if letter.toNat < first.toNat + 8 then letter.toNat + 18 else letter.toNat - 8 := by
  have difference : (letter - studentKey).toNat = letter.toNat - 8 := by
    simp only [UInt8.toNat_sub, studentKey, UInt8.reduceToNat]
    omega
  have wraps : (letter - studentKey).toInt8 < first.toInt8 ↔ letter.toNat < first.toNat + 8 := by
    rw [Int8.lt_iff_toInt_lt, toInt_toInt8, toInt_toInt8, difference]
    split <;> split <;> omega
  unfold decryptLetter
  by_cases under : letter.toNat < first.toNat + 8
  · rw [if_pos (wraps.mpr under), if_pos under]
    simp only [UInt8.toNat_sub, UInt8.toNat_add, difference, UInt8.reduceToNat]
    omega
  · rw [if_neg (mt wraps.mp under), if_neg under, difference]

end Letters

section Kinds
variable {letter : UInt8}

theorem isLower_iff : isLower letter = true ↔ 97 ≤ letter.toNat ∧ letter.toNat ≤ 122 := by
  rw [isLower, Bool.and_eq_true, decide_eq_true_eq, decide_eq_true_eq, UInt8.le_iff_toNat_le,
    UInt8.le_iff_toNat_le]
  rfl

theorem isUpper_iff : isUpper letter = true ↔ 65 ≤ letter.toNat ∧ letter.toNat ≤ 90 := by
  rw [isUpper, Bool.and_eq_true, decide_eq_true_eq, decide_eq_true_eq, UInt8.le_iff_toNat_le,
    UInt8.le_iff_toNat_le]
  rfl

/-- What one round of the loop makes of a character, as a number. -/
theorem toNat_encrypt : (substitute .encrypt letter).toNat =
    if 97 ≤ letter.toNat ∧ letter.toNat ≤ 122 then
      if 114 < letter.toNat ∧ letter.toNat < 120 then letter.toNat - 18 else letter.toNat + 8
    else if 65 ≤ letter.toNat ∧ letter.toNat ≤ 90 then
      if 82 < letter.toNat then letter.toNat - 18 else letter.toNat + 8
    else letter.toNat := by
  simp only [substitute, isLower_iff, isUpper_iff]
  split
  · next range =>
      rw [@toNat_encryptLetter 97 122 letter rfl (by decide) (by decide) range.1 range.2]
      simp only [UInt8.reduceToNat]
      split <;> split <;> omega
  · split
    · next range =>
        rw [@toNat_encryptLetter 65 90 letter rfl (by decide) (by decide) range.1 range.2]
        simp only [UInt8.reduceToNat]
        split <;> split <;> omega
    · rfl

theorem toNat_decrypt : (substitute .decrypt letter).toNat =
    if 97 ≤ letter.toNat ∧ letter.toNat ≤ 122 then
      if letter.toNat < 105 then letter.toNat + 18 else letter.toNat - 8
    else if 65 ≤ letter.toNat ∧ letter.toNat ≤ 90 then
      if letter.toNat < 73 then letter.toNat + 18 else letter.toNat - 8
    else letter.toNat := by
  simp only [substitute, isLower_iff, isUpper_iff]
  split
  · next range =>
      rw [@toNat_decryptLetter 97 122 letter rfl (by decide) (by decide) range.1 range.2]
      simp only [UInt8.reduceToNat]
  · split
    · next range =>
        rw [@toNat_decryptLetter 65 90 letter rfl (by decide) (by decide) range.1 range.2]
        simp only [UInt8.reduceToNat]
    · rfl

theorem kept_iff {result : UInt8} : Kept letter result ↔
    if 97 ≤ letter.toNat ∧ letter.toNat ≤ 122 then 97 ≤ result.toNat ∧ result.toNat ≤ 122
    else if 65 ≤ letter.toNat ∧ letter.toNat ≤ 90 then 65 ≤ result.toNat ∧ result.toNat ≤ 90
    else result.toNat = letter.toNat := by
  simp only [Kept, isLower_iff, isUpper_iff, UInt8.toNat_inj]

/-- The letters whose sum with the key is negative, and the letters that decryption replaces by them. -/
def fragile : List UInt8 := ascii "xyzfgh"

theorem mem_fragile_iff : letter ∈ fragile ↔
    120 ≤ letter.toNat ∧ letter.toNat ≤ 122 ∨ 102 ≤ letter.toNat ∧ letter.toNat ≤ 104 := by
  change letter ∈ ([120, 121, 122, 102, 103, 104] : List UInt8) ↔ _
  simp only [List.mem_cons, List.not_mem_nil, or_false, ← UInt8.toNat_inj, UInt8.reduceToNat]
  omega

/-- Both operations give the character back and keep its kind exactly when it is not one of these letters. -/
theorem substitute_roundTrip : (substitute .decrypt (substitute .encrypt letter) = letter ∧
    substitute .encrypt (substitute .decrypt letter) = letter ∧
    Kept letter (substitute .encrypt letter) ∧ Kept letter (substitute .decrypt letter)) ↔ letter ∉ fragile := by
  rw [mem_fragile_iff, kept_iff, kept_iff, ← UInt8.toNat_inj, ← UInt8.toNat_inj, toNat_decrypt, toNat_encrypt,
    @toNat_encrypt (substitute .decrypt letter), toNat_decrypt]
  generalize letter.toNat = value
  grind

end Kinds

theorem mode_encrypt : mode (ascii "encrypt") = .encrypt := rfl

theorem mode_decrypt : mode (ascii "decrypt") = .decrypt := rfl

theorem map_map_eq_iff {first second : UInt8 → UInt8} {message : List UInt8} :
    (message.map first).map second = message ↔ ∀ letter ∈ message, second (first letter) = letter := by
  rw [List.map_map]
  conv_lhs => rhs; rw [← List.map_id message]
  exact List.map_inj_left

/-- The loop treats each character by itself. -/
theorem roundTrip_iff {message : List UInt8} : RoundTrip message ↔ ∀ letter ∈ message,
    substitute .decrypt (substitute .encrypt letter) = letter ∧
    substitute .encrypt (substitute .decrypt letter) = letter ∧
    Kept letter (substitute .encrypt letter) ∧ Kept letter (substitute .decrypt letter) := by
  constructor
  · intro trip letter member
    have kept := trip.kept (ascii "encrypt") (.inl rfl)
    have kept' := trip.kept (ascii "decrypt") (.inr rfl)
    rw [caesar, List.forall₂_map_right_iff, List.forall₂_same] at kept kept'
    exact ⟨map_map_eq_iff.mp trip.decrypted letter member, map_map_eq_iff.mp trip.encrypted letter member,
      kept letter member, kept' letter member⟩
  · intro trips
    refine ⟨?_, ?_, fun op _ => length_caesar, ?_⟩
    · exact map_map_eq_iff.mpr fun letter member => (trips letter member).1
    · exact map_map_eq_iff.mpr fun letter member => (trips letter member).2.1
    · rintro op (rfl | rfl)
      · rw [caesar, mode_encrypt, List.forall₂_map_right_iff, List.forall₂_same]
        exact fun letter member => (trips letter member).2.2.1
      · rw [caesar, mode_decrypt, List.forall₂_map_right_iff, List.forall₂_same]
        exact fun letter member => (trips letter member).2.2.2

/-- The operations give a message back exactly when it has none of these letters. -/
theorem caesar_roundTrip (message : Text) :
    RoundTrip message.bytes ↔ ∀ letter ∈ message.bytes, letter ∉ fragile := by
  rw [roundTrip_iff]
  exact forall₂_congr fun letter _ => substitute_roundTrip

/-- The letter `x` becomes the byte 128, which decryption leaves. -/
theorem x_lost : ¬ RoundTrip (ascii "x") := by
  intro trip
  exact absurd trip.decrypted (by decide)

end OSLabs.Caesar
