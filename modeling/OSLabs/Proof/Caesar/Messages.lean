import OSLabs.Construction.Caesar
import OSLabs.Proof.Stdio.Text

namespace OSLabs.Caesar

open Pipe Stdio

section Cipher
variable {op message : List UInt8}

section Letters
variable {first last letter : UInt8} (alphabet : first.toNat + 25 = last.toNat) (least : 65 ≤ first.toNat)
  (most : last.toNat ≤ 122) (lower : first.toNat ≤ letter.toNat) (upper : letter.toNat ≤ last.toNat)

include alphabet least most lower upper

/-- The shifted letter is behind the null character, also when it leaves the range of positive characters. -/
theorem encryptLetter_ne_zero : encryptLetter first last letter ≠ 0 := by
  unfold encryptLetter
  split <;> simp only [ne_eq, ← UInt8.toNat_inj, UInt8.toNat_add, UInt8.toNat_sub, studentKey,
    UInt8.reduceToNat] <;> omega

theorem decryptLetter_ne_zero : decryptLetter first last letter ≠ 0 := by
  unfold decryptLetter
  split <;> simp only [ne_eq, ← UInt8.toNat_inj, UInt8.toNat_add, UInt8.toNat_sub, studentKey,
    UInt8.reduceToNat] <;> omega

end Letters

/-- No character but the null character is replaced by the null character. -/
theorem substitute_ne_zero (mode : Mode) {letter : UInt8} (nonzero : letter ≠ 0) : substitute mode letter ≠ 0 := by
  have isLetter {first last : UInt8} (range : (first ≤ letter && letter ≤ last) = true) :
      first.toNat ≤ letter.toNat ∧ letter.toNat ≤ last.toNat := by
    rwa [Bool.and_eq_true, decide_eq_true_eq, decide_eq_true_eq, UInt8.le_iff_toNat_le,
      UInt8.le_iff_toNat_le] at range
  cases mode with
  | encrypt =>
      simp only [substitute]
      split
      · next range => exact encryptLetter_ne_zero rfl (by decide) (by decide) (isLetter range).1 (isLetter range).2
      · split
        · next range =>
            exact encryptLetter_ne_zero rfl (by decide) (by decide) (isLetter range).1 (isLetter range).2
        · exact nonzero
  | decrypt =>
      simp only [substitute]
      split
      · next range => exact decryptLetter_ne_zero rfl (by decide) (by decide) (isLetter range).1 (isLetter range).2
      · split
        · next range =>
            exact decryptLetter_ne_zero rfl (by decide) (by decide) (isLetter range).1 (isLetter range).2
        · exact nonzero

theorem clean_caesar (clean : 0 ∉ message) : 0 ∉ caesar op message := by
  intro member
  obtain ⟨letter, isMember, zero⟩ := List.mem_map.mp member
  exact substitute_ne_zero _ (fun same => clean (same ▸ isMember)) zero

theorem length_caesar : (caesar op message).length = message.length := List.length_map _

end Cipher

section Payload
variable {n : Nat} (env : Environment n) (message : Text)

theorem length_payload : (payload env message).length = 1000 := by
  simp only [payload, List.length_take, List.length_append, List.length_cons, List.length_map, List.length_range]
  omega

theorem payload_ne_nil : payload env message ≠ [] := List.ne_nil_of_length_pos (by rw [length_payload]; decide)

theorem fill_payload : fill env.buff ((payload env message).take 256) = (payload env message).take 256 :=
  fill_eq (by rw [env.buffSize, List.length_take, length_payload]; decide)

/-- The first 256 bytes hold a shorter message and its end. -/
theorem string_payload (short : message.bytes.length < 256) :
    string ((payload env message).take 256) = some message.bytes := by
  have split : message.bytes.length + ((256 - message.bytes.length - 1) + 1) = 256 := by omega
  rw [payload, List.take_take, show min 256 1000 = 256 from rfl, ← split, List.take_length_add_append,
    List.take_succ_cons,
    string_append_zero message.clean]

end Payload

section Arguments
variable {op : Text} (accepted : sameOp op.bytes "encrypt" = true ∨ sameOp op.bytes "decrypt" = true)

theorem toInt_eq {value : Nat} (small : value < 2 ^ 31) : toInt value = value :=
  toInt_eq_self (by omega) (by omega)

include accepted

/-- One argument is a message when something follows its number, and else it is a descriptor. -/
theorem caesarBin_argument (argument : List UInt8) : caesarBin (argv op [argument]) =
    if (strtol argument).2 ≠ [] then .warnArgument op.bytes argument else .warnRead op.bytes
      (toInt (strtol argument).1) := by
  have known : ¬ (¬ sameOp op.bytes "encrypt" ∧ ¬ sameOp op.bytes "decrypt") := fun unknown => accepted.elim unknown.1 unknown.2
  rw [argv, caesarBin, if_neg known]

theorem caesarBin_descriptor {number : Nat} (small : number < 2 ^ 31) :
    caesarBin (argv op [decimalText number]) = .warnRead op.bytes number := by
  rw [caesarBin_argument accepted, strtol_decimalText number (by omega), if_neg (by simp), toInt_eq small]

theorem caesarBin_descriptors {first second : Nat} (small : first < 2 ^ 31) (small' : second < 2 ^ 31) :
    caesarBin (argv op [decimalText first, decimalText second]) = .warnPipes op.bytes first second := by
  have known : ¬ (¬ sameOp op.bytes "encrypt" ∧ ¬ sameOp op.bytes "decrypt") := fun unknown => accepted.elim unknown.1 unknown.2
  rw [argv, caesarBin, if_neg known]
  simp only [strtol_decimalText first (by omega), strtol_decimalText second (by omega), toInt_eq small,
    toInt_eq small']
  rfl

end Arguments

/-- A string and its end in the larger buffer are the string again. -/
theorem string_reply {n : Nat} (env : Environment n) {text : List UInt8} (clean : 0 ∉ text) :
    string (fill env.buffer (text ++ [0])) = some text := by
  rw [fill, List.append_assoc, List.cons_append, string_append_zero clean]

end OSLabs.Caesar
