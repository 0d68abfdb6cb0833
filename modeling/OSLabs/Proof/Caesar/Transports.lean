import OSLabs.Proof.Caesar.Argument
import OSLabs.Proof.Caesar.OnePipe
import OSLabs.Proof.Caesar.TwoPipes

namespace OSLabs.Caesar

open Transition Pipe Stdio

/-- A system in which each unset byte is zero, but for the first byte of `buff`, and each foreign read fails. -/
def sample (n : Nat) (few : n < 1000) (first : UInt8) : Environment n where
  descriptors := .lowest few
  capacity := 65536
  atomic := atomic_pipe
  foreign := fun _ => none
  buff := first :: List.replicate 255 0
  buffSize := by rw [List.length_cons, List.length_replicate]
  buffer := List.replicate 1000 0
  bufferSize := List.length_replicate
  behind := fun _ => 0

variable {op message : Text}

/-- After a failed read the text in the buffer is its first byte, or nothing when this byte is zero. -/
theorem string_sample (first : UInt8) : string (Argument.buff (sample 0 (by decide) first) message) =
    some (if first = 0 then [] else [first]) := by
  have unset : Argument.buff (sample 0 (by decide) first) message = first :: 0 :: List.replicate 254 0 := rfl
  rw [unset]
  by_cases zero : first = 0
  · rw [if_pos zero, zero]
    exact string_append_zero (List.not_mem_nil)
  · have clean : 0 ∉ [first] := fun member => zero (List.mem_singleton.mp member).symm
    rw [if_neg zero]
    exact string_append_zero clean

section Differences
variable (accepted : sameOp op.bytes "encrypt" = true ∨ sameOp op.bytes "decrypt" = true)
  (number : (strtol message.bytes).2 = [])

include accepted number

/-- A message that is taken for a descriptor is replaced by the text in the buffer, which has another length. -/
theorem not_delivers_sample (first : UInt8)
    (lengths : (if first = 0 then [] else [first]).length ≠ message.bytes.length) :
    ¬ Delivers (system1 (sample 0 (by decide) first) op message) start1 fun config =>
      texts (config.process .child).output = [caesar op.bytes message.bytes] := by
  rw [Argument.delivers_buff _ accepted number (string_sample first)]
  intro same
  split at same
  · cases same
  · have results := congrArg List.length (List.singleton_inj.mp same)
    rw [length_caesar, length_caesar] at results
    exact lengths results

theorem exists_disagreement : ∃ first, ¬ Delivers
    (system1 (sample 0 (by decide) first) op message) start1 fun config =>
    texts (config.process .child).output = [caesar op.bytes message.bytes] := by
  by_cases empty : message.bytes = []
  · exact ⟨49, not_delivers_sample accepted number 49 (by rw [empty]; decide)⟩
  · exact ⟨0, not_delivers_sample accepted number 0 fun none => empty (List.length_eq_zero_iff.mp none.symm)⟩

end Differences

/-- In the second and the third step the result for the message is printed.
In the first step it is printed exactly when the message has something behind its number. -/
theorem transports_agree (isOp : op.bytes = ascii "encrypt" ∨ op.bytes = ascii "decrypt")
    (short : message.bytes.length < 256) :
    (∀ env : Environment 1, Delivers (system2 env op message) start2 fun config =>
      texts (config.process .child).output = [caesar op.bytes message.bytes]) ∧
    (∀ env : Environment 2, Delivers (system3 env op message) start3 fun config =>
      texts (config.process .parent).output = [caesar op.bytes message.bytes]) ∧
    ((∀ env : Environment 0, Delivers (system1 env op message) start1 fun config =>
      texts (config.process .child).output = [caesar op.bytes message.bytes]) ↔
        (strtol message.bytes).2 ≠ []) := by
  have accepted : sameOp op.bytes "encrypt" = true ∨ sameOp op.bytes "decrypt" = true := by
    rcases isOp with same | same
    · exact Or.inl (by rw [same]; decide)
    · exact Or.inr (by rw [same]; decide)
  refine ⟨fun env => OnePipe.delivers env accepted short, fun env => TwoPipes.delivers env short accepted, ?_, ?_⟩
  · intro agrees number
    obtain ⟨first, disagrees⟩ := exists_disagreement accepted number
    exact disagrees (agrees _)
  · exact fun behind env => Argument.delivers env accepted behind

def encrypt : Text := ⟨ascii "encrypt", by decide⟩

theorem hello_agrees : caesar (ascii "encrypt") (ascii "hello world") = ascii "pmttw ewztl" ∧
    Delivers (system1 (sample 0 (by decide) 0) encrypt ⟨ascii "hello world", by decide⟩) start1 fun config =>
      texts (config.process .child).output = [caesar (ascii "encrypt") (ascii "hello world")] :=
  ⟨by decide, (transports_agree (Or.inl rfl) (by decide)).2.2.mpr (by decide) _⟩

/-- The message `42` is taken for a descriptor. -/
theorem number_disagrees : ¬ Delivers (system1 (sample 0 (by decide) 0) encrypt ⟨ascii "42", by decide⟩) start1 fun config =>
    texts (config.process .child).output = [caesar (ascii "encrypt") (ascii "42")] :=
  not_delivers_sample (Or.inl (by decide)) (by decide) 0 (by decide)

end OSLabs.Caesar
