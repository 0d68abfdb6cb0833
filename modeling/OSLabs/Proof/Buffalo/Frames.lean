import OSLabs.Construction.Buffalo
import OSLabs.Proof.Stdio.Text

namespace OSLabs.Buffalo

open Stdio

variable {text expected readbuffer : List UInt8}

theorem length_cleared : cleared.length = 1000 := List.length_replicate

theorem length_frame : (frame text).length = 1000 := length_snprintf (by decide) length_cleared

theorem frame_ne_nil : frame text ≠ [] := List.ne_nil_of_length_pos (by rw [length_frame]; decide)

theorem string_frame (clean : 0 ∉ text) : string (frame text) = some (text.take 999) := string_snprintf clean 1000

/-- Fewer than 1000 bytes are a string in the cleared buffer. -/
theorem string_fill_cleared (clean : 0 ∉ text) (short : text.length < 1000) :
    string (fill cleared text) = some text :=
  string_fill clean short

/-- A frame replaces a whole buffer. -/
theorem fill_frame (sized : readbuffer.length = 1000) : fill readbuffer (frame text) = frame text :=
  fill_eq (by rw [sized, length_frame])

/-- The frame of the expected string is a correct handshake. -/
theorem asserthandshake_frame (sized : readbuffer.length = 1000) (short : expected.length < 1000) :
    asserthandshake expected readbuffer (some (frame expected)) = .accepted := by
  have whole : expected.take 999 = expected := List.take_of_length_le (by omega)
  have same : sameString expected (frame expected) = true := by
    simp only [sameString, frame, snprintf, Nat.reduceSub, whole, decide_eq_true_eq]
    rw [List.take_length_add_append, List.take_succ_cons, List.take_zero]
  simp only [asserthandshake, fill_frame sized, same, if_true]

end OSLabs.Buffalo
