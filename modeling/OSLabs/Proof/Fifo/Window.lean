import OSLabs.Construction.Fifo
import Mathlib.Data.Nat.ModEq

namespace OSLabs.Fifo

variable {A : Type} {n : Nat} {positive : 0 < n} {array : Vector A n} {first count : Nat}

@[simp] theorem length_window : (window positive array first count).length = count := by simp [window]

theorem window_succ : window positive array first (count + 1) =
    window positive array first count ++ [array.get ⟨(first + count) % n, Nat.mod_lt _ positive⟩] := by
  simp [window, List.range_succ]

/-- The window after the first index. -/
theorem window_cons : window positive array first (count + 1) =
    array.get ⟨first % n, Nat.mod_lt _ positive⟩ :: window positive array (first + 1) count := by
  simp only [window, List.range_succ_eq_map, List.map_cons, List.map_map, Nat.add_zero]
  congr 2
  funext k
  simp only [Function.comp_apply, Nat.succ_eq_add_one, Nat.add_comm k 1, Nat.add_assoc]

/-- A window begins at an index of the array. -/
theorem window_mod : window positive array (first % n) count = window positive array first count := by
  unfold window
  congr 1
  funext k
  congr 2
  exact Nat.mod_add_mod first n k

/-- A store behind the window leaves the window alone. -/
theorem window_set (room : count < n) (value : A) (inside : (first + count) % n < n) :
    window positive (array.set ((first + count) % n) value inside) first count =
      window positive array first count := by
  unfold window
  apply List.map_congr_left
  intro k member
  rw [List.mem_range] at member
  have different : (first + count) % n ≠ (first + k) % n := by
    intro same
    have close : count % n = k % n := Nat.ModEq.add_left_cancel' first same
    rw [Nat.mod_eq_of_lt room, Nat.mod_eq_of_lt (Nat.lt_trans member room)] at close
    omega
  exact Vector.getElem_set_ne inside (Nat.mod_lt _ positive) different

/-- A store at the index behind the window makes it longer. -/
theorem window_push (room : count < n) (value : A) (inside : (first + count) % n < n) :
    window positive (array.set ((first + count) % n) value inside) first (count + 1) =
      window positive array first count ++ [value] := by
  have stored : (array.set ((first + count) % n) value inside).get ⟨(first + count) % n, inside⟩ = value :=
    Vector.getElem_set_self inside
  rw [window_succ, window_set room, stored]

end OSLabs.Fifo
