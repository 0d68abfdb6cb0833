import OSLabs.Construction.Sorts
import OSLabs.Proof.Buffer.Order

namespace OSLabs.Sorts

open Buffer

/-- What the three loops of `Merge` write for a left and a right half.
When the left half is exhausted, the first loop still compares the first element `head` of the right half. -/
def merged (head : Int) : List Int → List Int → List Int
  | first :: left, second :: right =>
      if first < second then first :: merged head left (second :: right) else second :: merged head
        (first :: left) right
  | [], second :: right => if head < second then head :: second :: right else second :: merged head [] right
  | left, [] => left
  termination_by left right => left.length + right.length

section Lists
variable {left right : List Int}

/-- A list that starts with a lower bound of the rest is sorted when the rest is a sorted permutation. -/
theorem sorted_cons {first : Int} {rest others : List Int} (perm : rest.Perm others)
    (sorted : rest.Pairwise (· ≤ ·))
    (least : ∀ other ∈ others, first ≤ other) : (first :: rest).Pairwise (· ≤ ·) :=
  List.pairwise_cons.mpr ⟨fun other member => least other (perm.mem_iff.mp member), sorted⟩

/-- No element is written twice when every element greater than `head` waits for one of the left half. -/
theorem merged_perm (head : Int) (leftSorted : left.Pairwise (· ≤ ·)) (rightSorted : right.Pairwise (· ≤ ·))
    (inOrder : ∀ later ∈ right, head < later → ∃ earlier ∈ left, later ≤ earlier) :
    (merged head left right).Perm (left ++ right) ∧ (merged head left right).Pairwise (· ≤ ·) := by
  induction left, right using merged.induct head with
  | case1 first left second right less inductionHypothesis =>
      rw [List.pairwise_cons] at leftSorted
      have waits : ∀ later ∈ second :: right, head < later → ∃ earlier ∈ left, later ≤ earlier := by
        intro later member greater
        obtain ⟨earlier, isEarlier, le⟩ := inOrder later member greater
        rcases List.mem_cons.mp isEarlier with rfl | isLeft
        · have least : second ≤ later := by
            rcases List.mem_cons.mp member with rfl | isRight
            · exact le_refl _
            · exact (List.pairwise_cons.mp rightSorted).1 later isRight
          omega
        · exact ⟨earlier, isLeft, le⟩
      obtain ⟨perm, sorted⟩ := inductionHypothesis leftSorted.2 rightSorted waits
      rw [merged, if_pos less]
      refine ⟨perm.cons first, sorted_cons perm sorted fun other member => ?_⟩
      rcases List.mem_append.mp member with isLeft | isRight
      · exact leftSorted.1 other isLeft
      · rcases List.mem_cons.mp isRight with rfl | isRight
        · exact less.le
        · exact less.le.trans ((List.pairwise_cons.mp rightSorted).1 other isRight)
  | case2 first left second right notLess inductionHypothesis =>
      rw [List.pairwise_cons] at rightSorted
      obtain ⟨perm, sorted⟩ := inductionHypothesis leftSorted rightSorted.2
        fun later member => inOrder later (List.mem_cons_of_mem second member)
      rw [merged, if_neg notLess]
      refine ⟨(perm.cons second).trans List.perm_middle.symm, sorted_cons perm sorted fun other member => ?_⟩
      rcases List.mem_append.mp member with isLeft | isRight
      · rcases List.mem_cons.mp isLeft with rfl | isLeft
        · omega
        · have least := (List.pairwise_cons.mp leftSorted).1 other isLeft
          omega
      · exact rightSorted.1 other isRight
  | case3 second right less =>
      obtain ⟨_, none, _⟩ := inOrder second List.mem_cons_self less
      cases none
  | case4 second right notLess inductionHypothesis =>
      rw [List.pairwise_cons] at rightSorted
      obtain ⟨perm, sorted⟩ := inductionHypothesis leftSorted rightSorted.2
        fun later member => inOrder later (List.mem_cons_of_mem second member)
      rw [merged, if_neg notLess]
      exact ⟨perm.cons second, sorted_cons perm sorted rightSorted.1⟩
  | case5 left =>
      rw [merged, List.append_nil]
      exact ⟨List.Perm.refl _, leftSorted⟩

/-- An element greater than `head` and than the left half makes the loops write `head` twice
and pushes out a greater element. -/
theorem merged_twice (head : Int) (rightSorted : right.Pairwise (· ≤ ·)) {later : Int} (member : later ∈ right)
    (greater : head < later) (above : ∀ earlier ∈ left, earlier < later) :
    ∃ written last, merged head left right = written ++ [last] ∧ head < last ∧
      (written ++ [last]).Perm (head :: (left ++ right)) := by
  induction left, right using merged.induct head with
  | case1 first left second right less inductionHypothesis =>
      obtain ⟨written, last, isMerged, greaterLast, perm⟩ := inductionHypothesis rightSorted member
        fun earlier isEarlier => above earlier (List.mem_cons_of_mem first isEarlier)
      rw [merged, if_pos less, isMerged]
      exact ⟨first :: written, last, rfl, greaterLast, (perm.cons first).trans (List.Perm.swap head first _)⟩
  | case2 first left second right notLess inductionHypothesis =>
      have isRight : later ∈ right := by
        rcases List.mem_cons.mp member with rfl | isRight
        · exact absurd (above first List.mem_cons_self) notLess
        · exact isRight
      obtain ⟨written, last, isMerged, greaterLast, perm⟩ := inductionHypothesis rightSorted.tail isRight above
      rw [merged, if_neg notLess, isMerged]
      refine ⟨second :: written, last, rfl, greaterLast, (perm.cons second).trans ?_⟩
      exact (List.Perm.swap head second _).trans (List.perm_middle.symm.cons head)
  | case3 second right less =>
      rw [merged, if_pos less]
      refine ⟨head :: (second :: right).dropLast, (second :: right).getLast (by simp), ?_, ?_, ?_⟩
      · rw [List.cons_append, List.dropLast_append_getLast]
      · have isLast := List.getLast_mem (show second :: right ≠ [] by simp)
        rcases List.mem_cons.mp isLast with same | isRight
        · rw [same]
          exact less
        · exact less.trans_le ((List.pairwise_cons.mp rightSorted).1 _ isRight)
      · rw [List.cons_append, List.dropLast_append_getLast]
        exact List.Perm.refl _
  | case4 second right notLess inductionHypothesis =>
      have isRight : later ∈ right := by
        rcases List.mem_cons.mp member with rfl | isRight
        · exact absurd greater notLess
        · exact isRight
      obtain ⟨written, last, isMerged, greaterLast, perm⟩ := inductionHypothesis rightSorted.tail isRight above
      rw [merged, if_neg notLess, isMerged]
      exact ⟨second :: written, last, rfl, greaterLast, (perm.cons second).trans (List.Perm.swap head second _)⟩
  | case5 left => cases member

end Lists

/-- This function continues with `tempArray` when all its elements have room. -/
def filled {B : Type} (after : List Int → Option B) (tempArray rest : List Int) : Option B :=
  if (tempArray ++ rest).length ≤ maxValsPerThread then after (tempArray ++ rest) else none

section Loops
variable {B : Type} {after : List Int → Option B} {state : MergeState} {value : Int}

/-- A push is the next of the elements that are still to be written. -/
theorem push_bind (advance : MergeState → MergeState) (kept : ∀ state, (advance state).tempArray = state.tempArray)
    (rest : MergeState → List Int) (remaining : List Int)
    (next : rest (advance { state with tempArray := state.tempArray ++ [value] }) = remaining) :
    ((state.push value).bind fun state => some (advance state)).bind
      (fun state => filled after state.tempArray (rest state)) =
        filled after state.tempArray (value :: remaining) := by
  unfold MergeState.push
  split
  · simp only [Option.bind_some, kept, next, filled, List.append_assoc, List.singleton_append]
  · next full =>
      have noRoom : ¬ (state.tempArray ++ value :: remaining).length ≤ maxValsPerThread := by
        simp only [List.length_append, List.length_cons]
        omega
      rw [filled, if_neg noRoom]
      rfl

variable {memory : List Int} {array : Nat}

theorem takeLeft_bind (rest : MergeState → List Int) (remaining : List Int)
    (here : memory[array + state.lpos]? = some value)
    (next : rest ⟨state.tempArray ++ [value], state.lpos + 1, state.rpos⟩ = remaining) :
    (takeLeft memory array state).bind (fun state => filled after state.tempArray (rest state)) =
      filled after state.tempArray (value :: remaining) := by
  simp only [takeLeft, load, here, Option.bind_eq_bind, Option.bind_some]
  exact push_bind (fun state => { state with lpos := state.lpos + 1 }) (fun _ => rfl) rest remaining next

theorem takeRight_bind (rest : MergeState → List Int) (remaining : List Int)
    (here : memory[array + state.rpos]? = some value)
    (next : rest ⟨state.tempArray ++ [value], state.lpos, state.rpos + 1⟩ = remaining) :
    (takeRight memory array state).bind (fun state => filled after state.tempArray (rest state)) =
      filled after state.tempArray (value :: remaining) := by
  simp only [takeRight, load, here, Option.bind_eq_bind, Option.bind_some]
  exact push_bind (fun state => { state with rpos := state.rpos + 1 }) (fun _ => rfl) rest remaining next

theorem eq_of_takeLeft {next : MergeState} (taken : takeLeft memory array state = some next) :
    next.lpos = state.lpos + 1 ∧ next.rpos = state.rpos ∧ next.tempArray.length ≤ maxValsPerThread := by
  simp only [takeLeft, MergeState.push, Option.bind_eq_bind, Option.bind_eq_some_iff] at taken
  obtain ⟨value, _, between, pushed, moved⟩ := taken
  obtain rfl := Option.some.inj moved
  split at pushed
  · next room =>
      obtain rfl := Option.some.inj pushed
      exact ⟨rfl, rfl, (List.length_append).trans_le room⟩
  · cases pushed

theorem eq_of_takeRight {next : MergeState} (taken : takeRight memory array state = some next) :
    next.lpos = state.lpos ∧ next.rpos = state.rpos + 1 ∧ next.tempArray.length ≤ maxValsPerThread := by
  simp only [takeRight, MergeState.push, Option.bind_eq_bind, Option.bind_eq_some_iff] at taken
  obtain ⟨value, _, between, pushed, moved⟩ := taken
  obtain rfl := Option.some.inj moved
  split at pushed
  · next room =>
      obtain rfl := Option.some.inj pushed
      exact ⟨rfl, rfl, (List.length_append).trans_le room⟩
  · cases pushed

end Loops

/-- The memory has the two halves of a slice between other elements. -/
def halves (before left right behind : List Int) : List Int := before ++ (left ++ right) ++ behind

section Halves
variable {B : Type} (after : List Int → Option B) {before left right behind : List Int} {state : MergeState}

theorem getElem?_halves {k : Nat} (inside : k < left.length + right.length) :
    (halves before left right behind)[before.length + k]? = (left ++ right)[k]? := by
  rw [halves, List.append_assoc, List.getElem?_append_right (Nat.le_add_right _ _), Nat.add_sub_cancel_left,
    List.getElem?_append_left (by simpa using inside)]

/-- An element of the right half stands at the front of what is left of this half. -/
theorem drop_right {k : Nat} (lower : left.length ≤ k) (upper : k < left.length + right.length) :
    ∃ value, (halves before left right behind)[before.length + k]? = some value ∧
      right.drop (k - left.length) = value :: right.drop (k + 1 - left.length) := by
  have inside : k - left.length < right.length := by omega
  refine ⟨right[k - left.length], ?_, ?_⟩
  · rw [getElem?_halves upper, List.getElem?_append_right lower, List.getElem?_eq_getElem inside]
  · rw [List.drop_eq_getElem_cons inside, show k + 1 - left.length = k - left.length + 1 by omega]

/-- The same for the left half. -/
theorem drop_left {k : Nat} (inside : k < left.length) :
    ∃ value, (halves before left right behind)[before.length + k]? = some value ∧
      left.drop k = value :: left.drop (k + 1) := by
  refine ⟨left[k], ?_, List.drop_eq_getElem_cons inside⟩
  rw [getElem?_halves (by omega), List.getElem?_append_left inside, List.getElem?_eq_getElem inside]

/-- The positions are where the loops of `Merge` can be. -/
structure Within (left : List Int) (state : MergeState) : Prop where
  room : state.tempArray.length ≤ maxValsPerThread
  lpos : state.lpos ≤ left.length + 1
  rpos : left.length ≤ state.rpos

theorem Within.takeLeft {memory : List Int} {array : Nat} {next : MergeState} (within : Within left state)
    (inside : state.lpos ≤ left.length) (taken : Sorts.takeLeft memory array state = some next) :
    Within left next := by
  obtain ⟨lpos, rpos, room⟩ := eq_of_takeLeft taken
  exact ⟨room, by omega, rpos ▸ within.rpos⟩

theorem Within.takeRight {memory : List Int} {array : Nat} {next : MergeState} (within : Within left state)
    (taken : Sorts.takeRight memory array state = some next) : Within left next := by
  obtain ⟨lpos, rpos, room⟩ := eq_of_takeRight taken
  have before := within.rpos
  exact ⟨room, lpos ▸ within.lpos, by omega⟩

variable {last : Nat} (isLast : last + 1 = left.length + right.length)
include isLast

/-- The third loop writes what is left of the right half. -/
theorem thirdLoop (within : Within left state) :
    (whileLoop (fun state => decide (state.rpos ≤ last))
    (takeRight (halves before left right behind) before.length)
      (last + 1 - left.length) state).bind (fun state => after state.tempArray) =
      filled after state.tempArray (right.drop (state.rpos - left.length)) := by
  refine whileLoop_bind (Within left) (fun state => last + 1 - state.rpos)
    (fun state => filled after state.tempArray (right.drop (state.rpos - left.length))) _ within
    (by have lower := within.rpos; omega) (fun state within again => ?_) fun state within done => ?_
  · have inside : state.rpos ≤ last := by simpa using again
    obtain ⟨value, here, remaining⟩ :=
      drop_right within.rpos (show state.rpos < left.length + right.length by omega)
    refine ⟨?_, fun next taken => ⟨within.takeRight taken, ?_⟩⟩
    · rw [remaining]
      exact takeRight_bind (fun state => right.drop (state.rpos - left.length)) _ here rfl
    · have rpos := (eq_of_takeRight taken).2.1
      omega
  · have outside : last < state.rpos := by simpa using done
    have room := within.room
    rw [List.drop_eq_nil_of_le (by omega), filled, List.append_nil, if_pos room]

/-- The second loop writes what is left of the left half before that. -/
theorem secondLoop (within : Within left state) :
    (whileLoop (fun state => decide (state.lpos < left.length))
    (takeLeft (halves before left right behind) before.length)
      left.length state).bind (fun state =>
        (whileLoop (fun state => decide (state.rpos ≤ last))
        (takeRight (halves before left right behind) before.length)
          (last + 1 - left.length) state).bind fun state => after state.tempArray) =
      filled after state.tempArray (left.drop state.lpos ++ right.drop (state.rpos - left.length)) := by
  refine whileLoop_bind (Within left) (fun state => left.length - state.lpos)
    (fun state => filled after state.tempArray (left.drop state.lpos ++
      right.drop (state.rpos - left.length))) _ within
    (Nat.sub_le _ _) (fun state within again => ?_) fun state within done => ?_
  · have inside : state.lpos < left.length := by simpa using again
    obtain ⟨value, here, remaining⟩ := drop_left inside
    refine ⟨?_, fun next taken => ⟨within.takeLeft inside.le taken, ?_⟩⟩
    · rw [remaining]
      exact takeLeft_bind (fun state => left.drop state.lpos ++ right.drop (state.rpos - left.length)) _ here rfl
    · have lpos := (eq_of_takeLeft taken).1
      omega
  · have outside : left.length ≤ state.lpos := by simpa using done
    rw [thirdLoop after isLast within, List.drop_eq_nil_of_le outside, List.nil_append]

/-- What the three loops still write.
Behind the left half the first loop has written the first element of the right half twice. -/
def unwritten (left right : List Int) (head : Int) (state : MergeState) : List Int :=
  if state.lpos ≤ left.length then merged head (left.drop state.lpos) (right.drop (state.rpos - left.length))
  else right.drop (state.rpos - left.length)

/-- The first loop and the two loops behind it write the halves from the positions on. -/
theorem firstLoop {head : Int} (first : right.head? = some head) (within : Within left state) {rounds : Nat}
    (enough : left.length + 1 - state.lpos + (last + 1 - state.rpos) ≤ rounds) :
    (whileLoop (fun state => decide (state.lpos ≤ left.length ∧ state.rpos ≤ last))
      (mergeStep (halves before left right behind) before.length) rounds state).bind (fun state =>
        (whileLoop (fun state => decide (state.lpos < left.length))
          (takeLeft (halves before left right behind) before.length) left.length state).bind fun state =>
            (whileLoop (fun state => decide (state.rpos ≤ last))
              (takeRight (halves before left right behind) before.length) (last + 1 - left.length) state).bind
                fun state => after state.tempArray) =
      filled after state.tempArray (unwritten left right head state) := by
  refine whileLoop_bind (Within left) (fun state => left.length + 1 - state.lpos + (last + 1 - state.rpos))
    (fun state => filled after state.tempArray (unwritten left right head state)) _ within enough
    (fun state within again => ?_) fun state within done => ?_
  · obtain ⟨inLeft, inRight⟩ : state.lpos ≤ left.length ∧ state.rpos ≤ last := by simpa using again
    have lower := within.rpos
    obtain ⟨second, (there : (halves before left right behind)[before.length + state.rpos]? = some second), inBoth⟩ :=
      drop_right lower (show state.rpos < left.length + right.length by omega)
    refine ⟨?_, fun next moved => ?_⟩
    · by_cases exhausted : state.lpos = left.length
      · have here : (halves before left right behind)[before.length + state.lpos]? = some head := by
          rw [getElem?_halves (by omega), exhausted, List.getElem?_append_right (Nat.le_refl _), Nat.sub_self,
            ← List.head?_eq_getElem?, first]
        have nothing : left.drop state.lpos = [] := List.drop_eq_nil_of_le exhausted.ge
        simp only [mergeStep, load, here, there, Option.bind_eq_bind, Option.bind_some]
        rw [unwritten, if_pos inLeft, nothing, inBoth, merged]
        split
        · refine takeLeft_bind (unwritten left right head) _ here ?_
          rw [unwritten, if_neg (show ¬ state.lpos + 1 ≤ left.length by omega), inBoth]
        · exact takeRight_bind (unwritten left right head) _ there (by simp [unwritten, inLeft, nothing])
      · obtain ⟨value, (here : (halves before left right behind)[before.length + state.lpos]? = some value), inBothLeft⟩ :=
          drop_left (show state.lpos < left.length by omega)
        simp only [mergeStep, load, here, there, Option.bind_eq_bind, Option.bind_some]
        rw [unwritten, if_pos inLeft, inBothLeft, inBoth, merged]
        split
        · refine takeLeft_bind (unwritten left right head) _ here ?_
          rw [unwritten, if_pos (show state.lpos + 1 ≤ left.length by omega), inBoth]
        · refine takeRight_bind (unwritten left right head) _ there ?_
          rw [unwritten, if_pos inLeft, inBothLeft]
    · simp only [mergeStep, Option.bind_eq_bind, Option.bind_eq_some_iff] at moved
      obtain ⟨_, _, _, _, moved⟩ := moved
      split at moved
      · obtain ⟨lpos, rpos, _⟩ := eq_of_takeLeft moved
        exact ⟨within.takeLeft inLeft moved, by omega⟩
      · obtain ⟨lpos, rpos, _⟩ := eq_of_takeRight moved
        exact ⟨within.takeRight moved, by omega⟩
  · have outside : ¬ (state.lpos ≤ left.length ∧ state.rpos ≤ last) := by simpa using done
    rw [secondLoop after isLast within]
    unfold unwritten
    split
    · next inLeft =>
        have nothing : right.drop (state.rpos - left.length) = [] := List.drop_eq_nil_of_le (by omega)
        rw [nothing, merged, List.append_nil]
    · next behindLeft => rw [List.drop_eq_nil_of_le (by omega), List.nil_append]

end Halves

/-- The memory after the values have been written from an index on, when all of them have room. -/
def overwrite (memory : List Int) (first : Nat) (values : List Int) : Option (List Int) :=
  if first + values.length ≤ memory.length then
    some (memory.take first ++ values ++ memory.drop (first + values.length))
  else none

/-- The last loop of `Merge` writes `tempArray` over the array. -/
theorem copyLoop (array : Nat) (written values memory : List Int)
    (inside : array + written.length ≤ memory.length) :
    forLoop (copyStep array 0 (written ++ values)) written.length values.length memory =
      overwrite memory (array + written.length) values := by
  induction values generalizing written memory with
  | nil => simp [forLoop, overwrite, inside]
  | cons value values inductionHypothesis =>
      have here : load (written ++ value :: values) written.length = some value := by simp [load]
      simp only [List.length_cons, forLoop, copyStep, here, Nat.add_zero, Option.bind_eq_bind, Option.bind_some]
      by_cases room : array + written.length < memory.length
      · have next := inductionHypothesis (written ++ [value]) (memory.set (array + written.length) value)
          (by simpa [Nat.add_assoc] using Nat.succ_le_of_lt room)
        simp only [List.append_assoc, List.singleton_append, List.length_append, List.length_singleton] at next
        rw [store_eq room, Option.bind_some, next]
        have behind : ¬ array + written.length + 1 + values.length < array + written.length + 1 := by omega
        simp only [overwrite, List.length_set, List.length_cons, ← Nat.add_assoc]
        rw [Nat.add_right_comm _ values.length 1]
        split
        · rw [List.take_add_one, List.getElem?_set_self room, List.take_set_of_le (Nat.le_refl _),
            List.drop_set_of_lt (by omega)]
          simp
        · rfl
      · have noRoom : ¬ array + written.length + (values.length + 1) ≤ memory.length := by omega
        simp [store, room, overwrite, noRoom]

/-- `Merge` writes what its loops have written over the two halves, and it fails when that does not fit. -/
theorem merge_eq (before behind : List Int) {left right : List Int} {last : Nat}
    (isLast : last + 1 = left.length + right.length)
    {head : Int} (first : right.head? = some head) :
    merge (halves before left right behind) before.length 0 left.length last =
      filled (overwrite (halves before left right behind) before.length) [] (merged head left right) := by
  have within : Within left ⟨[], 0, left.length⟩ := ⟨Nat.zero_le _, Nat.zero_le _, Nat.le_refl _⟩
  have enough : left.length + 1 - 0 + (last + 1 - left.length) ≤ last + 2 := by omega
  have start : unwritten left right head ⟨[], 0, left.length⟩ = merged head left right := by simp [unwritten]
  have copies (values : List Int) : forLoop (copyStep before.length 0 values) 0 values.length
      (halves before left right behind) = overwrite (halves before left right behind) before.length values :=
    copyLoop before.length [] values (halves before left right behind) (by simp [halves])
  simp only [merge, Option.bind_eq_bind, Nat.sub_zero]
  refine (firstLoop (fun values => forLoop (copyStep before.length 0 values) 0 values.length
    (halves before left right behind)) isLast first within enough).trans ?_
  rw [start, filled, filled, copies]

end OSLabs.Sorts
