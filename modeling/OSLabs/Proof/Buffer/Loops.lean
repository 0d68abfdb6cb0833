import OSLabs.Construction.Buffer

namespace OSLabs.Buffer

variable {A S B : Type}

/-- The computation succeeds and its result meets the postcondition. -/
def Ensures (result : Option S) (post : S → Prop) : Prop := ∃ state, result = some state ∧ post state

section Results
variable {result : Option S} {post : S → Prop} {state : S}

theorem ensures_some (holds : post state) : Ensures (some state) post := ⟨state, rfl, holds⟩

theorem Ensures.mono {weaker : S → Prop} (ensures : Ensures result post) (implies : ∀ state, post state →
    weaker state) :
    Ensures result weaker := by
  obtain ⟨state, succeeds, holds⟩ := ensures
  exact ⟨state, succeeds, implies state holds⟩

/-- The second computation starts with what the first one ensures. -/
theorem Ensures.bind {next : S → Option B} {last : B → Prop} (first : Ensures result post)
    (second : ∀ state, post state → Ensures (next state) last) : Ensures (result.bind next) last := by
  obtain ⟨state, rfl, holds⟩ := first
  exact second state holds

end Results

section Accesses
variable {array : List A} {i j k : Nat}

@[simp] theorem load_eq (inRange : i < array.length) : load array i = some array[i] :=
  List.getElem?_eq_getElem inRange

@[simp] theorem store_eq (inRange : i < array.length) (value : A) :
    store array i value = some (array.set i value) :=
  if_pos inRange

/-- A store that succeeds keeps the length. -/
theorem length_of_store {next : List A} {value : A} (stored : store array i value = some next) :
    next.length = array.length ∧ i < array.length := by
  unfold store at stored
  split at stored
  · next inRange =>
      cases stored
      exact ⟨List.length_set, inRange⟩
  · cases stored

/-- A store behind a prefix. -/
theorem store_append {before after : List A} {old value : A} :
    store (before ++ old :: after) before.length value = some (before ++ value :: after) := by
  simp [store]

theorem length_slice (array : List A) (first count : Nat) :
    (slice array first count).length = min count (array.length - first) := by
  rw [slice, List.length_take, List.length_drop]

/-- The array in which two elements have changed places. -/
def swapped (array : List A) (i j : Nat) (first : i < array.length) (second : j < array.length) : List A :=
  (array.set i array[j]).set j array[i]

theorem swap_eq (first : i < array.length) (second : j < array.length) :
    swap array i j = some (swapped array i j first second) := by
  simp [swap, swapped, first, second]

@[simp] theorem length_swapped (first : i < array.length) (second : j < array.length) :
    (swapped array i j first second).length = array.length := by
  simp [swapped]

theorem swapped_perm (first : i < array.length) (second : j < array.length) :
    (swapped array i j first second).Perm array :=
  List.set_set_perm first second

theorem getElem_swapped (first : i < array.length) (second : j < array.length)
    (inside : k < (swapped array i j first second).length) (inRange : k < array.length) :
    (swapped array i j first second)[k] = if k = j then array[i] else if k = i then array[j] else array[k] := by
  simp only [swapped, List.getElem_set, eq_comm]

end Accesses

section Loops

/-- An invariant that each round keeps holds after a counting loop. -/
theorem ensures_forLoop {body : Nat → S → Option S} (Invariant : Nat → S → Prop) {first count : Nat} {state : S}
    (base : Invariant first state)
    (kept : ∀ i state, first ≤ i → i < first + count → Invariant i state →
      Ensures (body i state) (Invariant (i + 1))) :
    Ensures (forLoop body first count state) (Invariant (first + count)) := by
  induction count generalizing first state with
  | zero => exact ensures_some base
  | succ count inductionHypothesis =>
      refine (kept first state (Nat.le_refl _) (by omega) base).bind fun next holds => ?_
      rw [show first + (count + 1) = first + 1 + count by omega]
      exact inductionHypothesis holds fun i state lower upper => kept i state (by omega) (by omega)

/-- A property that each round keeps holds after a counting loop that succeeds. -/
theorem forLoop_invariant {body : Nat → S → Option S} (Invariant : S → Prop) {first count : Nat} {state final : S}
    (base : Invariant state) (kept : ∀ i state next, Invariant state → body i state = some next → Invariant next)
    (ran : forLoop body first count state = some final) : Invariant final := by
  induction count generalizing first state with
  | zero =>
      cases ran
      exact base
  | succ count inductionHypothesis =>
      obtain ⟨next, moved, ran⟩ := Option.bind_eq_some_iff.mp ran
      exact inductionHypothesis (kept first state next base moved) ran

/-- The same rule for a loop that counts down. -/
theorem ensures_downLoop {body : Nat → S → Option S} (Invariant : Nat → S → Prop) {first : Nat} {state : S}
    (base : Invariant first state)
    (kept : ∀ i state, i < first → Invariant (i + 1) state → Ensures (body (i + 1) state) (Invariant i)) :
    Ensures (downLoop body first state) (Invariant 0) := by
  induction first generalizing state with
  | zero => exact ensures_some base
  | succ i inductionHypothesis =>
      refine (kept i state (Nat.lt_succ_self i) base).bind fun next holds => ?_
      exact inductionHypothesis holds fun i state inRange => kept i state (Nat.lt_succ_of_lt inRange)

/-- A loop with an invariant ends within as many rounds as a measure that each round lowers. -/
theorem ensures_whileLoop {test : S → Bool} {body : S → Option S} (Invariant : S → Prop) (measure : S → Nat)
    {rounds : Nat} {state : S} (base : Invariant state) (enough : measure state ≤ rounds)
    (kept : ∀ state, Invariant state → test state = true →
      Ensures (body state) fun next => Invariant next ∧ measure next < measure state) :
    Ensures (whileLoop test body rounds state) fun final => Invariant final ∧ test final = false := by
  induction rounds generalizing state with
  | zero =>
      cases again : test state with
      | false => simpa [whileLoop, again] using ensures_some ⟨base, again⟩
      | true =>
          obtain ⟨next, _, _, less⟩ := kept state base again
          omega
  | succ rounds inductionHypothesis =>
      cases again : test state with
      | false => simpa [whileLoop, again] using ensures_some ⟨base, again⟩
      | true =>
          rw [whileLoop, if_pos again]
          refine (kept state base again).bind fun next holds => ?_
          exact inductionHypothesis holds.1 (by omega)

/-- A loop followed by another computation means what its own rounds keep. -/
theorem whileLoop_bind {test : S → Bool} {body : S → Option S} (Invariant : S → Prop) (measure : S → Nat)
    (meaning after : S → Option B) {rounds : Nat} {state : S} (base : Invariant state)
    (enough : measure state ≤ rounds)
    (kept : ∀ state, Invariant state → test state = true → (body state).bind meaning = meaning state ∧
      ∀ next, body state = some next → Invariant next ∧ measure next < measure state)
    (ends : ∀ state, Invariant state → test state = false → after state = meaning state) :
    (whileLoop test body rounds state).bind after = meaning state := by
  induction rounds generalizing state with
  | zero =>
      cases again : test state with
      | false => simpa [whileLoop, again] using ends state base again
      | true =>
          obtain ⟨same, goesOn⟩ := kept state base again
          cases moved : body state with
          | none => simpa [whileLoop, again, moved] using same
          | some next =>
              have less := (goesOn next moved).2
              omega
  | succ rounds inductionHypothesis =>
      cases again : test state with
      | false => simpa [whileLoop, again] using ends state base again
      | true =>
          obtain ⟨same, goesOn⟩ := kept state base again
          rw [whileLoop, if_pos again, ← same]
          cases moved : body state with
          | none => rfl
          | some next =>
              obtain ⟨holds, less⟩ := goesOn next moved
              exact inductionHypothesis holds (by omega)

end Loops

end OSLabs.Buffer
