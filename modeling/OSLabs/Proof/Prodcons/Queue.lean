import OSLabs.Construction.Prodcons
import OSLabs.Proof.Fifo.Queue
import OSLabs.Proof.Fifo.Window

namespace OSLabs.Prodcons

section
variable {bufSiz : Nat} {positive : 0 < bufSiz} {state next : State bufSiz} {call : Call} {after popped : List Int}

/-- The invariant of the indexes. -/
structure Standing (state : State bufSiz) : Prop where
  eatIndex : state.plate.eatIndex < bufSiz
  placeIndex : state.plate.placeIndex = (state.plate.eatIndex + state.plate.onPlate) % bufSiz
  onPlate : state.plate.onPlate ≤ bufSiz

/-- The burgers that are not eaten, in the order in which they were cooked. -/
def waiting (positive : 0 < bufSiz) (state : State bufSiz) : List Int :=
  Fifo.window positive state.plate.burgers state.plate.eatIndex state.plate.onPlate

theorem length_waiting : (waiting positive state).length = state.plate.onPlate := Fifo.length_window

theorem cookBurger_eq {id : Int} (free : state.plate.onPlate ≠ bufSiz) (inside : state.plate.placeIndex < bufSiz) :
    cookBurger id state = .ok (state.place id inside) := by
  simp [cookBurger, CircularPlate.isFull, free, inside]

theorem eatBurger_eq {id : Int} (served : state.plate.onPlate ≠ 0) (inside : state.plate.eatIndex < bufSiz) :
    eatBurger id state = .ok (state.take id inside) := by
  simp [eatBurger, CircularPlate.isEmpty, served, inside]

theorem carried_place {id : Int} (inside : state.plate.placeIndex < bufSiz) :
    carried (state.place id inside).output = carried state.output := by
  simp [carried, State.place]

theorem carried_take {id : Int} (inside : state.plate.eatIndex < bufSiz) :
    carried (state.take id inside).output =
      carried state.output ++ [state.plate.burgers.get ⟨state.plate.eatIndex, inside⟩] := by
  simp [carried, State.take]

/-- Where the queue refuses the operation, the assertion fails. -/
theorem perform_of_none (standing : Standing state)
    (refused : Fifo.step bufSiz (waiting positive state) call.op = none) :
    perform state call = .error .assertion := by
  rw [Fifo.step_eq_none_iff (length_waiting.trans_le standing.onPlate), length_waiting] at refused
  cases call with
  | cookBurger id => exact if_pos (decide_eq_true refused)
  | eatBurger id => exact if_pos (decide_eq_true refused)

/-- A placed burger waits behind the others. -/
theorem waiting_place (standing : Standing state) (room : state.plate.onPlate < bufSiz) (id : Int)
    (inside : state.plate.placeIndex < bufSiz) :
    Standing (state.place id inside) ∧ waiting positive (state.place id inside) = waiting positive state ++
      [id] := by
  have place := standing.placeIndex
  constructor
  · constructor
    · exact standing.eatIndex
    · change (state.plate.placeIndex + 1) % bufSiz = (state.plate.eatIndex + (state.plate.onPlate + 1)) % bufSiz
      rw [place, Nat.mod_add_mod, Nat.add_assoc]
    · exact room
  · change Fifo.window positive (state.plate.burgers.set state.plate.placeIndex id inside)
      _ (state.plate.onPlate + 1) = _
    simp only [place]
    exact Fifo.window_push room id _

/-- The burger that waits first is taken. -/
theorem waiting_take (standing : Standing state) (id madeBy : Int)
    (first : waiting positive state = madeBy :: after) : Standing (state.take id standing.eatIndex) ∧
      waiting positive (state.take id standing.eatIndex) = after ∧
      state.plate.burgers.get ⟨state.plate.eatIndex, standing.eatIndex⟩ = madeBy := by
  have count :
    state.plate.onPlate = after.length + 1 := by rw [← @length_waiting _ positive, first, List.length_cons]
  have less := standing.onPlate
  have window := first
  rw [waiting, count, Fifo.window_cons] at window
  obtain ⟨front, others⟩ := List.cons.inj window
  constructor
  · constructor
    · exact Nat.mod_lt _ positive
    · change state.plate.placeIndex = ((state.plate.eatIndex + 1) % bufSiz + (state.plate.onPlate - 1)) % bufSiz
      rw [standing.placeIndex, Nat.mod_add_mod, count, Nat.add_sub_cancel, Nat.add_assoc,
        Nat.add_comm after.length]
    · exact Nat.le_trans (Nat.sub_le _ 1) less
  · constructor
    · change Fifo.window positive _ ((state.plate.eatIndex + 1) % bufSiz) (state.plate.onPlate - 1) = after
      rw [count, Nat.add_sub_cancel, Fifo.window_mod]
      exact others
    · rw [← front]
      simp only [Nat.mod_eq_of_lt standing.eatIndex]

/-- Where the queue performs the operation, the function returns and the plate holds the same queue. -/
theorem perform_of_some (standing : Standing state)
    (stepped : Fifo.step bufSiz (waiting positive state) call.op = some (after, popped)) :
    ∃ next, perform state call = .ok next ∧ Standing next ∧ waiting positive next = after ∧
      carried next.output = carried state.output ++ popped := by
  rcases Fifo.step_cases stepped with ⟨id, isPush, room, rfl, rfl⟩ | ⟨madeBy, isPop, first, rfl⟩
  · rw [length_waiting] at room
    have inside : state.plate.placeIndex < bufSiz := by
      rw [standing.placeIndex]
      exact Nat.mod_lt _ positive
    obtain ⟨kept, longer⟩ := @waiting_place _ positive _ standing room id inside
    cases call with
    | eatBurger other => cases isPush
    | cookBurger other =>
        cases isPush
        exact ⟨_, cookBurger_eq (Nat.ne_of_lt room) inside, kept, longer, by rw [carried_place, List.append_nil]⟩
  · cases call with
    | cookBurger other => cases isPop
    | eatBurger other =>
        have served : state.plate.onPlate ≠ 0 := by
          rw [← @length_waiting _ positive, first]
          exact Nat.succ_ne_zero _
        obtain ⟨kept, shorter, front⟩ := waiting_take standing other madeBy first
        exact ⟨_, eatBurger_eq served standing.eatIndex, kept, shorter, by rw [carried_take, front]⟩

section Runs
variable {calls before : List Call} {burgers : Vector Int bufSiz} {fault : Fault}

/-- A run that does not fail is a run of the queue. -/
theorem run_of_ok (standing : Standing state) (ran : run state calls = .ok next) :
    ∃ popped, Fifo.run bufSiz (waiting positive state) (calls.map Call.op) = some (waiting positive next, popped) ∧
      Standing next ∧ carried next.output = carried state.output ++ popped := by
  induction calls generalizing state with
  | nil =>
      cases ran
      exact ⟨[], rfl, standing, (List.append_nil _).symm⟩
  | cons call rest inductionHypothesis =>
      rw [List.map_cons, Fifo.run]
      rw [run] at ran
      cases stepped : Fifo.step bufSiz (waiting positive state) call.op with
      | none =>
          rw [perform_of_none standing stepped] at ran
          cases ran
      | some result =>
          obtain ⟨middle, performed, kept, same, output⟩ := perform_of_some standing stepped
          rw [performed] at ran
          obtain ⟨popped, queue, last, carriedLater⟩ := inductionHypothesis kept ran
          rw [same] at queue
          refine ⟨result.2 ++ popped, ?_, last, ?_⟩
          · rw [Option.bind_some, queue]
            rfl
          · rw [carriedLater, output, List.append_assoc]

/-- A run that fails stops at an operation that the queue refuses. -/
theorem exists_of_error (standing : Standing state) (ran : run state calls = .error fault) :
    fault = .assertion ∧ ∃ before call after middle, calls = before ++ call :: after ∧
      run state before = .ok middle ∧
      Fifo.step bufSiz (waiting positive middle) call.op = none := by
  induction calls generalizing state with
  | nil => cases ran
  | cons call rest inductionHypothesis =>
      rw [run] at ran
      cases stepped : Fifo.step bufSiz (waiting positive state) call.op with
      | none =>
          rw [perform_of_none standing stepped] at ran
          cases ran
          exact ⟨rfl, [], call, rest, state, rfl, rfl, stepped⟩
      | some result =>
          obtain ⟨next, performed, kept, _⟩ := perform_of_some standing stepped
          rw [performed] at ran
          obtain ⟨isAssertion, before, other, after, middle, rfl, reached, refused⟩ := inductionHypothesis kept ran
          refine ⟨isAssertion, call :: before, other, after, middle, rfl, ?_, refused⟩
          rw [run, performed]
          exact reached

/-- The first part of a run that does not fail, and the call behind it. -/
theorem exists_of_append {after : List Call} (ran : run state (before ++ call :: after) = .ok next) :
    ∃ middle there, run state before = .ok middle ∧ perform middle call = .ok there := by
  induction before generalizing state with
  | nil =>
      rw [List.nil_append, run] at ran
      cases performed : perform state call with
      | error fault =>
          rw [performed] at ran
          cases ran
      | ok there => exact ⟨state, there, rfl, performed⟩
  | cons first rest inductionHypothesis =>
      rw [List.cons_append, run] at ran
      rw [run]
      cases performed : perform state first with
      | error fault =>
          rw [performed] at ran
          cases ran
      | ok there =>
          rw [performed] at ran
          exact inductionHypothesis ran

theorem standing_start (positive : 0 < bufSiz) (burgers : Vector Int bufSiz) : Standing (start burgers) :=
  ⟨positive, (Nat.zero_mod bufSiz).symm, Nat.zero_le _⟩

/-- After a run from the start the cooked burgers are those that have been eaten and those that wait. -/
theorem cookIds_eq (positive : 0 < bufSiz) (ran : run (start burgers) calls = .ok state) :
    Standing state ∧ cookIds calls = carried state.output ++ waiting positive state ∧
      (carried state.output).length = eats calls := by
  obtain ⟨popped, queue, kept, output⟩ := @run_of_ok _ positive _ _ _ (standing_start positive burgers) ran
  obtain ⟨conserved, count⟩ := Fifo.run_conserves queue
  obtain rfl : carried state.output = popped := output
  exact ⟨kept, conserved, count⟩

/-- The queue refuses the next call exactly when the counts say so. -/
theorem refused_iff (positive : 0 < bufSiz) (ran : run (start burgers) calls = .ok state) :
    Fifo.step bufSiz (waiting positive state) call.op = none ↔ Refused bufSiz calls call := by
  obtain ⟨kept, cooked, count⟩ := cookIds_eq positive ran
  have total : (cookIds calls).length = eats calls + state.plate.onPlate := by
    rw [cooked, List.length_append, length_waiting, count]
  rw [Fifo.step_eq_none_iff (length_waiting.trans_le kept.onPlate), length_waiting]
  cases call with
  | cookBurger id =>
      change state.plate.onPlate = bufSiz ↔ (cookIds calls).length = eats calls + bufSiz
      omega
  | eatBurger id =>
      change state.plate.onPlate = 0 ↔ (cookIds calls).length = eats calls
      omega

/-- After a run from the start the plate is a bounded queue. -/
theorem boundedFifo_of_ok (positive : 0 < bufSiz) (ran : run (start burgers) calls = .ok state) :
    BoundedFifo calls state := by
  obtain ⟨kept, cooked, count⟩ := cookIds_eq positive ran
  constructor
  · rw [kept.placeIndex]
    exact Nat.mod_lt _ positive
  · exact kept.eatIndex
  · rw [cooked, List.length_append, length_waiting, count, Nat.add_comm]
  · exact kept.placeIndex
  · exact count
  · intro k eaten
    rw [cooked, List.getElem?_append_left (count ▸ eaten)]

end Runs

end

/-- An assertion fails exactly at the first call that cooks on a full plate or eats from an empty one,
and up to there the plate is a bounded queue. -/
theorem plate_is_bounded_fifo {bufSiz : Nat} (positive : 1 ≤ bufSiz) (burgers : Vector Int bufSiz)
    (calls : List Call) :
    Specified burgers calls := by
  unfold Specified
  cases ran : run (start burgers) calls with
  | ok state =>
      apply And.intro (boundedFifo_of_ok positive ran)
      rintro before call after rfl refused
      obtain ⟨middle, there, reached, performed⟩ := exists_of_append ran
      have stuck := (refused_iff positive reached).mpr refused
      rw [perform_of_none (cookIds_eq positive reached).1 stuck] at performed
      cases performed
  | error fault =>
      obtain ⟨isAssertion, before, call, after, middle, split, reached, stuck⟩ :=
        @exists_of_error _ positive _ _ _ (standing_start positive burgers) ran
      exact ⟨isAssertion, before, call, after, middle, split, reached, (refused_iff positive reached).mp stuck⟩

/-- With three places, three burgers are cooked and two eaten, and then one is cooked and two are eaten. -/
theorem wrapped_plate : Specified #v[0, 0, 0]
    [.cookBurger 1, .cookBurger 2, .cookBurger 1, .eatBurger 1, .eatBurger 2,
    .cookBurger 2, .eatBurger 3, .eatBurger 4] :=
  plate_is_bounded_fifo (by decide) _ _

end OSLabs.Prodcons
