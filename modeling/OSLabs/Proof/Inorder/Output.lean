import OSLabs.Proof.Inorder.Gate
import OSLabs.Proof.Pthread.Frame

namespace OSLabs.Inorder

open Pthread

@[simp] theorem finishedLines_wants (output : List Line) (num : Int) :
    finishedLines (output ++ [Line.wants num]) = finishedLines output := by
  simp [finishedLines]

@[simp] theorem finishedLines_finished (output : List Line) (num : Int) :
    finishedLines (output ++ [Line.finished num]) = finishedLines output ++ [num] := by
  simp [finishedLines]

/-- A thread has printed its last line when it has returned, and not before. -/
def Printed {n : Nat} (order : Equiv.Perm (Fin n)) (t : Fin n) (status : Status Place Mutex Cond)
    (memory : Memory) : Prop :=
  nums order t ∈ finishedLines memory.output ↔ status.place = .done

/-- Each line belongs to a thread and is printed once. -/
structure Listed {n : Nat} (order : Equiv.Perm (Fin n)) (memory : Memory) : Prop where
  once : (finishedLines memory.output).Nodup
  carried : ∀ num ∈ finishedLines memory.output, ∃ t, nums order t = num

/-- At most the last thread that has advanced has not printed its last line. -/
def Prompt (memory : Memory) : Prop :=
  finishedLines memory.output = memory.advanced ∨ ∃ last, finishedLines memory.output ++ [last] = memory.advanced

section
variable {n : Nat} {order : Equiv.Perm (Fin n)}
  {allowed : History (Fin n) Memory Place Mutex Cond → State n → Fin n → Prop}
  {history : History (Fin n) Memory Place Mutex Cond} {config : State n}

theorem printed (reached : Run (code order) start allowed history config) : Everywhere (Printed order) config := by
  refine Run.everywhere (Printed order) ?_ ?_ ?_ ?_ reached
  · intro t
    simp [Printed, start, Memory.start, finishedLines]
  · intro t cond mutex place memory printed
    exact printed
  · intro t mutex place memory printed
    exact printed
  · intro history config t place before all _ here
    have mine := all t
    rw [here] at mine
    cases place with
    | printWants =>
        intro memory next effect
        cases effect
        refine ⟨by simpa [Printed, Memory.print] using mine, fun other _ => ?_⟩
        simpa [Printed, Memory.print] using all other
    | printFinished =>
        intro memory next effect
        cases effect
        refine ⟨by simp [Printed, Memory.print], fun other different => ?_⟩
        have distinct : nums order other ≠ nums order t := fun same => different (nums_injective order same)
        simpa [Printed, Memory.print, distinct] using all other
    | turnTest =>
        intro memory next effect
        cases effect
        refine ⟨?_, fun other _ => all other⟩
        split <;> simpa [Printed] using mine
    | advanceRead | advanceWrite value =>
        intro memory next effect
        cases effect
        exact ⟨by simpa [Printed] using mine, fun other _ => all other⟩
    | lockGate =>
        intro _
        simpa [Printed] using mine
    | condWait | broadcast | unlockGate => simpa [Instr.Keeps, code, thread, Printed] using mine
    | done => trivial

theorem listed (reached : Run (code order) start allowed history config) : Listed order config.memory := by
  have initial : Listed order Memory.start := by
    refine ⟨List.nodup_nil, fun num member => ?_⟩
    cases member
  refine Run.stored (Listed order) initial ?_ reached
  intro history config t place update memory next before listed _ here access effect
  cases place with
  | printFinished =>
      have mine := printed before t
      rw [here] at mine
      have fresh : nums order t ∉ finishedLines config.memory.output := fun member => by cases mine.mp member
      cases access
      cases effect
      refine ⟨?_, fun num member => ?_⟩
      · simpa [Memory.print] using listed.once.concat fresh
      · have either : num ∈ finishedLines config.memory.output ∨ num = nums order t := by
          simpa [Memory.print] using member
        rcases either with earlier | rfl
        · exact listed.carried num earlier
        · exact ⟨t, rfl⟩
  | printWants =>
      cases access
      cases effect
      exact ⟨by simpa [Memory.print] using listed.once, by simpa [Memory.print] using listed.carried⟩
  | turnTest | advanceRead | advanceWrite value =>
      cases access
      cases effect
      exact ⟨listed.once, listed.carried⟩
  | _ => cases access

/-- A line is printed only after its thread has advanced. -/
theorem advanced_of_printed (reached : Run (code order) start allowed history config) {num : Int}
    (member : num ∈ finishedLines config.memory.output) : num ∈ config.memory.advanced := by
  obtain ⟨t, rfl⟩ := (listed reached).carried num member
  have returned := (printed reached t).mp member
  have mine := turned reached t
  have counted := counted reached
  have next := counted.threadNext
  have lower := (nums_bounds order t).1
  rw [counted.inOrder, mem_upTo]
  cases status : config.status t with
  | ready place =>
      rw [status] at mine returned
      obtain rfl : place = .done := returned
      simp only [Turned, Turn] at mine
      omega
  | blocked cond mutex place | woken mutex place =>
      rw [status] at mine returned
      obtain rfl : place = .done := returned
      cases mine.1

/-- When all threads have returned, each of them has printed its last line. -/
theorem perm_of_finished (reached : Run (code order) start allowed history config)
    (finished : ∀ t, Finished (code order) config t) : (finishedLines config.memory.output).Perm (upTo n) := by
  have listed := listed reached
  have distinct : (upTo n).Nodup := by
    refine List.Nodup.map (fun (first second : Nat) (same : (first : Int) + 1 = second + 1) => ?_) List.nodup_range
    omega
  refine (List.perm_ext_iff_of_nodup listed.once distinct).mpr fun num => ?_
  rw [mem_upTo]
  constructor
  · intro member
    obtain ⟨t, rfl⟩ := listed.carried num member
    exact nums_bounds order t
  · rintro ⟨lower, upper⟩
    obtain ⟨t, rfl⟩ := exists_nums order num lower upper
    refine (printed reached t).mpr ?_
    have done := finished t
    unfold Finished at done
    cases status : config.status t with
    | ready place =>
        rw [status] at done
        cases place with
        | done => rfl
        | _ => cases done
    | blocked cond mutex place | woken mutex place =>
        rw [status] at done
        cases done

/-- In an unhurried run at most one line is missing. -/
theorem prompt (reached : Run (code order) start (fun _ => Unhurried) history config) : Prompt config.memory := by
  refine Run.stored Prompt (Or.inl rfl) ?_ reached
  intro history config t place update memory next before prompt unhurried here access effect
  cases place with
  | printFinished =>
      have mine := printed before t
      have turn := turned before t
      rw [here] at mine turn
      have fresh : nums order t ∉ finishedLines config.memory.output := fun member => by cases mine.mp member
      have counted := counted before
      have advanced : nums order t ∈ config.memory.advanced := by
        have next := counted.threadNext
        have lower := (nums_bounds order t).1
        rw [counted.inOrder, mem_upTo]
        simp only [Turned, Turn] at turn
        omega
      cases access
      cases effect
      rcases prompt with same | ⟨last, missing⟩
      · rw [same] at fresh
        exact absurd advanced fresh
      · rw [← missing] at advanced
        obtain rfl : nums order t = last := by simpa [fresh] using advanced
        exact Or.inl (by simpa [Memory.print] using missing)
  | printWants =>
      cases access
      cases effect
      simpa [Prompt, Memory.print] using prompt
  | advanceWrite value =>
      have same := unhurried (by rw [here]; rfl)
      cases access
      cases effect
      exact Or.inr ⟨nums order t, congrArg (· ++ [nums order t]) same⟩
  | turnTest | advanceRead =>
      cases access
      cases effect
      exact prompt
  | _ => cases access

/-- The printed lines of an unhurried run are in the order of the numbers. -/
theorem finishedLines_of_unhurried (reached : Run (code order) start (fun _ => Unhurried) history config) :
    finishedLines config.memory.output = upTo (finishedLines config.memory.output).length := by
  have inOrder := (counted reached).inOrder
  rcases prompt reached with same | ⟨last, missing⟩
  · rwa [← same] at inOrder
  · rw [← missing, List.length_append, List.length_singleton, upTo_succ] at inOrder
    exact List.append_inj_left' inOrder rfl

/-- A single thread prints its line in order. -/
theorem finishedLines_of_alone (few : n ≤ 1) (reached : Run (code order) start allowed history config) :
    finishedLines config.memory.output = upTo (finishedLines config.memory.output).length := by
  have listed := listed reached
  have only : ∀ num ∈ finishedLines config.memory.output, num = 1 := by
    intro num member
    obtain ⟨t, rfl⟩ := listed.carried num member
    have bounds := nums_bounds order t
    omega
  match lines : finishedLines config.memory.output with
  | [] => rfl
  | [num] =>
      rw [lines] at only
      rw [only num List.mem_cons_self]
      rfl
  | first :: second :: rest =>
      have once := listed.once
      rw [lines] at only once
      have same : first = second := by
        rw [only first (by simp), only second (by simp)]
      simp [same] at once

end

/-- The thread with number 1 unlocks the gate. Then the thread with number 2 passes it
and prints its last line first. -/
theorem exists_overtaking : ∃ config : State 2, Reachable (code (Equiv.refl (Fin 2))) start config ∧
    finishedLines config.memory.output = [2] := by
  obtain ⟨config, reachable, printed⟩ := exists_reachable (code (Equiv.refl (Fin 2))) (start : State 2)
    (turns 7 0 ++ turns 8 1) (fun config => decide (finishedLines config.memory.output = [2])) (by decide)
  exact ⟨config, reachable, of_decide_eq_true printed⟩

/-- Among two threads or more, the thread with number 2 can print its last line before the thread with number 1. -/
theorem exists_disordered {n : Nat} (order : Equiv.Perm (Fin n)) (several : 2 ≤ n) :
    ∃ config : State n, Reachable (code order) start config ∧ finishedLines config.memory.output = [2] := by
  obtain ⟨small, ⟨history, inner⟩, printed⟩ := exists_overtaking
  have embeds : ∀ r : Fin 2, nums order (order.symm (Fin.castLE several r)) = nums (Equiv.refl (Fin 2)) r := by
    intro r
    simp [nums]
  have injective : Function.Injective fun r : Fin 2 => order.symm (Fin.castLE several r) :=
    order.symm.injective.comp (Fin.castLE_injective several)
  have same : (fun r => code order (order.symm (Fin.castLE several r))) = code (Equiv.refl (Fin 2)) := by
    funext r
    unfold code
    rw [embeds r]
  have frames : Frames (fun r : Fin 2 => order.symm (Fin.castLE several r)) (start : State n).status start start :=
    ⟨rfl, fun _ => rfl, fun _ => rfl, fun _ _ => rfl, fun _ _ => rfl⟩
  rw [← same] at inner
  have begins : Run (code order) start (fun _ _ _ => True) [] start := .start
  obtain ⟨later, config, reached, framed⟩ := frames.run injective (fun _ _ _ _ _ => trivial) begins inner
  exact ⟨config, ⟨later, reached⟩, by rw [framed.memory, printed]⟩

/-- Each last line is printed once and after its thread has advanced, and at the end all of them are printed.
They are in the order of the numbers when no thread advances before the earlier ones have printed.
The gate alone ensures this order only for a single thread. -/
theorem output_order {n : Nat} (order : Equiv.Perm (Fin n)) :
    (∀ config : State n, Reachable (code order) start config →
      (finishedLines config.memory.output).Nodup ∧
        (∀ num ∈ finishedLines config.memory.output, num ∈ config.memory.advanced) ∧
        ((∀ t, Finished (code order) config t) → (finishedLines config.memory.output).Perm (upTo n))) ∧
      (∀ history config, Run (code order) start (fun _ => Unhurried) history config →
        finishedLines config.memory.output = upTo (finishedLines config.memory.output).length) ∧
      ((∀ config : State n, Reachable (code order) start config →
        finishedLines config.memory.output = upTo (finishedLines config.memory.output).length) ↔ n ≤ 1) := by
  refine ⟨fun config reachable => ?_, fun history config reached => finishedLines_of_unhurried reached, ?_, ?_⟩
  · obtain ⟨history, reached⟩ := reachable
    exact ⟨(listed reached).once, fun num member => advanced_of_printed reached member, perm_of_finished reached⟩
  · intro ordered
    by_contra several
    obtain ⟨config, reachable, printed⟩ := exists_disordered order (by omega)
    have wrong := ordered config reachable
    rw [printed] at wrong
    exact absurd wrong (by decide)
  · rintro few config ⟨history, reached⟩
    exact finishedLines_of_alone few reached

/-- The line of the thread with number 2 is printed before the line of the thread with number 1. -/
theorem second_line_first : ¬ ∀ (n : Nat) (order : Equiv.Perm (Fin n)) (config : State n),
    Reachable (code order) start config →
      finishedLines config.memory.output = upTo (finishedLines config.memory.output).length := by
  intro ordered
  obtain ⟨config, reachable, printed⟩ := exists_overtaking
  have wrong := ordered 2 (Equiv.refl (Fin 2)) config reachable
  rw [printed] at wrong
  exact absurd wrong (by decide)

end OSLabs.Inorder
