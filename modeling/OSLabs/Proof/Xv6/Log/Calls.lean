import OSLabs.Proof.RedoLog.Install
import OSLabs.Proof.Xv6.Log.Operations

namespace OSLabs.Xv6.Log

open Pthread RedoLog

/-- The process has made all changes of its system call. -/
def Point.isDone : Point → Bool
  | .acquireBegin | .beginTest | .beginSleep | .beginCount | .releaseBegin | .inOp | .acquireWrite | .writePanics
  | .writeAppend | .releaseWrite | .logWritePanicked => false
  | _ => true

/-- The changes that the process has made and those that are left of its system call are the ones of its first
system calls. Outside a system call it has made the changes of whole system calls. -/
structure Progress {T : Type} [DecidableEq T] (calls : T → List (List (Update Nat Block))) (t : T) (place : Place)
    (memory : Memory T) : Prop where
  total : ∃ k, updatesOf t memory.written ++ place.op = ((calls t).take k).flatten ∧ place.rest = (calls t).drop k
  emptied : place.point.isDone = true → place.op = []
  whole : place.point.isOpen = false → ∃ j, updatesOf t memory.written = ((calls t).take j).flatten

section
variable {T : Type} [DecidableEq T] {calls : T → List (List (Update Nat Block))} {t : T} {place : Place}
  {memory : Memory T}

/-- A process that goes on keeps its progress when it opens or ends no system call. -/
theorem Progress.go (progress : Progress calls t place memory) {point : Point}
    (emptied : point.isDone = true → place.op = [])
    (whole : point.isOpen = false → place.point.isOpen = false ∨ place.op = []) :
      Progress calls t (place.go point) memory where
  total := progress.total
  emptied := emptied
  whole closed := by
    rcases whole closed with before | none
    · exact progress.whole before
    · obtain ⟨k, total, _⟩ := progress.total
      rw [none, List.append_nil] at total
      exact ⟨k, total⟩

/-- The next system call begins. -/
theorem Progress.begin {op op' : List (Update Nat Block)} {rest : List (List (Update Nat Block))}
    (progress : Progress calls t ⟨.idle, op, op' :: rest⟩ memory) :
    Progress calls t ⟨.acquireBegin, op', rest⟩ memory := by
  obtain ⟨k, total, left⟩ := progress.total
  rw [show op = [] from progress.emptied rfl, List.append_nil] at total
  refine ⟨⟨k + 1, ?_, ?_⟩, (by rintro ⟨⟩), fun _ => ⟨k, total⟩⟩
  · have first : (calls t)[k]? = some op' := by
      rw [← List.head?_drop, ← left, List.head?_cons]
    rw [List.take_add_one, first, Option.toList_some, List.flatten_append, ← total, List.flatten_singleton]
  · rw [← List.tail_drop, ← left, List.tail_cons]

/-- The process makes the next change of its system call. -/
theorem Progress.logWrite {update : Update Nat Block} {op : List (Update Nat Block)}
    {rest : List (List (Update Nat Block))}
    (progress : Progress calls t ⟨.writeAppend, update :: op, rest⟩ memory) :
    Progress calls t ⟨.releaseWrite, op, rest⟩ (memory.logWrite t update) := by
  obtain ⟨k, total, left⟩ := progress.total
  refine ⟨⟨k, ?_, left⟩, (by rintro ⟨⟩), (by rintro ⟨⟩)⟩
  rw [← total, Memory.logWrite, updatesOf_concat_self, List.append_assoc, List.singleton_append]

/-- A change of another process is no change of this one. -/
theorem Progress.other {other : T} (progress : Progress calls t place memory) (different : other ≠ t)
    (update : Update Nat Block) : Progress calls t place (memory.logWrite other update) := by
  have same : updatesOf t (memory.logWrite other update).written = updatesOf t memory.written :=
    updatesOf_concat_of_ne different update
  exact ⟨same ▸ progress.total, progress.emptied, same ▸ progress.whole⟩

/-- Every change that is left is a change of a block of the file system. -/
theorem Progress.home {layout : Layout} (progress : Progress calls t place memory) (fits : Fits layout calls)
    {update : Update Nat Block} (member : update ∈ place.op) : layout.Home update.target := by
  obtain ⟨k, total, _⟩ := progress.total
  have inCalls : update ∈ ((calls t).take k).flatten := total ▸ List.mem_append_right _ member
  obtain ⟨op, taken, inOp⟩ := List.mem_flatten.mp inCalls
  exact fits t op (List.mem_of_mem_take taken) update inOp

end

section
variable {T : Type} {layout : Layout} {calls : T → List (List (Update Nat Block))} {disk : Disk}
  [DecidableEq T] [Fintype T]
  {allowed : History T (Memory T) Place Mutex Chan → State T → T → Prop}
  {history : History T (Memory T) Place Mutex Chan} {config : State T}

theorem progress (reached : Run (process layout) (start disk calls) allowed history config) (t : T) :
    Progress calls t (config.places t) config.memory := by
  refine reached.placed (fun _ places memory => ∀ t, Progress calls t (places t) memory) ?_
    (fun _ _ _ holds _ => holds) ?_ t
  · intro t
    exact ⟨⟨0, rfl, rfl⟩, fun _ => rfl, fun _ => ⟨0, rfl⟩⟩
  · intro _ config t place after next _ all _ here effect other
    have mine := all t
    rw [Config.places_of_ready here] at mine
    by_cases same : other = t
    · subst same
      rw [Function.update_self]
      have stays : ∀ {memory : Memory T}, memory.written = config.memory.written →
        Progress calls other next config.memory →
          Progress calls other next memory := by
        rintro memory same ⟨total, emptied, whole⟩
        exact ⟨same ▸ total, emptied, same ▸ whole⟩
      obtain ⟨point, op, rest⟩ := place
      cases point with
      | idle =>
          cases rest with
          | nil => cases effect
          | cons op' rest =>
              cases effect
              exact mine.begin
      | writeAppend =>
          cases op with
          | nil =>
              cases effect
              exact mine.go (fun done => by cases done) (fun closed => by cases closed)
          | cons update op =>
              cases effect
              exact mine.logWrite
      | inOp =>
          cases effect
          refine mine.go (fun done => ?_) (fun closed => ?_) <;> split at * <;>
            simp_all [Point.isDone, Point.isOpen]
      | beginTest =>
          cases effect
          refine mine.go (fun done => ?_) (fun _ => .inl rfl)
          split at done
          · cases done
          · split at done <;> cases done
      | writePanics =>
          cases effect
          refine mine.go (fun done => ?_) (fun closed => ?_)
          · split at done
            · cases done
            · split at done <;> cases done
          · split at closed
            · cases closed
            · split at closed <;> cases closed
      | endCount =>
          have none : op = [] := mine.emptied rfl
          simp only [process, Instr.effect, Option.some.injEq] at effect
          split at effect
          · cases effect
            exact stays rfl (mine.go (fun _ => none) (fun _ => .inr none))
          · split at effect <;> cases effect <;> exact stays rfl (mine.go (fun _ => none) (fun _ => .inr none))
      | writeLog tail | installTrans tail =>
          simp only [process, Instr.effect, Option.some.injEq] at effect
          split at effect <;> cases effect <;>
            exact stays rfl (mine.go (fun _ => mine.emptied rfl) (fun _ => .inl rfl))
      | acquireBegin | beginSleep =>
          cases effect
          exact mine.go (fun done => by cases done) (fun _ => .inl rfl)
      | beginCount =>
          cases effect
          exact stays rfl (mine.go (fun done => by cases done) (fun closed => by cases closed))
      | releaseBegin | acquireWrite | releaseWrite =>
          cases effect
          exact mine.go (fun done => by cases done) (fun closed => by cases closed)
      | acquireEnd =>
          cases effect
          exact mine.go (fun _ => mine.emptied rfl) (fun closed => by cases closed)
      | logWritePanicked | endOpPanicked => cases effect
      | _ =>
          cases effect
          exact stays rfl (mine.go (fun _ => mine.emptied rfl) (fun _ => .inl rfl))
    · rw [Function.update_of_ne same]
      have theirs := all other
      have stays : ∀ {memory : Memory T}, memory.written = config.memory.written →
          Progress calls other (config.places other) memory := by
        intro memory same
        exact ⟨same ▸ theirs.total, theirs.emptied, same ▸ theirs.whole⟩
      obtain ⟨point, op, rest⟩ := place
      cases point with
      | idle => cases rest <;> cases effect; exact theirs
      | writeAppend =>
          cases op with
          | nil =>
              cases effect
              exact theirs
          | cons update op =>
              cases effect
              exact theirs.other (Ne.symm same) update
      | endCount =>
          simp only [process, Instr.effect, Option.some.injEq] at effect
          split at effect
          · cases effect
            exact stays rfl
          · split at effect <;> cases effect <;> exact stays rfl
      | writeLog tail | installTrans tail =>
          simp only [process, Instr.effect, Option.some.injEq] at effect
          split at effect <;> cases effect <;> exact stays rfl
      | logWritePanicked | endOpPanicked => cases effect
      | _ =>
          cases effect
          exact stays rfl

end

end OSLabs.Xv6.Log
