import OSLabs.Proof.Caesar.Messages
import OSLabs.Proof.Pipe.Pair
import Mathlib.Tactic.IntervalCases

namespace OSLabs.Caesar.Argument

open Transition Pipe Stdio

/-- The parent reaches these stages one after the other. -/
inductive ParentStage where
  | fork
  | wait
  | printDone
  | leave
  | ended

def ParentStage.step : ParentStage → Nat
  | .fork => 0
  | .wait => 1
  | .printDone => 2
  | .leave => 3
  | .ended => 4

theorem ParentStage.step_le (stage : ParentStage) : stage.step ≤ 4 := by
  cases stage <;> decide

def parentAt : ParentStage → Process 0 (Place Step1Place) Line
  | .fork => .at (.parent .fork) [] [] []
  | .wait => .at (.parent .wait) [] [] []
  | .printDone => .at (.parent .printDone) [] [] []
  | .leave => .at (.parent .leave) [] [.done] []
  | .ended => .ended 0 [.done] []

/-- The processes that the child is one after the other. Without a pipe it never waits. -/
structure ChildRun (env : Environment 0) (op message : Text) where
  trace : Nat → Process 0 (Place Step1Place) Line
  last : Nat
  positive : 0 < last
  unborn : trace 0 = .unborn
  entry : trace 1 = .at (.child (caesarBin (argv op [message.bytes]))) [] [] []
  runs : ∀ step, 0 < step → step < last → ∃ place, (trace step).status = .running place
  ended : ∃ code, (trace last).status = .exited code
  moves : ∀ step parent, 0 < step → step < last →
    fire (system1 env op message) (.pair (fun _ => []) parent (trace step)) .child =
      some (.pair (fun _ => []) parent (trace (step + 1)))

section
variable {env : Environment 0} {op message : Text} (run : ChildRun env op message)

/-- The configuration of a stage. -/
def chart (stage : ParentStage × Nat) : Config 0 Role (Place Step1Place) Line :=
  .pair (fun _ => []) (parentAt stage.1) (run.trace stage.2)

/-- The child lives from the fork on, and has exited when the parent goes on after its wait. -/
structure Valid (stage : ParentStage × Nat) : Prop where
  forked : stage.1.step = 0 ↔ stage.2 = 0
  bounded : stage.2 ≤ run.last
  waited : 2 ≤ stage.1.step → stage.2 = run.last

/-- The parent waits for the child or has ended. The child has not been born or has ended. -/
def Waits (stage : ParentStage × Nat) : Role → Prop
  | .parent => stage.1.step = 4 ∨ stage.1.step = 1 ∧ stage.2 ≠ run.last
  | .child => stage.2 = 0 ∨ stage.2 = run.last

def rank (stage : ParentStage × Nat) : Nat := 4 + run.last - stage.1.step - stage.2

theorem start_eq : start1 = chart run (.fork, 0) := by
  simp only [chart, run.unborn]
  exact Config.initial_eq_pair _

theorem valid_start : Valid run (.fork, 0) := by
  constructor <;> simp [ParentStage.step]

/-- The parent goes on after the fork, and behind its wait only when the child has exited. -/
theorem Valid.parent {parent later : ParentStage} {child : Nat} (valid : Valid run (parent, child))
    (next : later.step = parent.step + 1) (forked : parent.step ≠ 0)
    (waited : parent.step ≠ 1 ∨ child = run.last) :
    Valid run (later, child) ∧ rank run (later, child) < rank run (parent, child) := by
  obtain ⟨born, bounded, exited⟩ := valid
  have parentBound := later.step_le
  refine ⟨⟨?_, ?_, ?_⟩, ?_⟩ <;> simp only [rank] at * <;> omega

theorem parent_fork : fire (system1 env op message) (chart run (.fork, 0)) .parent =
    some (chart run (.wait, 1)) := by
  refine (fire_fork rfl rfl).trans ?_
  simp [chart, parentAt, run.unborn, run.entry]

section
variable (child : Nat)

theorem parent_wait : fire (system1 env op message) (chart run (.wait, run.last)) .parent =
    some (chart run (.printDone, run.last)) := by
  obtain ⟨code, exited⟩ := run.ended
  refine (fire_wait rfl rfl exited).trans ?_
  simp [chart, parentAt]

theorem parent_waits {child : Nat} (born : 0 < child) (before : child < run.last) :
    fire (system1 env op message) (chart run (.wait, child)) .parent = none := by
  obtain ⟨place, runs⟩ := run.runs child born before
  exact fire_wait_running rfl rfl runs

theorem parent_printDone : fire (system1 env op message) (chart run (.printDone, child)) .parent =
    some (chart run (.leave, child)) := by
  refine (fire_print rfl rfl).trans ?_
  simp [chart, parentAt]

theorem parent_leave : fire (system1 env op message) (chart run (.leave, child)) .parent =
    some (chart run (.ended, child)) := by
  refine (fire_exit rfl rfl).trans ?_
  simp [chart, parentAt]

end

/-- In each valid stage the parent waits or goes to its next stage. -/
theorem parent_moves {stage : ParentStage × Nat} (valid : Valid run stage) :
    (fire (system1 env op message) (chart run stage) .parent = none ∧ Waits run stage .parent) ∨
      ∃ later, fire (system1 env op message) (chart run stage) .parent = some (chart run later) ∧
        Valid run later ∧ rank run later < rank run stage := by
  obtain ⟨parent, child⟩ := stage
  have facts := valid
  obtain ⟨forked, bounded, waited⟩ := facts
  cases parent with
  | fork =>
      have unborn : child = 0 := by simpa [ParentStage.step] using forked
      have positive := run.positive
      subst unborn
      refine Or.inr ⟨_, parent_fork run, ⟨?_, ?_, ?_⟩, ?_⟩ <;> simp only [rank, ParentStage.step] <;> omega
  | wait =>
      have born : child ≠ 0 := by simpa [ParentStage.step] using forked
      by_cases exited : child = run.last
      · subst exited
        exact Or.inr ⟨_, parent_wait run, valid.parent run rfl (by decide) (Or.inr rfl)⟩
      · have before : child < run.last := Nat.lt_of_le_of_ne bounded exited
        exact Or.inl ⟨parent_waits run (by omega) before, Or.inr ⟨rfl, exited⟩⟩
  | printDone =>
      exact Or.inr ⟨_, parent_printDone run child, valid.parent run rfl (by decide) (Or.inl (by decide))⟩
  | leave => exact Or.inr ⟨_, parent_leave run child, valid.parent run rfl (by decide) (Or.inl (by decide))⟩
  | ended => exact Or.inl ⟨fire_idle (by simp [chart, parentAt]), Or.inl rfl⟩

/-- In each valid stage the child has not been born, has ended, or goes to its next stage. -/
theorem child_moves {stage : ParentStage × Nat} (valid : Valid run stage) :
    (fire (system1 env op message) (chart run stage) .child = none ∧ Waits run stage .child) ∨
      ∃ later, fire (system1 env op message) (chart run stage) .child = some (chart run later) ∧
        Valid run later ∧ rank run later < rank run stage := by
  obtain ⟨parent, child⟩ := stage
  obtain ⟨forked, bounded, waited⟩ := valid
  have parentBound := parent.step_le
  by_cases unborn : child = 0
  · subst unborn
    exact Or.inl ⟨fire_idle (by simp [chart, run.unborn]), Or.inl rfl⟩
  · by_cases ended : child = run.last
    · subst ended
      obtain ⟨code, exited⟩ := run.ended
      exact Or.inl ⟨fire_idle (by simp [chart, exited]), Or.inr rfl⟩
    · have moves := run.moves child (parentAt parent) (by omega) (Nat.lt_of_le_of_ne bounded ended)
      refine Or.inr ⟨(parent, child + 1), moves, ⟨?_, ?_, ?_⟩, ?_⟩ <;> simp only [rank] at * <;> omega

/-- What the first step delivers holds at the end of the child. -/
theorem delivers_iff {post : Config 0 Role (Place Step1Place) Line → Prop} :
    Delivers (system1 env op message) start1 post ↔ post (chart run (.ended, run.last)) := by
  have charted : Charted (chart run) (Valid run) (Waits run) (rank run) (system1 env op message) := by
    intro stage valid name
    cases name with
    | parent => exact parent_moves run valid
    | child => exact child_moves run valid
  rw [start_eq run]
  refine charted.delivers_iff (valid_start run) ?_
  rintro ⟨parent, child⟩ ⟨forked, bounded, waited⟩ waits
  have positive := run.positive
  have parentWaits := waits .parent
  have childWaits := waits .child
  simp only [Waits] at parentWaits childWaits forked waited
  have parentEnded : parent.step = 4 := by omega
  have childEnded : child = run.last := by omega
  subst childEnded
  cases parent <;> simp [ParentStage.step] at parentEnded ⊢

end

section Modes
variable (env : Environment 0) (op message : Text)
  (accepted : sameOp op.bytes "encrypt" = true ∨ sameOp op.bytes "decrypt" = true)

def result : Line := .output op.bytes (caesar op.bytes message.bytes)

/-- The processes of a child that takes its argument for a message. -/
def messageTrace : Nat → Process 0 (Place Step1Place) Line
  | 0 => .unborn
  | 1 => .at (.child (.warnArgument op.bytes message.bytes)) [] [] []
  | 2 => .at (.child (.printResult op.bytes (caesar op.bytes message.bytes))) [] [.argumentMode op.bytes] []
  | 3 => .at (.child (.leave 0)) [] [.argumentMode op.bytes, result op message] []
  | _ => .ended 0 [.argumentMode op.bytes, result op message] []

/-- A message with something behind its number is used as a message. -/
def messageRun (behind : (strtol message.bytes).2 ≠ []) : ChildRun env op message where
  trace := messageTrace op message
  last := 4
  positive := by decide
  unborn := rfl
  entry := by
    rw [caesarBin_argument accepted, if_pos behind]
    rfl
  runs := by
    intro step positive before
    interval_cases step <;> exact ⟨_, rfl⟩
  ended := ⟨0, rfl⟩
  moves := by
    intro step parent positive before
    interval_cases step
    · exact (fire_print rfl rfl).trans (by simp [messageTrace])
    · exact (fire_print rfl rfl).trans (by simp [messageTrace, result])
    · exact (fire_exit rfl rfl).trans (by simp [messageTrace])

/-- The descriptor that the child makes of its argument. -/
def readfd : Int := toInt (strtol message.bytes).1

/-- The buffer of a child that takes its argument for a descriptor. -/
def buff : List UInt8 := fill env.buff (((env.foreign (readfd message)).map fun bytes => bytes.take 256).getD [])

/-- The child before it closes the descriptor. -/
def reading : Process 0 (Place Step1Place) Line :=
  .at (.child (.closeRead op.bytes (readfd message) (buff env message))) []
    [.readMode op.bytes (readfd message)] []

/-- The child that has closed the descriptor and has a text in its buffer. -/
def closed (text : List UInt8) : Process 0 (Place Step1Place) Line :=
  ((reading env op message).closeForeign (readfd message)).advance
    (.child (.printResult op.bytes (caesar op.bytes text)))

/-- The child that has printed its result, unless it has closed its standard output. -/
def printed (text : List UInt8) : Process 0 (Place Step1Place) Line :=
  ((closed env op message text).print (.output op.bytes (caesar op.bytes text))).advance (.child (.leave 0))

/-- The processes of a child that takes its argument for a descriptor and has a text in its buffer. -/
def descriptorTrace (text : List UInt8) : Nat → Process 0 (Place Step1Place) Line
  | 0 => .unborn
  | 1 => .at (.child (.warnRead op.bytes (readfd message))) [] [] []
  | 2 => .at (.child (.readBuff op.bytes (readfd message))) [] [.readMode op.bytes (readfd message)] []
  | 3 => reading env op message
  | 4 => closed env op message text
  | 5 => printed env op message text
  | _ => (printed env op message text).finish (.exited 0)

theorem find_none (descriptors : Descriptors 0) (number : Int) : descriptors.find number = none := by
  simp [Descriptors.find]

/-- A message with nothing behind its number is used as a descriptor. -/
def descriptorRun (number : (strtol message.bytes).2 = []) {text : List UInt8}
    (ends : string (buff env message) = some text) :
    ChildRun env op message where
  trace := descriptorTrace env op message text
  last := 6
  positive := by decide
  unborn := rfl
  entry := by
    rw [caesarBin_argument accepted, if_neg (not_not.mpr number)]
    rfl
  runs := by
    intro step positive before
    interval_cases step <;> exact ⟨_, rfl⟩
  ended := ⟨0, rfl⟩
  moves := by
    have found : afterRead op.bytes (buff env message) = .printResult op.bytes (caesar op.bytes text) := by
      simp only [afterRead, ends]
    intro step parent positive before
    interval_cases step
    · exact (fire_print rfl rfl).trans (by simp [descriptorTrace])
    · exact (fire_readForeign rfl rfl (find_none _ _)).trans (by simp [descriptorTrace, reading, buff, system1])
    · exact (fire_closeForeign rfl rfl (find_none _ _)).trans (by simp [descriptorTrace, closed, found])
    · exact (fire_print rfl rfl).trans (by simp [descriptorTrace, printed])
    · exact (fire_exit rfl rfl).trans (by simp [descriptorTrace])

/-- The child prints the result for the text in its buffer, or nothing when it has closed its standard output. -/
theorem texts_printed (text : List UInt8) : texts (printed env op message text).output =
    if readfd message = 1 then [] else [caesar op.bytes text] := by
  by_cases muted : readfd message = 1
  · simp [printed, closed, reading, Process.closeForeign, Process.print, muted, texts]
  · simp [printed, closed, reading, Process.closeForeign, muted, texts]

end Modes

section
variable (env : Environment 0) {op message : Text}
  (accepted : sameOp op.bytes "encrypt" = true ∨ sameOp op.bytes "decrypt" = true)

include accepted

/-- In the first step `caesar.bin` prints the result for a message that it takes for a message. -/
theorem delivers (behind : (strtol message.bytes).2 ≠ []) :
    Delivers (system1 env op message) start1 fun config =>
      texts (config.process .child).output = [caesar op.bytes message.bytes] :=
  (delivers_iff (messageRun env op message accepted behind)).mpr rfl

/-- A message that is taken for a descriptor is replaced by the text in the buffer. -/
theorem delivers_buff (number : (strtol message.bytes).2 = []) {text : List UInt8}
    (ends : string (buff env message) = some text) {result : List (List UInt8)} :
    Delivers (system1 env op message) start1 (fun config => texts (config.process .child).output = result) ↔
      (if readfd message = 1 then [] else [caesar op.bytes text]) = result := by
  rw [← texts_printed env op message text]
  exact delivers_iff (descriptorRun env op message accepted number ends)

end

end OSLabs.Caesar.Argument
