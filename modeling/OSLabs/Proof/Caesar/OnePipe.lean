import OSLabs.Proof.Caesar.Messages
import OSLabs.Proof.Pipe.Pair

namespace OSLabs.Caesar.OnePipe

open Transition Pipe Stdio

/-- The parent reaches these stages one after the other. -/
inductive ParentStage where
  | fork
  | closeRead
  | writeMessage
  | wait
  | printDone
  | leave
  | ended

/-- The child reaches these stages one after the other. -/
inductive ChildStage where
  | unborn
  | warnRead
  | readBuff
  | closeRead
  | printResult
  | leave
  | ended

def ParentStage.step : ParentStage → Nat
  | .fork => 0
  | .closeRead => 1
  | .writeMessage => 2
  | .wait => 3
  | .printDone => 4
  | .leave => 5
  | .ended => 6

def ChildStage.step : ChildStage → Nat
  | .unborn => 0
  | .warnRead => 1
  | .readBuff => 2
  | .closeRead => 3
  | .printResult => 4
  | .leave => 5
  | .ended => 6

section
variable (env : Environment 1) (op message : Text)

def parentAt : ParentStage → Process 1 (Place Step2Place) Line
  | .fork => .at (.parent .fork) [] [] []
  | .closeRead => .at (.parent .closeRead) [] [] []
  | .writeMessage => .at (.parent .writeMessage) [(only, .read)] [] []
  | .wait => .at (.parent .wait) [(only, .read)] [] []
  | .printDone => .at (.parent .printDone) [(only, .read)] [] []
  | .leave => .at (.parent .leave) [(only, .read)] [.done] []
  | .ended => .ended 0 [.done] []

/-- The bytes that the child reads. -/
def chunk : List UInt8 := (payload env message).take 256

def warning : Line := .readMode op.bytes (fd env .read)

def output : Line := .output op.bytes (caesar op.bytes message.bytes)

def childAt : ChildStage → Process 1 (Place Step2Place) Line
  | .unborn => .unborn
  | .warnRead => .at (.child (.warnRead op.bytes (fd env .read))) [] [] []
  | .readBuff => .at (.child (.readBuff op.bytes (fd env .read))) [] [warning env op] []
  | .closeRead => .at (.child (.closeRead op.bytes (fd env .read) (chunk env message))) [] [warning env op]
      [chunk env message]
  | .printResult =>
      .at (.child (.printResult op.bytes (caesar op.bytes message.bytes))) [(only, .read)] [warning env op]
      [chunk env message]
  | .leave => .at (.child (.leave 0)) [(only, .read)] [warning env op, output op message] [chunk env message]
  | .ended => .ended 0 [warning env op, output op message] [chunk env message]

/-- The bytes that the parent has written. -/
def sent : ParentStage → List UInt8
  | .fork | .closeRead | .writeMessage => []
  | .wait | .printDone | .leave | .ended => payload env message

/-- The number of bytes that the child has read. -/
def taken : ChildStage → Nat
  | .unborn | .warnRead | .readBuff => 0
  | .closeRead | .printResult | .leave | .ended => 256

/-- The configuration of a stage. The pipe holds what has been written but not been read. -/
def chart (stage : ParentStage × ChildStage) : Config 1 Role (Place Step2Place) Line :=
  .pair (onePipe ((sent env message stage.1).drop (taken stage.2))) (parentAt stage.1)
    (childAt env op message stage.2)

theorem find_fd (side : Side) : (system2 env op message).descriptors.find (fd env side) = some (only, side) :=
  env.descriptors.find_number (only, side)

theorem start_eq : start2 = chart env op message (.fork, .unborn) := Config.initial_eq_pair _

theorem parent_fork (accepted : sameOp op.bytes "encrypt" = true ∨ sameOp op.bytes "decrypt" = true) :
    fire (system2 env op message) (chart env op message (.fork, .unborn)) .parent =
      some (chart env op message (.closeRead, .warnRead)) := by
  have entry := caesarBin_descriptor accepted (env.descriptors.fits (only, .read))
  refine (fire_fork rfl rfl).trans ?_
  simp [chart, parentAt, childAt, sent, taken, fd, entry]

end

/-- The child lives from the fork on, reads the message only after it has been written,
and has exited when the parent goes on after its wait. -/
structure Valid (stage : ParentStage × ChildStage) : Prop where
  forked : stage.1.step = 0 ↔ stage.2.step = 0
  written : 3 ≤ stage.2.step → 3 ≤ stage.1.step
  waited : 4 ≤ stage.1.step → stage.2.step = 6

/-- The parent waits for the child or has ended. The child has not been born, waits for the message, or has
ended. -/
def Waits (stage : ParentStage × ChildStage) : Role → Prop
  | .parent => stage.1.step = 6 ∨ stage.1.step = 3 ∧ stage.2.step ≠ 6
  | .child => stage.2.step = 0 ∨ stage.2.step = 6 ∨ stage.2.step = 2 ∧ stage.1.step ≤ 2

def rank (stage : ParentStage × ChildStage) : Nat := 12 - stage.1.step - stage.2.step

theorem ParentStage.step_le (stage : ParentStage) : stage.step ≤ 6 := by
  cases stage <;> decide

theorem ChildStage.step_le (stage : ChildStage) : stage.step ≤ 6 := by
  cases stage <;> decide

/-- The parent goes on after the fork, and behind its wait only when the child has exited. -/
theorem Valid.parent {parent later : ParentStage} {child : ChildStage} (valid : Valid (parent, child))
    (next : later.step = parent.step + 1) (forked : parent.step ≠ 0) (waited : parent.step ≠ 3 ∨ child.step = 6) :
    Valid (later, child) ∧ rank (later, child) < rank (parent, child) := by
  obtain ⟨born, written, exited⟩ := valid
  have parentBound := later.step_le
  have childBound := child.step_le
  refine ⟨⟨?_, ?_, ?_⟩, ?_⟩ <;> simp only [rank] at * <;> omega

/-- The child goes on after its birth, and behind its read only when the parent has written. -/
theorem Valid.child {parent : ParentStage} {child later : ChildStage} (valid : Valid (parent, child))
    (next : later.step = child.step + 1) (born : child.step ≠ 0) (written : child.step ≠ 2 ∨ 3 ≤ parent.step) :
    Valid (parent, later) ∧ rank (parent, later) < rank (parent, child) := by
  obtain ⟨forked, before, waited⟩ := valid
  have parentBound := parent.step_le
  have childBound := later.step_le
  refine ⟨⟨?_, ?_, ?_⟩, ?_⟩ <;> simp only [rank] at * <;> omega

theorem valid_start : Valid (.fork, .unborn) := by
  constructor <;> simp [ParentStage.step, ChildStage.step]

/-- Both processes wait only when both have ended. -/
theorem ends_of_waits {stage : ParentStage × ChildStage} (valid : Valid stage) (waits : ∀ name, Waits stage name) :
    stage = (.ended, .ended) := by
  obtain ⟨parent, child⟩ := stage
  obtain ⟨forked, written, waited⟩ := valid
  have parentWaits := waits .parent
  have childWaits := waits .child
  simp only [Waits] at parentWaits childWaits forked written waited
  have parentEnded : parent.step = 6 := by omega
  have childEnded : child.step = 6 := by omega
  cases parent <;> cases child <;> simp [ParentStage.step, ChildStage.step] at parentEnded childEnded ⊢

section
variable (env : Environment 1) (op message : Text)

section Parent
variable (child : ChildStage)

theorem parent_closeRead : fire (system2 env op message) (chart env op message (.closeRead, child)) .parent =
    some (chart env op message (.writeMessage, child)) := by
  refine (fire_close rfl rfl (find_fd env op message .read)).trans ?_
  simp [chart, parentAt, sent]

theorem parent_writeMessage (reader : (childAt env op message child).opened (only, .read) = true)
    (behind : taken child = 0) :
    fire (system2 env op message) (chart env op message (.writeMessage, child)) .parent =
      some (chart env op message (.wait, child)) := by
  refine (fire_write rfl rfl (find_fd env op message .write) (by simp [chart, parentAt])
    (payload_ne_nil env message)
    ?_ ?_).trans ?_
  · simp [chart, reader]
  · have capacity := env.atomic
    simp only [chart, sent, Config.pair_content, onePipe_apply, List.drop_nil, List.length_nil,
      length_payload, system2]
    omega
  · simp [chart, parentAt, sent, behind]

theorem parent_wait : fire (system2 env op message) (chart env op message (.wait, .ended)) .parent =
    some (chart env op message (.printDone, .ended)) := by
  refine (fire_wait rfl rfl rfl).trans ?_
  simp [chart, parentAt, sent]

theorem parent_waits {child : ChildStage} (born : child.step ≠ 0) (runs : child.step ≠ 6) :
    fire (system2 env op message) (chart env op message (.wait, child)) .parent = none := by
  cases child with
  | unborn => exact absurd rfl born
  | ended => exact absurd rfl runs
  | warnRead | readBuff | closeRead | printResult | leave => exact fire_wait_running rfl rfl rfl

theorem parent_printDone : fire (system2 env op message) (chart env op message (.printDone, child)) .parent =
    some (chart env op message (.leave, child)) := by
  refine (fire_print rfl rfl).trans ?_
  simp [chart, parentAt, sent]

theorem parent_leave : fire (system2 env op message) (chart env op message (.leave, child)) .parent =
    some (chart env op message (.ended, child)) := by
  refine (fire_exit rfl rfl).trans ?_
  simp [chart, parentAt, sent]

end Parent

section Child
variable (parent : ParentStage)

theorem child_warnRead : fire (system2 env op message) (chart env op message (parent, .warnRead)) .child =
    some (chart env op message (parent, .readBuff)) := by
  refine (fire_print rfl rfl).trans ?_
  simp [chart, childAt, taken, warning]

theorem child_readBuff (written : sent env message parent = payload env message) :
    fire (system2 env op message) (chart env op message (parent, .readBuff)) .child =
      some (chart env op message (parent, .closeRead)) := by
  have available : (chart env op message (parent, .readBuff)).content only ≠ [] := by
    simp [chart, taken, written, payload_ne_nil]
  refine (fire_read rfl rfl (find_fd env op message .read) (by simp [chart, childAt]) available).trans ?_
  simp [chart, childAt, taken, written, fill_payload, chunk]

/-- The child waits at the empty pipe while the parent holds the write end. -/
theorem child_waits (empty : sent env message parent = []) (writer : (parentAt parent).opened (only, .write) = true) :
    fire (system2 env op message) (chart env op message (parent, .readBuff)) .child = none := by
  refine fire_read_empty rfl rfl (find_fd env op message .read) (by simp [chart, childAt]) ?_
    (by simp [chart, writer])
  simp [chart, empty]

theorem child_closeRead (short : message.bytes.length < 256) :
    fire (system2 env op message) (chart env op message (parent, .closeRead)) .child =
      some (chart env op message (parent, .printResult)) := by
  have found : afterRead op.bytes (chunk env message) = .printResult op.bytes (caesar op.bytes message.bytes) := by
    simp only [afterRead, chunk, string_payload env message short]
  refine (fire_close rfl rfl (find_fd env op message .read)).trans ?_
  simp [chart, childAt, taken, found]

theorem child_printResult : fire (system2 env op message) (chart env op message (parent, .printResult)) .child =
    some (chart env op message (parent, .leave)) := by
  refine (fire_print rfl rfl).trans ?_
  simp [chart, childAt, taken, output]

theorem child_leave : fire (system2 env op message) (chart env op message (parent, .leave)) .child =
    some (chart env op message (parent, .ended)) := by
  refine (fire_exit rfl rfl).trans ?_
  simp [chart, childAt, taken]

end Child

end

section Places
variable {env : Environment 1} {op message : Text}

/-- The child holds the read end until it has read. -/
theorem reader_of_step {child : ChildStage} (born : child.step ≠ 0) (before : child.step ≤ 2) :
    (childAt env op message child).opened (only, .read) = true := by
  cases child with
  | unborn => exact absurd rfl born
  | closeRead | printResult | leave | ended => exact absurd before (by decide)
  | warnRead | readBuff => simp [childAt]

theorem writer_of_step {parent : ParentStage} (before : parent.step ≤ 5) :
    (parentAt parent).opened (only, .write) = true := by
  cases parent with
  | ended => exact absurd before (by decide)
  | fork | closeRead | writeMessage | wait | printDone | leave => simp [parentAt]

theorem taken_of_step {child : ChildStage} : child.step ≤ 2 → taken child = 0 := by
  cases child <;> simp [ChildStage.step, taken]

theorem sent_of_step {parent : ParentStage} : parent.step ≤ 2 → sent env message parent = [] := by
  cases parent <;> simp [ParentStage.step, sent]

theorem sent_eq {parent : ParentStage} : 3 ≤ parent.step → sent env message parent = payload env message := by
  cases parent <;> simp [ParentStage.step, sent]

end Places

section
variable (env : Environment 1) {op message : Text}

/-- In each valid stage the parent waits or goes to its next stage. -/
theorem parent_moves (accepted : sameOp op.bytes "encrypt" = true ∨ sameOp op.bytes "decrypt" = true)
    {stage : ParentStage × ChildStage} (valid : Valid stage) :
    (fire (system2 env op message) (chart env op message stage) .parent = none ∧ Waits stage .parent) ∨
      ∃ later, fire (system2 env op message) (chart env op message stage) .parent =
        some (chart env op message later) ∧
        Valid later ∧ rank later < rank stage := by
  obtain ⟨parent, child⟩ := stage
  have facts := valid
  obtain ⟨forked, written, waited⟩ := facts
  cases parent with
  | fork =>
      have unborn : child = .unborn := by
        cases child <;> simp [ParentStage.step, ChildStage.step] at forked ⊢
      subst unborn
      exact Or.inr ⟨_, parent_fork env op message
        accepted, by constructor <;> simp [ParentStage.step, ChildStage.step],
        by decide⟩
  | closeRead =>
      exact Or.inr ⟨_, parent_closeRead env op message child, valid.parent rfl (by decide) (Or.inl (by decide))⟩
  | writeMessage =>
      have few : child.step ≤ 2 := by
        simp only [ParentStage.step] at written
        omega
      have born : child.step ≠ 0 := by
        simpa [ParentStage.step] using forked
      exact Or.inr ⟨_, parent_writeMessage env op message child (reader_of_step born few) (taken_of_step few),
        valid.parent rfl (by decide) (Or.inl (by decide))⟩
  | wait =>
      by_cases exited : child.step = 6
      · have ended : child = .ended := by
          cases child <;> simp [ChildStage.step] at exited ⊢
        subst ended
        exact Or.inr ⟨_, parent_wait env op message, valid.parent rfl (by decide) (Or.inr rfl)⟩
      · exact Or.inl ⟨parent_waits env op message (by simpa [ParentStage.step] using forked) exited,
          Or.inr ⟨rfl, exited⟩⟩
  | printDone =>
      exact Or.inr ⟨_, parent_printDone env op message child, valid.parent rfl (by decide) (Or.inl (by decide))⟩
  | leave => exact Or.inr ⟨_, parent_leave env op message child, valid.parent rfl (by decide) (Or.inl (by decide))⟩
  | ended => exact Or.inl ⟨fire_idle (by simp [chart, parentAt]), Or.inl rfl⟩

/-- In each valid stage the child waits or goes to its next stage. -/
theorem child_moves (short : message.bytes.length < 256) {stage : ParentStage × ChildStage} (valid : Valid stage) :
    (fire (system2 env op message) (chart env op message stage) .child = none ∧ Waits stage .child) ∨
      ∃ later, fire (system2 env op message) (chart env op message stage) .child =
        some (chart env op message later) ∧
        Valid later ∧ rank later < rank stage := by
  obtain ⟨parent, child⟩ := stage
  have facts := valid
  obtain ⟨forked, written, waited⟩ := facts
  cases child with
  | unborn => exact Or.inl ⟨fire_idle (by simp [chart, childAt]), Or.inl rfl⟩
  | warnRead =>
      exact Or.inr ⟨_, child_warnRead env op message parent, valid.child rfl (by decide) (Or.inl (by decide))⟩
  | readBuff =>
      by_cases ready : 3 ≤ parent.step
      · exact Or.inr ⟨_, child_readBuff env op message parent (sent_eq ready),
          valid.child rfl (by decide) (Or.inr ready)⟩
      · have early : parent.step ≤ 2 := by omega
        exact Or.inl ⟨child_waits env op message parent (sent_of_step early) (writer_of_step (by omega)),
          Or.inr (Or.inr ⟨rfl, early⟩)⟩
  | closeRead =>
      exact Or.inr ⟨_, child_closeRead env op message parent short,
        valid.child rfl (by decide) (Or.inl (by decide))⟩
  | printResult =>
      exact Or.inr ⟨_, child_printResult env op message parent, valid.child rfl (by decide) (Or.inl (by decide))⟩
  | leave => exact Or.inr ⟨_, child_leave env op message parent, valid.child rfl (by decide) (Or.inl (by decide))⟩
  | ended => exact Or.inl ⟨fire_idle (by simp [chart, childAt]), Or.inr (Or.inl rfl)⟩

/-- In the second step `caesar.bin` prints the result for the message. -/
theorem delivers (accepted : sameOp op.bytes "encrypt" = true ∨ sameOp op.bytes "decrypt" = true)
    (short : message.bytes.length < 256) :
    Delivers (system2 env op message) start2 fun config =>
      texts (config.process .child).output = [caesar op.bytes message.bytes] := by
  have charted : Charted (chart env op message) Valid Waits rank (system2 env op message) := by
    intro stage valid name
    cases name with
    | parent => exact parent_moves env accepted valid
    | child => exact child_moves env short valid
  rw [start_eq env op message]
  exact (charted.delivers_iff valid_start fun _ valid waits => ends_of_waits valid waits).mpr rfl

end

end OSLabs.Caesar.OnePipe
