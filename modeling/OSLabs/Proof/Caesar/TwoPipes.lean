import OSLabs.Proof.Caesar.Messages
import OSLabs.Proof.Pipe.Pair

namespace OSLabs.Caesar.TwoPipes

open Transition Pipe Stdio

/-- The parent reaches these stages one after the other. -/
inductive ParentStage where
  | fork
  | closeRead
  | closeBackWrite
  | writeMessage
  | readBack
  | printBack
  | closeBack
  | closeWrite
  | wait
  | printDone
  | leave
  | ended

/-- The child reaches these stages one after the other. -/
inductive ChildStage where
  | unborn
  | warnPipes
  | readMessage
  | closeMessage
  | writeResult
  | closeWrite
  | leave
  | ended

def ParentStage.step : ParentStage → Nat
  | .fork => 0
  | .closeRead => 1
  | .closeBackWrite => 2
  | .writeMessage => 3
  | .readBack => 4
  | .printBack => 5
  | .closeBack => 6
  | .closeWrite => 7
  | .wait => 8
  | .printDone => 9
  | .leave => 10
  | .ended => 11

def ChildStage.step : ChildStage → Nat
  | .unborn => 0
  | .warnPipes => 1
  | .readMessage => 2
  | .closeMessage => 3
  | .writeResult => 4
  | .closeWrite => 5
  | .leave => 6
  | .ended => 7

section
variable (env : Environment 2) (op message : Text)

/-- The result with its end, as the child sends it. -/
def reply : List UInt8 := caesar op.bytes message.bytes ++ [0]

def received : Line := .received (caesar op.bytes message.bytes)

def parentAt : ParentStage → Process 2 (Place Step3Place) Line
  | .fork => .at (.parent .fork) [] [] []
  | .closeRead => .at (.parent .closeRead) [] [] []
  | .closeBackWrite => .at (.parent .closeBackWrite) [(first, .read)] [] []
  | .writeMessage => .at (.parent .writeMessage) [(second, .write), (first, .read)] [] []
  | .readBack => .at (.parent .readBack) [(second, .write), (first, .read)] [] []
  | .printBack => .at (.parent (.printBack (fill env.buffer (reply op message)))) [(second, .write), (first, .read)] []
      [reply op message]
  | .closeBack => .at (.parent .closeBack) [(second, .write), (first, .read)] [received op message] [reply op message]
  | .closeWrite => .at (.parent .closeWrite) [(second, .read), (second, .write), (first, .read)] [received op message]
      [reply op message]
  | .wait => .at (.parent .wait) [(first, .write), (second, .read), (second, .write), (first, .read)] [received op message]
      [reply op message]
  | .printDone => .at (.parent .printDone) [(first, .write), (second, .read), (second, .write), (first, .read)] [received op message]
      [reply op message]
  | .leave => .at (.parent .leave) [(first, .write), (second, .read), (second, .write), (first, .read)] [received op message, .done]
      [reply op message]
  | .ended => .ended 0 [received op message, .done] [reply op message]

/-- The bytes that the child reads. -/
def chunk : List UInt8 := (payload env message).take 256

def warning : Line := .pipesMode op.bytes (sendFd env .read) (backFd env .write)

def childAt : ChildStage → Process 2 (Place Step3Place) Line
  | .unborn => .unborn
  | .warnPipes => .at (.child (.warnPipes op.bytes (sendFd env .read) (backFd env .write))) [] [] []
  | .readMessage =>
      .at (.child (.readMessage op.bytes (sendFd env .read) (backFd env .write))) [] [warning env op] []
  | .closeMessage =>
      .at (.child (.closeMessage op.bytes (sendFd env .read) (backFd env .write) (chunk env message))) []
      [warning env op] [chunk env message]
  | .writeResult => .at (.child (.writeResult (backFd env .write) (caesar op.bytes message.bytes))) [(first, .read)]
      [warning env op] [chunk env message]
  | .closeWrite => .at (.child (.closeWrite (backFd env .write))) [(first, .read)] [warning env op] [chunk env message]
  | .leave => .at (.child (.leave 0)) [(second, .write), (first, .read)] [warning env op] [chunk env message]
  | .ended => .ended 0 [warning env op] [chunk env message]

/-- The bytes that the parent has written. -/
def sent : ParentStage → List UInt8
  | .fork | .closeRead | .closeBackWrite | .writeMessage => []
  | .readBack | .printBack | .closeBack | .closeWrite | .wait | .printDone | .leave | .ended => payload env message

/-- The number of bytes that the child has read. -/
def taken : ChildStage → Nat
  | .unborn | .warnPipes | .readMessage => 0
  | .closeMessage | .writeResult | .closeWrite | .leave | .ended => 256

/-- The bytes that the child has written. -/
def answered : ChildStage → List UInt8
  | .unborn | .warnPipes | .readMessage | .closeMessage | .writeResult => []
  | .closeWrite | .leave | .ended => reply op message

/-- The number of bytes that the parent has read. -/
def got : ParentStage → Nat
  | .fork | .closeRead | .closeBackWrite | .writeMessage | .readBack => 0
  | .printBack | .closeBack | .closeWrite | .wait | .printDone | .leave | .ended => 1000

/-- The configuration of a stage. Each pipe holds what has been written but not been read. -/
def chart (stage : ParentStage × ChildStage) : Config 2 Role (Place Step3Place) Line :=
  .pair (twoPipes ((sent env message stage.1).drop (taken stage.2))
    ((answered op message stage.2).drop (got stage.1)))
    (parentAt env op message stage.1) (childAt env op message stage.2)

theorem find_sendFd (side : Side) : (system3 env op message).descriptors.find (sendFd env side) = some (first, side) :=
  env.descriptors.find_number (first, side)

theorem find_backFd (side : Side) : (system3 env op message).descriptors.find (backFd env side) = some (second, side) :=
  env.descriptors.find_number (second, side)

theorem start_eq : start3 = chart env op message (.fork, .unborn) := by
  simp only [chart, sent, answered, List.drop_nil, twoPipes_nil]
  exact Config.initial_eq_pair _

theorem length_reply : (reply op message).length = message.bytes.length + 1 := by
  rw [reply, List.length_append, length_caesar, List.length_singleton]

theorem parent_fork (accepted : sameOp op.bytes "encrypt" = true ∨ sameOp op.bytes "decrypt" = true) :
    fire (system3 env op message) (chart env op message (.fork, .unborn)) .parent =
      some (chart env op message (.closeRead, .warnPipes)) := by
  have entry := caesarBin_descriptors accepted (env.descriptors.fits (first, .read)) (env.descriptors.fits (second, .write))
  refine (fire_fork rfl rfl).trans ?_
  simp [chart, parentAt, childAt, sent, taken, answered, sendFd, backFd, entry]

end

/-- The child lives from the fork on, and each side reads only after the other has written.
The child has exited when the parent goes on after its wait. -/
structure Valid (stage : ParentStage × ChildStage) : Prop where
  forked : stage.1.step = 0 ↔ stage.2.step = 0
  written : 3 ≤ stage.2.step → 4 ≤ stage.1.step
  replied : 5 ≤ stage.1.step → 5 ≤ stage.2.step
  waited : 9 ≤ stage.1.step → stage.2.step = 7

/-- The parent waits for the reply or for the child, or it has ended.
The child has not been born, waits for the message, or has ended. -/
def Waits (stage : ParentStage × ChildStage) : Role → Prop
  | .parent => stage.1.step = 11 ∨ stage.1.step = 4 ∧ stage.2.step ≤ 4 ∨ stage.1.step = 8 ∧ stage.2.step ≠ 7
  | .child => stage.2.step = 0 ∨ stage.2.step = 7 ∨ stage.2.step = 2 ∧ stage.1.step ≤ 3

def rank (stage : ParentStage × ChildStage) : Nat := 18 - stage.1.step - stage.2.step

theorem ParentStage.step_le (stage : ParentStage) : stage.step ≤ 11 := by
  cases stage <;> decide

theorem ChildStage.step_le (stage : ChildStage) : stage.step ≤ 7 := by
  cases stage <;> decide

/-- The parent goes on after the fork, behind its read only when the child has replied,
and behind its wait only when the child has exited. -/
theorem Valid.parent {parent later : ParentStage} {child : ChildStage} (valid : Valid (parent, child))
    (next : later.step = parent.step + 1) (forked : parent.step ≠ 0) (replied : parent.step ≠ 4 ∨ 5 ≤ child.step)
    (waited : parent.step ≠ 8 ∨ child.step = 7) :
    Valid (later, child) ∧ rank (later, child) < rank (parent, child) := by
  obtain ⟨born, written, answered, exited⟩ := valid
  have parentBound := later.step_le
  have childBound := child.step_le
  refine ⟨⟨?_, ?_, ?_, ?_⟩, ?_⟩ <;> simp only [rank] at * <;> omega

/-- The child goes on after its birth, and behind its read only when the parent has written. -/
theorem Valid.child {parent : ParentStage} {child later : ChildStage} (valid : Valid (parent, child))
    (next : later.step = child.step + 1) (born : child.step ≠ 0) (written : child.step ≠ 2 ∨ 4 ≤ parent.step) :
    Valid (parent, later) ∧ rank (parent, later) < rank (parent, child) := by
  obtain ⟨forked, before, replied, waited⟩ := valid
  have parentBound := parent.step_le
  have childBound := later.step_le
  refine ⟨⟨?_, ?_, ?_, ?_⟩, ?_⟩ <;> simp only [rank] at * <;> omega

theorem Valid.parent_free {parent later : ParentStage} {child : ChildStage} (valid : Valid (parent, child))
    (next : later.step = parent.step + 1) (free : parent.step ≠ 0 ∧ parent.step ≠ 4 ∧ parent.step ≠ 8) :
    Valid (later, child) ∧ rank (later, child) < rank (parent, child) :=
  valid.parent next free.1 (Or.inl free.2.1) (Or.inl free.2.2)

theorem valid_start : Valid (.fork, .unborn) := by
  constructor <;> simp [ParentStage.step, ChildStage.step]

/-- Both processes wait only when both have ended. -/
theorem ends_of_waits {stage : ParentStage × ChildStage} (valid : Valid stage) (waits : ∀ name, Waits stage name) :
    stage = (.ended, .ended) := by
  obtain ⟨parent, child⟩ := stage
  obtain ⟨forked, written, replied, waited⟩ := valid
  have parentWaits := waits .parent
  have childWaits := waits .child
  simp only [Waits] at parentWaits childWaits forked written replied waited
  have parentEnded : parent.step = 11 := by omega
  have childEnded : child.step = 7 := by omega
  cases parent <;> cases child <;> simp [ParentStage.step, ChildStage.step] at parentEnded childEnded ⊢

section
variable (env : Environment 2) (op message : Text)

section Parent
variable (child : ChildStage)

theorem parent_closeRead : fire (system3 env op message) (chart env op message (.closeRead, child)) .parent =
    some (chart env op message (.closeBackWrite, child)) := by
  refine (fire_close rfl rfl (find_sendFd env op message .read)).trans ?_
  simp [chart, parentAt, sent, got]

theorem parent_closeBackWrite : fire (system3 env op message)
    (chart env op message (.closeBackWrite, child)) .parent =
    some (chart env op message (.writeMessage, child)) := by
  refine (fire_close rfl rfl (find_backFd env op message .write)).trans ?_
  simp [chart, parentAt, sent, got]

theorem parent_writeMessage (reader : (childAt env op message child).opened (first, .read) = true)
    (behind : taken child = 0) :
    fire (system3 env op message) (chart env op message (.writeMessage, child)) .parent =
      some (chart env op message (.readBack, child)) := by
  refine (fire_write rfl rfl (find_sendFd env op message .write) (by simp [chart, parentAt])
    (payload_ne_nil env message)
    ?_ ?_).trans ?_
  · simp [chart, reader]
  · have capacity := env.atomic
    simp only [chart, sent, Config.pair_content, twoPipes_first, List.drop_nil, List.length_nil,
      length_payload, system3]
    omega
  · simp [chart, parentAt, sent, got, behind]

theorem parent_readBack (short : message.bytes.length < 256)
    (written : answered op message child = reply op message) :
    fire (system3 env op message) (chart env op message (.readBack, child)) .parent =
      some (chart env op message (.printBack, child)) := by
  have available : (chart env op message (.readBack, child)).content second ≠ [] := by
    refine List.ne_nil_of_length_pos ?_
    simp [chart, got, written, length_reply]
  have whole : (reply op message).take 1000 = reply op message :=
    List.take_of_length_le (by rw [length_reply]; omega)
  refine (fire_read rfl rfl (find_backFd env op message .read) (by simp [chart, parentAt]) available).trans ?_
  simp [chart, parentAt, sent, got, written, whole]

/-- The parent waits for the reply while the child holds the write end. -/
theorem parent_waitsReply {child : ChildStage} (before : answered op message child = [])
    (writer : (childAt env op message child).opened (second, .write) = true) :
    fire (system3 env op message) (chart env op message (.readBack, child)) .parent = none := by
  refine fire_read_empty rfl rfl (find_backFd env op message .read) (by simp [chart, parentAt]) ?_
    (by simp [chart, writer])
  simp [chart, before]

theorem parent_printBack : fire (system3 env op message) (chart env op message (.printBack, child)) .parent =
    some (chart env op message (.closeBack, child)) := by
  have instr : (system3 env op message).code .parent (.parent (.printBack (fill env.buffer (reply op message)))) =
      .print (received op message) (.parent .closeBack) := by
    simp only [system3, code3, step3, reply, string_reply env (clean_caesar message.clean), received]
  refine (fire_print rfl instr).trans ?_
  simp [chart, parentAt, sent, got]

theorem parent_closeBack : fire (system3 env op message) (chart env op message (.closeBack, child)) .parent =
    some (chart env op message (.closeWrite, child)) := by
  refine (fire_close rfl rfl (find_backFd env op message .read)).trans ?_
  simp [chart, parentAt, sent, got]

theorem parent_closeWrite : fire (system3 env op message) (chart env op message (.closeWrite, child)) .parent =
    some (chart env op message (.wait, child)) := by
  refine (fire_close rfl rfl (find_sendFd env op message .write)).trans ?_
  simp [chart, parentAt, sent, got]

theorem parent_wait : fire (system3 env op message) (chart env op message (.wait, .ended)) .parent =
    some (chart env op message (.printDone, .ended)) := by
  refine (fire_wait rfl rfl rfl).trans ?_
  simp [chart, parentAt, sent, got]

theorem parent_waits {child : ChildStage} (born : child.step ≠ 0) (runs : child.step ≠ 7) :
    fire (system3 env op message) (chart env op message (.wait, child)) .parent = none := by
  cases child with
  | unborn => exact absurd rfl born
  | ended => exact absurd rfl runs
  | warnPipes | readMessage | closeMessage | writeResult | closeWrite | leave =>
      exact fire_wait_running rfl rfl rfl

theorem parent_printDone : fire (system3 env op message) (chart env op message (.printDone, child)) .parent =
    some (chart env op message (.leave, child)) := by
  refine (fire_print rfl rfl).trans ?_
  simp [chart, parentAt, sent, got]

theorem parent_leave : fire (system3 env op message) (chart env op message (.leave, child)) .parent =
    some (chart env op message (.ended, child)) := by
  refine (fire_exit rfl rfl).trans ?_
  simp [chart, parentAt, sent, got]

end Parent

section Child
variable (parent : ParentStage)

theorem child_warnPipes : fire (system3 env op message) (chart env op message (parent, .warnPipes)) .child =
    some (chart env op message (parent, .readMessage)) := by
  refine (fire_print rfl rfl).trans ?_
  simp [chart, childAt, taken, answered, warning]

theorem child_readMessage (written : sent env message parent = payload env message) :
    fire (system3 env op message) (chart env op message (parent, .readMessage)) .child =
      some (chart env op message (parent, .closeMessage)) := by
  have available : (chart env op message (parent, .readMessage)).content first ≠ [] := by
    simp [chart, taken, written, payload_ne_nil]
  refine (fire_read rfl rfl (find_sendFd env op message .read) (by simp [chart, childAt]) available).trans ?_
  simp [chart, childAt, taken, answered, written, fill_payload, chunk]

/-- The child waits at the empty pipe while the parent holds the write end. -/
theorem child_waits (empty : sent env message parent = [])
    (writer : (parentAt env op message parent).opened (first, .write) = true) :
    fire (system3 env op message) (chart env op message (parent, .readMessage)) .child = none := by
  refine fire_read_empty rfl rfl (find_sendFd env op message .read) (by simp [chart, childAt]) ?_
    (by simp [chart, writer])
  simp [chart, empty]

theorem child_closeMessage (short : message.bytes.length < 256) :
    fire (system3 env op message) (chart env op message (parent, .closeMessage)) .child =
      some (chart env op message (parent, .writeResult)) := by
  have found : afterMessage op.bytes (backFd env .write) (chunk env message) =
      .writeResult (backFd env .write) (caesar op.bytes message.bytes) := by
    simp only [afterMessage, chunk, string_payload env message short]
  refine (fire_close rfl rfl (find_sendFd env op message .read)).trans ?_
  simp [chart, childAt, taken, answered, found]

theorem child_writeResult (short : message.bytes.length < 256)
    (reader : (parentAt env op message parent).opened (second, .read) = true) (behind : got parent = 0) :
    fire (system3 env op message) (chart env op message (parent, .writeResult)) .child =
      some (chart env op message (parent, .closeWrite)) := by
  have some' : reply op message ≠ [] := List.ne_nil_of_length_pos (by rw [length_reply]; omega)
  refine (fire_write rfl rfl (find_backFd env op message .write) (by simp [chart, childAt]) some' ?_ ?_).trans ?_
  · simp [chart, reader]
  · have capacity := env.atomic
    simp only [chart, answered, Config.pair_content, twoPipes_second, List.drop_nil, List.length_nil,
      length_reply, system3]
    omega
  · simp [chart, childAt, taken, answered, behind, reply]

theorem child_closeWrite : fire (system3 env op message) (chart env op message (parent, .closeWrite)) .child =
    some (chart env op message (parent, .leave)) := by
  refine (fire_close rfl rfl (find_backFd env op message .write)).trans ?_
  simp [chart, childAt, taken, answered]

theorem child_leave : fire (system3 env op message) (chart env op message (parent, .leave)) .child =
    some (chart env op message (parent, .ended)) := by
  refine (fire_exit rfl rfl).trans ?_
  simp [chart, childAt, taken, answered]

end Child

end

section Places
variable {env : Environment 2} {op message : Text}

/-- The child holds the read end until it has read. -/
theorem reader_of_step {child : ChildStage} (born : child.step ≠ 0) (before : child.step ≤ 2) :
    (childAt env op message child).opened (first, .read) = true := by
  cases child with
  | unborn => exact absurd rfl born
  | closeMessage | writeResult | closeWrite | leave | ended => exact absurd before (by decide)
  | warnPipes | readMessage => simp [childAt]

/-- The child holds the write end until it has replied. -/
theorem replier_of_step {child : ChildStage} (born : child.step ≠ 0) (before : child.step ≤ 4) :
    (childAt env op message child).opened (second, .write) = true := by
  cases child with
  | unborn => exact absurd rfl born
  | closeWrite | leave | ended => exact absurd before (by decide)
  | warnPipes | readMessage | closeMessage | writeResult => simp [childAt]

/-- The parent holds the ends that it uses until it has read the reply. -/
theorem holds_of_step {parent : ParentStage} (before : parent.step ≤ 5) :
    (parentAt env op message parent).opened (first, .write) = true ∧
      (parentAt env op message parent).opened (second, .read) = true := by
  cases parent with
  | closeBack | closeWrite | wait | printDone | leave | ended => exact absurd before (by decide)
  | fork | closeRead | closeBackWrite | writeMessage | readBack | printBack => simp [parentAt]

theorem taken_of_step {child : ChildStage} : child.step ≤ 2 → taken child = 0 := by
  cases child <;> simp [ChildStage.step, taken]

theorem sent_of_step {parent : ParentStage} : parent.step ≤ 3 → sent env message parent = [] := by
  cases parent <;> simp [ParentStage.step, sent]

theorem sent_eq {parent : ParentStage} : 4 ≤ parent.step → sent env message parent = payload env message := by
  cases parent <;> simp [ParentStage.step, sent]

theorem got_of_step {parent : ParentStage} : parent.step ≤ 4 → got parent = 0 := by
  cases parent <;> simp [ParentStage.step, got]

theorem answered_of_step {child : ChildStage} : child.step ≤ 4 → answered op message child = [] := by
  cases child <;> simp [ChildStage.step, answered]

theorem answered_eq {child : ChildStage} : 5 ≤ child.step → answered op message child = reply op message := by
  cases child <;> simp [ChildStage.step, answered]

end Places

section
variable (env : Environment 2) {op message : Text} (short : message.bytes.length < 256)

include short

/-- In each valid stage the parent waits or goes to its next stage. -/
theorem parent_moves (accepted : sameOp op.bytes "encrypt" = true ∨ sameOp op.bytes "decrypt" = true)
    {stage : ParentStage × ChildStage} (valid : Valid stage) :
    (fire (system3 env op message) (chart env op message stage) .parent = none ∧ Waits stage .parent) ∨
      ∃ later, fire (system3 env op message) (chart env op message stage) .parent =
        some (chart env op message later) ∧
        Valid later ∧ rank later < rank stage := by
  obtain ⟨parent, child⟩ := stage
  have facts := valid
  obtain ⟨forked, written, replied, waited⟩ := facts
  cases parent with
  | fork =>
      have unborn : child = .unborn := by
        cases child <;> simp [ParentStage.step, ChildStage.step] at forked ⊢
      subst unborn
      exact Or.inr ⟨_, parent_fork env op message
        accepted, by constructor <;> simp [ParentStage.step, ChildStage.step],
        by decide⟩
  | closeRead => exact Or.inr ⟨_, parent_closeRead env op message child, valid.parent_free rfl (by decide)⟩
  | closeBackWrite =>
      exact Or.inr ⟨_, parent_closeBackWrite env op message child, valid.parent_free rfl (by decide)⟩
  | writeMessage =>
      have few : child.step ≤ 2 := by
        simp only [ParentStage.step] at written
        omega
      have born : child.step ≠ 0 := by
        simpa [ParentStage.step] using forked
      exact Or.inr ⟨_, parent_writeMessage env op message child (reader_of_step born few) (taken_of_step few),
        valid.parent_free rfl (by decide)⟩
  | readBack =>
      have born : child.step ≠ 0 := by
        simpa [ParentStage.step] using forked
      by_cases ready : 5 ≤ child.step
      · exact Or.inr ⟨_, parent_readBack env op message child short (answered_eq ready),
          valid.parent rfl (by decide) (Or.inr ready) (Or.inl (by decide))⟩
      · have early : child.step ≤ 4 := by omega
        exact Or.inl ⟨parent_waitsReply env op message (answered_of_step early) (replier_of_step born early),
          Or.inr (Or.inl ⟨rfl, early⟩)⟩
  | printBack => exact Or.inr ⟨_, parent_printBack env op message child, valid.parent_free rfl (by decide)⟩
  | closeBack => exact Or.inr ⟨_, parent_closeBack env op message child, valid.parent_free rfl (by decide)⟩
  | closeWrite => exact Or.inr ⟨_, parent_closeWrite env op message child, valid.parent_free rfl (by decide)⟩
  | wait =>
      by_cases exited : child.step = 7
      · have ended : child = .ended := by
          cases child <;> simp [ChildStage.step] at exited ⊢
        subst ended
        exact Or.inr ⟨_, parent_wait env op message,
          valid.parent rfl (by decide) (Or.inl (by decide)) (Or.inr rfl)⟩
      · exact Or.inl ⟨parent_waits env op message (by simpa [ParentStage.step] using forked) exited,
          Or.inr (Or.inr ⟨rfl, exited⟩)⟩
  | printDone => exact Or.inr ⟨_, parent_printDone env op message child, valid.parent_free rfl (by decide)⟩
  | leave => exact Or.inr ⟨_, parent_leave env op message child, valid.parent_free rfl (by decide)⟩
  | ended => exact Or.inl ⟨fire_idle (by simp [chart, parentAt]), Or.inl rfl⟩

/-- In each valid stage the child waits or goes to its next stage. -/
theorem child_moves {stage : ParentStage × ChildStage} (valid : Valid stage) :
    (fire (system3 env op message) (chart env op message stage) .child = none ∧ Waits stage .child) ∨
      ∃ later, fire (system3 env op message) (chart env op message stage) .child =
        some (chart env op message later) ∧
        Valid later ∧ rank later < rank stage := by
  obtain ⟨parent, child⟩ := stage
  have facts := valid
  obtain ⟨forked, written, replied, waited⟩ := facts
  cases child with
  | unborn => exact Or.inl ⟨fire_idle (by simp [chart, childAt]), Or.inl rfl⟩
  | warnPipes =>
      exact Or.inr ⟨_, child_warnPipes env op message parent, valid.child rfl (by decide) (Or.inl (by decide))⟩
  | readMessage =>
      by_cases ready : 4 ≤ parent.step
      · exact Or.inr ⟨_, child_readMessage env op message parent (sent_eq ready),
          valid.child rfl (by decide) (Or.inr ready)⟩
      · have early : parent.step ≤ 3 := by omega
        have held : (parentAt env op message parent).opened (first, .write) = true := (holds_of_step (by omega)).1
        exact Or.inl ⟨child_waits env op message parent (sent_of_step early) held, Or.inr (Or.inr ⟨rfl, early⟩)⟩
  | closeMessage =>
      exact Or.inr ⟨_, child_closeMessage env op message parent short,
        valid.child rfl (by decide) (Or.inl (by decide))⟩
  | writeResult =>
      have early : parent.step ≤ 4 := by
        simp only [ChildStage.step] at replied
        omega
      exact Or.inr ⟨_, child_writeResult env op message parent short (holds_of_step (by omega)).2
        (got_of_step early),
        valid.child rfl (by decide) (Or.inl (by decide))⟩
  | closeWrite =>
      exact Or.inr ⟨_, child_closeWrite env op message parent, valid.child rfl (by decide) (Or.inl (by decide))⟩
  | leave => exact Or.inr ⟨_, child_leave env op message parent, valid.child rfl (by decide) (Or.inl (by decide))⟩
  | ended => exact Or.inl ⟨fire_idle (by simp [chart, childAt]), Or.inr (Or.inl rfl)⟩

/-- In the third step the parent prints the result for the message. -/
theorem delivers (accepted : sameOp op.bytes "encrypt" = true ∨ sameOp op.bytes "decrypt" = true) :
    Delivers (system3 env op message) start3 fun config =>
      texts (config.process .parent).output = [caesar op.bytes message.bytes] := by
  have charted : Charted (chart env op message) Valid Waits rank (system3 env op message) := by
    intro stage valid name
    cases name with
    | parent => exact parent_moves env short accepted valid
    | child => exact child_moves env short valid
  rw [start_eq env op message]
  exact (charted.delivers_iff valid_start fun _ valid waits => ends_of_waits valid waits).mpr rfl

end

end OSLabs.Caesar.TwoPipes
