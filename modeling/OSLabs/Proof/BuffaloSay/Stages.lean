import OSLabs.Construction.BuffaloSay
import OSLabs.Proof.Buffalo.Frames
import OSLabs.Proof.Pipe.Pair

namespace OSLabs.BuffaloSay

open Transition Pipe Stdio Buffalo

/-- The parent reaches these stages one after the other. -/
inductive ParentStage where
  | fork
  | closeRead
  | writeHandshake
  | writeMessage
  | wait
  | printCode
  | printFinished
  | leave
  | ended

/-- The child reaches these stages one after the other. -/
inductive ChildStage where
  | unborn
  | closeWrite
  | readHandshake
  | readMessage
  | printResult
  | closeRead
  | leave
  | ended

def ParentStage.step : ParentStage → Nat
  | .fork => 0
  | .closeRead => 1
  | .writeHandshake => 2
  | .writeMessage => 3
  | .wait => 4
  | .printCode => 5
  | .printFinished => 6
  | .leave => 7
  | .ended => 8

def ChildStage.step : ChildStage → Nat
  | .unborn => 0
  | .closeWrite => 1
  | .readHandshake => 2
  | .readMessage => 3
  | .printResult => 4
  | .closeRead => 5
  | .leave => 6
  | .ended => 7

section
variable (env : Environment) (message : Text)

/-- The numbers that the child has read from its arguments. -/
def readpipe : Int × Int := (env.fd .read, env.fd .write)

def handshake : List UInt8 := frame (ascii "secret handshake")

/-- The text that `printbuffalo` makes of the message. -/
def result : List UInt8 := cString 0 (printbuffalo env.ret message.bytes)

def exitCode : Int := (env.rand % 100 : Nat)

def parentAt : ParentStage → Process 1 Place Line
  | .fork => .at (.parent .fork) [] [] []
  | .closeRead => .at (.parent .closeRead) [] [] []
  | .writeHandshake => .at (.parent .writeHandshake) [(only, .read)] [] []
  | .writeMessage => .at (.parent .writeMessage) [(only, .read)] [] []
  | .wait => .at (.parent .wait) [(only, .read)] [] []
  | .printCode => .at (.parent (.printCode (exitCode env))) [(only, .read)] [] []
  | .printFinished => .at (.parent .printFinished) [(only, .read)] [.exitCode (exitCode env)] []
  | .leave => .at (.parent .leave) [(only, .read)] [.exitCode (exitCode env), .finished] []
  | .ended => .ended 0 [.exitCode (exitCode env), .finished] []

def childAt : ChildStage → Process 1 Place Line
  | .unborn => .unborn
  | .closeWrite => .at (.child (.closeWrite (readpipe env))) [] [] []
  | .readHandshake => .at (.child (.readHandshake (readpipe env))) [(only, .write)] [] []
  | .readMessage => .at (.child (.readMessage (readpipe env))) [(only, .write)] [] [handshake]
  | .printResult => .at (.child (.printResult (readpipe env) (fill cleared message.bytes))) [(only, .write)] []
      [handshake, message.bytes]
  | .closeRead => .at (.child (.closeRead (readpipe env))) [(only, .write)] [.buffalo (result env message)]
      [handshake, message.bytes]
  | .leave => .at (.child (.leave (exitCode env))) [(only, .read), (only, .write)] [.buffalo (result env message)]
      [handshake, message.bytes]
  | .ended => .ended (exitCode env) [.buffalo (result env message)] [handshake, message.bytes]

/-- The bytes that the parent has written. -/
def sent : ParentStage → List UInt8
  | .fork | .closeRead | .writeHandshake => []
  | .writeMessage => handshake
  | .wait | .printCode | .printFinished | .leave | .ended => handshake ++ message.bytes

/-- The number of bytes that the child has taken from the pipe. -/
def taken : ChildStage → Nat
  | .unborn | .closeWrite | .readHandshake => 0
  | .readMessage => 1000
  | .printResult | .closeRead | .leave | .ended => 1000 + message.bytes.length

/-- The configuration of a stage. The pipe holds what has been written but not been taken. -/
def chart (stage : ParentStage × ChildStage) : State :=
  .pair (onePipe ((sent message stage.1).drop (taken message stage.2))) (parentAt env stage.1)
    (childAt env message stage.2)

end

section
variable (env : Environment) (message : Text)

theorem find_fd (side : Side) : (system env message).descriptors.find (env.fd side) = some (only, side) :=
  env.descriptors.find_number (only, side)

theorem length_handshake : handshake.length = 1000 := length_frame

theorem start_eq : start = chart env message (.fork, .unborn) := Config.initial_eq_pair _

theorem buffalosay_argv : buffalosay (argv env) = .closeWrite (readpipe env) := by
  simp only [buffalosay, argv, readpipe, Environment.fd, atoi_decimalText _ (env.descriptors.fits _)]

theorem parent_fork : fire (system env message) (chart env message (.fork, .unborn)) .parent =
    some (chart env message (.closeRead, .closeWrite)) := by
  refine (fire_fork rfl rfl).trans ?_
  simp [chart, parentAt, childAt, sent, taken, buffalosay_argv]

end

/-- The child lives from the fork on, reads a frame only after it has been written,
and has exited when the parent goes on after its wait. -/
structure Valid (stage : ParentStage × ChildStage) : Prop where
  forked : stage.1.step = 0 ↔ stage.2.step = 0
  handshake : 3 ≤ stage.2.step → 3 ≤ stage.1.step
  message : 4 ≤ stage.2.step → 4 ≤ stage.1.step
  waited : 5 ≤ stage.1.step → stage.2.step = 7

/-- The parent waits for the child or has ended. The child has not been born, waits for bytes, or has ended. -/
def Waits (message : Text) (stage : ParentStage × ChildStage) : Role → Prop
  | .parent => stage.1.step = 8 ∨ stage.1.step = 4 ∧ stage.2.step ≠ 7
  | .child => stage.2.step = 0 ∨ stage.2.step = 7 ∨ stage.2.step = 2 ∧ stage.1.step ≤ 2 ∨
      stage.2.step = 3 ∧ (stage.1.step ≤ 3 ∨ message.bytes = [])

def rank (stage : ParentStage × ChildStage) : Nat := 15 - stage.1.step - stage.2.step

theorem ParentStage.step_le (stage : ParentStage) : stage.step ≤ 8 := by
  cases stage <;> decide

theorem ChildStage.step_le (stage : ChildStage) : stage.step ≤ 7 := by
  cases stage <;> decide

/-- The parent goes on after the fork, and behind its wait only when the child has exited. -/
theorem Valid.parent {parent later : ParentStage} {child : ChildStage} (valid : Valid (parent, child))
    (next : later.step = parent.step + 1) (forked : parent.step ≠ 0) (waited : parent.step ≠ 4 ∨ child.step = 7) :
    Valid (later, child) ∧ rank (later, child) < rank (parent, child) := by
  obtain ⟨born, handshake, message, exited⟩ := valid
  have parentBound := later.step_le
  have childBound := child.step_le
  refine ⟨⟨?_, ?_, ?_, ?_⟩, ?_⟩ <;> simp only [rank] at * <;> omega

/-- The child goes on after its birth, and behind a read only when the parent has written. -/
theorem Valid.child {parent : ParentStage} {child later : ChildStage} (valid : Valid (parent, child))
    (next : later.step = child.step + 1) (born : child.step ≠ 0) (handshake : child.step ≠ 2 ∨ 3 ≤ parent.step)
    (message : child.step ≠ 3 ∨ 4 ≤ parent.step) :
    Valid (parent, later) ∧ rank (parent, later) < rank (parent, child) := by
  obtain ⟨forked, before, written, waited⟩ := valid
  have parentBound := parent.step_le
  have childBound := later.step_le
  refine ⟨⟨?_, ?_, ?_, ?_⟩, ?_⟩ <;> simp only [rank] at * <;> omega

theorem Valid.child_free {parent : ParentStage} {child later : ChildStage} (valid : Valid (parent, child))
    (next : later.step = child.step + 1) (free : child.step ≠ 0 ∧ child.step ≠ 2 ∧ child.step ≠ 3) :
    Valid (parent, later) ∧ rank (parent, later) < rank (parent, child) :=
  valid.child next free.1 (Or.inl free.2.1) (Or.inl free.2.2)

section
variable (env : Environment) (message : Text)

section Parent
variable (child : ChildStage)

theorem parent_closeRead : fire (system env message) (chart env message (.closeRead, child)) .parent =
    some (chart env message (.writeHandshake, child)) := by
  refine (fire_close rfl rfl (find_fd env message .read)).trans ?_
  simp [chart, parentAt, sent]

theorem parent_writeHandshake (reader : (childAt env message child).opened (only, .read) = true)
    (behind : taken message child = 0) :
    fire (system env message) (chart env message (.writeHandshake, child)) .parent =
      some (chart env message (.writeMessage, child)) := by
  refine (fire_write rfl rfl (find_fd env message .write) (by simp [chart, parentAt]) frame_ne_nil ?_ ?_).trans ?_
  · simp [chart, reader]
  · have capacity := env.atomic
    simp only [chart, sent, Config.pair_content, onePipe_apply, List.drop_nil, List.length_nil,
      length_frame, system]
    omega
  · simp [chart, parentAt, sent, handshake, behind]

theorem parent_writeMessage (reader : (childAt env message child).opened (only, .read) = true)
    (some' : message.bytes ≠ [])
    (short : message.bytes.length ≤ 999) (behind : taken message child ≤ 1000) :
    fire (system env message) (chart env message (.writeMessage, child)) .parent =
      some (chart env message (.wait, child)) := by
  refine (fire_write rfl rfl (find_fd env message .write) (by simp [chart, parentAt]) some' ?_ ?_).trans ?_
  · simp [chart, reader]
  · have capacity := env.atomic
    simp only [chart, sent, Config.pair_content, onePipe_apply, List.length_drop, length_handshake, system]
    omega
  · have later : (handshake ++ message.bytes).drop (taken message child) =
        handshake.drop (taken message child) ++ message.bytes :=
      List.drop_append_of_le_length (by rw [length_handshake]; exact behind)
    simp [chart, parentAt, sent, later]

theorem parent_wait : fire (system env message) (chart env message (.wait, .ended)) .parent =
    some (chart env message (.printCode, .ended)) := by
  refine (fire_wait rfl rfl rfl).trans ?_
  simp [chart, parentAt, sent, report, exitCode]

theorem parent_printCode : fire (system env message) (chart env message (.printCode, child)) .parent =
    some (chart env message (.printFinished, child)) := by
  refine (fire_print rfl rfl).trans ?_
  simp [chart, parentAt, sent]

theorem parent_printFinished : fire (system env message) (chart env message (.printFinished, child)) .parent =
    some (chart env message (.leave, child)) := by
  refine (fire_print rfl rfl).trans ?_
  simp [chart, parentAt, sent]

theorem parent_leave : fire (system env message) (chart env message (.leave, child)) .parent =
    some (chart env message (.ended, child)) := by
  refine (fire_exit rfl rfl).trans ?_
  simp [chart, parentAt, sent]

end Parent

section Child
variable (parent : ParentStage)

theorem child_closeWrite : fire (system env message) (chart env message (parent, .closeWrite)) .child =
    some (chart env message (parent, .readHandshake)) := by
  refine (fire_close rfl rfl (find_fd env message .write)).trans ?_
  simp [chart, childAt, taken]

theorem child_readHandshake {behind : List UInt8} (written : sent message parent = handshake ++ behind) :
    fire (system env message) (chart env message (parent, .readHandshake)) .child =
      some (chart env message (parent, .readMessage)) := by
  have first : (sent message parent).take 1000 = handshake := by
    rw [written, List.take_left' length_handshake]
  have available : (chart env message (parent, .readHandshake)).content only ≠ [] := by
    simp [chart, taken, written, handshake, frame_ne_nil]
  refine (fire_read rfl rfl (find_fd env message .read) (by simp [chart, childAt]) available).trans ?_
  have accepted := asserthandshake_frame env.readbufferSize (show (ascii "secret handshake").length < 1000 by decide)
  simp [chart, childAt, taken, first, afterHandshake, handshake, accepted]

theorem child_readMessage (some' : message.bytes ≠ []) (short : message.bytes.length ≤ 999)
    (written : sent message parent = handshake ++ message.bytes) :
    fire (system env message) (chart env message (parent, .readMessage)) .child =
      some (chart env message (parent, .printResult)) := by
  have behind : (sent message parent).drop 1000 = message.bytes := by
    rw [written, List.drop_left' length_handshake]
  have available : (chart env message (parent, .readMessage)).content only ≠ [] := by
    simp [chart, taken, behind, some']
  have whole : message.bytes.take 1000 = message.bytes := List.take_of_length_le (by omega)
  have rest : message.bytes.drop 1000 = [] := List.drop_eq_nil_of_le (by omega)
  have none_left : (sent message parent).drop (1000 + message.bytes.length) = [] := by
    rw [← List.drop_drop, behind, List.drop_length]
  refine (fire_read rfl rfl (find_fd env message .read) (by simp [chart, childAt]) available).trans ?_
  simp [chart, childAt, taken, behind, whole, rest, none_left]

theorem child_printResult (short : message.bytes.length ≤ 999) :
    fire (system env message) (chart env message (parent, .printResult)) .child =
      some (chart env message (parent, .closeRead)) := by
  have instr : (system env message).code .child
      (.child (.printResult (readpipe env) (fill cleared message.bytes))) =
      .print (.buffalo (result env message)) (.child (.closeRead (readpipe env))) := by
    simp only [system, code, child, string_fill_cleared message.clean
      (show message.bytes.length < 1000 by omega), result]
  refine (fire_print rfl instr).trans ?_
  simp [chart, childAt, taken]

theorem child_closeRead : fire (system env message) (chart env message (parent, .closeRead)) .child =
    some (chart env message (parent, .leave)) := by
  refine (fire_close rfl rfl (find_fd env message .read)).trans ?_
  simp [chart, childAt, taken, exitCode]

theorem child_leave : fire (system env message) (chart env message (parent, .leave)) .child =
    some (chart env message (parent, .ended)) := by
  refine (fire_exit rfl rfl).trans ?_
  simp [chart, childAt, taken]

end Child

end

end OSLabs.BuffaloSay
