import OSLabs.Construction.BuffaloPipe
import OSLabs.Proof.Buffalo.Frames
import OSLabs.Proof.Pipe.Pair

namespace OSLabs.BuffaloPipe

open Transition Pipe Stdio Buffalo

/-- The parent reaches these stages one after the other. -/
inductive ParentStage where
  | fork
  | closeRead
  | closeWrite
  | writeMessage
  | writeHandshake
  | readReply
  | printReply
  | wait
  | printCode
  | printFinished
  | leave
  | ended

/-- The child reaches these stages one after the other. -/
inductive ChildStage where
  | unborn
  | closeWrite
  | closeRead
  | readMessage
  | readHandshake
  | writeResult
  | closeReadEnd
  | closeWriteEnd
  | leave
  | ended

def ParentStage.step : ParentStage → Nat
  | .fork => 0
  | .closeRead => 1
  | .closeWrite => 2
  | .writeMessage => 3
  | .writeHandshake => 4
  | .readReply => 5
  | .printReply => 6
  | .wait => 7
  | .printCode => 8
  | .printFinished => 9
  | .leave => 10
  | .ended => 11

def ChildStage.step : ChildStage → Nat
  | .unborn => 0
  | .closeWrite => 1
  | .closeRead => 2
  | .readMessage => 3
  | .readHandshake => 4
  | .writeResult => 5
  | .closeReadEnd => 6
  | .closeWriteEnd => 7
  | .leave => 8
  | .ended => 9

/-- The memory that `printbuffalo` has filled for the frame of the message. -/
structure Answer (env : Environment) (message : Text) where
  bytes : List UInt8
  made : printbuffalo env.ret (message.bytes.take 999) = bytes

section
variable {env : Environment} {message : Text} (answer : Answer env message)

theorem Answer.length : answer.bytes.length = 1000 := by
  rw [← answer.made]
  exact length_snprintf (by decide) env.retSize

theorem Answer.take : answer.bytes.take 1000 = answer.bytes :=
  List.take_of_length_le (by rw [answer.length])

theorem Answer.ne_nil : answer.bytes ≠ [] := List.ne_nil_of_length_pos (by rw [answer.length]; decide)

theorem Answer.string : string answer.bytes = some (cString 0 answer.bytes) := by
  rw [← answer.made, printbuffalo, string_snprintf_eq]

end

def handshake : List UInt8 := frame (ascii "goodbye world")

theorem length_handshake : handshake.length = 1000 := length_frame

section
variable (env : Environment) (message : Text)

/-- The arrays that the child has made of its arguments. -/
def pipes : Pipes := ⟨(env.writeFd .read, env.writeFd .write), (env.readFd .read, env.readFd .write)⟩

def exitCode : Int := (env.rand % 100 : Nat)

variable {env message} (answer : Answer env message)

/-- The line that the parent prints. -/
def reply : Line := .reply (cString 0 answer.bytes)

def parentAt : ParentStage → Process 2 Place Line
  | .fork => .at (.parent .fork) [] [] []
  | .closeRead => .at (.parent .closeRead) [] [] []
  | .closeWrite => .at (.parent .closeWrite) [(second, .read)] [] []
  | .writeMessage => .at (.parent .writeMessage) [(first, .write), (second, .read)] [] []
  | .writeHandshake => .at (.parent .writeHandshake) [(first, .write), (second, .read)] [] []
  | .readReply => .at (.parent .readReply) [(first, .write), (second, .read)] [] []
  | .printReply => .at (.parent (.printReply answer.bytes)) [(first, .write), (second, .read)] [] [answer.bytes]
  | .wait => .at (.parent .wait) [(first, .write), (second, .read)] [reply answer] [answer.bytes]
  | .printCode => .at (.parent (.printCode (exitCode env))) [(first, .write), (second, .read)] [reply answer] [answer.bytes]
  | .printFinished => .at (.parent .printFinished) [(first, .write), (second, .read)]
      [reply answer, .exitCode (exitCode env)] [answer.bytes]
  | .leave => .at (.parent .leave) [(first, .write), (second, .read)] [reply answer, .exitCode (exitCode env), .finished]
      [answer.bytes]
  | .ended => .ended 0 [reply answer, .exitCode (exitCode env), .finished] [answer.bytes]

def childAt : ChildStage → Process 2 Place Line
  | .unborn => .unborn
  | .closeWrite => .at (.child (.closeWrite (pipes env))) [] [] []
  | .closeRead => .at (.child (.closeRead (pipes env))) [(second, .write)] [] []
  | .readMessage => .at (.child (.readMessage (pipes env))) [(first, .read), (second, .write)] [] []
  | .readHandshake => .at (.child (.readHandshake (pipes env) answer.bytes)) [(first, .read), (second, .write)] []
      [frame message.bytes]
  | .writeResult => .at (.child (.writeResult (pipes env) answer.bytes)) [(first, .read), (second, .write)] []
      [frame message.bytes, handshake]
  | .closeReadEnd => .at (.child (.closeReadEnd (pipes env))) [(first, .read), (second, .write)] []
      [frame message.bytes, handshake]
  | .closeWriteEnd => .at (.child (.closeWriteEnd (pipes env))) [(second, .read), (first, .read), (second, .write)] []
      [frame message.bytes, handshake]
  | .leave => .at (.child (.leave (exitCode env))) [(first, .write), (second, .read), (first, .read), (second, .write)] []
      [frame message.bytes, handshake]
  | .ended => .ended (exitCode env) [] [frame message.bytes, handshake]

/-- The bytes that the parent has written. -/
def sent (message : Text) : ParentStage → List UInt8
  | .fork | .closeRead | .closeWrite | .writeMessage => []
  | .writeHandshake => frame message.bytes
  | .readReply | .printReply | .wait | .printCode | .printFinished | .leave | .ended =>
      frame message.bytes ++ handshake

/-- The number of bytes that the child has read. -/
def taken : ChildStage → Nat
  | .unborn | .closeWrite | .closeRead | .readMessage => 0
  | .readHandshake => 1000
  | .writeResult | .closeReadEnd | .closeWriteEnd | .leave | .ended => 2000

/-- The bytes that the child has written. -/
def answered : ChildStage → List UInt8
  | .unborn | .closeWrite | .closeRead | .readMessage | .readHandshake | .writeResult => []
  | .closeReadEnd | .closeWriteEnd | .leave | .ended => answer.bytes

/-- The number of bytes that the parent has read. -/
def received : ParentStage → Nat
  | .fork | .closeRead | .closeWrite | .writeMessage | .writeHandshake | .readReply => 0
  | .printReply | .wait | .printCode | .printFinished | .leave | .ended => 1000

/-- The configuration of a stage. Each pipe holds what has been written but not been read. -/
def chart (stage : ParentStage × ChildStage) : State :=
  .pair (twoPipes ((answered answer stage.2).drop (received stage.1))
    ((sent message stage.1).drop (taken stage.2)))
    (parentAt answer stage.1) (childAt answer stage.2)

theorem find_readFd (side : Side) : (system env message).descriptors.find (env.readFd side) = some (first, side) :=
  env.descriptors.find_number (first, side)

theorem find_writeFd (side : Side) : (system env message).descriptors.find (env.writeFd side) = some (second, side) :=
  env.descriptors.find_number (second, side)

section Bytes
variable {bytes text : List UInt8}

theorem code_printReply (ends : string bytes = some text) :
    (system env message).code .parent (.parent (.printReply bytes)) = .print (.reply text) (.parent .wait) := by
  simp only [system, code, problem5, ends]

theorem code_writeResult (sized : bytes.length = 1000) (pipes : Pipes) :
    (system env message).code .child (.child (.writeResult pipes bytes)) =
      .write pipes.writepipe.2 bytes (.child (.closeReadEnd pipes)) := by
  simp only [system, code, child, List.take_of_length_le (Nat.le_of_eq sized)]

end Bytes

theorem start_eq : start = chart answer (.fork, .unborn) := by
  simp only [chart, sent, answered, List.drop_nil, twoPipes_nil]
  exact Config.initial_eq_pair _

theorem buffalopipe_argv (env : Environment) : buffalopipe (argv env) = .closeWrite (pipes env) := by
  simp only [buffalopipe, argv, pipes, Environment.readFd, Environment.writeFd,
    atoi_decimalText _ (env.descriptors.fits _)]

theorem parent_fork : fire (system env message) (chart answer (.fork, .unborn)) .parent =
    some (chart answer (.closeRead, .closeWrite)) := by
  refine (fire_fork rfl rfl).trans ?_
  simp [chart, parentAt, childAt, sent, taken, answered, buffalopipe_argv env]

end

/-- The child lives from the fork on, and each side reads a frame only after the other has written it.
The child has exited when the parent goes on after its wait. -/
structure Valid (stage : ParentStage × ChildStage) : Prop where
  forked : stage.1.step = 0 ↔ stage.2.step = 0
  message : 4 ≤ stage.2.step → 4 ≤ stage.1.step
  handshake : 5 ≤ stage.2.step → 5 ≤ stage.1.step
  reply : 6 ≤ stage.1.step → 6 ≤ stage.2.step
  waited : 8 ≤ stage.1.step → stage.2.step = 9

/-- The parent waits for the reply or for the child, or it has ended.
The child has not been born, waits for one of its frames, or has ended. -/
def Waits (stage : ParentStage × ChildStage) : Role → Prop
  | .parent => stage.1.step = 11 ∨ stage.1.step = 5 ∧ stage.2.step ≤ 5 ∨ stage.1.step = 7 ∧ stage.2.step ≠ 9
  | .child => stage.2.step = 0 ∨ stage.2.step = 9 ∨ stage.2.step = 3 ∧ stage.1.step ≤ 3 ∨
      stage.2.step = 4 ∧ stage.1.step ≤ 4

def rank (stage : ParentStage × ChildStage) : Nat := 20 - stage.1.step - stage.2.step

theorem ParentStage.step_le (stage : ParentStage) : stage.step ≤ 11 := by
  cases stage <;> decide

theorem ChildStage.step_le (stage : ChildStage) : stage.step ≤ 9 := by
  cases stage <;> decide

/-- The parent goes on after the fork, behind its read only when the child has replied,
and behind its wait only when the child has exited. -/
theorem Valid.parent {parent later : ParentStage} {child : ChildStage} (valid : Valid (parent, child))
    (next : later.step = parent.step + 1) (forked : parent.step ≠ 0) (reply : parent.step ≠ 5 ∨ 6 ≤ child.step)
    (waited : parent.step ≠ 7 ∨ child.step = 9) :
    Valid (later, child) ∧ rank (later, child) < rank (parent, child) := by
  obtain ⟨born, message, handshake, replied, exited⟩ := valid
  have parentBound := later.step_le
  have childBound := child.step_le
  refine ⟨⟨?_, ?_, ?_, ?_, ?_⟩, ?_⟩ <;> simp only [rank] at * <;> omega

/-- The child goes on after its birth, and behind a read only when the parent has written. -/
theorem Valid.child {parent : ParentStage} {child later : ChildStage} (valid : Valid (parent, child))
    (next : later.step = child.step + 1) (born : child.step ≠ 0) (message : child.step ≠ 3 ∨ 4 ≤ parent.step)
    (handshake : child.step ≠ 4 ∨ 5 ≤ parent.step) :
    Valid (parent, later) ∧ rank (parent, later) < rank (parent, child) := by
  obtain ⟨forked, before, written, replied, waited⟩ := valid
  have parentBound := parent.step_le
  have childBound := later.step_le
  refine ⟨⟨?_, ?_, ?_, ?_, ?_⟩, ?_⟩ <;> simp only [rank] at * <;> omega

theorem Valid.parent_free {parent later : ParentStage} {child : ChildStage} (valid : Valid (parent, child))
    (next : later.step = parent.step + 1) (free : parent.step ≠ 0 ∧ parent.step ≠ 5 ∧ parent.step ≠ 7) :
    Valid (later, child) ∧ rank (later, child) < rank (parent, child) :=
  valid.parent next free.1 (Or.inl free.2.1) (Or.inl free.2.2)

theorem Valid.child_free {parent : ParentStage} {child later : ChildStage} (valid : Valid (parent, child))
    (next : later.step = child.step + 1) (free : child.step ≠ 0 ∧ child.step ≠ 3 ∧ child.step ≠ 4) :
    Valid (parent, later) ∧ rank (parent, later) < rank (parent, child) :=
  valid.child next free.1 (Or.inl free.2.1) (Or.inl free.2.2)

section
variable {env : Environment} {message : Text} (answer : Answer env message)

section Parent
variable (child : ChildStage)

theorem parent_closeRead : fire (system env message) (chart answer (.closeRead, child)) .parent =
    some (chart answer (.closeWrite, child)) := by
  refine (fire_close rfl rfl (find_writeFd .read)).trans ?_
  simp [chart, parentAt, sent, received]

theorem parent_closeWrite : fire (system env message) (chart answer (.closeWrite, child)) .parent =
    some (chart answer (.writeMessage, child)) := by
  refine (fire_close rfl rfl (find_readFd .write)).trans ?_
  simp [chart, parentAt, sent, received]

theorem parent_writeMessage (reader : (childAt answer child).opened (second, .read) = true) (behind : taken child = 0) :
    fire (system env message) (chart answer (.writeMessage, child)) .parent =
      some (chart answer (.writeHandshake, child)) := by
  refine (fire_write rfl rfl (find_writeFd .write) (by simp [chart, parentAt]) frame_ne_nil ?_ ?_).trans ?_
  · simp [chart, reader]
  · have capacity := env.atomic
    simp only [chart, sent, Config.pair_content, twoPipes_second, List.drop_nil, List.length_nil,
      length_frame, system]
    omega
  · simp [chart, parentAt, sent, received, behind]

theorem parent_writeHandshake (reader : (childAt answer child).opened (second, .read) = true)
    (behind : taken child ≤ 1000) :
    fire (system env message) (chart answer (.writeHandshake, child)) .parent =
      some (chart answer (.readReply, child)) := by
  refine (fire_write rfl rfl (find_writeFd .write) (by simp [chart, parentAt]) frame_ne_nil ?_ ?_).trans ?_
  · simp [chart, reader]
  · have capacity := env.atomic
    simp only [chart, sent, Config.pair_content, twoPipes_second, List.length_drop, length_frame, system]
    omega
  · have later : (frame message.bytes ++ handshake).drop (taken child) =
        (frame message.bytes).drop (taken child) ++ handshake :=
      List.drop_append_of_le_length (by rw [length_frame]; exact behind)
    rw [handshake] at later
    simp [chart, parentAt, sent, received, later, handshake]

theorem parent_readReply (written : answered answer child = answer.bytes) :
    fire (system env message) (chart answer (.readReply, child)) .parent =
      some (chart answer (.printReply, child)) := by
  have available : (chart answer (.readReply, child)).content first ≠ [] := by
    refine List.ne_nil_of_length_pos ?_
    simp [chart, received, written, answer.length]
  have filled : fill cleared answer.bytes = answer.bytes :=
    fill_eq (by rw [answer.length, cleared, List.length_replicate])
  refine (fire_read rfl rfl (find_readFd .read) (by simp [chart, parentAt]) available).trans ?_
  simp [chart, parentAt, sent, received, written, answer.take, filled]

theorem parent_printReply : fire (system env message) (chart answer (.printReply, child)) .parent =
    some (chart answer (.wait, child)) := by
  refine (fire_print rfl (code_printReply answer.string)).trans ?_
  simp [chart, parentAt, sent, received, reply]

theorem parent_wait : fire (system env message) (chart answer (.wait, .ended)) .parent =
    some (chart answer (.printCode, .ended)) := by
  refine (fire_wait rfl rfl rfl).trans ?_
  simp [chart, parentAt, sent, received, report, exitCode]

theorem parent_printCode : fire (system env message) (chart answer (.printCode, child)) .parent =
    some (chart answer (.printFinished, child)) := by
  refine (fire_print rfl rfl).trans ?_
  simp [chart, parentAt, sent, received]

theorem parent_printFinished : fire (system env message) (chart answer (.printFinished, child)) .parent =
    some (chart answer (.leave, child)) := by
  refine (fire_print rfl rfl).trans ?_
  simp [chart, parentAt, sent, received]

theorem parent_leave : fire (system env message) (chart answer (.leave, child)) .parent =
    some (chart answer (.ended, child)) := by
  refine (fire_exit rfl rfl).trans ?_
  simp [chart, parentAt, sent, received]

end Parent

section Child
variable (parent : ParentStage)

theorem child_closeWrite : fire (system env message) (chart answer (parent, .closeWrite)) .child =
    some (chart answer (parent, .closeRead)) := by
  refine (fire_close rfl rfl (find_writeFd .write)).trans ?_
  simp [chart, childAt, taken, answered]

theorem child_closeRead : fire (system env message) (chart answer (parent, .closeRead)) .child =
    some (chart answer (parent, .readMessage)) := by
  refine (fire_close rfl rfl (find_readFd .read)).trans ?_
  simp [chart, childAt, taken, answered]

theorem child_readMessage {behind : List UInt8} (written : sent message parent = frame message.bytes ++ behind) :
    fire (system env message) (chart answer (parent, .readMessage)) .child =
      some (chart answer (parent, .readHandshake)) := by
  have first : (sent message parent).take 1000 = frame message.bytes := by
    rw [written, List.take_left' length_frame]
  have available : (chart answer (parent, .readMessage)).content second ≠ [] := by
    simp [chart, taken, written, frame_ne_nil]
  refine (fire_read rfl rfl (find_writeFd .read) (by simp [chart, childAt]) available).trans ?_
  simp [chart, childAt, taken, answered, first, afterMessage, fill_frame env.readbufferSize,
    string_frame message.clean,
    answer.made]

theorem child_readHandshake (written : sent message parent = frame message.bytes ++ handshake) :
    fire (system env message) (chart answer (parent, .readHandshake)) .child =
      some (chart answer (parent, .writeResult)) := by
  have behind : (sent message parent).drop 1000 = handshake := by
    rw [written, List.drop_left' length_frame]
  have available : (chart answer (parent, .readHandshake)).content second ≠ [] := by
    simp [chart, taken, behind, handshake, frame_ne_nil]
  have whole : handshake.take 1000 = handshake := List.take_of_length_le (by rw [length_handshake])
  have rest : handshake.drop 1000 = [] := List.drop_eq_nil_of_le (by rw [length_handshake])
  have none_left : (sent message parent).drop 2000 = [] := by
    rw [show 2000 = 1000 + 1000 from rfl, ← List.drop_drop, behind, rest]
  have accepted : asserthandshake (ascii "goodbye world") cleared (some handshake) = .accepted :=
    asserthandshake_frame List.length_replicate (show (ascii "goodbye world").length < 1000 by decide)
  refine (fire_read rfl rfl (find_writeFd .read) (by simp [chart, childAt]) available).trans ?_
  simp [chart, childAt, taken, answered, behind, whole, rest, none_left, afterHandshake, accepted]

theorem child_writeResult (reader : (parentAt answer parent).opened (first, .read) = true)
    (behind : received parent = 0) :
    fire (system env message) (chart answer (parent, .writeResult)) .child =
      some (chart answer (parent, .closeReadEnd)) := by
  refine (fire_write rfl (code_writeResult answer.length (pipes env)) (find_readFd .write)
    (by simp [chart, childAt])
    answer.ne_nil ?_ ?_).trans ?_
  · simp [chart, reader]
  · have capacity := env.atomic
    simp only [chart, answered, Config.pair_content, twoPipes_first, List.drop_nil, List.length_nil,
      answer.length, system]
    omega
  · simp [chart, childAt, taken, answered, behind]

theorem child_closeReadEnd : fire (system env message) (chart answer (parent, .closeReadEnd)) .child =
    some (chart answer (parent, .closeWriteEnd)) := by
  refine (fire_close rfl rfl (find_writeFd .read)).trans ?_
  simp [chart, childAt, taken, answered]

theorem child_closeWriteEnd : fire (system env message) (chart answer (parent, .closeWriteEnd)) .child =
    some (chart answer (parent, .leave)) := by
  refine (fire_close rfl rfl (find_readFd .write)).trans ?_
  simp [chart, childAt, taken, answered, exitCode]

theorem child_leave : fire (system env message) (chart answer (parent, .leave)) .child =
    some (chart answer (parent, .ended)) := by
  refine (fire_exit rfl rfl).trans ?_
  simp [chart, childAt, taken, answered]

end Child

end

end OSLabs.BuffaloPipe
