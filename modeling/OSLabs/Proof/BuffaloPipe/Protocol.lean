import OSLabs.Proof.BuffaloPipe.Stages

namespace OSLabs.BuffaloPipe

open Transition Pipe Stdio Buffalo

section
variable {env : Environment} {message : Text} (answer : Answer env message)

/-- The child waits at an empty pipe while the parent holds the write end. -/
theorem child_waits {stage : ParentStage × ChildStage} (reads : stage.2 = .readMessage ∨ stage.2 = .readHandshake)
    (empty : (chart answer stage).content second = []) (writer : (parentAt answer stage.1).opened (second, .write) = true) :
    fire (system env message) (chart answer stage) .child = none := by
  obtain ⟨parent, child⟩ := stage
  rcases reads with rfl | rfl
  · exact fire_read_empty rfl rfl (find_writeFd .read) (by simp [chart, childAt]) empty (by simp [chart, writer])
  · exact fire_read_empty rfl rfl (find_writeFd .read) (by simp [chart, childAt]) empty (by simp [chart, writer])

/-- The parent waits for the reply while the child holds the write end. -/
theorem parent_waitsReply {child : ChildStage} (before : answered answer child = [])
    (writer : (childAt answer child).opened (first, .write) = true) :
    fire (system env message) (chart answer (.readReply, child)) .parent = none := by
  have empty : (chart answer (.readReply, child)).content first = [] := by
    simp [chart, before]
  exact fire_read_empty rfl rfl (find_readFd .read) (by simp [chart, parentAt]) empty (by simp [chart, writer])

theorem parent_waits {child : ChildStage} (born : child.step ≠ 0) (runs : child.step ≠ 9) :
    fire (system env message) (chart answer (.wait, child)) .parent = none := by
  cases child with
  | unborn => exact absurd rfl born
  | ended => exact absurd rfl runs
  | closeWrite | closeRead | readMessage | readHandshake | writeResult | closeReadEnd | closeWriteEnd | leave =>
      exact fire_wait_running rfl rfl rfl

/-- The child holds the read end until it has read both frames. -/
theorem reader_of_step {child : ChildStage} (born : child.step ≠ 0) (before : child.step ≤ 5) :
    (childAt answer child).opened (second, .read) = true := by
  cases child with
  | unborn => exact absurd rfl born
  | closeReadEnd | closeWriteEnd | leave | ended => exact absurd before (by decide)
  | closeWrite | closeRead | readMessage | readHandshake | writeResult => simp [childAt]

/-- The child holds the write end until it has replied. -/
theorem replier_of_step {child : ChildStage} (born : child.step ≠ 0) (before : child.step ≤ 5) :
    (childAt answer child).opened (first, .write) = true := by
  cases child with
  | unborn => exact absurd rfl born
  | closeReadEnd | closeWriteEnd | leave | ended => exact absurd before (by decide)
  | closeWrite | closeRead | readMessage | readHandshake | writeResult => simp [childAt]

/-- The parent holds the ends that it uses until it exits. -/
theorem holds_of_step {parent : ParentStage} (before : parent.step ≤ 10) :
    (parentAt answer parent).opened (second, .write) = true ∧ (parentAt answer parent).opened (first, .read) = true := by
  cases parent with
  | ended => exact absurd before (by decide)
  | fork | closeRead | closeWrite | writeMessage | writeHandshake | readReply | printReply | wait | printCode |
    printFinished | leave => simp [parentAt]

theorem taken_of_step {child : ChildStage} : child.step ≤ 3 → taken child = 0 := by
  cases child <;> simp [ChildStage.step, taken]

theorem taken_le {child : ChildStage} : child.step ≤ 4 → taken child ≤ 1000 := by
  cases child <;> simp [ChildStage.step, taken]

theorem received_of_step {parent : ParentStage} : parent.step ≤ 5 → received parent = 0 := by
  cases parent <;> simp [ParentStage.step, received]

theorem answered_of_step {child : ChildStage} : child.step ≤ 5 → answered answer child = [] := by
  cases child <;> simp [ChildStage.step, answered]

theorem answered_eq {child : ChildStage} : 6 ≤ child.step → answered answer child = answer.bytes := by
  cases child <;> simp [ChildStage.step, answered]

theorem sent_of_step {parent : ParentStage} : parent.step ≤ 3 → sent message parent = [] := by
  cases parent <;> simp [ParentStage.step, sent]

theorem message_of_step {parent : ParentStage} :
    4 ≤ parent.step → ∃ behind, sent message parent = frame message.bytes ++ behind := by
  cases parent <;> simp [ParentStage.step, sent]

theorem sent_eq {parent : ParentStage} :
    5 ≤ parent.step → sent message parent = frame message.bytes ++ handshake := by
  cases parent <;> simp [ParentStage.step, sent]

/-- Before the handshake the pipe gets only the frame of the message. -/
theorem drop_sent {parent : ParentStage} (before : parent.step ≤ 4) : (sent message parent).drop 1000 = [] := by
  cases parent with
  | fork | closeRead | closeWrite | writeMessage => rfl
  | writeHandshake => exact List.drop_eq_nil_of_le (by simp only [sent, length_frame, le_refl])
  | readReply | printReply | wait | printCode | printFinished | leave | ended => exact absurd before (by decide)

/-- In each valid stage the parent waits or goes to its next stage. -/
theorem parent_moves {stage : ParentStage × ChildStage} (valid : Valid stage) :
    (fire (system env message) (chart answer stage) .parent = none ∧ Waits stage .parent) ∨
      ∃ later, fire (system env message) (chart answer stage) .parent = some (chart answer later) ∧
        Valid later ∧ rank later < rank stage := by
  obtain ⟨parent, child⟩ := stage
  have facts := valid
  obtain ⟨forked, written, handshake, replied, waited⟩ := facts
  cases parent with
  | fork =>
      have unborn : child = .unborn := by
        cases child <;> simp [ParentStage.step, ChildStage.step] at forked ⊢
      subst unborn
      exact Or.inr ⟨_, parent_fork answer, by constructor <;> simp [ParentStage.step, ChildStage.step], by decide⟩
  | closeRead => exact Or.inr ⟨_, parent_closeRead answer child, valid.parent_free rfl (by decide)⟩
  | closeWrite => exact Or.inr ⟨_, parent_closeWrite answer child, valid.parent_free rfl (by decide)⟩
  | writeMessage =>
      have few : child.step ≤ 3 := by
        simp only [ParentStage.step] at written
        omega
      have born : child.step ≠ 0 := by
        simpa [ParentStage.step] using forked
      exact Or.inr ⟨_, parent_writeMessage answer child (reader_of_step answer born (by omega))
        (taken_of_step few),
        valid.parent_free rfl (by decide)⟩
  | writeHandshake =>
      have few : child.step ≤ 4 := by
        simp only [ParentStage.step] at handshake
        omega
      have born : child.step ≠ 0 := by
        simpa [ParentStage.step] using forked
      exact Or.inr ⟨_, parent_writeHandshake answer child (reader_of_step answer born (by omega)) (taken_le few),
        valid.parent_free rfl (by decide)⟩
  | readReply =>
      have born : child.step ≠ 0 := by
        simpa [ParentStage.step] using forked
      by_cases ready : 6 ≤ child.step
      · exact Or.inr ⟨_, parent_readReply answer child (answered_eq answer ready),
          valid.parent rfl (by decide) (Or.inr ready) (Or.inl (by decide))⟩
      · have early : child.step ≤ 5 := by omega
        exact Or.inl ⟨parent_waitsReply answer (answered_of_step answer early) (replier_of_step answer born early),
          Or.inr (Or.inl ⟨rfl, early⟩)⟩
  | printReply => exact Or.inr ⟨_, parent_printReply answer child, valid.parent_free rfl (by decide)⟩
  | wait =>
      by_cases exited : child.step = 9
      · have ended : child = .ended := by
          cases child <;> simp [ChildStage.step] at exited ⊢
        subst ended
        exact Or.inr ⟨_, parent_wait answer, valid.parent rfl (by decide) (Or.inl (by decide)) (Or.inr rfl)⟩
      · exact Or.inl ⟨parent_waits answer (by simpa [ParentStage.step] using forked) exited,
          Or.inr (Or.inr ⟨rfl, exited⟩)⟩
  | printCode => exact Or.inr ⟨_, parent_printCode answer child, valid.parent_free rfl (by decide)⟩
  | printFinished => exact Or.inr ⟨_, parent_printFinished answer child, valid.parent_free rfl (by decide)⟩
  | leave => exact Or.inr ⟨_, parent_leave answer child, valid.parent_free rfl (by decide)⟩
  | ended => exact Or.inl ⟨fire_idle (by simp [chart, parentAt]), Or.inl rfl⟩

/-- In each valid stage the child waits or goes to its next stage. -/
theorem child_moves {stage : ParentStage × ChildStage} (valid : Valid stage) :
    (fire (system env message) (chart answer stage) .child = none ∧ Waits stage .child) ∨
      ∃ later, fire (system env message) (chart answer stage) .child = some (chart answer later) ∧
        Valid later ∧ rank later < rank stage := by
  obtain ⟨parent, child⟩ := stage
  have facts := valid
  obtain ⟨forked, written, handshake, replied, waited⟩ := facts
  cases child with
  | unborn => exact Or.inl ⟨fire_idle (by simp [chart, childAt]), Or.inl rfl⟩
  | closeWrite => exact Or.inr ⟨_, child_closeWrite answer parent, valid.child_free rfl (by decide)⟩
  | closeRead => exact Or.inr ⟨_, child_closeRead answer parent, valid.child_free rfl (by decide)⟩
  | readMessage =>
      by_cases ready : 4 ≤ parent.step
      · obtain ⟨behind, first⟩ := message_of_step ready
        exact Or.inr ⟨_, child_readMessage answer parent first,
          valid.child rfl (by decide) (Or.inr ready) (Or.inl (by decide))⟩
      · have early : parent.step ≤ 3 := by omega
        have empty : (chart answer (parent, .readMessage)).content second = [] := by
          simp [chart, sent_of_step early]
        exact Or.inl ⟨child_waits answer (Or.inl rfl) empty
          (holds_of_step answer (show parent.step ≤ 10 by omega)).1,
          Or.inr (Or.inr (Or.inl ⟨rfl, early⟩))⟩
  | readHandshake =>
      by_cases ready : 5 ≤ parent.step
      · exact Or.inr ⟨_, child_readHandshake answer parent (sent_eq ready),
          valid.child rfl (by decide) (Or.inl (by decide)) (Or.inr ready)⟩
      · have early : parent.step ≤ 4 := by omega
        have empty : (chart answer (parent, .readHandshake)).content second = [] := by
          simp [chart, taken, drop_sent early]
        exact Or.inl ⟨child_waits answer (Or.inr rfl) empty
          (holds_of_step answer (show parent.step ≤ 10 by omega)).1,
          Or.inr (Or.inr (Or.inr ⟨rfl, early⟩))⟩
  | writeResult =>
      have early : parent.step ≤ 5 := by
        simp only [ChildStage.step] at replied
        omega
      exact Or.inr ⟨_, child_writeResult answer parent (holds_of_step answer (by omega)).2
        (received_of_step early),
        valid.child_free rfl (by decide)⟩
  | closeReadEnd => exact Or.inr ⟨_, child_closeReadEnd answer parent, valid.child_free rfl (by decide)⟩
  | closeWriteEnd => exact Or.inr ⟨_, child_closeWriteEnd answer parent, valid.child_free rfl (by decide)⟩
  | leave => exact Or.inr ⟨_, child_leave answer parent, valid.child_free rfl (by decide)⟩
  | ended => exact Or.inl ⟨fire_idle (by simp [chart, childAt]), Or.inr (Or.inl rfl)⟩

theorem charted : Charted (chart answer) Valid Waits rank (system env message) := by
  intro stage valid name
  cases name with
  | parent => exact parent_moves answer valid
  | child => exact child_moves answer valid

end

theorem valid_start : Valid (.fork, .unborn) := by
  constructor <;> simp [ParentStage.step, ChildStage.step]

/-- Both processes wait only when both have ended. -/
theorem ends_of_waits {stage : ParentStage × ChildStage} (valid : Valid stage) (waits : ∀ name, Waits stage name) :
    stage = (.ended, .ended) := by
  obtain ⟨parent, child⟩ := stage
  obtain ⟨forked, written, handshake, replied, waited⟩ := valid
  have parentWaits := waits .parent
  have childWaits := waits .child
  simp only [Waits] at parentWaits childWaits forked written handshake replied waited
  have parentEnded : parent.step = 11 := by omega
  have childEnded : child.step = 9 := by omega
  cases parent <;> cases child <;> simp [ParentStage.step, ChildStage.step] at parentEnded childEnded ⊢

section
variable {env : Environment} {message : Text} (answer : Answer env message)

/-- No place of a stage leads to `exit(1)` or `exit(2)`. -/
theorem childAt_not_fails (child : ChildStage) {place : ChildPlace}
    (here : (childAt answer child).status = .running (.child place)) : place.fails = false := by
  cases child <;> simp [childAt] at here <;> subst here <;> rfl

/-- The child reads the frame of the message and then that of the handshake. -/
theorem childAt_reads (child : ChildStage) :
    (childAt answer child).reads <+: [frame message.bytes, handshake] := by
  cases child <;> simp [childAt]

end

variable (env : Environment) (message : Text)

/-- For every message the child reads whole frames, it never fails,
and the two processes never wait for each other. The parent prints the buffalo with the first 999 bytes of the
message. -/
theorem buffalopipe_protocol :
    (∀ config, Reachable (fire (system env message)) Free start config →
      (config.process .child).reads <+: [frame message.bytes, frame (ascii "goodbye world")] ∧
      (∀ place, (config.process .child).status = .running (.child place) → place.fails = false) ∧
      ¬ (Blocked (system env message) config .parent ∧ Blocked (system env message) config .child)) ∧
    Delivers (system env message) start fun config =>
      (config.process .child).reads = [frame message.bytes, frame (ascii "goodbye world")] ∧
      (config.process .parent).output =
        [.reply (cString 0 (printbuffalo env.ret (message.bytes.take 999))), .exitCode (env.rand % 100 : Nat),
          .finished] := by
  have isCharted := charted (⟨_, rfl⟩ : Answer env message)
  rw [start_eq (⟨_, rfl⟩ : Answer env message)]
  refine ⟨fun config reached => ?_, ?_⟩
  · obtain ⟨stage, valid, rfl⟩ := isCharted.exists_stage valid_start reached
    refine ⟨childAt_reads _ stage.2, fun place here => childAt_not_fails _ stage.2 here, ?_⟩
    rintro ⟨⟨⟨place, runs⟩, parentIdle⟩, ⟨_, childIdle⟩⟩
    have ended := ends_of_waits valid fun name => by
      cases name with
      | parent => exact isCharted.waits valid parentIdle
      | child => exact isCharted.waits valid childIdle
    rw [ended] at runs
    simp [chart, parentAt] at runs
  · exact (isCharted.delivers_iff valid_start fun _ valid waits => ends_of_waits valid waits).mpr ⟨rfl, rfl⟩

end OSLabs.BuffaloPipe
