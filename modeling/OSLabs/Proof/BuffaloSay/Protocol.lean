import OSLabs.Proof.BuffaloSay.Stages

namespace OSLabs.BuffaloSay

open Transition Pipe Stdio Buffalo

variable (env : Environment) (message : Text)

/-- The child waits at an empty pipe while the parent holds the write end. -/
theorem child_waits {stage : ParentStage × ChildStage} (reads : stage.2 = .readHandshake ∨ stage.2 = .readMessage)
    (empty : (chart env message stage).content only = [])
    (writer : (parentAt env stage.1).opened (only, .write) = true) :
    fire (system env message) (chart env message stage) .child = none := by
  obtain ⟨parent, child⟩ := stage
  rcases reads with rfl | rfl
  · exact fire_read_empty rfl rfl (find_fd env message .read) (by simp [chart, childAt]) empty
      (by simp [chart, writer])
  · exact fire_read_empty rfl rfl (find_fd env message .read) (by simp [chart, childAt]) empty
      (by simp [chart, writer])

theorem parent_waits {child : ChildStage} (born : child.step ≠ 0) (runs : child.step ≠ 7) :
    fire (system env message) (chart env message (.wait, child)) .parent = none := by
  cases child with
  | unborn => exact absurd rfl born
  | ended => exact absurd rfl runs
  | closeWrite | readHandshake | readMessage | printResult | closeRead | leave =>
      exact fire_wait_running rfl rfl rfl

/-- The child holds the read end until it has read the message. -/
theorem reader_of_step {child : ChildStage} (born : child.step ≠ 0) (before : child.step ≤ 5) :
    (childAt env message child).opened (only, .read) = true := by
  cases child with
  | unborn => exact absurd rfl born
  | leave | ended => exact absurd before (by decide)
  | closeWrite | readHandshake | readMessage | printResult | closeRead => simp [childAt]

/-- The parent holds the write end until it exits. -/
theorem writer_of_step {parent : ParentStage} (before : parent.step ≤ 7) :
    (parentAt env parent).opened (only, .write) = true := by
  cases parent with
  | ended => exact absurd before (by decide)
  | fork | closeRead | writeHandshake | writeMessage | wait | printCode | printFinished | leave => simp [parentAt]

theorem taken_of_step {child : ChildStage} : child.step ≤ 2 → taken message child = 0 := by
  cases child <;> simp [ChildStage.step, taken]

theorem taken_le {child : ChildStage} : child.step ≤ 3 → taken message child ≤ 1000 := by
  cases child <;> simp [ChildStage.step, taken]

theorem sent_of_step {parent : ParentStage} : parent.step ≤ 2 → sent message parent = [] := by
  cases parent <;> simp [ParentStage.step, sent]

/-- Behind the handshake the pipe gets only the message. -/
theorem drop_sent {parent : ParentStage} (nothing : parent.step ≤ 3 ∨ message.bytes = []) :
    (sent message parent).drop 1000 = [] := by
  rcases nothing with before | empty
  · cases parent with
    | fork | closeRead | writeHandshake => rfl
    | writeMessage => exact List.drop_eq_nil_of_le (by simp only [sent, length_handshake, le_refl])
    | wait | printCode | printFinished | leave | ended => exact absurd before (by decide)
  · refine List.drop_eq_nil_of_le ?_
    cases parent <;> simp [sent, empty, length_handshake]

theorem handshake_of_step {parent : ParentStage} :
    3 ≤ parent.step → ∃ behind, sent message parent = handshake ++ behind := by
  cases parent <;> simp [ParentStage.step, sent]

theorem sent_eq {parent : ParentStage} : 4 ≤ parent.step → sent message parent = handshake ++ message.bytes := by
  cases parent <;> simp [ParentStage.step, sent]

/-- With an empty message the second write does nothing. -/
theorem parent_writeNothing (empty : message.bytes = []) (child : ChildStage) :
    fire (system env message) (chart env message (.writeMessage, child)) .parent =
      some (chart env message (.wait, child)) := by
  have instr : (system env message).code .parent (.parent .writeMessage) =
      .write (env.fd .write) [] (.parent .wait) := by
    rw [← empty]
    rfl
  refine (fire_write_nothing rfl instr (find_fd env message .write)).trans ?_
  simp [chart, parentAt, sent, empty]

/-- In each valid stage the parent waits or goes to its next stage. -/
theorem parent_moves (short : message.bytes.length ≤ 999) {stage : ParentStage × ChildStage}
    (valid : Valid stage) :
    (fire (system env message) (chart env message stage) .parent = none ∧ Waits message stage .parent) ∨
      ∃ later, fire (system env message) (chart env message stage) .parent = some (chart env message later) ∧
        Valid later ∧ rank later < rank stage := by
  obtain ⟨parent, child⟩ := stage
  have facts := valid
  obtain ⟨forked, handshake, written, waited⟩ := facts
  cases parent with
  | fork =>
      have unborn : child = .unborn := by
        cases child <;> simp [ParentStage.step, ChildStage.step] at forked ⊢
      subst unborn
      exact Or.inr ⟨_,
        parent_fork env message, by constructor <;> simp [ParentStage.step, ChildStage.step], by decide⟩
  | closeRead =>
      exact Or.inr ⟨_, parent_closeRead env message child, valid.parent rfl (by decide) (Or.inl (by decide))⟩
  | writeHandshake =>
      have few : child.step ≤ 2 := by
        simp only [ParentStage.step] at handshake
        omega
      have born : child.step ≠ 0 := by
        simpa [ParentStage.step] using forked
      have reader := reader_of_step env message born (by omega)
      exact Or.inr ⟨_, parent_writeHandshake env message child reader (taken_of_step message few),
        valid.parent rfl (by decide) (Or.inl (by decide))⟩
  | writeMessage =>
      have few : child.step ≤ 3 := by
        simp only [ParentStage.step] at written
        omega
      have born : child.step ≠ 0 := by
        simpa [ParentStage.step] using forked
      by_cases empty : message.bytes = []
      · exact Or.inr ⟨_, parent_writeNothing env message empty child,
          valid.parent rfl (by decide) (Or.inl (by decide))⟩
      · have reader := reader_of_step env message born (by omega)
        exact Or.inr ⟨_, parent_writeMessage env message child reader empty short (taken_le message few),
          valid.parent rfl (by decide) (Or.inl (by decide))⟩
  | wait =>
      by_cases exited : child.step = 7
      · have ended : child = .ended := by
          cases child <;> simp [ChildStage.step] at exited ⊢
        subst ended
        exact Or.inr ⟨_, parent_wait env message, valid.parent rfl (by decide) (Or.inr rfl)⟩
      · exact Or.inl ⟨parent_waits env message (by simpa [ParentStage.step] using forked) exited,
          Or.inr ⟨rfl, exited⟩⟩
  | printCode =>
      exact Or.inr ⟨_, parent_printCode env message child, valid.parent rfl (by decide) (Or.inl (by decide))⟩
  | printFinished =>
      exact Or.inr ⟨_, parent_printFinished env message child, valid.parent rfl (by decide) (Or.inl (by decide))⟩
  | leave => exact Or.inr ⟨_, parent_leave env message child, valid.parent rfl (by decide) (Or.inl (by decide))⟩
  | ended => exact Or.inl ⟨fire_idle (by simp [chart, parentAt]), Or.inl rfl⟩

/-- In each valid stage the child waits or goes to its next stage. -/
theorem child_moves (short : message.bytes.length ≤ 999) {stage : ParentStage × ChildStage} (valid : Valid stage) :
    (fire (system env message) (chart env message stage) .child = none ∧ Waits message stage .child) ∨
      ∃ later, fire (system env message) (chart env message stage) .child = some (chart env message later) ∧
        Valid later ∧ rank later < rank stage := by
  obtain ⟨parent, child⟩ := stage
  have facts := valid
  obtain ⟨forked, handshake, written, waited⟩ := facts
  cases child with
  | unborn => exact Or.inl ⟨fire_idle (by simp [chart, childAt]), Or.inl rfl⟩
  | closeWrite => exact Or.inr ⟨_, child_closeWrite env message parent, valid.child_free rfl (by decide)⟩
  | readHandshake =>
      have waits : parent.step ≤ 7 := by
        simp only [ChildStage.step] at waited
        omega
      by_cases ready : 3 ≤ parent.step
      · obtain ⟨behind, written⟩ := handshake_of_step message ready
        exact Or.inr ⟨_, child_readHandshake env message parent written,
          valid.child rfl (by decide) (Or.inr ready) (Or.inl (by decide))⟩
      · have empty : (chart env message (parent, .readHandshake)).content only = [] := by
          simp [chart, sent_of_step message (show parent.step ≤ 2 by omega)]
        exact Or.inl ⟨child_waits env message (Or.inl rfl) empty (writer_of_step env waits),
          Or.inr (Or.inr (Or.inl ⟨rfl, by simp only; omega⟩))⟩
  | readMessage =>
      have waits : parent.step ≤ 7 := by
        simp only [ChildStage.step] at waited
        omega
      by_cases ready : 4 ≤ parent.step ∧ message.bytes ≠ []
      · exact Or.inr ⟨_, child_readMessage env message parent ready.2 short (sent_eq message ready.1),
          valid.child rfl (by decide) (Or.inl (by decide)) (Or.inr ready.1)⟩
      · rw [not_and_or, not_not] at ready
        have nothing : parent.step ≤ 3 ∨ message.bytes = [] := ready.imp_left fun less => by omega
        have empty : (chart env message (parent, .readMessage)).content only = [] := by
          simp [chart, taken, drop_sent message nothing]
        exact Or.inl ⟨child_waits env message (Or.inr rfl) empty (writer_of_step env waits),
          Or.inr (Or.inr (Or.inr ⟨rfl, nothing⟩))⟩
  | printResult => exact Or.inr ⟨_, child_printResult env message parent short, valid.child_free rfl (by decide)⟩
  | closeRead => exact Or.inr ⟨_, child_closeRead env message parent, valid.child_free rfl (by decide)⟩
  | leave => exact Or.inr ⟨_, child_leave env message parent, valid.child_free rfl (by decide)⟩
  | ended => exact Or.inl ⟨fire_idle (by simp [chart, childAt]), Or.inr (Or.inl rfl)⟩

theorem charted (short : message.bytes.length ≤ 999) :
    Charted (chart env message) Valid (Waits message) rank (system env message) := by
  intro stage valid name
  cases name with
  | parent => exact parent_moves env message short valid
  | child => exact child_moves env message short valid

theorem valid_start : Valid (.fork, .unborn) := by
  constructor <;> simp [ParentStage.step, ChildStage.step]

/-- When both processes wait with a message that is not empty, both have ended. -/
theorem ends_of_waits {stage : ParentStage × ChildStage} (valid : Valid stage) (some' : message.bytes ≠ [])
    (waits : ∀ name, Waits message stage name) : stage = (.ended, .ended) := by
  obtain ⟨parent, child⟩ := stage
  obtain ⟨forked, handshake, written, waited⟩ := valid
  have parentWaits := waits .parent
  have childWaits := waits .child
  simp only [Waits, some', or_false] at parentWaits childWaits forked handshake written waited
  have parentEnded : parent.step = 8 := by omega
  have childEnded : child.step = 7 := by omega
  cases parent <;> cases child <;> simp [ParentStage.step, ChildStage.step] at parentEnded childEnded ⊢

/-- With an empty message the child waits for ever at its second read. -/
theorem exists_stuck (empty : message.bytes = []) :
    ∃ config, Reachable (fire (system env message)) Free start config ∧ Stuck env message config := by
  have written : sent message .writeMessage = handshake ++ [] := by rw [List.append_nil]; rfl
  refine ⟨chart env message (.wait, .readMessage), ?_, rfl, ⟨readpipe env, Or.inr rfl⟩, ⟨⟨_, rfl⟩, ?_⟩,
    ⟨⟨_, rfl⟩, ?_⟩⟩
  · rw [start_eq env message]
    exact (((((Reachable.refl.step .parent trivial (parent_fork env message)).step .child trivial
      (child_closeWrite env message .closeRead)).step .parent trivial
        (parent_closeRead env message .readHandshake)).step
      .parent trivial (parent_writeHandshake env message .readHandshake rfl rfl)).step .child trivial
      (child_readHandshake env message .writeMessage written)).step .parent trivial
      (parent_writeNothing env message empty .readMessage)
  · exact parent_waits env message (by decide) (by decide)
  · have nothing : (chart env message (.wait, .readMessage)).content only = [] := by
      simp [chart, taken, drop_sent message (Or.inr empty)]
    exact child_waits env message (Or.inr rfl) nothing rfl

/-- No place of a stage is that of the refused handshake. -/
theorem childAt_ne_refuse (child : ChildStage) :
    (childAt env message child).status ≠ .running (.child (.refuse 2)) := by
  cases child <;> simp [childAt]

/-- For a message of at most 999 bytes the child never refuses the handshake.
It prints the buffalo with the message, and the two processes never wait for each other,
exactly when the message is not empty. -/
theorem buffalosay_protocol (short : message.bytes.length ≤ 999) :
    (∀ config, Reachable (fire (system env message)) Free start config →
      (config.process .child).status ≠ .running (.child (.refuse 2))) ∧
    ((Delivers (system env message) start fun config =>
        (config.process .child).output = [.buffalo (cString 0 (printbuffalo env.ret message.bytes))]) ∧
      (∀ config, Reachable (fire (system env message)) Free start config → ¬ Stuck env message config) ↔
      message.bytes ≠ []) := by
  have isCharted := charted env message short
  rw [start_eq env message]
  refine ⟨fun config reached => ?_, fun ⟨_, free⟩ empty => ?_, fun some' => ⟨?_, fun config reached stuck => ?_⟩⟩
  · obtain ⟨stage, _, rfl⟩ := isCharted.exists_stage valid_start reached
    exact childAt_ne_refuse env message stage.2
  · obtain ⟨config, reached, stuck⟩ := exists_stuck env message empty
    rw [start_eq env message] at reached
    exact free config reached stuck
  · exact (isCharted.delivers_iff valid_start fun _ valid waits => ends_of_waits message valid some' waits).mpr rfl
  · obtain ⟨stage, valid, rfl⟩ := isCharted.exists_stage valid_start reached
    obtain ⟨_, _, ⟨⟨place, runs⟩, parentIdle⟩, ⟨_, childIdle⟩⟩ := stuck
    have ended := ends_of_waits message valid some' fun name => by
      cases name with
      | parent => exact isCharted.waits valid parentIdle
      | child => exact isCharted.waits valid childIdle
    rw [ended] at runs
    simp [chart, parentAt] at runs

/-- A system whose pipe has the numbers 3 and 4. -/
def sample : Environment where
  descriptors := .lowest (by decide)
  capacity := 65536
  atomic := atomic_pipe
  foreign := fun _ => none
  readbuffer := cleared
  readbufferSize := length_cleared
  ret := cleared
  rand := 7

theorem hello_buffalo : Delivers (system sample ⟨ascii "hello", by decide⟩) start fun config =>
    (config.process .child).output = [.buffalo (cString 0 (printbuffalo cleared (ascii "hello")))] :=
  ((buffalosay_protocol sample ⟨ascii "hello", by decide⟩ (by decide)).2.mpr (by decide)).1

/-- An empty message leaves both processes waiting for each other. -/
theorem empty_message_stuck :
    ∃ config, Reachable (fire (system sample ⟨[], by decide⟩)) Free start config ∧
      Stuck sample ⟨[], by decide⟩ config :=
  exists_stuck sample ⟨[], by decide⟩ rfl

end OSLabs.BuffaloSay
