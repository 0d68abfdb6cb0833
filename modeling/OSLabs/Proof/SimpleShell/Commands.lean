import OSLabs.Construction.SimpleShell
import OSLabs.Proof.Process.Ledger

namespace OSLabs.SimpleShell

open Transition Process Stdio

abbrev State := Config Place Image Output

section Ledger

variable (counts : Image → Bool)

/-- The number of counted executions of one image. -/
def one (image : Image) : Nat := if counts image then 1 else 0

/-- The number of counted executions after the digit test. -/
def owedDigits (image : Image) : Nat :=
  (if image.parsed.command.head?.any isDigit then (atoi image.parsed.command).toNat * one counts
    image.shorten else 0) +
    one counts image

/-- The number of counted executions of a line. -/
def owedLine (image : Image) : Nat :=
  (if isBackground image.parsed.command then one counts image.strip else 0) + owedDigits counts image.strip

/-- The number of counted executions of the lines up to the one that ends the shell. -/
def owedLines : Nat → List Parsed → Nat
  | _, [] => 0
  | round, line :: rest =>
      owedLine counts ⟨round, line⟩ + if quits (stripBackground line.command) then
        0 else owedLines (round + 1) rest

def owedQuit (image : Image) (lines : List Parsed) : Nat :=
  if quits image.parsed.command then 0 else owedLines counts (image.round + 1) lines

/-- The number of counted executions that a process at this place still causes. -/
def owed : Place → Nat
  | .main lines => owedLines counts 0 lines
  | .prompt round lines | .read round lines => owedLines counts round lines
  | .dispatch image lines => owedLine counts image + owedQuit counts image.strip lines
  | .testDigit image lines => owedDigits counts image + owedQuit counts image lines
  | .loop i image lines =>
      (atoi image.parsed.command - i).toNat * one counts image.shorten + one counts
        image + owedQuit counts image lines
  | .runCommand image _ after => one counts image + owed after
  | .execute image => one counts image
  | .waitBackground after | .printFinished after | .waitForeground after | .signalHandle after => owed after
  | .testQuit image lines => owedQuit counts image lines
  | .exit | .execFailed => 0

theorem stripBackground_eq {command : List UInt8} (foreground : isBackground command = false) :
    stripBackground command = command := by
  unfold stripBackground
  unfold isBackground at foreground
  split
  · simp_all
  · rfl

theorem strip_of_not_background {image : Image} (foreground : isBackground image.parsed.command = false) :
    image.strip = image := by
  unfold Image.strip
  rw [stripBackground_eq foreground]

/-- Each instruction of the shell pays or hands on what it owes. -/
theorem program_balanced : program.Balanced (owed counts) counts where
  code place := by
    cases place with
    | main lines => rfl
    | prompt round lines => rfl
    | read round lines =>
        cases lines with
        | nil => rfl
        | cons line rest => rfl
    | dispatch image lines =>
        cases prefixed : isBackground image.parsed.command with
        | true =>
            simp only [program, prefixed, ↓reduceIte, Instr.Balanced, owed, owedLine]
            omega
        | false =>
            simp [program, prefixed, Instr.Balanced, owed, owedLine, strip_of_not_background prefixed]
    | testDigit image lines =>
        cases digit : image.parsed.command.head?.any isDigit <;>
          simp [program, digit, Instr.Balanced, owed, owedDigits]
    | loop i image lines =>
        by_cases more : (i : Int) < atoi image.parsed.command
        · have count : (atoi image.parsed.command - i).toNat =
              (atoi image.parsed.command - (i + 1 : Nat)).toNat + 1 := by
            omega
          simp only [program, more, ↓reduceIte, Instr.Balanced, owed, count, Nat.add_mul, Nat.one_mul]
          omega
        · have count : (atoi image.parsed.command - i).toNat = 0 := by omega
          simp [program, more, Instr.Balanced, owed, count]
    | runCommand image background after =>
        cases background <;> exact fun _ => rfl
    | execute image => exact ⟨rfl, rfl⟩
    | waitBackground after => exact fun _ => rfl
    | printFinished after => rfl
    | waitForeground after => exact fun _ => rfl
    | testQuit image lines =>
        cases ends : quits image.parsed.command <;> simp [program, ends, Instr.Balanced, owed, owedQuit]
    | exit => rfl
    | execFailed => rfl
    | signalHandle interrupted =>
        intro word
        cases word <;> rfl
  handler _ _ := rfl

variable {counts} {round first : Nat} {lines : List Parsed} {line : Parsed}
  (only : ∀ image, counts image = true → image.round = round)

include only

theorem one_eq_zero {image : Image} (other : image.round ≠ round) : one counts image = 0 :=
  if_neg fun counted => other (only image counted)

theorem owedDigits_eq_zero {image : Image} (other : image.round ≠ round) : owedDigits counts image = 0 := by
  have shorter : image.shorten.round ≠ round := other
  simp [owedDigits, one_eq_zero only other, one_eq_zero only shorter]

theorem owedLine_eq_zero {image : Image} (other : image.round ≠ round) : owedLine counts image = 0 := by
  have stripped : image.strip.round ≠ round := other
  simp [owedLine, one_eq_zero only stripped, owedDigits_eq_zero only stripped]

theorem owedLines_eq_zero (past : round < first) (lines : List Parsed) : owedLines counts first lines = 0 := by
  induction lines generalizing first with
  | nil => rfl
  | cons line rest inductionHypothesis =>
      have other : (⟨first, line⟩ : Image).round ≠ round := past.ne'
      simp [owedLines, owedLine_eq_zero only other, inductionHypothesis (Nat.lt_succ_of_lt past)]

theorem owedQuit_eq_zero {image : Image} (past : round ≤ image.round) (lines : List Parsed) :
    owedQuit counts image lines = 0 := by
  simp [owedQuit, owedLines_eq_zero only (Nat.lt_succ_of_le past)]

/-- Only the line of the round counts. -/
theorem owedLines_eq (later : first ≤ round) (here : (untilQuit lines)[round - first]? = some line) :
    owedLines counts first lines = owedLine counts ⟨round, line⟩ := by
  induction lines generalizing first with
  | nil => simp [untilQuit] at here
  | cons head rest inductionHypothesis =>
      rcases Nat.eq_or_lt_of_le later with rfl | before
      · obtain rfl : head = line := by simpa [untilQuit] using here
        simp [owedLines, owedLines_eq_zero only (Nat.lt_succ_self _)]
      · have other : (⟨first, head⟩ : Image).round ≠ round := before.ne
        have next : round - first = round - (first + 1) + 1 := by omega
        rw [untilQuit, next, List.getElem?_cons_succ] at here
        cases ends : quits (stripBackground head.command) with
        | true => simp [ends] at here
        | false =>
            rw [ends] at here
            simp [owedLines, owedLine_eq_zero only other, ends, inductionHypothesis before here]

/-- A process that is done with the round owes nothing. -/
theorem owed_eq_zero {place : Place} (done : place.handles round = false) : owed counts place = 0 := by
  induction place with
  | main lines => cases done
  | prompt next lines | read next lines =>
      exact owedLines_eq_zero only (by simpa [Place.handles] using done) lines
  | dispatch image lines =>
      have past : round < image.round := by simpa [Place.handles] using done
      have stripped : round ≤ image.strip.round := past.le
      simp [owed, owedLine_eq_zero only past.ne', owedQuit_eq_zero only stripped]
  | testDigit image lines =>
      have past : round < image.round := by simpa [Place.handles] using done
      simp [owed, owedDigits_eq_zero only past.ne', owedQuit_eq_zero only past.le]
  | loop i image lines =>
      have past : round < image.round := by simpa [Place.handles] using done
      have shorter : image.shorten.round ≠ round := past.ne'
      simp [owed, one_eq_zero only past.ne', one_eq_zero only shorter, owedQuit_eq_zero only past.le]
  | testQuit image lines =>
      have past : round < image.round := by simpa [Place.handles] using done
      exact owedQuit_eq_zero only past.le lines
  | runCommand image background after inductionHypothesis =>
      simp only [Place.handles, Bool.or_eq_false_iff, decide_eq_false_iff_not] at done
      simp [owed, one_eq_zero only done.1, inductionHypothesis done.2]
  | execute image => exact one_eq_zero only (by simpa [Place.handles] using done)
  | waitBackground after inductionHypothesis | printFinished after inductionHypothesis
  | waitForeground after inductionHypothesis | signalHandle after inductionHypothesis =>
      exact inductionHypothesis done
  | exit | execFailed => rfl

end Ledger

section Runs

variable {lines : List Parsed} {round : Nat} {line : Parsed} {config : State}

theorem program_silent (place : Place) : (program.code place).kills = false := by
  cases place with
  | read round lines => cases lines <;> rfl
  | dispatch image lines | testDigit image lines | loop i image lines | testQuit image lines =>
      simp only [program]
      split <;> rfl
  | _ => rfl

/-- In every run the number of counted executions and what is still owed are what the line owes. -/
theorem executed_add (here : (untilQuit lines)[round]? = some line) (counts : Image → Bool)
    (only : ∀ image, counts image = true → image.round = round)
    (reached : Reachable (fire program) Free (start lines) config) :
    total (Status.owed (owed counts)) config + config.executed counts = owedLine counts ⟨round, line⟩ :=
  ((program_balanced counts).reachable program_silent reached).trans (owedLines_eq only (Nat.zero_le _) here)

theorem owedLine_foreground (counts : Image → Bool) (noDigit : line.command.head?.any isDigit = false)
    (foreground : isBackground line.command = false) :
    owedLine counts ⟨round, line⟩ = one counts ⟨round, line⟩ := by
  have strip : (⟨round, line⟩ : Image).strip = ⟨round, line⟩ := strip_of_not_background foreground
  simp [owedLine, owedDigits, strip, noDigit, foreground]

/-- A line without the prefix is executed once, in every session. -/
theorem runsOnce_of_foreground (here : (untilQuit lines)[round]? = some line)
    (noDigit : line.command.head?.any isDigit = false) (foreground : isBackground line.command = false)
    (reached : Reachable (fire program) Free (start lines) config) : RunsOnce round line config where
  exact entry member isRound := by
    let other (image : Image) : Bool := image.round = round && image.parsed ≠ line
    have law := executed_add here other (fun image counted => by simp_all [other]) reached
    rw [owedLine_foreground other noDigit foreground] at law
    have notCounted : one other ⟨round, line⟩ = 0 := by simp [one, other]
    have none : config.executed other = 0 := by omega
    have same := List.countP_eq_zero.mp none entry member
    rw [stripBackground_eq foreground]
    simpa [other, isRound] using same
  once := by
    let same (image : Image) : Bool := image.round = round
    have only : ∀ image, same image = true → image.round = round :=
      fun image counted => by simpa [same] using counted
    have law := executed_add here same only reached
    rw [owedLine_foreground same noDigit foreground] at law
    have counted : one same ⟨round, line⟩ = 1 := by simp [one, same]
    have called : config.executed same = calls round config := rfl
    refine ⟨by omega, fun handled => ?_⟩
    have nothing : total (Status.owed (owed same)) config = 0 :=
      total_owed_eq_zero fun pid place running => owed_eq_zero only (handled pid place running)
    omega
  returns prefixed := by
    rw [foreground] at prefixed
    cases prefixed

/-- After the digit test the shell calls `runCommand` for the line. -/
theorem exists_runCommand (image : Image) (reached : Reachable (fire program) Free (start lines) config)
    (here : config.status 1 = some (.running (.testDigit image []))) :
    ∃ given after next, given.round = image.round ∧
      ((∃ i, after = .loop i image []) ∨ after = .testQuit image []) ∧
      Reachable (fire program) Free (start lines) next ∧ next.fresh = config.fresh ∧
      next.status = Function.update config.status 1 (some (.running (.runCommand given false after))) ∧
      next.execs = config.execs := by
  cases digit : image.parsed.command.head?.any isDigit with
  | false =>
      have stepped :=
        reachable_run 1 _ (config.setPlace 1 (.runCommand image false (.testQuit image []))) reached here
        (by simp [program, digit, perform])
      exact ⟨image, .testQuit image [], _, rfl, Or.inr rfl, stepped, rfl, rfl, rfl⟩
  | true =>
      have stepped := reachable_run 1 _ (config.setPlace 1 (.loop 0 image [])) reached here
        (by simp [program, digit, perform])
      by_cases more : (0 : Int) < atoi image.parsed.command
      · have looped := reachable_run 1 (.loop 0 image [])
          ((config.setPlace 1 (.loop 0 image [])).setPlace 1
            (.runCommand image.shorten false (.loop 1 image []))) stepped
          (by simp) (by simp [program, more, perform])
        exact ⟨image.shorten, .loop 1 image [], _, rfl, Or.inl ⟨1, rfl⟩, looped, rfl, by simp, rfl⟩
      · have looped := reachable_run 1 (.loop 0 image [])
          ((config.setPlace 1 (.loop 0 image [])).setPlace 1 (.runCommand image false (.testQuit image [])))
            stepped
          (by simp) (by simp [program, more, perform])
        exact ⟨image, .testQuit image [], _, rfl, Or.inr rfl, looped, rfl, by simp, rfl⟩

/-- The shell prints its prompt and the line and comes to the dispatch. -/
theorem exists_dispatch (line : Parsed) :
    ∃ config, Reachable (fire program) Free (start [line]) config ∧ config.fresh = 2 ∧
      config.status = Function.update (fun _ => none) 1 (some (.running (.dispatch ⟨0, line⟩ []))) ∧
      config.execs = [] := by
  let signalled : State := ((start [line]).setDisposition 1 .chld .caught).setPlace 1 (.prompt 0 [line])
  let prompted : State := (signalled.print .prompt).setPlace 1 (.read 0 [line])
  let dispatched : State := (prompted.print (.command line)).setPlace 1 (.dispatch ⟨0, line⟩ [])
  have first : Reachable (fire program) Free (start [line]) signalled :=
    reachable_run 1 (.main [line]) signalled Reachable.refl rfl rfl
  have second := reachable_run 1 (.prompt 0 [line]) prompted first (by simp [signalled]) rfl
  have third := reachable_run 1 (.read 0 [line]) dispatched second (by simp [prompted]) rfl
  refine ⟨dispatched, third, rfl, ?_, rfl⟩
  simp [dispatched, prompted, signalled, start, Config.initial]

/-- For a line without the prefix the shell forks a child, which executes the command and ends, and reaps it. -/
theorem exists_testQuit (line : Parsed) (noDigit : line.command.head?.any isDigit = false)
    (foreground : isBackground line.command = false) :
    ∃ config, Reachable (fire program) Free (start [line]) config ∧
      config.status 1 = some (.running (.testQuit ⟨0, line⟩ [])) ∧
      ∀ pid place, pid ≠ 1 → config.status pid ≠ some (.running place) := by
  obtain ⟨config, reached, fresh, status, _⟩ := exists_dispatch line
  let image : Image := ⟨0, line⟩
  let tested : State := config.setPlace 1 (.testDigit image [])
  have first := reachable_run 1 (.dispatch image []) tested reached (by simp [status, image])
    (by simp [program, image, foreground, perform, tested])
  let called : State := tested.setPlace 1 (.runCommand image false (.testQuit image []))
  have second := reachable_run 1 (.testDigit image []) called first (by simp [tested])
    (by simp [program, image, noDigit, perform, called])
  let forked : State := (called.spawn 1 (.execute image)).setPlace 1 (.waitForeground (.testQuit image []))
  have third := reachable_run 1 (.runCommand image false (.testQuit image [])) forked second (by simp [called]) rfl
  have child : forked.status 2 = some (.running (.execute image)) := by simp [forked, called, tested, fresh]
  have fourth := reachable_execute 2 (.exit 0) third child rfl
  let ended : State := ((forked.call 2 image).setStatus 2 (.executing image)).finish 2 (.exit 0)
  have waits : ended.status 1 = some (.running (.waitForeground (.testQuit image []))) := by simp [ended, forked]
  have zombie : ended.status 2 = some (.zombie (.exit 0)) := by simp [ended]
  have parent : ended.parent 2 = 1 := by simp [ended, forked, called, tested, fresh]
  let reaped : State := (ended.setStatus 2 (.reaped (.exit 0))).setPlace 1 (.testQuit image [])
  have fifth : Reachable (fire program) Free (start [line]) reaped :=
    reachable_reap 1 2 _ fourth waits zombie rfl parent
  refine ⟨reaped, fifth, by simp [reaped, image], fun pid place notShell => ?_⟩
  by_cases isChild : pid = 2
  · simp [reaped, isChild]
  · simp [reaped, ended, forked, called, tested, fresh, status, notShell, isChild]

/-- A line without the prefix can be handled to its end. -/
theorem exists_handled (line : Parsed) (noDigit : line.command.head?.any isDigit = false)
    (foreground : isBackground line.command = false) :
    ∃ config, Reachable (fire program) Free (start [line]) config ∧ Handled 0 config := by
  obtain ⟨config, reached, shell, others⟩ := exists_testQuit line noDigit foreground
  cases ends : quits line.command with
  | true =>
      have code : program.code (.testQuit ⟨0, line⟩ []) = .exit 0 := by simp [program, ends]
      have ended := reachable_run 1 _ (config.finish 1 (.exit 0)) reached shell (by rw [code]; rfl)
      refine ⟨_, ended, fun pid place running => ?_⟩
      by_cases isShell : pid = 1
      · simp [isShell] at running
      · exact absurd (by simpa [isShell] using running) (others pid place isShell)
  | false =>
      have code : program.code (.testQuit ⟨0, line⟩ []) = .jump (.prompt 1 []) := by simp [program, ends]
      have prompted := reachable_run 1 _ (config.setPlace 1 (.prompt 1 [])) reached shell (by rw [code]; rfl)
      refine ⟨_, prompted, fun pid place running => ?_⟩
      by_cases isShell : pid = 1
      · obtain rfl : Place.prompt 1 [] = place := by simpa [isShell] using running
        rfl
      · exact absurd (by simpa [isShell] using running) (others pid place isShell)

/-- For a line with the prefix the shell forks a helper and goes on with the digit test. -/
theorem exists_testDigit (line : Parsed) (prefixed : isBackground line.command = true) :
    ∃ config, Reachable (fire program) Free (start [line]) config ∧ config.fresh = 3 ∧
      config.status 1 = some (.running (.testDigit (⟨0, line⟩ : Image).strip [])) ∧
      config.status 2 = some (.running (.runCommand (⟨0, line⟩ : Image).strip true .exit)) ∧
      config.execs = [] := by
  obtain ⟨config, reached, fresh, status, none⟩ := exists_dispatch line
  have forked := reachable_run 1 (.dispatch ⟨0, line⟩ [])
    ((config.spawn 1 (.runCommand (⟨0, line⟩ : Image).strip true .exit)).setPlace 1
      (.testDigit (⟨0, line⟩ : Image).strip []))
    reached (by simp [status]) (by simp [program, prefixed, perform])
  exact ⟨_, forked, by simp [fresh], by simp, by simp [fresh], by simp [none]⟩

/-- For a line with the prefix two processes call `exec` and the shell waits. -/
theorem background_twice (line : Parsed) (prefixed : isBackground line.command = true) :
    ∃ config, Reachable (fire program) Free (start [line]) config ∧ calls 0 config = 2 ∧ Waits 0 config := by
  obtain ⟨config, reached, fresh, shell, helper, none⟩ := exists_testDigit line prefixed
  obtain ⟨given, after, config', round, returns, reached, fresh', status, none'⟩ :=
    exists_runCommand _ reached shell
  have here : config'.status 1 = some (.running (.runCommand given false after)) := by simp [status]
  let forked : State := (config'.spawn 1 (.execute given)).setPlace 1 (.waitForeground after)
  have first := reachable_run 1 _ forked reached here rfl
  let helped : State := (forked.spawn 2 (.execute (⟨0, line⟩ : Image).strip)).setPlace 2 (.waitBackground .exit)
  have second := reachable_run 2 (.runCommand (⟨0, line⟩ : Image).strip true .exit) helped first
    (by simp [forked, status, fresh', fresh, helper]) rfl
  let executed : State := (helped.call 3 given).setStatus 3 (.executing given)
  have third := reachable_run 3 (.execute given) executed second (by simp [helped, forked, fresh', fresh]) rfl
  let twice : State :=
    (executed.call 4 (⟨0, line⟩ : Image).strip).setStatus 4 (.executing (⟨0, line⟩ : Image).strip)
  have fourth := reachable_run 4 (.execute (⟨0, line⟩ : Image).strip) twice third
    (by simp [executed, helped, forked, fresh', fresh]) rfl
  have waiting : twice.status 1 = some (.running (.waitForeground after)) := by
    simp [twice, executed, helped, forked, fresh', fresh]
  refine ⟨twice, fourth, ?_, (⟨0, line⟩ : Image).strip, [], rfl, ?_⟩
  · have isRound : given.round = 0 := round
    have stripped : (⟨0, line⟩ : Image).strip.round = 0 := rfl
    simp [calls, twice, executed, helped, forked, none', none, isRound, stripped]
  · rcases returns with ⟨i, rfl⟩ | rfl
    · exact Or.inr ⟨i, waiting⟩
    · exact Or.inl waiting

/-- A line that does not begin with a digit is handled as described in every session
if and only if it has not the prefix.
Then the shell can handle it to the end. -/
theorem runs_once (line : Parsed) (noDigit : line.command.head?.any isDigit = false) :
    ((∀ lines round, (untilQuit lines)[round]? = some line → ∀ config,
      Reachable (fire program) Free (start lines) config → RunsOnce round line config) ↔
      isBackground line.command = false) ∧
    (isBackground line.command = false →
      ∃ config, Reachable (fire program) Free (start [line]) config ∧ Handled 0 config) := by
  refine ⟨⟨?_, ?_⟩, exists_handled line noDigit⟩
  · intro once
    by_contra prefixed
    obtain ⟨config, reached, twice, _⟩ := background_twice line (by simpa using prefixed)
    have atMost := (once [line] 0 rfl config reached).once.1
    omega
  · intro foreground lines round here config reached
    exact runsOnce_of_foreground here noDigit foreground reached

/-- The line `ls -l` can be handled to the end, and then `ls` has been executed once. -/
theorem runs_once_ls :
    ∃ config, Reachable (fire program) Free (start [⟨[108, 115], some [45, 108]⟩]) config ∧ Handled 0 config ∧
      RunsOnce 0 ⟨[108, 115], some [45, 108]⟩ config := by
  obtain ⟨once, completes⟩ := runs_once ⟨[108, 115], some [45, 108]⟩ (by decide)
  obtain ⟨config, reached, handled⟩ := completes (by decide)
  exact ⟨config, reached, handled, once.mpr (by decide) [⟨[108, 115], some [45, 108]⟩] 0 rfl config reached⟩

/-- After the line `BGls` two processes execute `ls` and the shell is in `wait`. -/
theorem background_ls_twice : ∃ config, Reachable (fire program) Free (start [⟨[66, 71, 108, 115], none⟩]) config ∧
    config.execs.map Prod.snd = [⟨0, [108, 115], none⟩, ⟨0, [108, 115], none⟩] ∧ Waits 0 config ∧
    ¬ RunsOnce 0 ⟨[66, 71, 108, 115], none⟩ config := by
  obtain ⟨config, reached, holds⟩ := exists_reachable (fire program) Free (start [⟨[66, 71, 108, 115], none⟩])
    [.run 1, .run 1, .run 1, .run 1, .run 1, .run 1, .run 2, .run 3, .run 4]
    (fun config => decide (config.execs.map Prod.snd = [⟨0, [108, 115], none⟩, ⟨0, [108, 115], none⟩]) &&
      decide (config.status 1 = some (.running (.waitForeground (.testQuit ⟨0, [108, 115], none⟩ [])))))
        (by decide)
  simp only [Bool.and_eq_true, decide_eq_true_eq] at holds
  have waits : Waits 0 config := ⟨_, [], rfl, Or.inl holds.2⟩
  exact ⟨config, reached, holds.1, waits, fun once => once.returns rfl waits⟩

end Runs

end OSLabs.SimpleShell
