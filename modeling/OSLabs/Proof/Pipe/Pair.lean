import OSLabs.Proof.Pipe.Run

namespace OSLabs.Pipe

open Transition

variable {n : Nat} {L O : Type}

/-- The lowest numbers behind those of the standard streams. -/
def lowestNumber (this : End n) : Nat := 3 + 2 * this.1 + if this.2 = .write then 1 else 0

theorem lowestNumber_injective : Function.Injective (@lowestNumber n) := by
  rintro ⟨pipe, side⟩ ⟨other, otherSide⟩ same
  have pipes : pipe = other := by
    refine Fin.ext ?_
    cases side <;> cases otherSide <;> simp [lowestNumber] at same <;> omega
  cases pipes
  cases side <;> cases otherSide <;> simp [lowestNumber] at same <;> rfl

theorem lowestNumber_standard (this : End n) : 2 < lowestNumber this := by
  rw [lowestNumber]
  omega

theorem lowestNumber_fits (few : n < 1000) (this : End n) : lowestNumber this < 2147483648 := by
  obtain ⟨pipe, side⟩ := this
  cases side <;> simp [lowestNumber] <;> omega

def Descriptors.lowest (few : n < 1000) : Descriptors n where
  number := lowestNumber
  distinct := lowestNumber_injective
  standard := lowestNumber_standard
  fits := lowestNumber_fits few

/-- The capacity of a pipe is at least the size of an atomic write. -/
theorem atomic_pipe : 4096 ≤ 65536 := by decide

/-- A process at a place that has closed only the listed ends. -/
def Process.at (place : L) (closed : List (End n)) (output : List O) (reads : List (List UInt8)) : Process n L O :=
  ⟨.running place, fun this => this ∉ closed, false, output, reads⟩

/-- A process that has exited. -/
def Process.ended (code : Int) (output : List O) (reads : List (List UInt8)) : Process n L O :=
  ⟨.exited code, fun _ => false, false, output, reads⟩

/-- This function chooses what belongs to a role. -/
def both {A : Type} (parent child : A) : Role → A
  | .parent => parent
  | .child => child

/-- The configuration of a parent and a child. -/
def Config.pair (content : Fin n → List UInt8) (parent child : Process n L O) : Config n Role L O :=
  ⟨content, both parent child⟩

namespace Process
variable (place next : L) (closed : List (End n)) (output : List O) (reads : List (List UInt8))

@[simp] theorem at_status : (Process.at place closed output reads).status = .running place := rfl

@[simp] theorem at_opened (this : End n) :
    (Process.at place closed output reads).opened this = decide (this ∉ closed) := rfl

@[simp] theorem at_output : (Process.at place closed output reads).output = output := rfl

@[simp] theorem at_reads : (Process.at place closed output reads).reads = reads := rfl

@[simp] theorem at_advance : (Process.at place closed output reads).advance next =
    Process.at next closed output reads := rfl

@[simp] theorem at_print (line : O) :
    (Process.at place closed output reads).print line = Process.at place closed (output ++ [line]) reads := rfl

@[simp] theorem at_receive (bytes : List UInt8) :
    (Process.at place closed output reads).receive bytes = Process.at place closed output (reads ++ [bytes]) := rfl

@[simp] theorem at_close (this : End n) :
    (Process.at place closed output reads).close this = Process.at place (this :: closed) output reads := by
  have same : Function.update (fun other => decide (other ∉ closed)) this false =
      fun other => decide (other ∉ this :: closed) := by
    funext other
    by_cases equal : other = this
    · simp [equal]
    · simp [equal]
  simp only [Process.close, Process.at, same]

@[simp] theorem at_finish (code : Int) :
    (Process.at place closed output reads).finish (.exited code) = Process.ended code output reads := rfl

@[simp] theorem at_child : (Process.at place closed output reads).child next = Process.at next closed [] [] := rfl

@[simp] theorem ended_status (code : Int) :
    (Process.ended (n := n) (L := L) code output reads).status = .exited code := rfl

@[simp] theorem ended_reads (code : Int) : (Process.ended (n := n) (L := L) code output reads).reads = reads := rfl

@[simp] theorem unborn_status : (Process.unborn (n := n) (L := L) (O := O)).status = .unborn := rfl

@[simp] theorem unborn_reads : (Process.unborn (n := n) (L := L) (O := O)).reads = [] := rfl

end Process

namespace Config
variable (content : Fin n → List UInt8) (parent child process : Process n L O)

@[simp] theorem pair_content : (pair content parent child).content = content := rfl

@[simp] theorem pair_parent : (pair content parent child).process .parent = parent := rfl

@[simp] theorem pair_child : (pair content parent child).process .child = child := rfl

@[simp] theorem pair_setProcess_parent :
    (pair content parent child).setProcess .parent process = pair content process child := by
  have same : Function.update (both parent child) .parent process = both process child := by
    funext role
    cases role <;> rfl
  simp only [pair, setProcess, same]

@[simp] theorem pair_setProcess_child :
    (pair content parent child).setProcess .child process = pair content parent process := by
  have same : Function.update (both parent child) .child process = both parent process := by
    funext role
    cases role <;> rfl
  simp only [pair, setProcess, same]

@[simp] theorem pair_setContent (pipe : Fin n) (bytes : List UInt8) :
    (pair content parent child).setContent pipe bytes =
      pair (Function.update content pipe bytes) parent child := rfl

theorem initial_eq_pair (place : L) :
    Config.initial (O := O) .parent place =
      pair (fun _ : Fin n => []) (Process.at place [] [] []) Process.unborn := by
  have same : Function.update (fun _ => Process.unborn) .parent ⟨.running place, fun _ => true, false, [], []⟩ =
      both (Process.at (n := n) (O := O) place [] [] []) Process.unborn := by
    funext role
    cases role <;> simp [both, Process.at]
  simp only [Config.initial, pair, same]

/-- An end is held by the parent or by the child. -/
@[simp] theorem pair_held (this : End n) :
    (pair content parent child).Held this ↔ parent.opened this = true ∨ child.opened this = true := by
  constructor
  · rintro ⟨name, opened⟩
    cases name with
    | parent => exact Or.inl opened
    | child => exact Or.inr opened
  · rintro (opened | opened)
    · exact ⟨.parent, opened⟩
    · exact ⟨.child, opened⟩

end Config

section Content

@[simp] theorem first_ne_second : first ≠ second := by decide

@[simp] theorem second_ne_first : second ≠ first := by decide

/-- The content of a single pipe. -/
def onePipe (bytes : List UInt8) : Fin 1 → List UInt8 := fun _ => bytes

/-- The contents of two pipes. -/
def twoPipes (one other : List UInt8) : Fin 2 → List UInt8 := fun pipe => if pipe = first then one else other

variable (one other bytes : List UInt8)

@[simp] theorem onePipe_apply (pipe : Fin 1) : onePipe bytes pipe = bytes := rfl

@[simp] theorem twoPipes_first : twoPipes one other first = one := rfl

@[simp] theorem twoPipes_second : twoPipes one other second = other := rfl

theorem twoPipes_nil : twoPipes [] [] = fun _ => [] := by
  funext pipe
  exact ite_self _

@[simp] theorem update_onePipe : Function.update (onePipe one) only bytes = onePipe bytes := by
  funext pipe
  rw [Subsingleton.elim pipe only, Function.update_self, onePipe_apply]

@[simp] theorem update_twoPipes_first : Function.update (twoPipes one other) first bytes = twoPipes bytes other := by
  funext pipe
  by_cases same : pipe = first
  · simp [same]
  · simp [twoPipes, same]

@[simp] theorem update_twoPipes_second : Function.update (twoPipes one other) second bytes = twoPipes one bytes := by
  funext pipe
  by_cases same : pipe = second
  · simp [same]
  · have isFirst : pipe = first := by
      revert same
      revert pipe
      decide
    simp [isFirst]

end Content

section Chart
variable {P S : Type} [DecidableEq P] [Fintype P] {system : System n P L O} (chart : S → Config n P L O)
  (Valid : S → Prop) (Waits : S → P → Prop) (rank : S → Nat) {first : S}

/-- From a valid stage each process waits as described, or it moves to a valid stage with a lower rank. -/
def Charted (system : System n P L O) : Prop :=
  ∀ stage, Valid stage → ∀ name, (fire system (chart stage) name = none ∧ Waits stage name) ∨
    ∃ later, fire system (chart stage) name = some (chart later) ∧ Valid later ∧ rank later < rank stage

variable {chart Valid Waits rank} (charted : Charted chart Valid Waits rank system)

include charted

/-- A process that cannot move waits as described. -/
theorem Charted.waits {stage : S} (valid : Valid stage) {name : P} (idle : fire system (chart stage) name = none) :
    Waits stage name := by
  rcases charted stage valid name with ⟨_, waits⟩ | ⟨_, moves, _⟩
  · exact waits
  · exact absurd (idle.symm.trans moves) (by simp)

variable (base : Valid first)

include base

/-- Each run ends in a valid stage, and its length is bounded by the fall of the rank. -/
theorem Charted.exists_stage_of_run {config : Config n P L O} {history : List (Config n P L O × P)}
    (run : Run (fire system) Free (chart first) history config) :
    ∃ stage, Valid stage ∧ config = chart stage ∧ history.length + rank stage ≤ rank first := by
  induction run with
  | start => exact ⟨first, base, rfl, by simp⟩
  | step name _ _ fired inductionHypothesis =>
      obtain ⟨stage, valid, rfl, bound⟩ := inductionHypothesis
      rcases charted stage valid name with ⟨waits, _⟩ | ⟨later, moves, isValid, less⟩
      · exact absurd (waits.symm.trans fired) (by simp)
      · exact ⟨later, isValid, Option.some.inj (fired.symm.trans moves), by simp only [List.length_cons]; omega⟩

/-- Each reachable configuration is that of a valid stage. -/
theorem Charted.exists_stage {config : Config n P L O}
    (reached : Reachable (fire system) Free (chart first) config) :
    ∃ stage, Valid stage ∧ config = chart stage := by
  obtain ⟨history, run⟩ := reached
  obtain ⟨stage, valid, same, _⟩ := charted.exists_stage_of_run base run
  exact ⟨stage, valid, same⟩

omit base in
/-- From each valid stage a run leads to a valid stage in which no process can move. -/
theorem Charted.exists_end (stage : S) (valid : Valid stage) :
    ∃ later, Valid later ∧ Reachable (fire system) Free (chart stage) (chart later) ∧
      ∀ name, fire system (chart later) name = none := by
  induction measured : rank stage using Nat.strongRecOn generalizing stage with
  | ind bound inductionHypothesis =>
      by_cases idle : ∀ name, fire system (chart stage) name = none
      · exact ⟨stage, valid, .refl, idle⟩
      · obtain ⟨name, runs⟩ := not_forall.mp idle
        rcases charted stage valid name with ⟨waits, _⟩ | ⟨between, moves, isValid, less⟩
        · exact absurd waits runs
        · obtain ⟨later, validLater, reached, ended⟩ := inductionHypothesis _ (measured ▸ less) between isValid rfl
          exact ⟨later, validLater, (Reachable.refl.step name trivial moves).trans reached, ended⟩

/-- A chart with a single last stage delivers exactly what holds in this stage. -/
theorem Charted.delivers_iff {last : S} (ends : ∀ stage, Valid stage → (∀ name, Waits stage name) → stage = last)
    {post : Config n P L O → Prop} : Delivers system (chart first) post ↔ post (chart last) := by
  constructor
  · intro delivers
    obtain ⟨later, valid, reached, idle⟩ := charted.exists_end first base
    have same := ends later valid fun name => charted.waits valid (idle name)
    exact same ▸ delivers.post reached idle
  · refine fun holds => ⟨rank first, fun history config run => ?_⟩
    obtain ⟨stage, valid, rfl, bound⟩ := charted.exists_stage_of_run base run
    refine ⟨by omega, fun idle => ?_⟩
    rw [ends stage valid fun name => charted.waits valid (idle name)]
    exact holds

end Chart

end OSLabs.Pipe
