import OSLabs.Construction.Pipe
import OSLabs.Proof.Transition.Run

namespace OSLabs.Pipe

open Transition

variable {n : Nat} {P L O : Type}

/-- The kernel finds each end under its number. -/
theorem Descriptors.find_number (descriptors : Descriptors n) (this : End n) :
    descriptors.find (descriptors.number this) = some this := by
  have member : this ∈ (List.finRange n).flatMap fun pipe => [(pipe, Side.read), (pipe, Side.write)] := by
    obtain ⟨pipe, side⟩ := this
    refine List.mem_flatMap.mpr ⟨pipe, List.mem_finRange pipe, ?_⟩
    cases side <;> simp
  unfold Descriptors.find
  cases found : ((List.finRange n).flatMap fun pipe => [(pipe, Side.read), (pipe, Side.write)]).find?
      fun other => ((descriptors.number this : Nat) : Int) = descriptors.number other with
  | none => simpa using List.find?_eq_none.mp found this member
  | some other =>
      have passes := List.find?_some found
      have same : ((descriptors.number this : Nat) : Int) = descriptors.number other := of_decide_eq_true passes
      rw [descriptors.distinct (Int.ofNat_inj.mp same)]

namespace Process
variable (process : Process n L O)

@[simp] theorem advance_muted (place : L) : (process.advance place).muted = process.muted := rfl

@[simp] theorem advance_output (place : L) : (process.advance place).output = process.output := rfl

end Process

section
variable [DecidableEq P] [Fintype P] {system : System n P L O} {config : Config n P L O} {name : P} {place : L}
  (here : (config.process name).status = .running place)

theorem fire_idle (idle : ∀ place, (config.process name).status ≠ .running place) :
    fire system config name = none := by
  unfold fire
  cases status : (config.process name).status with
  | running place => exact absurd status (idle place)
  | unborn | exited code | killed => rfl

include here

theorem fire_of_running : fire system config name = perform system config name (system.code name place) := by
  simp only [fire, here]

theorem fire_print {line : O} {next : L} (instr : system.code name place = .print line next) :
    fire system config name = some (config.setProcess name (((config.process name).print line).advance next)) := by
  rw [fire_of_running here, instr]
  rfl

theorem fire_close {number : Int} {next : L} {this : End n} (instr : system.code name place = .close number next)
    (found : system.descriptors.find number = some this) :
    fire system config name = some (config.setProcess name (((config.process name).close this).advance next)) := by
  rw [fire_of_running here, instr]
  simp only [perform, found]

theorem fire_closeForeign {number : Int} {next : L} (instr : system.code name place = .close number next)
    (foreign : system.descriptors.find number = none) :
    fire system config name =
      some (config.setProcess name (((config.process name).closeForeign number).advance next)) := by
  rw [fire_of_running here, instr]
  simp only [perform, foreign]

theorem fire_readForeign {number : Int} {count : Nat} {next : Option (List UInt8) → L}
    (instr : system.code name place = .read number count next) (foreign : system.descriptors.find number = none) :
    fire system config name = some (config.setProcess name ((config.process name).advance
      (next ((system.foreign number).map fun bytes => bytes.take count)))) := by
  rw [fire_of_running here, instr]
  simp only [perform, foreign]

section Pipes
variable {number : Int} {pipe : Fin n}

/-- A read takes the available bytes up to the requested count. -/
theorem fire_read {count : Nat} {next : Option (List UInt8) → L}
    (instr : system.code name place = .read number count next)
    (found : system.descriptors.find number = some (pipe, .read))
    (opened : (config.process name).opened (pipe, .read) = true)
    (available : config.content pipe ≠ []) :
    fire system config name = some ((config.setContent pipe ((config.content pipe).drop count)).setProcess name
      (((config.process name).receive ((config.content pipe).take count)).advance
        (next (some ((config.content pipe).take count))))) := by
  rw [fire_of_running here, instr]
  simp [perform, found, readPipe, opened, available]

/-- A read from an empty pipe waits while the write end is held. -/
theorem fire_read_empty {count : Nat} {next : Option (List UInt8) → L}
    (instr : system.code name place = .read number count next)
    (found : system.descriptors.find number = some (pipe, .read))
    (opened : (config.process name).opened (pipe, .read) = true) (empty : config.content pipe = [])
    (held : config.Held (pipe, .write)) : fire system config name = none := by
  rw [fire_of_running here, instr]
  simp [perform, found, readPipe, opened, empty, held]

/-- A write puts its bytes behind the content of the pipe. -/
theorem fire_write {bytes : List UInt8} {next : L} (instr : system.code name place = .write number bytes next)
    (found : system.descriptors.find number = some (pipe, .write))
    (opened : (config.process name).opened (pipe, .write) = true)
    (some' : bytes ≠ []) (held : config.Held (pipe, .read))
    (room : (config.content pipe).length + bytes.length ≤ system.capacity) :
    fire system config name = some ((config.setContent pipe (config.content pipe ++ bytes)).setProcess name
      ((config.process name).advance next)) := by
  rw [fire_of_running here, instr]
  simp [perform, found, writePipe, opened, some', held, room]

theorem fire_write_nothing {next : L} (instr : system.code name place = .write number [] next)
    (found : system.descriptors.find number = some (pipe, .write)) :
    fire system config name = some (config.setProcess name ((config.process name).advance next)) := by
  rw [fire_of_running here, instr]
  simp [perform, found, writePipe]

end Pipes

theorem fire_fork {child : P} {entry next : L} (instr : system.code name place = .fork child entry next) :
    fire system config name = some ((config.setProcess child ((config.process name).child entry)).setProcess name
      ((config.process name).advance next)) := by
  rw [fire_of_running here, instr]
  rfl

/-- A wait goes on when the child has exited. -/
theorem fire_wait {child : P} {code : Int} {next : Option Int → L}
    (instr : system.code name place = .wait child next)
    (exited : (config.process child).status = .exited code) :
    fire system config name =
      some (config.setProcess name ((config.process name).advance (next (some code)))) := by
  rw [fire_of_running here, instr]
  simp only [perform, exited]

/-- A wait waits while the child runs. -/
theorem fire_wait_running {child : P} {there : L} {next : Option Int → L}
    (instr : system.code name place = .wait child next)
    (runs : (config.process child).status = .running there) : fire system config name = none := by
  rw [fire_of_running here, instr]
  simp only [perform, runs]

theorem fire_exit {code : Int} (instr : system.code name place = .exit code) :
    fire system config name = some (config.setProcess name ((config.process name).finish (.exited code))) := by
  rw [fire_of_running here, instr]
  rfl

end

section Rules
variable [DecidableEq P] [Fintype P] {system : System n P L O} {start : Config n P L O}

/-- What is delivered holds in each reachable configuration in which no process can move. -/
theorem Delivers.post {post : Config n P L O → Prop} {config : Config n P L O}
    (delivers : Delivers system start post)
    (reached : Reachable (fire system) Free start config) (ended : ∀ name, fire system config name = none) :
    post config := by
  obtain ⟨bound, runs⟩ := delivers
  obtain ⟨history, run⟩ := reached
  exact (runs history config run).2 ended

end Rules

end OSLabs.Pipe
