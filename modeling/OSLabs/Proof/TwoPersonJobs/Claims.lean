import OSLabs.Construction.TwoPersonJobs
import OSLabs.Proof.Pthread.Local
import OSLabs.Proof.Pthread.Tally

namespace OSLabs.TwoPersonJobs
open Pthread

@[simp] theorem Memory.setJob_jobs {T : Type} {jobnum : Nat} (memory : Memory T jobnum) (job : Fin jobnum)
    (value : Job) :
    (memory.setJob job value).jobs = Function.update memory.jobs job value := rfl

@[simp] theorem Memory.setJob_output {T : Type} {jobnum : Nat} (memory : Memory T jobnum) (job : Fin jobnum)
    (value : Job) :
    (memory.setJob job value).output = memory.output := rfl

@[simp] theorem Memory.print_jobs {T : Type} {jobnum : Nat} (memory : Memory T jobnum)
    (message : Message T jobnum) :
    (memory.print message).jobs = memory.jobs := rfl

@[simp] theorem Memory.print_output {T : Type} {jobnum : Nat} (memory : Memory T jobnum)
    (message : Message T jobnum) :
    (memory.print message).output = message :: memory.output := rfl

/-- These places hold `lock`. -/
def held {jobnum : Nat} (place : Place jobnum) (mutex : Mutex) : Bool :=
  match mutex, place with
  | .lock, .lockClaim | .lock, .lockFinish _ | .lock, .done _ => false
  | .lock, _ => true

theorem worker_respects {T : Type} {jobnum : Nat} (num : T) (place : Place jobnum) :
    (worker num place).Respects held place := by
  cases place with
  | scan i =>
      intro before after next effect
      simp only at effect
      split at effect
      · split at effect <;> cases effect <;> rfl
      · cases effect
        rfl
  | waitTest job =>
      intro before after next effect
      cases effect
      split <;> rfl
  | testJob job =>
      cases job <;> intro before after next effect <;> cases effect <;> rfl
  | startHelp job =>
      intro before after next effect
      cases effect
      rfl
  | finish job =>
      intro before after next effect
      simp only at effect
      split at effect <;> cases effect <;> rfl
  | condWait job => exact ⟨rfl, rfl⟩
  | signalHelp job => rfl
  | lockClaim | lockFinish job | unlockClaim job | unlockFinish job =>
      funext mutex
      cases mutex
      rfl
  | done job => trivial
  | failed => trivial

/-- The job is neither up for grabs nor without its helper. -/
def Job.isPast : Job → Bool
  | .started | .partially | .done => true
  | _ => false

/-- The number of workers that a job has bound. -/
def Job.claimCount : Job → Int
  | .unstarted => 0
  | .waiting => 1
  | _ => 2

/-- The number of workers that have finished their part of a job. -/
def Job.finishCount : Job → Int
  | .partially => 1
  | .done => 2
  | _ => 0

namespace Place
variable {jobnum : Nat}

/-- The worker is bound to the job. -/
def bound (job : Fin jobnum) : Place jobnum → Bool
  | .waitTest other | .condWait other | .testJob (some other) | .unlockClaim other | .lockFinish other
  | .finish other | .unlockFinish other | .done other => other = job
  | _ => false

/-- The worker has finished its part of the job. -/
def finished (job : Fin jobnum) : Place jobnum → Bool
  | .unlockFinish other | .done other => other = job
  | _ => false

/-- The worker has left the loop with a job. -/
def working (job : Fin jobnum) : Place jobnum → Bool
  | .testJob (some other) | .unlockClaim other | .lockFinish other
  | .finish other | .unlockFinish other | .done other => other = job
  | _ => false

/-- The worker has claimed the job, possibly as a helper that has not yet started it. -/
def claimed (job : Fin jobnum) : Place jobnum → Bool
  | .signalHelp other | .startHelp other => other = job
  | place => place.bound job

end Place

/-- The holder of `lock` knows the jobs that it has passed over, and that its job waits for its help. -/
def Guard {T : Type} {jobnum : Nat} (_ : T) (status : Status (Place jobnum) Mutex Cond)
    (memory : Memory T jobnum) : Prop :=
  match status with
  | .ready (.scan i) => ∀ job : Fin jobnum, job.val < i → (memory.jobs job).isPast = true
  | .ready (.condWait job) => memory.jobs job = .waiting
  | .ready (.signalHelp job) => memory.jobs job = .waiting
  | .ready (.startHelp job) => memory.jobs job = .waiting
  | .ready (.testJob none) => ∀ job, (memory.jobs job).isPast = true
  | .ready .failed => ∀ job, (memory.jobs job).isPast = true
  | .ready _ => True
  | .blocked _ _ place | .woken _ place => ∃ job, place = .waitTest job

theorem guard_stable {T : Type} {jobnum : Nat} (t : T) (status : Status (Place jobnum) Mutex Cond)
    (memory memory' : Memory T jobnum) (free : status.holds held .lock = false)
    (guard : Guard t status memory) : Guard t status memory' := by
  cases status with
  | ready place => cases place <;> trivial
  | blocked cond mutex place => exact guard
  | woken mutex place => exact guard

theorem Job.isPast_of_ne {job : Job} (claimed : job ≠ .unstarted) (helped : job ≠ .waiting) :
    job.isPast = true := by
  cases job <;> simp_all [Job.isPast]

theorem Job.Advances.isPast {before after : Job} (advances : before.Advances after) (past : before.isPast = true) :
    after.isPast = true := by
  cases before <;> cases after <;> simp_all [Job.Advances, Job.isPast]

section
variable {T : Type} {jobnum : Nat}

/-- Every job behind a job that still needs a worker is unstarted. -/
def Ordered (memory : Memory T jobnum) : Prop :=
  ∀ first second : Fin jobnum, first < second → (memory.jobs first).isPast = false →
    memory.jobs second = .unstarted

/-- A job whose predecessors have all been started may become the first open job. -/
theorem Ordered.setJob {memory : Memory T jobnum} (ordered : Ordered memory) {job : Fin jobnum} {value : Job}
    (front : ∀ first < job, (memory.jobs first).isPast = true)
    (behind : value.isPast = true ∨ (memory.jobs job).isPast = false) : Ordered (memory.setJob job value) := by
  intro first second less notPast
  by_cases firstHit : first = job
  · subst firstHit
    have open' : (memory.jobs first).isPast = false := by
      rcases behind with past | open'
      · simp [past] at notPast
      · exact open'
    simpa [Function.update_of_ne (Fin.ne_of_gt less)] using ordered first second less open'
  · rw [Memory.setJob_jobs, Function.update_of_ne firstHit] at notPast
    by_cases secondHit : second = job
    · subst secondHit
      rw [front first less] at notPast
      cases notPast
    · simpa [Function.update_of_ne secondHit] using ordered first second less notPast

/-- A job that is claimed has only started jobs before it. -/
theorem Ordered.front {memory : Memory T jobnum} (ordered : Ordered memory) {job : Fin jobnum}
    (claimed : memory.jobs job ≠ .unstarted) : ∀ first < job, (memory.jobs first).isPast = true := by
  intro first less
  by_contra notPast
  exact claimed (ordered first job less (by simpa using notPast))

/-- At most one job waits for its helper. -/
theorem Ordered.waiting_unique {memory : Memory T jobnum} (ordered : Ordered memory) {first second : Fin jobnum}
    (firstWaits : memory.jobs first = .waiting) (secondWaits : memory.jobs second = .waiting) :
    first = second := by
  rcases lt_trichotomy first second with less | same | greater
  · have past := ordered.front (by simp [secondWaits]) first less
    simp [firstWaits, Job.isPast] at past
  · exact same
  · have past := ordered.front (by simp [firstWaits]) second greater
    simp [secondWaits, Job.isPast] at past

end

theorem start_owned {T : Type} {jobnum : Nat} : Owned (fun _ => held) (start : State T jobnum) := by
  refine ⟨fun mutex t => ?_, fun t => trivial⟩
  cases mutex
  simp [start, Status.holds, held]

section
variable {T : Type} {jobnum : Nat} [DecidableEq T] [Fintype T]
  {allowed : History T (Memory T jobnum) (Place jobnum) Mutex Cond → State T jobnum → T → Prop}
  {history : History T (Memory T jobnum) (Place jobnum) Mutex Cond} {config : State T jobnum}

theorem owned (reached : Run worker start allowed history config) : Owned (fun _ => held) config := by
  refine reached.owned worker_respects start_owned ?_
  intro _ _ t place mutex next _ _ _ unlocks unheld
  cases mutex
  cases place with
  | testJob job => cases job <;> cases unlocks
  | _ => cases unlocks <;> simp [held] at unheld

theorem guarded (reached : Run worker start allowed history config) : Everywhere Guard config := by
  refine Run.everywhere Guard ?_ ?_ ?_ ?_ reached
  · intro t
    trivial
  · intro t cond mutex place memory guard
    exact guard
  · rintro t mutex place memory ⟨job, rfl⟩
    trivial
  · intro history config t place before all _ here
    have mine := all t
    rw [here] at mine
    have others := fun holds memory other (different : other ≠ t) =>
      all.undisturbed (owned before) guard_stable here holds memory different
    cases place with
    | lockClaim => exact fun _ job below => absurd below (Nat.not_lt_zero _)
    | scan i =>
        intro after next effect
        refine ⟨?_, others rfl after⟩
        simp only at effect
        split at effect
        · next inside =>
            split at effect <;> cases effect
            · trivial
            · assumption
            · next notUnstarted notWaiting =>
                intro job below
                by_cases same : job.val = i
                · have value : job = ⟨i, inside⟩ := Fin.ext same
                  rw [value]
                  exact Job.isPast_of_ne notUnstarted notWaiting
                · exact mine job (by omega)
        · cases effect
          intro job
          exact mine job (by omega)
    | waitTest job =>
        intro after next effect
        cases effect
        refine ⟨?_, others rfl _⟩
        split
        · assumption
        · trivial
    | condWait job => exact ⟨job, rfl⟩
    | signalHelp job => exact mine
    | startHelp job =>
        intro after next effect
        cases effect
        exact ⟨trivial, others rfl _⟩
    | testJob job =>
        cases job with
        | none =>
            intro after next effect
            cases effect
            exact ⟨mine, others rfl _⟩
        | some job =>
            intro after next effect
            cases effect
            exact ⟨trivial, others rfl _⟩
    | finish job =>
        intro after next effect
        refine ⟨?_, others rfl after⟩
        simp only at effect
        split at effect <;> cases effect <;> trivial
    | lockFinish job => exact fun _ => trivial
    | unlockClaim job | unlockFinish job => trivial
    | done job => trivial
    | failed => trivial

/-- An access changes a job only along the five values. -/
theorem access_advances (reached : Run worker start allowed history config) {t : T} {place next : Place jobnum}
    {update : Memory T jobnum → Memory T jobnum × Place jobnum} {after : Memory T jobnum}
    (here : config.status t = .ready place) (instr : worker t place = .access update)
    (effect : update config.memory = (after, next)) (job : Fin jobnum) :
    after.jobs job = config.memory.jobs job ∨ (config.memory.jobs job).Advances (after.jobs job) := by
  have mine := guarded reached t
  rw [here] at mine
  have written : ∀ {memory : Memory T jobnum} {other : Fin jobnum} {value : Job},
      memory.jobs = config.memory.jobs → (config.memory.jobs other).Advances value →
      (memory.setJob other value).jobs job = config.memory.jobs job ∨
        (config.memory.jobs job).Advances ((memory.setJob other value).jobs job) := by
    intro memory other value same advances
    by_cases hit : job = other
    · subst hit
      right
      simpa using advances
    · left
      simp [Function.update_of_ne hit, same]
  cases place with
  | scan i =>
      cases instr
      simp only at effect
      split at effect
      · split at effect <;> cases effect
        · next unstarted => exact written rfl (by rw [unstarted]; trivial)
        · exact .inl rfl
        · exact .inl rfl
      · cases effect
        exact .inl rfl
  | waitTest other =>
      cases instr
      cases effect
      exact .inl rfl
  | startHelp other =>
      cases instr
      cases effect
      simp only [Guard] at mine
      exact written rfl (by rw [mine]; trivial)
  | testJob other =>
      cases other <;> cases instr <;> cases effect <;> exact .inl rfl
  | finish other =>
      cases instr
      simp only at effect
      split at effect <;> cases effect
      · next started => exact written rfl (by rw [started]; trivial)
      · next half => exact written rfl (by rw [half]; trivial)
      · exact .inl rfl
  | _ => cases instr

/-- A job that has been started is never up for grabs again. -/
theorem access_past (reached : Run worker start allowed history config) {t : T} {place next : Place jobnum}
    {update : Memory T jobnum → Memory T jobnum × Place jobnum} {after : Memory T jobnum}
    (here : config.status t = .ready place) (instr : worker t place = .access update)
    (effect : update config.memory = (after, next)) {job : Fin jobnum}
    (past : (config.memory.jobs job).isPast = true) : (after.jobs job).isPast = true := by
  rcases access_advances reached here instr effect job with same | advances
  · rw [same]
    exact past
  · exact advances.isPast past

theorem ordered (reached : Run worker start allowed history config) : Ordered config.memory := by
  refine reached.stored Ordered (fun _ _ _ _ => rfl) ?_
  intro history config t place update after next before holds _ here instr effect
  have mine := guarded before t
  rw [here] at mine
  cases place with
  | scan i =>
      cases instr
      simp only at effect
      split at effect
      · split at effect <;> cases effect
        · next unstarted =>
            exact Ordered.setJob holds (fun first less => mine first less)
              (.inr (by simp [unstarted, Job.isPast]))
        · exact holds
        · exact holds
      · cases effect
        exact holds
  | waitTest other =>
      cases instr
      cases effect
      exact holds
  | startHelp other =>
      cases instr
      cases effect
      simp only [Guard] at mine
      exact holds.setJob (holds.front (by simp [mine])) (.inl rfl)
  | testJob other =>
      cases other <;> cases instr <;> cases effect <;> exact holds
  | finish other =>
      cases instr
      simp only at effect
      split at effect <;> cases effect
      · next started => exact holds.setJob (holds.front (by simp [started])) (.inl rfl)
      · next half => exact holds.setJob (holds.front (by simp [half])) (.inl rfl)
      · exact holds
  | _ => cases instr

/-- The value of a job counts the workers that are bound to it. -/
theorem claimCount_eq (reached : Run worker start allowed history config) (job : Fin jobnum) :
    (config.memory.jobs job).claimCount = tally (indicator (Place.bound job)) config := by
  refine reached.balanced (fun memory => (memory.jobs job).claimCount) (indicator (Place.bound job))
    (tally_eq_zero fun t => rfl).symm ?_
  intro _ config t place before _ _ here
  have guard := guarded before t
  rw [here] at guard
  cases place with
  | scan i =>
      intro after next effect
      simp only at effect
      split at effect
      · next inside =>
            split at effect <;> cases effect
            · next unstarted =>
                by_cases hit : job = ⟨i, inside⟩
                · subst hit
                  simp [indicator, Place.bound, unstarted, Job.claimCount]
                · simp [indicator, Place.bound, Function.update_of_ne hit, Ne.symm hit]
            · simp [indicator, Place.bound]
            · simp [indicator, Place.bound]
      · cases effect
        simp [indicator, Place.bound]
  | waitTest other =>
      intro after next effect
      cases effect
      split <;> simp [indicator, Place.bound]
  | startHelp other =>
      intro after next effect
      cases effect
      simp only [Guard] at guard
      by_cases hit : job = other
      · subst hit
        simp [indicator, Place.bound, guard, Job.claimCount]
      · simp [indicator, Place.bound, Function.update_of_ne hit, Ne.symm hit]
  | testJob other =>
      cases other <;> intro after next effect <;> cases effect <;> simp [indicator, Place.bound]
  | finish other =>
      intro after next effect
      simp only at effect
      by_cases hit : job = other
      · subst hit
        split at effect <;> cases effect <;> simp_all [indicator, Place.bound, Job.claimCount]
      · split at effect <;> cases effect <;>
          simp [indicator, Place.bound, Function.update_of_ne hit, Ne.symm hit]
  | lockClaim | lockFinish other | unlockClaim other | unlockFinish other | condWait other | signalHelp other => rfl
  | done other => trivial
  | failed => trivial

/-- A job with a bound worker is claimed. -/
theorem claimed_of_bound (reached : Run worker start allowed history config) {t : T} {job : Fin jobnum}
    (bound : (config.status t).place.bound job = true) : config.memory.jobs job ≠ .unstarted := by
  intro unstarted
  have count := claimCount_eq reached job
  rw [unstarted, eq_comm, Job.claimCount, tally_indicator_eq_zero_iff] at count
  simp [count t] at bound

/-- A worker that has left the loop with a job works on a started job. -/
def Underway (_ : T) (status : Status (Place jobnum) Mutex Cond) (memory : Memory T jobnum) : Prop :=
  ∀ job, status.place.working job = true → (memory.jobs job).isPast = true

theorem underway (reached : Run worker start allowed history config) : Everywhere Underway config := by
  refine Run.everywhere Underway ?_ ?_ ?_ ?_ reached
  · intro t job working
    cases working
  · intro t cond mutex place memory holds
    exact holds
  · intro t mutex place memory holds
    exact holds
  · intro history config t place before all _ here
    have mine := all t
    rw [here] at mine
    have guard := guarded before t
    rw [here] at guard
    have others : ∀ {update after next}, worker t place = .access update → update config.memory = (after, next) →
        ∀ other, other ≠ t → Underway other (config.status other) after := by
      intro update after next instr effect other _ job working
      exact access_past before here instr effect (all other job working)
    cases place with
    | scan i =>
        intro after next effect
        refine ⟨?_, others rfl effect⟩
        simp only at effect
        intro job working
        split at effect
        · split at effect <;> cases effect <;> cases working
        · cases effect
          cases working
    | waitTest other =>
        intro after next effect
        refine ⟨?_, others rfl effect⟩
        cases effect
        intro job working
        split at working
        · cases working
        · next notWaiting =>
            obtain rfl : other = job := by simpa [Place.working] using working
            exact Job.isPast_of_ne (claimed_of_bound (t := t) before (by simp [here, Place.bound])) notWaiting
    | startHelp other =>
        intro after next effect
        refine ⟨?_, others rfl effect⟩
        cases effect
        intro job working
        obtain rfl : other = job := by simpa [Place.working] using working
        simp [Job.isPast]
    | testJob other =>
        cases other with
        | none =>
            intro after next effect
            refine ⟨?_, others rfl effect⟩
            cases effect
            exact fun job working => by cases working
        | some other =>
            intro after next effect
            refine ⟨?_, others rfl effect⟩
            cases effect
            exact mine
    | finish other =>
        intro after next effect
        refine ⟨?_, others rfl effect⟩
        intro job working
        refine access_past before here rfl effect (mine job ?_)
        simp only at effect
        split at effect <;> cases effect <;> exact working
    | lockClaim => exact fun _ job working => by cases working
    | condWait other => exact fun job working => by cases working
    | signalHelp other => exact fun job working => by cases working
    | lockFinish other => exact fun _ => mine
    | unlockClaim other | unlockFinish other => exact mine
    | done other => trivial
    | failed => trivial

/-- A worker that is about to finish its part finds its job started or partially finished. -/
theorem not_done_of_finish (reached : Run worker start allowed history config) {t : T} {job : Fin jobnum}
    (counted : (config.memory.jobs job).finishCount = tally (indicator (Place.finished job)) config)
    (here : config.status t = .ready (.finish job)) : config.memory.jobs job ≠ .done := by
  intro done
  have bound := claimCount_eq reached job
  rw [done] at bound counted
  have remaining : tally (indicator (Place.bound job)) config - tally (indicator (Place.finished job)) config =
      tally (fun t place => indicator (Place.bound job) t place - indicator (Place.finished job) t place)
        config := by
    simp [tally, Finset.sum_sub_distrib]
  have mine : 1 ≤ tally (fun t place => indicator (Place.bound job) t place -
      indicator (Place.finished job) t place) config := by
    have nonneg : ∀ (t : T) (place : Place jobnum),
        0 ≤ indicator (Place.bound job) t place - indicator (Place.finished job) t place := by
      intro t place
      cases place with
      | testJob other => cases other <;> simp [indicator, Place.bound, Place.finished] ; split <;> decide
      | _ => simp [indicator, Place.bound, Place.finished] <;> split <;> decide
    have single : _ ≤ tally _ config := le_tally nonneg t
    simpa [here, indicator, Place.bound, Place.finished] using single
  simp only [Job.claimCount, Job.finishCount] at bound counted
  omega

/-- The value of a job counts the workers that have finished their part of it. -/
theorem finishCount_eq (reached : Run worker start allowed history config) (job : Fin jobnum) :
    (config.memory.jobs job).finishCount = tally (indicator (Place.finished job)) config := by
  refine reached.balanced (fun memory => (memory.jobs job).finishCount) (indicator (Place.finished job))
    (tally_eq_zero fun t => rfl).symm ?_
  intro _ config t place before counted _ here
  have guard := guarded before t
  rw [here] at guard
  cases place with
  | scan i =>
      intro after next effect
      simp only at effect
      split at effect
      · next inside =>
          split at effect <;> cases effect
          · next unstarted =>
              by_cases hit : job = ⟨i, inside⟩
              · subst hit
                simp [indicator, Place.finished, unstarted, Job.finishCount]
              · simp [indicator, Place.finished, Function.update_of_ne hit]
          · simp [indicator, Place.finished]
          · simp [indicator, Place.finished]
      · cases effect
        simp [indicator, Place.finished]
  | waitTest other =>
      intro after next effect
      cases effect
      split <;> simp [indicator, Place.finished]
  | startHelp other =>
      intro after next effect
      cases effect
      simp only [Guard] at guard
      by_cases hit : job = other
      · subst hit
        simp [indicator, Place.finished, guard, Job.finishCount]
      · simp [indicator, Place.finished, Function.update_of_ne hit]
  | testJob other =>
      cases other <;> intro after next effect <;> cases effect <;> simp [indicator, Place.finished]
  | finish other =>
      intro after next effect
      simp only at effect
      by_cases hit : job = other
      · subst hit
        have past := underway before t job (by simp [here, Place.working])
        have undone := not_done_of_finish before counted here
        split at effect <;> cases effect
        · next started => simp [indicator, Place.finished, started, Job.finishCount]
        · next half => simp [indicator, Place.finished, half, Job.finishCount]
        · next notStarted notHalf =>
            cases value : config.memory.jobs job <;> simp_all [Job.isPast]
      · split at effect <;> cases effect <;>
          simp [indicator, Place.finished, Function.update_of_ne hit, Ne.symm hit]
  | lockClaim | lockFinish other | unlockClaim other | unlockFinish other | condWait other | signalHelp other => rfl
  | done other => trivial
  | failed => trivial

end
end OSLabs.TwoPersonJobs
