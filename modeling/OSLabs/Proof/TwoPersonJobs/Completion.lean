import OSLabs.Proof.TwoPersonJobs.Claims
import OSLabs.Proof.Pthread.Progress
import Mathlib.Algebra.BigOperators.Group.Finset.Sigma

namespace OSLabs.TwoPersonJobs
open Pthread

section
variable {T : Type} {jobnum : Nat} {config : State T jobnum}

/-- Every blocked worker waits for a helper, and a helper that has sent its signal leaves no worker blocked. -/
structure Awaited (config : State T jobnum) : Prop where
  waits : ∀ t cond mutex place, config.status t = .blocked cond mutex place →
    ∃ job, place = .waitTest job ∧ config.memory.jobs job = .waiting
  signaled : ∀ t job, config.status t = .ready (.startHelp job) →
    ∀ other, (config.status other).isBlocked = false

namespace Awaited

/-- A memory in which the job of each blocked worker still waits keeps both parts. -/
theorem setMemory (awaited : Awaited config) {memory : Memory T jobnum}
    (kept : ∀ t cond mutex job, config.status t = .blocked cond mutex (.waitTest job) →
      config.memory.jobs job = .waiting → memory.jobs job = .waiting) : Awaited (config.setMemory memory) where
  waits t cond mutex place blocked := by
    obtain ⟨job, rfl, waiting⟩ := awaited.waits t cond mutex place blocked
    exact ⟨job, rfl, kept t cond mutex job blocked waiting⟩
  signaled := awaited.signaled

/-- A configuration without a blocked worker meets both parts. -/
theorem of_awake (awake : ∀ t, (config.status t).isBlocked = false) : Awaited config where
  waits t cond mutex place blocked := by simpa [blocked] using awake t
  signaled _ _ _ := awake

theorem setOwner (awaited : Awaited config) (mutex : Mutex) (owner : Option T) :
    Awaited (config.setOwner mutex owner) := ⟨awaited.waits, awaited.signaled⟩

variable [DecidableEq T]

/-- A worker that runs at a place away from the help keeps both parts. -/
theorem setStatus (awaited : Awaited config) {t : T} {status : Status (Place jobnum) Mutex Cond}
    (awake : status.isBlocked = false) (away : ∀ job, status ≠ .ready (.startHelp job)) :
    Awaited (config.setStatus t status) := by
  refine ⟨?_, ?_⟩
  · intro other cond mutex there blocked
    by_cases moved : other = t
    · subst moved
      simp only [Config.setStatus_status, Function.update_self] at blocked
      simp [blocked] at awake
    · simp only [Config.setStatus_status, Function.update_of_ne moved] at blocked
      exact awaited.waits other cond mutex there blocked
  · intro helper job here other
    have still : config.status helper = .ready (.startHelp job) := by
      by_cases moved : helper = t
      · subst moved
        simp only [Config.setStatus_status, Function.update_self] at here
        exact absurd here (away job)
      · simpa [Function.update_of_ne moved] using here
    by_cases same : other = t
    · subst same
      simpa using awake
    · simpa [Function.update_of_ne same] using awaited.signaled helper job still other

/-- An access that leaves each waiting job keeps both parts. -/
theorem access (awaited : Awaited config) {t : T} {memory : Memory T jobnum} {place : Place jobnum}
    (kept : ∀ job, config.memory.jobs job = .waiting → memory.jobs job = .waiting)
    (away : ∀ job, place ≠ .startHelp job) : Awaited ((config.setMemory memory).setStatus t (.ready place)) :=
  (awaited.setMemory fun _ _ _ job _ waiting => kept job waiting).setStatus rfl (by simpa using away)

end Awaited

/-- A job that is not waiting can change without an effect on the waiting jobs. -/
theorem setJob_waiting {memory : Memory T jobnum} {other : Fin jobnum} {value : Job}
    (unawaited : memory.jobs other ≠ .waiting) (job : Fin jobnum) (waiting : memory.jobs job = .waiting) :
    (memory.setJob other value).jobs job = .waiting := by
  have different : job ≠ other := by
    rintro rfl
    exact unawaited waiting
  simpa [Function.update_of_ne different] using waiting

/-- The worker that prints the line. -/
def Message.num : Message T jobnum → T
  | .ready num _ | .helping num _ | .bad num | .starting num _ | .partially num _ | .completely num _ => num

/-- The printed claims of a worker name the job of its place, and its reports name the job that it has finished. -/
def Logged (t : T) (status : Status (Place jobnum) Mutex Cond) (memory : Memory T jobnum) : Prop :=
  ∀ job, (Claims memory t job ↔ status.place.claimed job = true) ∧
    (.partially t job ∈ memory.output ∨ .completely t job ∈ memory.output → status.place.finished job = true)

/-- A line of another worker does not matter. -/
theorem Logged.print {t : T} {status : Status (Place jobnum) Mutex Cond} {memory after : Memory T jobnum}
    (logged : Logged t status memory) {message : Message T jobnum} (foreign : message.num ≠ t)
    (added : after.output = message :: memory.output) : Logged t status after := by
  have absent : ∀ line : Message T jobnum, line.num = t → (line ∈ after.output ↔ line ∈ memory.output) := by
    intro line own
    have different : line ≠ message := by
      rintro rfl
      exact foreign own
    simp [added, different]
  intro job
  simpa [Claims, absent (.ready t job) rfl, absent (.helping t job) rfl, absent (.partially t job) rfl,
    absent (.completely t job) rfl] using logged job

/-- A worker in its scan has printed no claim and no report. -/
theorem Logged.blank {t : T} {i : Nat} {memory : Memory T jobnum} (logged : Logged t (.ready (.scan i)) memory)
    (job : Fin jobnum) : (.ready t job ∉ memory.output ∧ .helping t job ∉ memory.output) ∧
      .partially t job ∉ memory.output ∧ .completely t job ∉ memory.output := by
  simpa [Claims, Place.claimed, Place.bound, Place.finished] using logged job

/-- A worker before its report has printed no report. -/
theorem Logged.unreported {t : T} {job : Fin jobnum} {memory : Memory T jobnum}
    (logged : Logged t (.ready (.finish job)) memory) (other : Fin jobnum) :
    (Claims memory t other ↔ job = other) ∧
      .partially t other ∉ memory.output ∧ .completely t other ∉ memory.output := by
  simpa [Place.claimed, Place.bound, Place.finished] using logged other

/-- A worker that prints nothing moves among the places with one claim and one finished job. -/
theorem Logged.move {t : T} {status status' : Status (Place jobnum) Mutex Cond} {memory after : Memory T jobnum}
    (logged : Logged t status memory) (silent : after.output = memory.output)
    (claimed : ∀ job, status'.place.claimed job = status.place.claimed job)
    (finished : ∀ job, status'.place.finished job = status.place.finished job) : Logged t status' after := by
  intro job
  simpa [Claims, silent, claimed job, finished job] using logged job

/-- Each worker signs the lines that it prints. -/
theorem access_prints {t : T} {place next : Place jobnum} {memory after : Memory T jobnum}
    {update : Memory T jobnum → Memory T jobnum × Place jobnum} (instr : worker t place = .access update)
    (effect : update memory = (after, next)) :
    after.output = memory.output ∨ ∃ message, message.num = t ∧ after.output = message :: memory.output := by
  cases place with
  | scan i =>
      cases instr
      simp only at effect
      split at effect
      · split at effect <;> cases effect
        · exact .inr ⟨_, rfl, rfl⟩
        · exact .inr ⟨_, rfl, rfl⟩
        · exact .inl rfl
      · cases effect
        exact .inl rfl
  | testJob job =>
      cases job <;> cases instr <;> cases effect <;> exact .inr ⟨_, rfl, rfl⟩
  | finish job =>
      cases instr
      simp only at effect
      split at effect <;> cases effect
      · exact .inr ⟨_, rfl, rfl⟩
      · exact .inr ⟨_, rfl, rfl⟩
      · exact .inl rfl
  | waitTest job | startHelp job =>
      cases instr
      cases effect
      exact .inl rfl
  | _ => cases instr

/-- The number of reports that a job is partially finished. -/
def Job.partialReports : Job → Nat
  | .partially | .done => 1
  | _ => 0

/-- The number of reports that a job is completely finished. -/
def Job.completeReports : Job → Nat
  | .done => 1
  | _ => 0

/-- The worker is bound to a job. -/
def Place.isBound : Place jobnum → Bool
  | .lockClaim | .scan _ | .signalHelp _ | .startHelp _ | .testJob none | .failed => false
  | _ => true

/-- The worker has finished its part of a job. -/
def Place.isFinished : Place jobnum → Bool
  | .unlockFinish _ | .done _ => true
  | _ => false

theorem sum_bound (t : T) (place : Place jobnum) :
    ∑ job, indicator (Place.bound job) t place = indicator Place.isBound t place := by
  cases place with
  | testJob job => cases job <;> simp [indicator, Place.bound, Place.isBound]
  | _ => simp [indicator, Place.bound, Place.isBound]

theorem sum_finished (t : T) (place : Place jobnum) :
    ∑ job, indicator (Place.finished job) t place = indicator Place.isFinished t place := by
  cases place <;> simp [indicator, Place.finished, Place.isFinished]

/-- Counts of at most two that add up to two for each job are all two. -/
theorem eq_two_of_sum {count : Fin jobnum → Int} (atMost : ∀ job, count job ≤ 2)
    (total : ∑ job, count job = 2 * jobnum) (job : Fin jobnum) : count job = 2 := by
  have constant : ∑ _job : Fin jobnum, (2 : Int) = 2 * jobnum := by
    simp [mul_comm]
  exact (Finset.sum_eq_sum_iff_of_le fun job _ => atMost job).mp (total.trans constant.symm) job
    (Finset.mem_univ job)

end

section
variable {T : Type} {jobnum : Nat} [DecidableEq T] [Fintype T]
  {allowed : History T (Memory T jobnum) (Place jobnum) Mutex Cond → State T jobnum → T → Prop}
  {history : History T (Memory T jobnum) (Place jobnum) Mutex Cond} {config : State T jobnum}

/-- Two workers that are blocked are the same worker. -/
theorem blocked_unique (reached : Run worker start allowed history config) (awaited : Awaited config)
    {first second : T} (firstBlocked : (config.status first).isBlocked = true)
    (secondBlocked : (config.status second).isBlocked = true) : first = second := by
  have located : ∀ {t}, (config.status t).isBlocked = true →
      ∃ job, (config.status t).place.bound job = true ∧ config.memory.jobs job = .waiting := by
    intro t blocked
    cases status : config.status t with
    | blocked cond mutex place =>
        obtain ⟨job, rfl, waiting⟩ := awaited.waits t cond mutex place status
        exact ⟨job, by simp [Place.bound], waiting⟩
    | ready place => simp [status] at blocked
    | woken mutex place => simp [status] at blocked
  obtain ⟨job, firstBound, waiting⟩ := located firstBlocked
  obtain ⟨other, secondBound, otherWaiting⟩ := located secondBlocked
  obtain rfl := (ordered reached).waiting_unique waiting otherWaiting
  have count := claimCount_eq reached job
  rw [waiting] at count
  exact tally_indicator_unique (by rw [← count]; decide) firstBound secondBound

theorem awaited (reached : Run worker start allowed history config) : Awaited config := by
  refine Run.invariant Awaited ?_ ?_ ?_ ?_ reached
  · exact ⟨fun t cond mutex place blocked => (by cases blocked), fun t job here => (by cases here)⟩
  · intro history config t place before awaited _ here
    have guard := guarded before t
    rw [here] at guard
    cases place with
    | lockClaim | lockFinish job =>
        intro _
        exact (awaited.setOwner _ _).setStatus rfl (by simp)
    | unlockClaim job | unlockFinish job => exact (awaited.setOwner _ _).setStatus rfl (by simp)
    | scan i =>
        intro after next effect
        simp only at effect
        split at effect
        · split at effect <;> cases effect
          · next unstarted => exact awaited.access (setJob_waiting (by simp [unstarted])) (by simp)
          · exact awaited.access (fun _ waiting => waiting) (by simp)
          · exact awaited.access (fun _ waiting => waiting) (by simp)
        · cases effect
          exact awaited.access (fun _ waiting => waiting) (by simp)
    | waitTest job =>
        intro after next effect
        cases effect
        refine awaited.access (fun _ waiting => waiting) ?_
        split <;> simp
    | condWait job =>
        refine ⟨?_, ?_⟩
        · intro other cond mutex there blocked
          by_cases moved : other = t
          · subst moved
            simp only [Config.setStatus_status, Function.update_self, Status.blocked.injEq] at blocked
            exact ⟨job, blocked.2.2.symm, guard⟩
          · simp only [Config.setStatus_status, Function.update_of_ne moved] at blocked
            exact awaited.waits other cond mutex there blocked
        · intro helper job' helps
          by_cases moved : helper = t
          · subst moved
            simp at helps
          · simp only [Config.setStatus_status, Function.update_of_ne moved] at helps
            have outside : held (.startHelp job') .lock = false := (owned before).outside here rfl moved helps
            cases outside
    | signalHelp job =>
        refine ⟨fun idle => .of_awake fun other => ?_, fun target mutex there blocked => .of_awake fun other => ?_⟩
        · by_cases moved : other = t
          · subst moved
            simp
          · have unblocked := idle other
            cases status : config.status other <;> simp_all [Status.blockedOn]
        · by_cases woken : other = target
          · subst woken
            simp
          · by_contra stays
            have other_blocked : (config.status other).isBlocked = true := by
              by_cases moved : other = t
              · subst moved
                simp [Function.update_of_ne woken] at stays
              · simpa [Function.update_of_ne woken, Function.update_of_ne moved] using stays
            exact woken (blocked_unique before awaited other_blocked (by simp [blocked]))
    | startHelp job =>
        intro after next effect
        cases effect
        refine (awaited.setMemory ?_).setStatus rfl (by simp)
        intro other cond mutex _ blocked _
        have free := awaited.signaled t job here other
        simp [blocked] at free
    | testJob job =>
        cases job <;> intro after next effect <;> cases effect <;>
          exact awaited.access (fun _ waiting => waiting) (by simp)
    | finish job =>
        intro after next effect
        simp only at effect
        split at effect <;> cases effect
        · next started => exact awaited.access (setJob_waiting (by simp [started])) (by simp)
        · next half => exact awaited.access (setJob_waiting (by simp [half])) (by simp)
        · exact awaited.access (fun _ waiting => waiting) (by simp)
    | done job => trivial
    | failed => trivial
  · intro _ config t mutex place before awaited here _
    refine (awaited.setOwner _ _).setStatus rfl ?_
    obtain ⟨job, same⟩ : ∃ job, place = .waitTest job := by
      simpa [here, Guard] using guarded before t
    simp [same]
  · intro _ config t cond mutex place _ awaited _
    exact awaited.setStatus rfl (by simp)

theorem logged (reached : Run worker start allowed history config) : Everywhere Logged config := by
  refine Run.everywhere Logged ?_ ?_ ?_ ?_ reached
  · intro t job
    simp [start, Memory.start, Claims, Place.claimed, Place.bound]
  · intro t cond mutex place memory logged
    exact logged
  · intro t mutex place memory logged
    exact logged
  · intro history config t place before all _ here
    have mine := all t
    rw [here] at mine
    have others : ∀ {update after next}, worker t place = .access update → update config.memory = (after, next) →
        ∀ other, other ≠ t → Logged other (config.status other) after := by
      intro update after next instr effect other different
      rcases access_prints instr effect with silent | ⟨message, own, added⟩
      · exact (all other).move silent (fun _ => rfl) (fun _ => rfl)
      · exact (all other).print (by rw [own]; exact different.symm) added
    cases place with
    | scan i =>
        intro after next effect
        refine ⟨?_, others rfl effect⟩
        simp only at effect
        split at effect
        · split at effect <;> cases effect
          · intro job
            simp [Claims, Place.claimed, Place.bound, Place.finished, mine.blank job, eq_comm]
          · intro job
            simp [Claims, Place.claimed, Place.finished, mine.blank job, eq_comm]
          · exact mine.move rfl (fun _ => rfl) (fun _ => rfl)
        · cases effect
          exact mine.move rfl (fun _ => rfl) (fun _ => rfl)
    | waitTest other =>
        intro after next effect
        refine ⟨?_, others rfl effect⟩
        cases effect
        split <;> exact mine.move rfl (fun _ => rfl) (fun _ => rfl)
    | startHelp other =>
        intro after next effect
        refine ⟨?_, others rfl effect⟩
        cases effect
        exact mine.move rfl (fun _ => rfl) (fun _ => rfl)
    | testJob other =>
        cases other <;> intro after next effect <;> refine ⟨?_, others rfl effect⟩ <;> cases effect <;> intro job
        · simpa [Claims, Place.claimed, Place.bound, Place.finished] using mine job
        · simpa [Claims, Place.claimed, Place.bound, Place.finished] using mine job
    | finish other =>
        intro after next effect
        refine ⟨?_, others rfl effect⟩
        simp only at effect
        split at effect <;> cases effect <;> intro job <;> have same := mine.unreported job
        · simpa [Claims, Place.claimed, Place.bound, Place.finished, same.2, eq_comm] using same.1
        · simpa [Claims, Place.claimed, Place.bound, Place.finished, same.2, eq_comm] using same.1
        · simpa [Place.claimed, Place.bound, Place.finished, same.2] using same.1
    | lockClaim | lockFinish job => exact fun _ => mine.move rfl (fun _ => rfl) (fun _ => rfl)
    | unlockClaim other | unlockFinish other | condWait other | signalHelp other =>
        exact mine.move rfl (fun _ => rfl) (fun _ => rfl)
    | done other => trivial
    | failed => trivial

/-- The value of a job counts the printed reports about it. -/
def Reported (memory : Memory T jobnum) : Prop :=
  ∀ job, memory.output.countP (Message.isPartially job) = (memory.jobs job).partialReports ∧
    memory.output.countP (Message.isCompletely job) = (memory.jobs job).completeReports

theorem reported (reached : Run worker start allowed history config) : Reported config.memory := by
  refine reached.stored Reported (fun _ => ⟨rfl, rfl⟩) ?_
  intro history config t place update after next before holds _ here instr effect
  have guard := guarded before t
  rw [here] at guard
  intro job
  have count := holds job
  cases place with
  | scan i =>
      cases instr
      simp only at effect
      split at effect
      · next inside =>
          split at effect <;> cases effect
          · next unstarted =>
              by_cases hit : job = ⟨i, inside⟩
              · subst hit
                simpa [Message.isPartially, Message.isCompletely, Job.partialReports, Job.completeReports,
                  unstarted] using count
              · simpa [Message.isPartially, Message.isCompletely, Function.update_of_ne hit] using count
          · simpa [Message.isPartially, Message.isCompletely] using count
          · exact count
      · cases effect
        exact count
  | waitTest other =>
      cases instr
      cases effect
      exact count
  | startHelp other =>
      cases instr
      cases effect
      simp only [Guard] at guard
      by_cases hit : job = other
      · subst hit
        simpa [Job.partialReports, Job.completeReports, guard] using count
      · simpa [Function.update_of_ne hit] using count
  | testJob other =>
      cases other <;> cases instr <;> cases effect <;>
        simpa [Message.isPartially, Message.isCompletely] using count
  | finish other =>
      cases instr
      simp only at effect
      by_cases hit : job = other
      · subst hit
        split at effect <;> cases effect
        · next started =>
            simpa [Message.isPartially, Message.isCompletely, Job.partialReports, Job.completeReports,
              started] using count
        · next half =>
            simpa [Message.isPartially, Message.isCompletely, Job.partialReports, Job.completeReports,
              half] using count
        · exact count
      · split at effect <;> cases effect
        · simpa [Message.isPartially, Message.isCompletely, Function.update_of_ne hit, Ne.symm hit] using count
        · simpa [Message.isPartially, Message.isCompletely, Function.update_of_ne hit, Ne.symm hit] using count
        · exact count
  | _ => cases instr

/-- The values of all jobs together count the workers that are bound to a job. -/
theorem sum_claimCount (reached : Run worker start allowed history config) :
    ∑ job, (config.memory.jobs job).claimCount = tally (indicator Place.isBound) config := by
  calc ∑ job, (config.memory.jobs job).claimCount
      = ∑ job, ∑ t, indicator (Place.bound job) t (config.status t).place :=
        Finset.sum_congr rfl fun job _ => claimCount_eq reached job
    _ = ∑ t, ∑ job, indicator (Place.bound job) t (config.status t).place := Finset.sum_comm
    _ = tally (indicator Place.isBound) config := Finset.sum_congr rfl fun t _ => sum_bound t _

/-- The values of all jobs together count the workers that have finished their part of a job. -/
theorem sum_finishCount (reached : Run worker start allowed history config) :
    ∑ job, (config.memory.jobs job).finishCount = tally (indicator Place.isFinished) config := by
  calc ∑ job, (config.memory.jobs job).finishCount
      = ∑ job, ∑ t, indicator (Place.finished job) t (config.status t).place :=
        Finset.sum_congr rfl fun job _ => finishCount_eq reached job
    _ = ∑ t, ∑ job, indicator (Place.finished job) t (config.status t).place := Finset.sum_comm
    _ = tally (indicator Place.isFinished) config := Finset.sum_congr rfl fun t _ => sum_finished t _

/-- A step changes a job only along the five values. -/
theorem fire_advances (reached : Run worker start allowed history config) {move : Move T} {next : State T jobnum}
    (fired : fire worker config move = some next) (job : Fin jobnum) :
    next.memory.jobs job = config.memory.jobs job ∨
      (config.memory.jobs job).Advances (next.memory.jobs job) := by
  apply fire_ensures fired
  · intro place here
    cases instr : worker move.thread place with
    | access update => exact fun memory next effect => access_advances reached here instr effect job
    | signal cond next => exact ⟨fun _ => .inl rfl, fun _ _ _ _ => .inl rfl⟩
    | lock mutex next => exact fun _ => .inl rfl
    | unlock mutex next | wait cond mutex next | broadcast cond next => exact .inl rfl
    | exit => trivial
  · intro mutex place here free
    exact .inl rfl
  · intro cond mutex place here
    exact .inl rfl

/-- A job that has been started has two workers. -/
theorem exists_pair (reached : Run worker start allowed history config) {job : Fin jobnum}
    (past : (config.memory.jobs job).isPast = true) :
    ∃ first second, first ≠ second ∧
      ∀ t, (config.status t).place.bound job = true ↔ t = first ∨ t = second := by
  apply exists_pair_of_tally_eq_two
  rw [← claimCount_eq reached job]
  cases value : config.memory.jobs job <;> simp_all [Job.isPast, Job.claimCount]

theorem claims_of_bound (reached : Run worker start allowed history config) {t : T} {job : Fin jobnum}
    (bound : (config.status t).place.bound job = true) : Claims config.memory t job := by
  rw [(logged reached t job).1]
  cases place : (config.status t).place <;> simp_all [Place.claimed, Place.bound]

section
variable (enough : Fintype.card T = 2 * jobnum)
include enough

/-- A worker without a job leaves a job that still needs a worker. -/
theorem exists_open (reached : Run worker start allowed history config) {t : T}
    (unbound : (config.status t).place.isBound = false) : ∃ job, (config.memory.jobs job).isPast = false := by
  by_contra started
  push Not at started
  have total : ∑ job, (config.memory.jobs job).claimCount = ∑ _job : Fin jobnum, (2 : Int) := by
    refine Finset.sum_congr rfl fun job _ => ?_
    have past := started job
    cases value : config.memory.jobs job <;> simp_all [Job.isPast, Job.claimCount]
  have everyone : tally (indicator Place.isBound) config = Fintype.card T := by
    rw [← sum_claimCount reached, total, enough]
    simp [mul_comm]
  have bound := (tally_indicator_eq_univ_iff Place.isBound).mp everyone t
  rw [unbound] at bound
  cases bound

/-- No worker leaves the loop without a job. -/
theorem not_testJob_none (reached : Run worker start allowed history config) (t : T) :
    config.status t ≠ .ready (.testJob none) ∧ config.status t ≠ .ready .failed := by
  have guard := guarded reached t
  constructor
  · intro here
    obtain ⟨job, open'⟩ := exists_open enough reached (t := t) (by simp [here, Place.isBound])
    rw [here] at guard
    simp [guard job] at open'
  · intro here
    obtain ⟨job, open'⟩ := exists_open enough reached (t := t) (by simp [here, Place.isBound])
    rw [here] at guard
    simp [guard job] at open'

/-- A worker that has returned has finished its part of a job. -/
theorem exists_done (reached : Run worker start allowed history config) {t : T}
    (finished : Finished worker config t) : ∃ job, config.status t = .ready (.done job) := by
  have normal := (not_testJob_none enough reached t).2
  cases status : config.status t with
  | ready place =>
      simp only [Finished, status] at finished
      cases place with
      | done job => exact ⟨job, rfl⟩
      | failed => exact absurd status normal
      | testJob job => cases job <;> cases finished
      | _ => cases finished
  | blocked cond mutex place => simp [Finished, status] at finished
  | woken mutex place => simp [Finished, status] at finished

theorem not_stalled (reached : Run worker start allowed history config) : ¬ Stalled worker config := by
  intro stalled
  have everyone : ∀ t, (config.status t).place.isBound = true := by
    intro t
    by_cases finished : Finished worker config t
    · obtain ⟨job, done⟩ := exists_done enough reached finished
      simp [done, Place.isBound]
    · have blocked := stalled.2 t finished
      cases status : config.status t with
      | blocked cond mutex place =>
          obtain ⟨job, rfl, _⟩ := (awaited reached).waits t cond mutex place status
          rfl
      | ready place => simp [status] at blocked
      | woken mutex place => simp [status] at blocked
  have total : ∑ job, (config.memory.jobs job).claimCount = 2 * jobnum := by
    rw [sum_claimCount reached, (tally_indicator_eq_univ_iff Place.isBound).mpr everyone, enough]
    simp
  have twice := eq_two_of_sum (fun job => by cases config.memory.jobs job <;> decide) total
  obtain ⟨t, blocked⟩ := stalled.exists_blocked
  cases status : config.status t with
  | blocked cond mutex place =>
      obtain ⟨job, rfl, waiting⟩ := (awaited reached).waits t cond mutex place status
      have two := twice job
      rw [waiting] at two
      cases two
  | ready place => simp [status] at blocked
  | woken mutex place => simp [status] at blocked

theorem not_stuck (reached : Run worker start allowed history config) : ¬ Stuck worker config := by
  refine (owned reached).not_stuck (fun _ _ first second _ _ => by cases first; cases second; rfl) ?_
    (not_stalled enough reached)
  intro t place mutex here holds
  have normal := (not_testJob_none enough reached t).2
  cases mutex
  cases place with
  | failed => exact absurd here normal
  | testJob job => cases job <;> rfl
  | lockClaim | lockFinish job | done job => cases holds
  | _ => rfl

/-- When all workers have returned, every job is done. -/
theorem all_done (reached : Run worker start allowed history config) (finished : ∀ t, Finished worker config t)
    (job : Fin jobnum) : config.memory.jobs job = .done := by
  have everyone : ∀ t, (config.status t).place.isFinished = true := by
    intro t
    obtain ⟨other, done⟩ := exists_done enough reached (finished t)
    simp [done, Place.isFinished]
  have total : ∑ job, (config.memory.jobs job).finishCount = 2 * jobnum := by
    rw [sum_finishCount reached, (tally_indicator_eq_univ_iff Place.isFinished).mpr everyone, enough]
    simp
  have two := eq_two_of_sum (fun job => by cases config.memory.jobs job <;> decide) total job
  cases value : config.memory.jobs job <;> simp_all [Job.finishCount]

/-- In every run of twice as many workers as jobs, at most one job waits for its helper, each job moves only
forward, a job starts only with two claimants, no worker is without a job, the workers never stall,
and at the end each job is done by exactly its two claimants with one report of each kind. -/
theorem jobs_shared_by_two (reached : Run worker start allowed history config) :
    (∀ first second, config.memory.jobs first = .waiting → config.memory.jobs second = .waiting → first = second) ∧
    (∀ move next, fire worker config move = some next → ∀ job,
      next.memory.jobs job = config.memory.jobs job ∨
        (config.memory.jobs job).Advances (next.memory.jobs job)) ∧
    (∀ t job, config.status t = .ready (.testJob (some job)) →
      ∃ first second, first ≠ second ∧ Claims config.memory first job ∧ Claims config.memory second job) ∧
    (∀ t, config.status t ≠ .ready (.testJob none)) ∧
    ¬ Stalled worker config ∧ ¬ Stuck worker config ∧
    ((∀ t, Finished worker config t) → ∀ job, config.memory.jobs job = .done ∧
      (∃ first second, first ≠ second ∧ ∀ t, Claims config.memory t job ↔ t = first ∨ t = second) ∧
      config.memory.output.countP (Message.isPartially job) = 1 ∧
      config.memory.output.countP (Message.isCompletely job) = 1 ∧
      ∀ t, .partially t job ∈ config.memory.output ∨ .completely t job ∈ config.memory.output →
        Claims config.memory t job) := by
  refine ⟨fun first second => (ordered reached).waiting_unique, fun move next fired => fire_advances reached fired,
    ?_, fun t => (not_testJob_none enough reached t).1, not_stalled enough reached, not_stuck enough reached, ?_⟩
  · intro t job here
    obtain ⟨first, second, distinct, pair⟩ :=
      exists_pair reached (underway reached t job (by simp [here, Place.working]))
    exact ⟨first, second, distinct, claims_of_bound reached ((pair first).mpr (.inl rfl)),
      claims_of_bound reached ((pair second).mpr (.inr rfl))⟩
  · intro finished job
    have done := all_done enough reached finished job
    have counts := reported reached job
    rw [done] at counts
    refine ⟨done, ?_, counts.1, counts.2, ?_⟩
    · have past : (config.memory.jobs job).isPast = true := by simp [done, Job.isPast]
      obtain ⟨first, second, distinct, pair⟩ := exists_pair reached past
      refine ⟨first, second, distinct, fun t => ?_⟩
      obtain ⟨other, last⟩ := exists_done enough reached (finished t)
      rw [(logged reached t job).1, ← pair t]
      simp [last, Place.claimed]
    · intro t report
      apply claims_of_bound reached
      have own := (logged reached t job).2 report
      cases place : (config.status t).place <;> simp_all [Place.finished, Place.bound]

end

/-- Two workers that share one job both return, and the job is done. -/
theorem one_job_shared :
    ∃ history config, Run worker (start : State (Fin 2) 1) (fun _ _ _ => True) history config ∧
      (∀ t, Finished worker config t) ∧ ∀ job, config.memory.jobs job = .done := by
  obtain ⟨history, config, reached, finished⟩ :=
    exists_run worker (start : State (Fin 2) 1) (fun _ _ _ => True)
      (turns 4 0 ++ turns 2 1 ++ [Move.signal 1 0] ++ turns 3 1 ++ turns 7 0 ++ turns 3 1)
      (fun config => decide (∀ t, Finished worker config t)) (by decide)
  have all := of_decide_eq_true finished
  exact ⟨history, config, reached, all, fun job => ((jobs_shared_by_two rfl reached).2.2.2.2.2.2 all job).1⟩

end
end OSLabs.TwoPersonJobs
