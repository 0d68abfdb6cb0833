import OSLabs.Proof.Factoring.Factors
import Mathlib.Data.List.Range

namespace OSLabs.Factoring

open Transition Spawn
open Stdio (toInt)

section Rounds
variable {count : Nat}

/-- The elements that so many rounds use. -/
def robin (count rounds : Nat) : List Int := (List.range rounds).map fun k => ((k % count : Nat) : Int) + 1

/-- The value of `threadNum` before a round. -/
def upcoming (count : Nat) : Nat → Int
  | 0 => 1
  | k + 1 => ((k % count : Nat) : Int) + 2

/-- The test of `threadNum` gives the next element. -/
theorem upcoming_wrapped (positive : 1 ≤ count) (k : Nat) :
    (if upcoming count k ≤ (count : Int) then upcoming count k else 1) = ((k % count : Nat) : Int) + 1 := by
  cases k with
  | zero =>
      rw [Nat.zero_mod, upcoming, if_pos (by omega)]
      rfl
  | succ k =>
      have less := Nat.mod_lt k positive
      have next : (k + 1) % count = (k % count + 1) % count := (Nat.mod_add_mod k count 1).symm
      rw [next, upcoming]
      by_cases again : k % count + 1 < count
      · rw [Nat.mod_eq_of_lt again, if_pos (by omega)]
        omega
      · rw [show k % count + 1 = count by omega, Nat.mod_self, if_neg (by omega)]
        rfl

theorem robin_succ (count rounds : Nat) :
    robin count (rounds + 1) = robin count rounds ++ [((rounds % count : Nat) : Int) + 1] := by
  simp [robin, List.range_succ]

/-- Two rounds with the same element are not close. -/
theorem eq_of_mod_eq {first last start : Nat} (same : first % count = last % count) (lower : start ≤ last)
    (upper : first < start + count) : first ≤ last := by
  have divides : count ∣ first - last := Nat.dvd_of_mod_eq_zero (Nat.sub_mod_eq_zero_of_mod_eq same)
  by_contra greater
  have zero := Nat.eq_zero_of_dvd_of_lt divides (by omega)
  omega

/-- Any `count` consecutive rounds use different elements. -/
theorem robin_different (rounds k : Nat) (inside : k + count ≤ rounds) :
    (((robin count rounds).drop k).take count).Nodup := by
  have window : ((List.range rounds).drop k).take count = List.range' k count := by
    rw [List.range_eq_range', List.drop_range', List.take_range'_of_length_ge (by omega)]
    simp
  unfold robin
  rw [← List.map_drop, ← List.map_take, window]
  apply List.Nodup.map_on
  · intro first inFirst last inLast same
    rw [List.mem_range'_1] at inFirst inLast
    have residues : first % count = last % count := by omega
    exact Nat.le_antisymm (eq_of_mod_eq residues inLast.1 inFirst.2)
      (eq_of_mod_eq residues.symm inFirst.1 inLast.2)
  · exact List.nodup_range'

end Rounds

theorem slots_cons (step : State × Thread) (history : List (State × Thread)) :
    slots (step :: history) = slots history ++ (slot step).toList := by
  cases here : slot step <;> simp [slots, here]

/-- What the place of main says about the elements that main has used. -/
def MainPlace.Counts (target count : Nat) (used : List Int) : MainPlace → Prop
  | .checkThreads | .setTarget => used = []
  | .forTest i threadNum => ∃ rounds, i = rounds + 2 ∧ (rounds = 0 ∨ rounds + 1 ≤ target / 2) ∧
      used = robin count rounds ∧ threadNum = upcoming count rounds
  | .setCandidate i threadNum | .threadTest i threadNum => ∃ rounds, i = rounds + 2 ∧ rounds + 2 ≤ target / 2 ∧
      used = robin count rounds ∧ threadNum = upcoming count rounds
  | .printTesting i threadNum | .create i threadNum => ∃ rounds, i = rounds + 2 ∧ rounds + 2 ≤ target / 2 ∧
      used = robin count rounds ∧ threadNum = ((rounds % count : Nat) : Int) + 1
  | .done => ∃ rounds, (rounds = 0 ∨ rounds + 1 ≤ target / 2) ∧ used = robin count rounds

section Run
variable {target count : Nat} {config next : State} {used : List Int}

/-- Only other threads than main are created. -/
theorem ne_none_of_create {numThreads : Int} {thread other : Thread} {place entry after : Place}
    (instr : code target numThreads thread place = .create other entry after) : other ≠ none := by
  cases place with
  | main place => cases place <;> simp_all [code, main, eq_comm]
  | factor place => cases place <;> simp [code, factor] at instr

/-- No other thread moves main. -/
theorem place_main_of_fire {numThreads : Int} {k : Nat}
    (fired : fire target numThreads config (some k) = some next) :
    next.place none = config.place none := by
  obtain ⟨_, fired⟩ := exists_of_fire fired
  obtain ⟨place, here, performed⟩ := Spawn.exists_of_fire fired
  cases instr : code target numThreads (some k) place with
  | access update =>
      rw [eq_of_access here fired instr]
      simp
  | create other entry after =>
      rw [eq_of_create here fired instr]
      simp [Function.update_of_ne (ne_none_of_create instr).symm]
  | join other after =>
      rw [(returned_of_join here fired instr).2]
      simp
  | exit =>
      rw [instr] at performed
      cases performed

/-- A round of main uses the next element. -/
theorem MainPlace.Counts.step {place : MainPlace} (positive : 1 ≤ count) (few : count ≤ 50)
    (here : config.place none = some (.main place)) (counts : place.Counts target count used)
    (fired : fire target count config none = some next) :
    ∃ after, next.place none = some (.main after) ∧
      after.Counts target count (used ++ (slot (config, none)).toList) := by
  obtain ⟨running, fired⟩ := exists_of_fire fired
  have same (different : ∀ i threadNum, place ≠ .create i threadNum) :
      used ++ (slot (config, none)).toList = used := by
    simp only [slot, here]
    split <;> simp_all
  cases place with
  | checkThreads =>
      obtain rfl := eq_of_access here fired rfl
      have good : ¬ ((count : Int) > 50 ∨ (count : Int) < 1) := by omega
      simp only [if_neg good]
      rw [same (by simp)]
      exact ⟨.setTarget, Config.place_setPlace_self _ _ _, counts⟩
  | setTarget =>
      obtain rfl := eq_of_access here fired rfl
      rw [same (by simp)]
      exact ⟨.forTest 2 1, Config.place_setPlace_self _ _ _, 0, rfl, .inl rfl, counts, rfl⟩
  | forTest i threadNum =>
      obtain rfl := eq_of_access here fired rfl
      obtain ⟨rounds, rfl, within, isRobin, isNext⟩ := counts
      rw [same (by simp)]
      by_cases again : rounds + 2 ≤ target / 2
      · exact ⟨.setCandidate (rounds + 2) threadNum, by simp [again], rounds, rfl, again, isRobin, isNext⟩
      · exact ⟨.done, by simp [again], rounds, within, isRobin⟩
  | setCandidate i threadNum =>
      obtain rfl := eq_of_access here fired rfl
      rw [same (by simp)]
      exact ⟨.threadTest i threadNum, Config.place_setPlace_self _ _ _, counts⟩
  | threadTest i threadNum =>
      obtain rfl := eq_of_access here fired rfl
      obtain ⟨rounds, isRound, within, isRobin, rfl⟩ := counts
      rw [same (by simp)]
      exact ⟨.printTesting i _, Config.place_setPlace_self _ _ _, rounds, isRound, within, isRobin,
        upcoming_wrapped positive rounds⟩
  | printTesting i threadNum =>
      obtain rfl := eq_of_access here fired rfl
      rw [same (by simp)]
      exact ⟨.create i threadNum, Config.place_setPlace_self _ _ _, counts⟩
  | create i threadNum =>
      obtain rfl := eq_of_create here fired rfl
      obtain ⟨rounds, rfl, within, rfl, rfl⟩ := counts
      have uses : slot (config, none) = some (((rounds % count : Nat) : Int) + 1) := by simp only [slot, here]
      rw [uses, Option.toList_some, ← robin_succ]
      have advances : ((rounds % count : Nat) : Int) + 1 + 1 = upcoming count (rounds + 1) := by
        rw [upcoming]
        omega
      exact ⟨.forTest (rounds + 2 + 1) _, Config.place_setPlace_self _ _ _,
        rounds + 1, by omega, .inr within, rfl, advances⟩
  | done => exact absurd here running

/-- In every run main has used the elements of so many rounds. -/
theorem exists_counts {history : List (State × Thread)} {num0 num1 : Int} (positive : 1 ≤ count) (few : count ≤ 50)
    (reached : Run (fire target count) Free (start num0 num1) history config) :
    ∃ place, config.place none = some (.main place) ∧ place.Counts target count (slots history) := by
  induction reached with
  | start => exact ⟨.checkThreads, rfl, rfl⟩
  | step move _ _ fired inductionHypothesis =>
      obtain ⟨place, here, counts⟩ := inductionHypothesis
      rw [slots_cons]
      cases move with
      | none => exact counts.step positive few here fired
      | some k =>
          rw [place_main_of_fire fired]
          apply Exists.intro place
          apply And.intro here
          simpa [slot] using counts

/-- Main has used the elements of no more rounds than its loop has. -/
theorem exists_robin {history : List (State × Thread)} {num0 num1 : Int} (positive : 1 ≤ count) (few : count ≤ 50)
    (reached : Run (fire target count) Free (start num0 num1) history config) :
    ∃ rounds, slots history = robin count rounds ∧ (rounds = 0 ∨ rounds + 1 ≤ target / 2) := by
  obtain ⟨place, _, counts⟩ := exists_counts positive few reached
  cases place with
  | checkThreads | setTarget => exact ⟨0, counts, .inl rfl⟩
  | forTest i threadNum =>
      obtain ⟨rounds, _, within, isRobin, _⟩ := counts
      exact ⟨rounds, isRobin, within⟩
  | setCandidate i threadNum | threadTest i threadNum | printTesting i threadNum | create i threadNum =>
      obtain ⟨rounds, _, within, isRobin, _⟩ := counts
      exact ⟨rounds, isRobin, .inr (by omega)⟩
  | done =>
      obtain ⟨rounds, within, isRobin⟩ := counts
      exact ⟨rounds, isRobin, within⟩

/-- The elements of fewer than `count` rounds are in the array. -/
theorem robin_roundRobin {rounds : Nat} (less : rounds < count) : RoundRobin count (robin count rounds) := by
  constructor
  · intro slot used
    obtain ⟨k, inRounds, rfl⟩ := List.mem_map.mp used
    rw [List.mem_range] at inRounds
    rw [Nat.mod_eq_of_lt (by omega)]
    omega
  · intro k inside
    simp only [robin, List.length_map, List.length_range] at inside
    exact robin_different rounds k inside

/-- In every run any `numThreads` consecutive rounds use different elements. -/
theorem different_of_run {history : List (State × Thread)} {num0 num1 : Int} (positive : 1 ≤ count)
    (few : count ≤ 50)
    (reached : Run (fire target count) Free (start num0 num1) history config) (k : Nat)
    (inside : k + count ≤ (slots history).length) : (((slots history).drop k).take count).Nodup := by
  obtain ⟨rounds, isRobin, _⟩ := exists_robin positive few reached
  rw [isRobin] at inside ⊢
  rw [robin, List.length_map, List.length_range] at inside
  exact robin_different rounds k inside

/-- Main can begin each round of its loop. -/
theorem exists_forTest {num0 num1 : Int} (positive : 1 ≤ count) (few : count ≤ 50) (rounds : Nat)
    (within : rounds = 0 ∨ rounds + 1 ≤ target / 2) :
    ∃ config threadNum, Reachable (fire target count) Free (start num0 num1) config ∧
      config.place none = some (.main (.forTest (rounds + 2) threadNum)) ∧ reported config.memory.output = [] := by
  induction rounds with
  | zero =>
      have good : ¬ ((count : Int) > 50 ∨ (count : Int) < 1) := by omega
      have checked := reachable_access (.refl : Reachable (fire target count) Free (start num0 num1) _) rfl rfl
      rw [if_neg good] at checked
      have set := reachable_access checked (Config.place_setPlace_self _ _ _) rfl
      exact ⟨_, _, set, Config.place_setPlace_self _ _ _, rfl⟩
  | succ rounds inductionHypothesis =>
      obtain ⟨config, threadNum, reached, here, silent⟩ := inductionHypothesis (by omega)
      obtain ⟨after, next, reached, here, silent⟩ := exists_round (by omega) reached here silent
      exact ⟨after, next, reached, here, silent⟩

/-- Main can use the elements of each round of its loop. -/
theorem exists_run {num0 num1 : Int} (positive : 1 ≤ count) (few : count ≤ 50) (rounds : Nat)
    (within : rounds = 0 ∨ rounds + 1 ≤ target / 2) :
    ∃ history config, Run (fire target count) Free (start num0 num1) history config ∧
      slots history = robin count rounds := by
  obtain ⟨config, threadNum, ⟨history, reached⟩, here, _⟩ :=
    @exists_forTest target count num0 num1 positive few rounds within
  obtain ⟨place, isMain, counts⟩ := exists_counts positive few reached
  obtain rfl : place = .forTest (rounds + 2) threadNum := by simpa [isMain] using here
  obtain ⟨same, equal, _, isRobin, _⟩ := counts
  obtain rfl : same = rounds := by omega
  exact ⟨history, config, reached, isRobin⟩

end Run

/-- In every run main uses elements of the array in turn exactly when its loop has fewer than `numThreads`
rounds. -/
theorem roundRobin_iff (target : Nat) (numThreads num0 num1 : Int) (few : 1 ≤ numThreads ∧ numThreads ≤ 50) :
    (∀ history config, Run (fire target numThreads) Free (start num0 num1) history config →
      RoundRobin numThreads (slots history)) ↔ ((target / 2 : Nat) : Int) ≤ numThreads := by
  obtain ⟨count, rfl⟩ := Int.eq_ofNat_of_zero_le (show 0 ≤ numThreads by omega)
  have positive : 1 ≤ count := by omega
  have atMost : count ≤ 50 := by omega
  constructor
  · intro all
    by_contra many
    obtain ⟨history, config, reached, isRobin⟩ :=
      @exists_run target count num0 num1 positive atMost count (.inr (by omega))
    have last : (count : Int) ∈ slots history := by
      rw [isRobin, robin, List.mem_map]
      apply Exists.intro (count - 1)
      rw [List.mem_range, Nat.mod_eq_of_lt (by omega)]
      omega
    have inArray := ((all history config reached).inArray _ last).2
    omega
  · intro short history config reached
    obtain ⟨rounds, isRobin, within⟩ := exists_robin positive atMost reached
    rw [isRobin]
    exact robin_roundRobin (by omega)

/-- With two threads for the target 4 the only round of the loop uses the element 1. -/
theorem short_loop_inArray : (2 : Int) ≤ 50 ∧ ∀ history config, Run (fire 4 2) Free (start 0 0) history config →
    RoundRobin 2 (slots history) :=
  ⟨by decide, (roundRobin_iff 4 2 0 0 (by decide)).mpr (by decide)⟩

/-- With one thread for the target 4 the only round of the loop uses the element 1 too,
which is outside the array. -/
theorem outside_array : ∃ history config, Run (fire 4 1) Free (start 0 0) history config ∧ slots history = [1] ∧
    ¬ RoundRobin 1 (slots history) := by
  obtain ⟨history, config, reached, isRobin⟩ := @exists_run 4 1 0 0 (by decide) (by decide) 1 (.inr (by decide))
  have used : slots history = [1] := isRobin.trans (by decide)
  refine ⟨history, config, reached, used, fun roundRobin => ?_⟩
  have inArray := (roundRobin.inArray 1 (by simp [used])).2
  exact absurd inArray (by decide)

end OSLabs.Factoring
