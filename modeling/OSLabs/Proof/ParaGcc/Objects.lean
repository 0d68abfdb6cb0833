import OSLabs.Proof.Buffer.Loops
import OSLabs.Proof.ParaGcc.Scheduling

namespace OSLabs.ParaGcc

open Transition Process Buffer Stdio

section Names
variable {stem : List UInt8}

/-- Where the stem does not contain the ending, the first `.c` is the final one. -/
theorem replaceDotcWithDoto_append (absent : ¬ dotC <:+: stem) :
    replaceDotcWithDoto (stem ++ dotC) = stem ++ dotO := by
  induction stem with
  | nil => rfl
  | cons character rest inductionHypothesis =>
      have later : ¬ dotC <:+: rest := fun occurs => absent (occurs.trans (List.suffix_cons _ _).isInfix)
      rw [List.cons_append, replaceDotcWithDoto, inductionHypothesis later]
      · rfl
      · rintro next rfl same
        cases rest with
        | nil => cases same
        | cons second rest =>
            obtain ⟨rfl, _⟩ := List.cons.inj same
            exact absent ⟨[], rest, rfl⟩

/-- Where the stem contains the ending, the stem is edited and the final `.c` stays. -/
theorem replaceDotcWithDoto_of_infix (occurs : dotC <:+: stem) (ending : List UInt8) :
    ∃ edited, replaceDotcWithDoto (stem ++ ending) = edited ++ ending := by
  induction stem with
  | nil => simp [dotC] at occurs
  | cons character rest inductionHypothesis =>
      by_cases here : ∃ tail, character = 46 ∧ rest = 99 :: tail
      · obtain ⟨tail, rfl, rfl⟩ := here
        exact ⟨46 :: 111 :: tail, rfl⟩
      · have later : dotC <:+: rest := by
          rcases List.infix_cons_iff.mp occurs with ⟨tail, same⟩ | later
          · obtain ⟨rfl, rfl⟩ : (46 : UInt8) = character ∧ 99 :: tail = rest := List.cons.inj same
            exact absurd ⟨tail, rfl, rfl⟩ here
          · exact later
        obtain ⟨edited, same⟩ := inductionHypothesis later
        apply Exists.intro (character :: edited)
        rw [List.cons_append, replaceDotcWithDoto, same, List.cons_append]
        rintro next rfl second
        cases rest with
        | nil => simp [dotC] at later
        | cons head tail =>
            obtain ⟨rfl, _⟩ := List.cons.inj second
            exact here ⟨tail, rfl, rfl⟩

/-- The final `.c` is replaced exactly when the stem does not contain the ending. -/
theorem replaceDotcWithDoto_eq_iff : replaceDotcWithDoto (stem ++ dotC) = stem ++ dotO ↔ ¬ dotC <:+: stem := by
  constructor
  · intro same occurs
    obtain ⟨edited, kept⟩ := replaceDotcWithDoto_of_infix occurs dotC
    have endings : dotC = dotO := List.append_inj_right' (kept.symm.trans same) rfl
    cases endings
  · exact replaceDotcWithDoto_append

end Names

section Vector
variable {A : Type} {array : List A} {space : List (Option A)}

theorem untilNull_append (rest : List (Option A)) : untilNull (array.map some ++ none :: rest) = array := by
  induction array with
  | nil => rfl
  | cons pointer array inductionHypothesis => rw [List.map_cons, List.cons_append, untilNull, inductionHypothesis]

/-- The pointers are copied in order. -/
theorem ensures_copy (room : array.length ≤ space.length) :
    Ensures (forLoop (copyAt array) 0 array.length space) fun copy => copy =
      array.map some ++ space.drop array.length := by
  have copied : Ensures (forLoop (copyAt array) 0 array.length space)
      fun copy => copy = (array.take (0 + array.length)).map some ++ space.drop (0 + array.length) := by
    apply ensures_forLoop fun i copy => copy = (array.take i).map some ++ space.drop i
    · simp
    · intro i copy _ inRange same
      have inArray : i < array.length := by omega
      have inSpace : i < space.length := by omega
      have prefixLength : ((array.take i).map some).length = i := by simp; omega
      rw [List.drop_eq_getElem_cons inSpace] at same
      have stored := @store_append _ ((array.take i).map some) (space.drop (i + 1)) space[i] (some array[i])
      rw [prefixLength] at stored
      rw [copyAt, load_eq inArray, Option.bind_some, same, stored]
      apply ensures_some
      rw [List.take_succ_eq_append_getElem inArray, List.map_append, List.append_assoc]
      rfl
  simpa using copied

/-- The copy is made when the block has room for the pointers and the null pointer. -/
theorem mallocACopyThatEndsInNull_eq (room : array.length < space.length) :
    mallocACopyThatEndsInNull array space = some (array.map some ++ none :: space.drop (array.length + 1)) := by
  obtain ⟨copy, copied, rfl⟩ := ensures_copy (Nat.le_of_lt room)
  have stored := @store_append _ (array.map some) (space.drop (array.length + 1)) space[array.length] none
  rw [List.length_map, ← List.drop_eq_getElem_cons room] at stored
  simp [mallocACopyThatEndsInNull, copied, stored]

/-- Without this room a store is outside the block. -/
theorem mallocACopyThatEndsInNull_eq_none (small : space.length ≤ array.length) :
    mallocACopyThatEndsInNull array space = none := by
  cases made : mallocACopyThatEndsInNull array space with
  | none => rfl
  | some copy =>
      obtain ⟨before, copied, stored⟩ := Option.bind_eq_some_iff.mp made
      have length : before.length = space.length := by
        apply forLoop_invariant (fun copy => copy.length = space.length) rfl _ copied
        intro i state next same moved
        obtain ⟨pointer, _, stored⟩ := Option.bind_eq_some_iff.mp moved
        exact (length_of_store stored).1.trans same
      have inside := (length_of_store stored).2
      omega

end Vector

section Arguments
variable {argv0 : List UInt8} {files : List (List UInt8)} {space : List (Option (List UInt8))}

/-- The names are edited in order. -/
theorem ensures_replace (first : List UInt8) (rest : List (Option (List UInt8))) :
    Ensures (forLoop replaceAt 1 files.length (some first :: (files.map some ++ none :: rest)))
      fun copy => copy = some first :: ((files.map replaceDotcWithDoto).map some ++ none :: rest) := by
  have edited : Ensures (forLoop replaceAt 1 files.length (some first :: (files.map some ++ none :: rest)))
      fun copy => copy = some first :: ((((files.take (1 + files.length - 1)).map replaceDotcWithDoto).map some) ++
        ((files.drop (1 + files.length - 1)).map some ++ none :: rest)) := by
    apply ensures_forLoop fun i copy => copy =
      some first :: ((((files.take (i - 1)).map replaceDotcWithDoto).map some) ++
      ((files.drop (i - 1)).map some ++ none :: rest))
    · simp
    · intro i copy lower upper same
      obtain ⟨k, rfl⟩ : ∃ k, i = k + 1 := ⟨i - 1, by omega⟩
      have inFiles : k < files.length := by omega
      have prefixLength : (some first :: ((files.take k).map replaceDotcWithDoto).map some).length = k + 1 := by
        simp
        omega
      rw [Nat.add_sub_cancel, List.drop_eq_getElem_cons inFiles, List.map_cons, List.cons_append,
        ← List.cons_append] at same
      have loaded : load copy (k + 1) = some (some files[k]) := by
        rw [same, load, List.getElem?_append_right (by omega), prefixLength, Nat.sub_self]
        rfl
      have stored := @store_append _ (some first :: ((files.take k).map replaceDotcWithDoto).map some)
        ((files.drop (k + 1)).map some ++ none :: rest) (some files[k]) (some (replaceDotcWithDoto files[k]))
      rw [prefixLength] at stored
      rw [replaceAt, loaded]
      dsimp only
      rw [same, stored]
      apply ensures_some
      rw [Nat.add_sub_cancel, List.take_succ_eq_append_getElem inFiles, List.map_append, List.map_append,
        ← List.cons_append, List.append_assoc]
      rfl
  simpa using edited

/-- The argument vector has the names of all objects when the block has room for the copy. -/
theorem linkArguments_eq (room : files.length + 1 < space.length) :
    linkArguments (argv0 :: files) space = some (gccName :: files.map replaceDotcWithDoto) := by
  have copied := @mallocACopyThatEndsInNull_eq _ (argv0 :: files) space room
  obtain ⟨copy, edited, rfl⟩ := @ensures_replace files gccName (space.drop (files.length + 2))
  have vector := @untilNull_append _ (gccName :: files.map replaceDotcWithDoto) (space.drop (files.length + 2))
  simp only [List.map_cons, List.cons_append, List.length_cons] at copied vector
  have replaced :
    store (some argv0 :: (files.map some ++ none :: space.drop (files.length + 2))) 0 (some gccName) =
      some (some gccName :: (files.map some ++ none :: space.drop (files.length + 2))) := rfl
  simp only [linkArguments, copied, Option.bind_eq_bind, Option.bind_some, replaced, List.length_cons,
    Nat.add_sub_cancel, edited]
  exact congrArg some vector

theorem linkArguments_eq_none (small : space.length ≤ files.length + 1) :
    linkArguments (argv0 :: files) space = none := by
  have copied := @mallocACopyThatEndsInNull_eq_none _ (argv0 :: files) space small
  simp [linkArguments, copied]

/-- In every run the objects that are linked are the names of this vector. -/
theorem linkArguments_of_link {maxGccs : Nat} {possible : Nat → Termination → Prop} {config : State} {pid : Nat}
    {objects : List (List UInt8)} (positive : 1 ≤ maxGccs) (room : files.length + 1 < space.length)
    (reached : Reachable (fire (program files maxGccs)) (Ends possible) start config)
    (called : (pid, Image.link objects) ∈ config.execs) :
    linkArguments (argv0 :: files) space = some (gccName :: objects) := by
  obtain ⟨_, run⟩ := reached
  obtain ⟨started, standing⟩ := exists_standing positive run
  have own : (pid, Image.link objects) ∈ calls config pid := List.mem_filter.mpr ⟨called, beq_self_eq_true pid⟩
  rw [linkArguments_eq room]
  rcases pid with _ | _ | k
  · rw [standing.noRoot] at own
    cases own
  · rcases standing.main.calls_eq with none | linked
    · rw [none] at own
      cases own
    · rw [linked] at own
      have same : objects = files.map replaceDotcWithDoto := by simpa using own
      rw [same]
  · cases here : config.status (k + 2) with
    | none =>
        rw [standing.uncalled k here] at own
        cases own
    | some status =>
        rw [standing.called k status here] at own
        cases status <;> simp [childCalls] at own

end Arguments

/-- The link step gets each name with its final `.c` replaced exactly when no name contains `.c` earlier
and the block of the copy has room for the null pointer. -/
theorem link_names_objects (argv0 : Text) (stems : List Text) (space : List (Option (List UInt8))) :
    NamesObjects argv0 stems space ↔ stems.length + 1 < space.length ∧ ∀ stem ∈ stems, ¬ dotC <:+: stem.bytes := by
  unfold NamesObjects
  by_cases room : stems.length + 1 < space.length
  · rw [linkArguments_eq (by simpa using room)]
    simp [room, replaceDotcWithDoto_eq_iff]
  · rw [linkArguments_eq_none (by simpa using room)]
    simp [room]

/-- The file `a.c.c` is linked as `a.o.c`. -/
theorem wrong_object_name :
    linkArguments [ascii "./para_gcc", ascii "a.c.c"] (List.replicate 3 none) = some [gccName, ascii "a.o.c"] ∧
      ¬ NamesObjects ⟨ascii "./para_gcc", by decide⟩ [⟨ascii "a.c", by decide⟩] (List.replicate 3 none) := by
  constructor
  · decide
  · unfold NamesObjects
    decide

end OSLabs.ParaGcc
