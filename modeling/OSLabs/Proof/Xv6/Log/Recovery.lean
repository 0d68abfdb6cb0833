import OSLabs.Construction.Xv6.Log
import OSLabs.Proof.RedoLog.Install

namespace OSLabs.Xv6.Log

open RedoLog

variable {layout : Layout} {disk crashed : Disk} {lh : List Nat} {view : Disk}

theorem encodeHead_zero (block : Block) : encodeHead lh block 0 = UInt32.ofNat lh.length := rfl

theorem encodeHead_succ {i blockno : Nat} (few : lh.length ≤ logSize) (here : lh[i]? = some blockno)
    (block : Block) :
    encodeHead lh block (Fin.ofNat 256 (i + 1)) = UInt32.ofNat blockno := by
  have less : i < lh.length := (List.getElem?_eq_some_iff.mp here).1
  have small : i + 1 < 256 := by
    unfold logSize at few
    omega
  have index : (Fin.ofNat 256 (i + 1)).val = i + 1 := Nat.mod_eq_of_lt small
  have behind : Fin.ofNat 256 (i + 1) ≠ 0 := by
    intro same
    have zero : (Fin.ofNat 256 (i + 1)).val = 0 := congrArg Fin.val same
    omega
  unfold encodeHead
  rw [if_neg behind, index, Nat.add_sub_cancel, here]

/-- The header that has been written is read back. -/
theorem decodeHead_encodeHead (few : lh.length ≤ logSize) (words : ∀ blockno ∈ lh, blockno < 2 ^ 32)
    (block : Block) :
    decodeHead (encodeHead lh block) = some lh := by
  have count : (encodeHead lh block 0).toNat = lh.length := by
    rw [encodeHead_zero]
    refine UInt32.toNat_ofNat_of_lt (Nat.lt_of_le_of_lt few ?_)
    decide
  unfold decodeHead
  simp only [count]
  rw [if_neg (by unfold logSize at few; omega), if_pos few]
  congr 1
  apply List.ext_getElem?
  intro i
  by_cases less : i < lh.length
  · have here : lh[i]? = some lh[i] := List.getElem?_eq_getElem less
    rw [List.getElem?_map, List.getElem?_range less, Option.map_some, encodeHead_succ few here, here]
    exact congrArg some (UInt32.toNat_ofNat_of_lt' (words _ (List.getElem_mem less)))
  · rw [List.getElem?_eq_none (by simpa using less), List.getElem?_eq_none (by simpa using less)]

/-- The slots are behind the header. -/
theorem slot_ne_logstart (tail : Nat) : layout.slot tail ≠ layout.logstart := by
  unfold Layout.slot
  omega

theorem slot_injective {first second : Nat} (same : layout.slot first = layout.slot second) : first = second := by
  unfold Layout.slot at same
  omega

theorem not_home_logstart : ¬ layout.Home layout.logstart := by
  have positive := layout.positive
  unfold Layout.Home
  omega

/-- The slots of the log are no blocks of the file system. -/
theorem not_home_slot {tail : Nat} (inside : tail + 1 < layout.nlog) : ¬ layout.Home (layout.slot tail) := by
  unfold Layout.Home Layout.slot
  omega

/-- The disk has a complete log of these blocks. The log
and the blocks outside of it give this view of the file system. -/
structure Logged (layout : Layout) (disk : Disk) (lh : List Nat) (view : Disk) : Prop where
  head : decodeHead (disk layout.logstart) = some lh
  home : ∀ blockno ∈ lh, layout.Home blockno
  short : lh.length < layout.nlog
  slots : ∀ i blockno, lh[i]? = some blockno → disk (layout.slot i) = view blockno
  others : ∀ blockno, layout.Home blockno → blockno ∉ lh → disk blockno = view blockno

namespace Logged

/-- No slot that the log uses is one of its targets. -/
theorem apart (logged : Logged layout disk lh view) {i : Nat} (inside : i < lh.length) : layout.slot i ∉ lh := by
  have short := logged.short
  exact fun member => not_home_slot (by omega) (logged.home _ member)

/-- A stopped recovery leaves a complete log of the same view. -/
theorem recoverPart (logged : Logged layout disk lh view) {count : Nat}
    (stopped : recoverPart layout disk count = some crashed) :
    Logged layout crashed lh view := by
  rw [Log.recoverPart, logged.head, Option.map_some, Option.some.injEq] at stopped
  subst stopped
  have kept : ∀ blockno, blockno ∉ lh → install layout.slot (lh.take count) 0 disk blockno = disk blockno :=
    fun blockno outside => install_of_notMem fun member => outside (List.mem_of_mem_take member)
  constructor
  · rw [kept _ fun member => not_home_logstart (logged.home _ member)]
    exact logged.head
  · exact logged.home
  · exact logged.short
  · intro i blockno here
    rw [kept _ (logged.apart (List.getElem?_eq_some_iff.mp here).1)]
    exact logged.slots i blockno here
  · intro blockno isHome outside
    rw [kept _ outside]
    exact logged.others blockno isHome outside

/-- Any number of stopped recoveries leaves a complete log of the same view. -/
theorem interrupted (logged : Logged layout disk lh view) (interrupted : Interrupted layout disk crashed) :
    Logged layout crashed lh view := by
  induction interrupted with
  | refl => exact logged
  | again before count stopped inductionHypothesis => exact inductionHypothesis.recoverPart stopped

/-- The empty header, written to a disk that shows the view, empties the log. -/
theorem cleared (shown : ∀ blockno, layout.Home blockno → disk blockno = view blockno) :
    Logged layout (writeHead layout [] disk) [] view := by
  constructor
  · rw [writeHead, Function.update_self]
    exact decodeHead_encodeHead (Nat.zero_le _) (by simp) _
  · simp
  · exact layout.positive
  · simp
  · intro blockno isHome _
    have different : blockno ≠ layout.logstart := by
      rintro rfl
      exact not_home_logstart isHome
    rw [writeHead, Function.update_of_ne different]
    exact shown blockno isHome

/-- A recovery that runs to its end makes the view the contents of the file system and empties the log. -/
theorem exists_recovered (logged : Logged layout disk lh view) :
    ∃ recovered, recoverFromLog layout disk = some recovered ∧ Logged layout recovered [] view := by
  refine ⟨_, by rw [recoverFromLog, logged.head, Option.map_some], cleared fun blockno isHome => ?_⟩
  by_cases member : blockno ∈ lh
  · refine install_of_mem (fun i less => ?_) (fun i target here => ?_) member
    · rw [Nat.zero_add]
      exact logged.apart less
    · rw [Nat.zero_add]
      exact logged.slots i target here
  · rw [install_of_notMem member]
    exact logged.others blockno isHome member

end Logged

end OSLabs.Xv6.Log
