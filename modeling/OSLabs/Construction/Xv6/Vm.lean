/-
This file models the page tables of `xv6-riscv/kernel/vm.c`, the pages of `kernel/kalloc.c`,
and the functions of `kernel/proc.c` that use them. Physical addresses count pages.
-/

import OSLabs.Construction.Radix
import OSLabs.Construction.Transition
import Mathlib.Algebra.Order.Ring.Nat

namespace OSLabs.Xv6.Vm

open Radix

/-- The first page behind the kernel, `PHYSTOP`, and the page of the trampoline, which belongs to the kernel. -/
structure Machine where
  bottom : Nat
  top : Nat
  trampoline : Nat
  kernel : trampoline < bottom
  few : top ≤ bottom + 2 ^ 15

/-- The words of 8 bytes in each page, and the page to which `kmem.freelist` points, or 0 for `NULL`. -/
structure Memory where
  words : Nat → Fin 512 → Nat
  freelist : Nat

/-- This is `memset` over a page. -/
def Memory.fill (memory : Memory) (page word : Nat) : Memory :=
  { memory with words := Function.update memory.words page fun _ => word }

/-- This is the assignment to an entry of a page table. -/
def Memory.setWord (memory : Memory) (page : Nat) (i : Fin 512) (word : Nat) : Memory :=
  { memory with words := store memory.words page i word }

/-- This is `PGSIZE`. -/
def pgSize : Nat := 4096

/-- This is the field `next` of a free page. -/
def Memory.runNext (memory : Memory) (r : Nat) : Nat := memory.words r 0 / pgSize

/-- This function is `kalloc`. The first word of a page on the list points to the next one.
The page is filled with junk. -/
def kalloc (memory : Memory) : Option (Nat × Memory) :=
  let r := memory.freelist
  if r = 0 then none
  else some (r, Memory.fill { memory with freelist := memory.runNext r } r 0x0505050505050505)

/-- This function is `kfree`. It panics outside of the memory, and it fills the page with junk. -/
def kfree (machine : Machine) (page : Nat) (memory : Memory) : Option Memory :=
  if machine.bottom ≤ page ∧ page < machine.top then
    let memory := memory.fill page 0x0101010101010101
    let memory := memory.setWord page 0 (memory.freelist * pgSize)
    some { memory with freelist := page }
  else none

/-- This function is the loop of `freerange` with the number of pages that are left. -/
def freerange (machine : Machine) : Nat → Nat → Memory → Option Memory
  | 0, _, memory => some memory
  | pages + 1, p, memory => do
      let memory ← kfree machine p memory
      freerange machine pages (p + 1) memory

/-- This function is `kinit`. -/
def kinit (machine : Machine) (words : Nat → Fin 512 → Nat) : Option Memory :=
  freerange machine (machine.top - machine.bottom) machine.bottom ⟨words, 0⟩

/-- This is `PGROUNDUP`. -/
def pgRoundUp (sz : Nat) : Nat := (sz + pgSize - 1) / pgSize * pgSize

/-- This is `PGROUNDDOWN`. -/
def pgRoundDown (a : Nat) : Nat := a / pgSize * pgSize

/-- These are the flags `PTE_V`, `PTE_R`, `PTE_W`, `PTE_X` and `PTE_U`. -/
def pteV : Nat := 1
def pteR : Nat := 2
def pteW : Nat := 4
def pteX : Nat := 8
def pteU : Nat := 16

/-- This is `PA2PTE`. -/
def pa2pte (page : Nat) : Nat := page <<< 10

/-- This is `PTE2PA`. -/
def pte2pa (pte : Nat) : Nat := pte >>> 10

/-- This is `PTE_FLAGS`. -/
def pteFlags (pte : Nat) : Nat := pte % 1024

/-- The index in the last nine bits of a number. -/
def index (n : Nat) : Fin 512 := Fin.ofNat 512 n

/-- This is `PX`. -/
def px (level va : Nat) : Fin 512 := index (va >>> (12 + 9 * level))

/-- This is `MAXVA`. -/
def maxVa : Nat := 2 ^ 38

def trampolineVa : Nat := maxVa - pgSize
def trapframeVa : Nat := trampolineVa - pgSize

/-- This function is the loop of `walk`. -/
def walkLoop (va : Nat) (alloc : Bool) : Nat → Nat → Memory → Option Nat × Memory
  | 0, pagetable, memory => (some pagetable, memory)
  | level + 1, pagetable, memory =>
      let pte := memory.words pagetable (px (level + 1) va)
      if pte % 2 = pteV then walkLoop va alloc level (pte2pa pte) memory
      else if alloc then
        match kalloc memory with
        | none => (none, memory)
        | some (page, memory) =>
            walkLoop va alloc level page ((memory.fill page 0).setWord pagetable (px (level + 1) va)
              (pa2pte page ||| pteV))
      else (none, memory)

/-- This function is `walk`. It gives the table and the index of the entry. -/
def walk (pagetable va : Nat) (alloc : Bool) (memory : Memory) : Option (Option (Nat × Fin 512) × Memory) :=
  if va ≥ maxVa then none
  else
    let (table, memory) := walkLoop va alloc 2 pagetable memory
    some (table.map fun table => (table, px 0 va), memory)

/-- This function is `walkaddr`. -/
def walkaddr (pagetable va : Nat) (memory : Memory) : Option Nat := do
  let (pte, _) ← walk pagetable va false memory
  let (table, i) ← pte
  let pte := memory.words table i
  if pte % 2 ≠ pteV then none
  else if pte / pteU % 2 = 0 then none
  else some (pte2pa pte)

/-- This function is the loop of `mappages`. The result says whether it succeeds. -/
def mappagesLoop (pagetable perm last : Nat) : Nat → Nat → Nat → Memory → Option (Bool × Memory)
  | 0, _, _, _ => none
  | rounds + 1, a, pa, memory => do
      let (pte, memory) ← walk pagetable a true memory
      match pte with
      | none => some (false, memory)
      | some (table, i) =>
          if memory.words table i % 2 = pteV then none
          else
            let memory := memory.setWord table i (pa2pte pa ||| perm ||| pteV)
            if a = last then some (true, memory)
            else mappagesLoop pagetable perm last rounds (a + pgSize) (pa + 1) memory

/-- This function is `mappages`. -/
def mappages (pagetable va size pa perm : Nat) (memory : Memory) : Option (Bool × Memory) :=
  if size = 0 then none
  else mappagesLoop pagetable perm (pgRoundDown (va + size - 1)) (size / pgSize + 2) (pgRoundDown va) pa memory

/-- This function is the loop of `uvmunmap` with the number of pages that are left. -/
def uvmunmapLoop (machine : Machine) (pagetable : Nat) (doFree : Bool) : Nat → Nat → Memory → Option Memory
  | 0, _, memory => some memory
  | npages + 1, a, memory => do
      let (pte, memory) ← walk pagetable a false memory
      let (table, i) ← pte
      let pte := memory.words table i
      if pte % 2 ≠ pteV then none
      else if pteFlags pte = pteV then none
      else
        let memory ← if doFree then kfree machine (pte2pa pte) memory else some memory
        uvmunmapLoop machine pagetable doFree npages (a + pgSize) (memory.setWord table i 0)

/-- This function is `uvmunmap`. -/
def uvmunmap (machine : Machine) (pagetable va npages : Nat) (doFree : Bool) (memory : Memory) : Option Memory :=
  if va % pgSize ≠ 0 then none else uvmunmapLoop machine pagetable doFree npages va memory

/-- This function is `uvmcreate`. -/
def uvmcreate (memory : Memory) : Option Nat × Memory :=
  match kalloc memory with
  | none => (none, memory)
  | some (page, memory) => (some page, memory.fill page 0)

/-- This function is `uvmdealloc`. It gives the new size. -/
def uvmdealloc (machine : Machine) (pagetable oldsz newsz : Nat) (memory : Memory) : Option (Nat × Memory) :=
  if newsz ≥ oldsz then some (oldsz, memory)
  else if pgRoundUp newsz < pgRoundUp oldsz then
    (uvmunmap machine pagetable (pgRoundUp newsz) ((pgRoundUp oldsz - pgRoundUp newsz) / pgSize) true memory).map
      fun memory => (newsz, memory)
  else some (newsz, memory)

/-- This function is the loop of `uvmalloc`. -/
def uvmallocLoop (machine : Machine) (pagetable oldsz newsz xperm : Nat) :
    Nat → Nat → Memory → Option (Nat × Memory)
  | 0, _, _ => none
  | rounds + 1, a, memory =>
      if a < newsz then
        match kalloc memory with
        | none => (uvmdealloc machine pagetable a oldsz memory).map fun result => (0, result.2)
        | some (mem, memory) => do
            let (mapped, memory) ← mappages pagetable a pgSize mem (pteR ||| pteU ||| xperm) (memory.fill mem 0)
            if mapped then uvmallocLoop machine pagetable oldsz newsz xperm rounds (a + pgSize) memory
            else
              let memory ← kfree machine mem memory
              (uvmdealloc machine pagetable a oldsz memory).map fun result => (0, result.2)
      else some (newsz, memory)

/-- This function is `uvmalloc`. It gives the new size, or 0 when it fails. -/
def uvmalloc (machine : Machine) (pagetable oldsz newsz xperm : Nat) (memory : Memory) : Option (Nat × Memory) :=
  if newsz < oldsz then some (oldsz, memory)
  else uvmallocLoop machine pagetable (pgRoundUp oldsz) newsz xperm (newsz / pgSize + 2) (pgRoundUp oldsz) memory

/-- This function is `freewalk` with a bound on the depth of the recursion. -/
def freewalk (machine : Machine) : Nat → Nat → Memory → Option Memory
  | 0, _, _ => none
  | depth + 1, pagetable, memory => do
      let memory ← (List.finRange 512).foldlM (fun memory i =>
        let pte := memory.words pagetable i
        if pte % 2 = pteV ∧ pte % 16 / 2 = 0 then
          (freewalk machine depth (pte2pa pte) memory).map fun memory => memory.setWord pagetable i 0
        else if pte % 2 = pteV then none
        else some memory) memory
      kfree machine pagetable memory

/-- This function is `uvmfree`. -/
def uvmfree (machine : Machine) (pagetable sz : Nat) (memory : Memory) : Option Memory := do
  let memory ← if sz > 0 then uvmunmap machine pagetable 0 (pgRoundUp sz / pgSize) true memory else some memory
  freewalk machine 3 pagetable memory

/-- This is `memmove` of a page. -/
def Memory.movePage (memory : Memory) (dst src : Nat) : Memory :=
  { memory with words := Function.update memory.words dst (memory.words src) }

/-- This function is the loop of `uvmcopy`. -/
def uvmcopyLoop (machine : Machine) (old new sz : Nat) : Nat → Nat → Memory → Option (Bool × Memory)
  | 0, _, _ => none
  | rounds + 1, i, memory =>
      if i < sz then do
        let (pte, memory) ← walk old i false memory
        let (table, k) ← pte
        let pte := memory.words table k
        if pte % 2 ≠ pteV then none
        else
          match kalloc memory with
          | none => (uvmunmap machine new 0 (i / pgSize) true memory).map fun memory => (false, memory)
          | some (mem, memory) => do
              let (mapped, memory) ← mappages new i pgSize mem (pteFlags pte) (memory.movePage mem (pte2pa pte))
              if mapped then uvmcopyLoop machine old new sz rounds (i + pgSize) memory
              else
                let memory ← kfree machine mem memory
                (uvmunmap machine new 0 (i / pgSize) true memory).map fun memory => (false, memory)
      else some (true, memory)

/-- This function is `uvmcopy`. -/
def uvmcopy (machine : Machine) (old new sz : Nat) (memory : Memory) : Option (Bool × Memory) :=
  uvmcopyLoop machine old new sz (sz / pgSize + 2) 0 memory

/-- This function is `proc_pagetable`. -/
def procPagetable (machine : Machine) (trapframe : Nat) (memory : Memory) : Option (Option Nat × Memory) :=
  match uvmcreate memory with
  | (none, memory) => some (none, memory)
  | (some pagetable, memory) => do
      let (mapped, memory) ← mappages pagetable trampolineVa pgSize machine.trampoline (pteR ||| pteX) memory
      if !mapped then
        let memory ← uvmfree machine pagetable 0 memory
        return (none, memory)
      let (mapped, memory) ← mappages pagetable trapframeVa pgSize trapframe (pteR ||| pteW) memory
      if !mapped then
        let memory ← uvmunmap machine pagetable trampolineVa 1 false memory
        let memory ← uvmfree machine pagetable 0 memory
        return (none, memory)
      return (some pagetable, memory)

/-- This function is `proc_freepagetable`. -/
def procFreepagetable (machine : Machine) (pagetable sz : Nat) (memory : Memory) : Option Memory := do
  let memory ← uvmunmap machine pagetable trampolineVa 1 false memory
  let memory ← uvmunmap machine pagetable trapframeVa 1 false memory
  uvmfree machine pagetable sz memory

/-- The fields of a process that is in use. -/
structure Proc where
  pagetable : Nat
  trapframe : Nat
  sz : Nat

/-- The part of `allocproc` behind the search for an unused process. -/
def allocproc (machine : Machine) (memory : Memory) : Option (Option Proc × Memory) :=
  match kalloc memory with
  | none => some (none, memory)
  | some (trapframe, memory) => do
      let (pagetable, memory) ← procPagetable machine trapframe memory
      match pagetable with
      | none => (kfree machine trapframe memory).map fun memory => (none, memory)
      | some pagetable => some (some ⟨pagetable, trapframe, 0⟩, memory)

/-- This function is `freeproc`. -/
def freeproc (machine : Machine) (proc : Proc) (memory : Memory) : Option Memory := do
  let memory ← kfree machine proc.trapframe memory
  procFreepagetable machine proc.pagetable proc.sz memory

/-- This function is `growproc`. It gives the new size and whether it succeeds. -/
def growproc (machine : Machine) (n : Int) (proc : Proc) (memory : Memory) : Option (Bool × Nat × Memory) :=
  if n > 0 then
    (uvmalloc machine proc.pagetable proc.sz (proc.sz + n.toNat) pteW memory).map fun (sz, memory) =>
      if sz = 0 then (false, proc.sz, memory) else (true, sz, memory)
  else if n < 0 then
    -- A sum below zero wraps and is a large number.
    let newsz :=
      if 0 ≤ (proc.sz : Int) + n then ((proc.sz : Int) + n).toNat else ((proc.sz : Int) + n + 2 ^ 64).toNat
    (uvmdealloc machine proc.pagetable proc.sz newsz memory).map fun (sz, memory) => (true, sz, memory)
  else some (true, proc.sz, memory)

/-- A store instruction of a user program. The hardware walks the page table and checks the flags of the entry. -/
def userStore (pagetable va word : Nat) (memory : Memory) : Option Memory := do
  let (pte, _) ← walk pagetable va false memory
  let (table, i) ← pte
  let pte := memory.words table i
  if pte % 2 = pteV ∧ pte / pteW % 2 = 1 ∧ pte / pteU % 2 = 1 then
    some (memory.setWord (pte2pa pte) (index (va / 8)) word)
  else none

/-- The memory, the processes that are in use, and the pages that other kernel code has from `kalloc`. -/
structure State (T : Type) where
  memory : Memory
  procs : T → Option Proc
  taken : List Nat

/-- A call that changes the memory. Other kernel code takes a page, as for a pipe, and gives it back. -/
inductive Call (T : Type) where
  | alloc (p : T)
  | grow (p : T) (n : Int)
  | fork (p np : T)
  | free (p : T)
  | store (p : T) (va word : Nat)
  | take
  | give (page : Nat)

section
variable {T : Type} [DecidableEq T]

/-- The state after `kinit`. -/
def State.start (memory : Memory) : State T := ⟨memory, fun _ => none, []⟩

/-- A call by a process. It fails when the kernel panics. -/
def State.fire (machine : Machine) (state : State T) : Call T → Option (State T)
  | .alloc p => do
      let (proc, memory) ← allocproc machine state.memory
      return { state with memory, procs := Function.update state.procs p proc }
  | .grow p n => do
      let proc ← state.procs p
      let (_, sz, memory) ← growproc machine n proc state.memory
      return { state with memory, procs := Function.update state.procs p (some { proc with sz }) }
  | .fork p np => do
      let proc ← state.procs p
      let (child, memory) ← allocproc machine state.memory
      match child with
      | none => return { state with memory }
      | some child =>
          let (copied, memory) ← uvmcopy machine proc.pagetable child.pagetable proc.sz memory
          if copied then
            return { state with
              memory
              procs := Function.update state.procs np (some { child with sz := proc.sz }) }
          else
            let memory ← freeproc machine child memory
            return { state with memory }
  | .free p => do
      let proc ← state.procs p
      let memory ← freeproc machine proc state.memory
      return { state with memory, procs := Function.update state.procs p none }
  | .store p va word => do
      let proc ← state.procs p
      -- A store that faults ends in a trap, and it changes nothing.
      return { state with memory := (userStore proc.pagetable va word state.memory).getD state.memory }
  | .take =>
      match kalloc state.memory with
      | none => some state
      | some (page, memory) => some { state with memory, taken := page :: state.taken }
  | .give page => (kfree machine page state.memory).map fun memory =>
      { state with memory, taken := state.taken.erase page }

/-- A process that is in use makes the call, a new process was not in use, and other code gives back what it took.
The argument of `growproc` is an `int`. -/
def State.Allowed (state : State T) : Call T → Prop
  | .alloc p => state.procs p = none
  | .grow p n => state.procs p ≠ none ∧ -2 ^ 31 ≤ n ∧ n < 2 ^ 31
  | .fork p np => state.procs p ≠ none ∧ state.procs np = none
  | .free p => state.procs p ≠ none
  | .store p _ _ => state.procs p ≠ none
  | .take => True
  | .give page => page ∈ state.taken

instance (state : State T) (call : Call T) : Decidable (state.Allowed call) :=
  match call with
  | .alloc p => inferInstanceAs (Decidable (state.procs p = none))
  | .grow p n => inferInstanceAs (Decidable (state.procs p ≠ none ∧ -2 ^ 31 ≤ n ∧ n < 2 ^ 31))
  | .fork p np => inferInstanceAs (Decidable (state.procs p ≠ none ∧ state.procs np = none))
  | .free p => inferInstanceAs (Decidable (state.procs p ≠ none))
  | .store p _ _ => inferInstanceAs (Decidable (state.procs p ≠ none))
  | .take => inferInstanceAs (Decidable True)
  | .give page => inferInstanceAs (Decidable (page ∈ state.taken))

end

end OSLabs.Xv6.Vm
