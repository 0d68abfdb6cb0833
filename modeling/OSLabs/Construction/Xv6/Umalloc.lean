/-
This file models `xv6-riscv/user/umalloc.c`. Addresses and sizes count headers, which have 16 bytes.
-/

import OSLabs.Construction.Linked
import OSLabs.Construction.Tiling
import OSLabs.Construction.Transition
import Mathlib.Logic.Function.Basic
import Mathlib.Algebra.Order.Ring.Nat

namespace OSLabs.Xv6.Umalloc

open Linked Tiling

/-- The address of `base`, the end of the program, where the heap begins, and the memory of the machine.
No process is larger than this memory. -/
structure Image where
  base : Nat
  heap : Nat
  physical : Nat
  positive : 0 < base
  below : base < heap
  room : heap ≤ physical
  short : physical < 2 ^ 32

/-- The fields `ptr` and `size` at each address, the variable `freep`, and the end of the process. -/
structure Memory where
  ptr : Nat → Nat
  size : Nat → Nat
  freep : Nat
  brk : Nat

/-- This is the assignment to `ptr` at an address. -/
def Memory.setPtr (memory : Memory) (a value : Nat) : Memory :=
    { memory with ptr := Function.update memory.ptr a value }

/-- This is the assignment to `size` at an address. -/
def Memory.setSize (memory : Memory) (a value : Nat) : Memory :=
    { memory with size := Function.update memory.size a value }

/-- The pointers of the headers. -/
def Memory.next (memory : Memory) : Linked.Memory Nat := fun a => some (memory.ptr a)

/-- This function is `sbrk(nu * sizeof(Header))`, whose argument becomes an `int`.
The process shrinks by a negative number, and it grows when the kernel has the memory. -/
def sbrk (image : Image) (grants : Nat → Bool) (nu : Nat) (memory : Memory) : Option (Nat × Memory) :=
  let n := nu % 2 ^ 28
  if 2 ^ 27 ≤ n then
    let less := 2 ^ 28 - n
    some (memory.brk, { memory with brk := if less ≤ memory.brk then memory.brk - less else memory.brk })
  else if n = 0 then some (memory.brk, memory)
  else if memory.brk + n ≤ image.physical ∧ grants memory.brk = true then
    some (memory.brk, { memory with brk := memory.brk + n })
  else none

/-- This function is the loop of `free`. It fails when it needs more than so many rounds. -/
def findLoop (memory : Memory) (bp : Nat) : Nat → Nat → Option Nat
  | 0, _ => none
  | rounds + 1, p =>
      if p < bp ∧ bp < memory.ptr p then some p
      else if memory.ptr p ≤ p ∧ (p < bp ∨ bp < memory.ptr p) then some p
      else findLoop memory bp rounds (memory.ptr p)

/-- This is the first test of `free` behind the loop, with what follows from it. -/
def Memory.joinNext (memory : Memory) (bp p : Nat) : Memory :=
  if bp + memory.size bp = memory.ptr p then
    (memory.setSize bp ((memory.size bp + memory.size (memory.ptr p)) % 2 ^ 32)).setPtr bp
      (memory.ptr (memory.ptr p))
  else memory.setPtr bp (memory.ptr p)

/-- This is the second test of `free` behind the loop, with what follows from it. -/
def Memory.joinPrev (memory : Memory) (bp p : Nat) : Memory :=
  if p + memory.size p = bp then
    (memory.setSize p ((memory.size p + memory.size bp) % 2 ^ 32)).setPtr p (memory.ptr bp)
  else memory.setPtr p bp

/-- This function is `free`. -/
def free (image : Image) (ap : Nat) (memory : Memory) : Option Memory := do
  let bp := ap - 1
  let p ← findLoop memory bp (image.physical + 1) memory.freep
  some { (memory.joinNext bp p).joinPrev bp p with freep := p }

/-- The number of headers for which `morecore` asks. -/
def atLeast (nu : Nat) : Nat := if nu < 4096 then 4096 else nu

/-- The kernel gives the memory for which `morecore` asks. -/
def Granted (image : Image) (grants : Nat → Bool) (nu : Nat) (memory : Memory) : Prop :=
  memory.brk + atLeast nu ≤ image.physical ∧ grants memory.brk = true

/-- This function is `morecore`. It gives 0 when the kernel refuses. -/
def morecore (image : Image) (grants : Nat → Bool) (nu : Nat) (memory : Memory) : Option (Nat × Memory) :=
  match sbrk image grants (atLeast nu) memory with
  | none => some (0, memory)
  | some (hp, memory) => do
      let memory ← free image (hp + 1) (memory.setSize hp (atLeast nu))
      some (memory.freep, memory)

/-- This is what `malloc` does with a block that is large enough, and the address that it gives. -/
def Memory.take (memory : Memory) (nunits prevp p : Nat) : Nat × Memory :=
  if memory.size p = nunits then
    (p + 1, { memory.setPtr prevp (memory.ptr p) with freep := prevp })
  else
    let rest := memory.size p - nunits
    (p + rest + 1, { (memory.setSize p rest).setSize (p + rest) nunits with freep := prevp })

/-- This function is the loop of `malloc`. It fails when it needs more than so many rounds. -/
def mallocLoop (image : Image) (grants : Nat → Bool) (nunits : Nat) :
    Nat → Memory → Nat → Nat → Option (Nat × Memory)
  | 0, _, _, _ => none
  | rounds + 1, memory, prevp, p =>
      if memory.size p ≥ nunits then some (memory.take nunits prevp p)
      else if p = memory.freep then
        match morecore image grants nunits memory with
        | none => none
        | some (0, memory) => some (0, memory)
        | some (p + 1, memory) => mallocLoop image grants nunits rounds memory (p + 1) (memory.ptr (p + 1))
      else mallocLoop image grants nunits rounds memory p (memory.ptr p)

/-- The headers that hold so many bytes. -/
def units (nbytes : Nat) : Nat := (nbytes + 16 - 1) / 16

/-- The first call of `malloc` makes the list of free blocks. -/
def Memory.init (image : Image) (memory : Memory) : Memory :=
  if memory.freep = 0 then
    { (memory.setPtr image.base image.base).setSize image.base 0 with freep := image.base }
  else memory

/-- This function is `malloc`. -/
def malloc (image : Image) (grants : Nat → Bool) (nbytes : Nat) (memory : Memory) : Option (Nat × Memory) :=
  let nunits := units nbytes + 1
  let memory := memory.init image
  mallocLoop image grants nunits (2 * (image.physical + 1)) memory memory.freep (memory.ptr memory.freep)

/-- The list of free blocks, which is empty before the first call. -/
def FreeList (image : Image) (memory : Memory) (blocks : List Nat) : Prop :=
  if memory.freep = 0 then blocks = [] else image.base ∉ blocks ∧ Chain memory.next image.base blocks image.base

/-- A program calls `malloc` and `free`, or it stores 16 bytes in memory that it has. -/
inductive Call where
  | malloc (nbytes : Nat) (grants : Nat → Bool)
  | free (ap : Nat)
  | store (ap i ptr size : Nat)

/-- The memory, the blocks that the program has with the bytes it asked for,
and what it has last stored in each of them since it got the block. -/
structure State where
  memory : Memory
  live : List (Nat × Nat)
  stored : Nat → Option (Nat × Nat)

namespace State

/-- The state when the program starts. Its memory may have any content. -/
def start (image : Image) (ptr size : Nat → Nat) : State := ⟨⟨ptr, size, 0, image.heap⟩, [], fun _ => none⟩

/-- A call of the program. It fails when it does not return. -/
def fire (image : Image) (state : State) : Call → Option State
  | .malloc nbytes grants =>
      (malloc image grants nbytes state.memory).map fun (ap, memory) =>
        if ap = 0 then { state with memory }
        else ⟨memory, (ap, nbytes) :: state.live, fun a =>
          if ap ≤ a ∧ a < ap + units nbytes then none else state.stored a⟩
  | .free ap =>
      (free image ap state.memory).map fun memory =>
        { state with memory, live := state.live.filter fun block => block.1 ≠ ap }
  | .store ap i ptr size =>
      some { state with
        memory := (state.memory.setPtr (ap + i) ptr).setSize (ap + i) size
        stored := Function.update state.stored (ap + i) (some (ptr, size)) }

/-- The program asks for less than 2 GB, and it frees blocks that it has and stores in them. -/
def Allowed (state : State) : Call → Prop
  | .malloc nbytes _ => units nbytes + 1 < 2 ^ 27
  | .free ap => ∃ block ∈ state.live, block.1 = ap
  | .store ap i _ _ => ∃ block ∈ state.live, block.1 = ap ∧ i < units block.2

instance (state : State) (call : Call) : Decidable (state.Allowed call) :=
  match call with
  | .malloc _ _ => inferInstanceAs (Decidable (_ < _))
  | .free _ => inferInstanceAs (Decidable (∃ _ ∈ _, _))
  | .store _ _ _ _ => inferInstanceAs (Decidable (∃ _ ∈ _, _))

end State

end OSLabs.Xv6.Umalloc
