/-
This file gives out blocks of bytes. An access outside of a block in use has no result.
-/

import Trfs.Library.CString
import Mathlib.Logic.Function.Basic

namespace Heaps
open Bytes

/-- The blocks in use with their contents. Numbers from `next` on were never given out. -/
structure Heap where
  block : Nat → Option (List Byte)
  next : Nat
  fresh : ∀ number, next ≤ number → block number = none

/-- Two heaps with the same blocks and the same next number are equal. -/
@[ext] theorem Heap.ext {first second : Heap} (block : first.block = second.block) (next : first.next = second.next) :
    first = second := by
  cases first
  cases second
  cases block
  cases next
  rfl

def Heap.empty : Heap := ⟨fun _ => none, 0, fun _ _ => rfl⟩

/-- New memory has the bytes that happen to be there. -/
def uninitialized (garbage : Nat → Byte) (size : Nat) : List Byte := (List.range size).map garbage

/-- Fresh memory has the size asked for. -/
@[simp] theorem uninitialized_length (garbage : Nat → Byte) (size : Nat) :
    (uninitialized garbage size).length = size := by
  simp [uninitialized]

/-- `malloc` of a block with these bytes. Its number is `next`. -/
def Heap.alloc (heap : Heap) (contents : List Byte) : Heap where
  block := Function.update heap.block heap.next (some contents)
  next := heap.next + 1
  fresh number later := by
    rw [Function.update_of_ne (by omega)]
    exact heap.fresh number (by omega)

/-- A block in the heap has an earlier number. -/
theorem Heap.number_lt {heap : Heap} {number : Nat} {contents : List Byte}
    (there : heap.block number = some contents) : number < heap.next := by
  by_contra later
  rw [heap.fresh number (Nat.le_of_not_lt later)] at there
  cases there

/-- The bytes are written into a block, if they lie within it. -/
def Heap.write (heap : Heap) (number offset : Nat) (data : List Byte) : Option Heap :=
  match there : heap.block number with
  | none => none
  | some contents =>
      if offset + data.length ≤ contents.length then
        some { heap with
          block := Function.update heap.block number (some (store contents offset data))
          fresh := fun other later => by
            rw [Function.update_of_ne (by have := heap.number_lt there; omega)]
            exact heap.fresh other later }
      else none

/-- `free` of a block in use. -/
def Heap.free (heap : Heap) (number : Nat) : Option Heap :=
  if (heap.block number).isSome then
    some { heap with
      block := Function.update heap.block number none
      fresh := fun other later => by
        by_cases same : other = number
        · rw [same, Function.update_self]
        · rw [Function.update_of_ne same]
          exact heap.fresh other later }
  else none

/-- The string at the start of a block. It is read up to its NUL, which must lie within the block. -/
def Heap.string (heap : Heap) (number : Nat) : Option CString := (heap.block number).bind stringAt

section
variable (heap : Heap) (contents : List Byte)

/-- An allocation uses one number. -/
@[simp] theorem Heap.alloc_next : (heap.alloc contents).next = heap.next + 1 := rfl

/-- The new block has its contents. -/
@[simp] theorem Heap.alloc_block_self : (heap.alloc contents).block heap.next = some contents :=
  Function.update_self _ _ _

/-- The other blocks stay. -/
theorem Heap.alloc_block_other {number : Nat} (other : number ≠ heap.next) :
    (heap.alloc contents).block number = heap.block number :=
  Function.update_of_ne other _ _

/-- A write into a new block has the effect of a block with the written bytes. -/
theorem Heap.write_alloc (offset : Nat) (data : List Byte) :
    (heap.alloc contents).write heap.next offset data =
      if offset + data.length ≤ contents.length then some (heap.alloc (store contents offset data)) else none := by
  have there := heap.alloc_block_self contents
  unfold Heap.write
  split
  · rename_i missing
    rw [there] at missing
    cases missing
  · rename_i found
    rw [there] at found
    obtain rfl := Option.some.inj found
    split
    · congr 1
      apply Heap.ext
      · exact Function.update_idem _ _ _
      · rfl
    · rfl

/-- A write past the end of its block has no result. -/
theorem Heap.write_outside {heap : Heap} {number offset : Nat} {contents data : List Byte}
    (there : heap.block number = some contents) (outside : contents.length < offset + data.length) :
    heap.write number offset data = none := by
  unfold Heap.write
  split
  · rfl
  · rename_i found
    rw [there] at found
    obtain rfl := Option.some.inj found
    exact if_neg (by omega)

/-- Freeing a new block gives the old blocks back. -/
theorem Heap.free_alloc : ((heap.alloc contents).free heap.next).map Heap.block = some heap.block := by
  unfold Heap.free
  rw [heap.alloc_block_self contents]
  have missing := heap.fresh heap.next (Nat.le_refl _)
  simp only [Option.isSome_some, if_true, Option.map_some, Heap.alloc, Function.update_idem]
  rw [← missing, Function.update_eq_self]

/-- The string of a block is the one in its contents. -/
theorem Heap.string_eq {heap : Heap} {number : Nat} {contents : List Byte}
    (there : heap.block number = some contents) : heap.string number = stringAt contents := by
  rw [Heap.string, there, Option.bind_some]

/-- A new block does not change the strings of the other ones. -/
theorem Heap.string_alloc {number : Nat} {text : CString} (there : heap.string number = some text) :
    (heap.alloc contents).string number = some text := by
  unfold Heap.string at there ⊢
  obtain ⟨bytes, found, _⟩ := Option.bind_eq_some_iff.mp there
  have older := Heap.number_lt found
  rw [heap.alloc_block_other contents (by omega), there]

end

end Heaps
