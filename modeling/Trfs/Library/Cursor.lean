/-
This file models the position of an open regular file.
-/

import Mathlib.Tactic.Basic

namespace Files

/-- An open regular file: whether every write goes to its end, its size and its position. -/
structure Cursor where
  append : Bool
  size : Nat
  offset : Nat
deriving DecidableEq

/-- The place where a write begins. -/
def Cursor.place (cursor : Cursor) : Nat := if cursor.append then cursor.size else cursor.offset

def Cursor.read (cursor : Cursor) (count : Nat) : Cursor := { cursor with offset := cursor.offset + count }

/-- A write of no bytes changes nothing. -/
def Cursor.write (cursor : Cursor) (count : Nat) : Cursor :=
  if count = 0 then cursor
  else { cursor with offset := cursor.place + count, size := max cursor.size (cursor.place + count) }

/-- The next write does not begin before the position. -/
def Cursor.Ahead (cursor : Cursor) : Prop := cursor.offset ≤ cursor.place

section
variable {cursor : Cursor}

@[simp] theorem Cursor.write_append (count : Nat) : (cursor.write count).append = cursor.append := by
  unfold write
  split <;> rfl

/-- The position after a read tells how many bytes were read. -/
theorem Cursor.read_offset_inj {first second : Nat} :
    (cursor.read first).offset = (cursor.read second).offset ↔ first = second := by
  simp [read]

/-- The position after a write tells how many bytes were written. -/
theorem Cursor.write_offset_inj (ahead : cursor.Ahead) {first second : Nat} :
    (cursor.write first).offset = (cursor.write second).offset ↔ first = second := by
  unfold Ahead at ahead
  unfold write
  by_cases none : first = 0 <;> by_cases nothing : second = 0 <;> simp [none, nothing] <;> omega

theorem Cursor.Ahead.write (ahead : cursor.Ahead) (count : Nat) : (cursor.write count).Ahead := by
  unfold Ahead at ahead ⊢
  unfold place Cursor.write at *
  cases mode : cursor.append <;> by_cases none : count = 0 <;> simp_all [place]

theorem Cursor.write_offset (cursor : Cursor) (count : Nat) :
    (cursor.write count).offset = if count = 0 then cursor.offset else cursor.place + count := by
  unfold write
  split <;> rfl

end

end Files
