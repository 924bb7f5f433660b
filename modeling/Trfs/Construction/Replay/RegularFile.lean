/-
This file states what the replay of a session takes from the system: how open, read and write treat a regular file.
-/

import Trfs.Construction.Replay.ReplayRecord
import Trfs.Library.Cursor

namespace Trfs.Replay
open Bytes Effect Trace Files

/-- `O_APPEND` and `O_TRUNC` in the flags of an open. -/
def appends (flags : BitVec 32) : Bool := flags &&& 0x400 ≠ 0

def truncates (flags : BitVec 32) : Bool := flags &&& 0x200 ≠ 0

/-- `O_CREAT | O_EXCL`: the open fails when the file exists. -/
def exclusive (flags : BitVec 32) : Bool := flags &&& 0xc0 = 0xc0

/-- `FMODE_READ` and `FMODE_WRITE` from the access mode in the flags. -/
def readable (flags : BitVec 32) : Bool := (flags + 1) &&& 1 ≠ 0

def writable (flags : BitVec 32) : Bool := (flags + 1) &&& 2 ≠ 0

/-- The position of a file of the given size after it was opened. -/
def openedCursor (flags : BitVec 32) (size : Nat) : Cursor where
  append := appends flags
  size := if truncates flags then 0 else size
  offset := 0

/-- The number of bytes that one `read` or `write` transfers at most. -/
def maxRwCount : Nat := 0x7ffff000

/-- A system has a regular file at a path, and a process opens it with these flags, reads and writes. `size` is the
size of the file when it is there, and `opened` are its descriptors with their positions. The file can be opened unless
the open asks for a new one, a position moves by what was transferred, and there is room for every write. -/
structure CopyCalls {σ : Type} (handler : Handler SystemCall.Reply σ) (path : CString) (flags : BitVec 32)
    (size : σ → Option Nat) (opened : σ → BitVec 32 → Option Cursor) : Prop where
  prints : ∀ text state, ∃ after, handler (.printf text) state = some ((), after) ∧
    (size after, opened after) = (size state, opened state)
  opens : exclusive flags = false → ∀ state bytes, size state = some bytes → (∀ fd, opened state fd = none) →
    ∃ (number : BitVec 32) (after : σ), handler (.open path flags none) state = some (number, after) ∧
      0 ≤ number.toInt ∧ opened after number = some (openedCursor flags bytes)
  excludes : exclusive flags = true → ∀ state bytes, size state = some bytes →
    ∃ (err : BitVec 32) (after : σ), handler (.open path flags none) state = some (err, after) ∧ err.toInt < 0 ∧
      opened after = opened state
  reads : ∀ state fd count cursor, opened state fd = some cursor →
    ∃ (result : BitVec 64) (after : σ), handler (.read fd count) state = some (result, after) ∧
      result.toInt ≤ count.toNat ∧ opened after fd = some (cursor.read result.toInt.toNat)
  writes : writable flags = true → ∀ state fd bytes cursor, opened state fd = some cursor →
    ∃ after, handler (.write fd bytes) state = some (BitVec.ofNat 64 (min bytes.length maxRwCount), after) ∧
      opened after fd = some (cursor.write (min bytes.length maxRwCount))

end Trfs.Replay
