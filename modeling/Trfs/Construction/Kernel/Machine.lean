/-
This file gives the calls their effect on the mount, on the lower filesystem and on the trace file.
-/

import Mathlib.Logic.Function.Basic
import Trfs.Construction.Kernel.Inode

namespace Trfs.Kernel
open Bytes Effect Trace

/-- The inodes, dentries and open files of the mount. Dentries and files are named by address. -/
structure Upper where
  attributes : Inode → Attributes
  lowerInode : Inode → LowerInode
  inode : Nat → Inode
  unhashed : Nat → Bool
  lowerPath : Nat → LowerPath
  fileInfo : Nat → Bool
  lowerFile : Nat → Option LowerFile

/-- Everything outside the tracer: the lower filesystem, the mount and its lower superblock. -/
structure Visible (L : Type) where
  lower : L
  upper : Upper
  lowerSb : Nat

/-- The lower filesystem, and the caches and allocators whose results the code cannot foresee. -/
structure Environment (L : Type) where
  lower : (c : LowerCall) → L → c.Reply × L
  iget5Locked : LowerInode → L → Option (Inode × Bool) × L
  dSpliceAlias : Inode → Dentry → L → BitVec 32 × L
  kzalloc : L → Bool × L
  copyToUser : BitVec 64 → BitVec 64 → L → BitVec 64 × L

/-- A `vfs_write` to the trace file completes, stops short or fails. -/
inductive WriteOutcome where
  | full
  | short (count : Nat)
  | failed (errno : Errno)
deriving DecidableEq, Repr

/-- The bytes that arrive in the file. -/
def WriteOutcome.arriving (outcome : WriteOutcome) (bytes : List Byte) : List Byte :=
  match outcome with
  | .full => bytes
  | .short count => bytes.take count
  | .failed _ => []

def WriteOutcome.result (outcome : WriteOutcome) (bytes : List Byte) : BitVec 64 :=
  match outcome with
  | .full => BitVec.ofNat 64 bytes.length
  | .short count => BitVec.ofNat 64 (bytes.take count).length
  | .failed errno => errno.code.signExtend 64

/-- The outcome of each allocation or open of the tracer and of each of its writes, in order. -/
structure Helpers where
  fails : Nat → Option Errno
  garbage : Nat → Nat → Byte
  write : Nat → WriteOutcome

/-- The visible state and the state that only the tracer and the control requests use. -/
structure Machine (L : Type) where
  visible : Visible L
  mask : BitVec 64
  recordId : BitVec 32
  tfilePath : CString
  traceFile : List Byte
  helperCalls : Nat
  traceWrites : Nat

section
variable {L : Type}

def Visible.setUpper (visible : Visible L) (upper : Upper) : Visible L := { visible with upper := upper }

/-- The answer of the mount to one call on its own objects. The locks have no effect here. -/
def Visible.answer (env : Environment L) (state : Visible L) : (c : UpperCall) → c.Reply × Visible L
  | .lock _ | .unlock _ | .unlockNewInode _ => ((), state)
  | .lowerSuper => (state.lowerSb, state)
  | .lowerPath dentry => (state.upper.lowerPath dentry.address, state)
  | .dInode dentry => (state.upper.inode dentry.address, state)
  | .dUnhashed dentry => (state.upper.unhashed dentry.address, state)
  | .dDrop dentry => ((), state.setUpper
      { state.upper with unhashed := Function.update state.upper.unhashed dentry.address true })
  | .dSpliceAlias inode dentry =>
      let (reply, after) := env.dSpliceAlias inode dentry state.lower
      let upper := if reply = 0 then
          { state.upper with
            inode := Function.update state.upper.inode dentry.address inode
            unhashed := Function.update state.upper.unhashed dentry.address false }
        else state.upper
      (reply, { state with lower := after, upper := upper })
  | .iget5Locked inode =>
      let (reply, after) := env.iget5Locked inode state.lower
      (reply, { state with lower := after })
  | .lowerInode inode => (state.upper.lowerInode inode, state)
  | .setLowerInode inode value => ((), state.setUpper
      { state.upper with lowerInode := Function.update state.upper.lowerInode inode value })
  | .attributes inode => (state.upper.attributes inode, state)
  | .setAttributes inode value => ((), state.setUpper
      { state.upper with attributes := Function.update state.upper.attributes inode value })
  | .kzallocFileInfo file =>
      let (reply, after) := env.kzalloc state.lower
      (reply, { state with
        lower := after
        upper := { state.upper with
          fileInfo := Function.update state.upper.fileInfo file.address reply
          lowerFile := Function.update state.upper.lowerFile file.address none } })
  | .kfreeFileInfo file => ((), state.setUpper
      { state.upper with fileInfo := Function.update state.upper.fileInfo file.address false })
  | .lowerFile file => (state.upper.lowerFile file.address, state)
  | .setLowerFile file value => ((), state.setUpper
      { state.upper with lowerFile := Function.update state.upper.lowerFile file.address value })

/-- The bytes that `vfs_write` takes from the source. A negative count is refused. -/
def delivered (source : List Byte) (count : BitVec 64) : List Byte :=
  if count.toInt < 0 then [] else source.take count.toNat

/-- The effect of one call of the tracing block. -/
def Machine.answer (helpers : Helpers) (state : Machine L) : (c : TracerCall) → c.Reply × Machine L
  | .mask => (state.mask, state)
  | .tfilePath => (state.tfilePath, state)
  | .recordId => (state.recordId, state)
  | .setRecordId value => ((), { state with recordId := value })
  | .kmalloc size =>
      let after := { state with helperCalls := state.helperCalls + 1 }
      match helpers.fails state.helperCalls with
      | some _ => (none, after)
      | none => (some
          { address := state.helperCalls + 1
            bytes := (List.range size).map (helpers.garbage state.helperCalls)
            length := by simp }, after)
  | .kfree _ => ((), state)
  | .filpOpen _ _ =>
      let after := { state with helperCalls := state.helperCalls + 1 }
      match helpers.fails state.helperCalls with
      | some errno => (.error errno, after)
      | none => (.ok ⟨state.helperCalls + 1⟩, after)
  | .vfsWrite _ source count =>
      let outcome := helpers.write state.traceWrites
      let after := { state with
        traceFile := state.traceFile ++ outcome.arriving (delivered source count)
        traceWrites := state.traceWrites + 1 }
      if count.toInt < 0 then (EINVAL.signExtend 64, after)
      else (outcome.result (delivered source count), after)
  | .filpClose _ => ((), state)

/-- One call of the filesystem. A fault has no answer. -/
def handle (env : Environment L) (helpers : Helpers) : Handler Call.Reply (Machine L)
  | .lower c, state =>
      let (reply, after) := env.lower c state.visible.lower
      some (reply, { state with visible := { state.visible with lower := after } })
  | .upper c, state =>
      let (reply, after) := state.visible.answer env c
      some (reply, { state with visible := after })
  | .tracer c, state => some (state.answer helpers c)
  | .setMask value, state => some ((), { state with mask := value })
  | .copyMaskToUser address, state =>
      let (reply, after) := env.copyToUser address state.mask state.visible.lower
      some (reply, { state with visible := { state.visible with lower := after } })
  | .oops, _ => none

/-- `BITMAP_MAX` -/
def bitmapMax : BitVec 64 := 0xfff

/-- The state after a successful mount. The trace file was opened with `O_TRUNC`. -/
def mounted (visible : Visible L) (tfilePath : CString) : Machine L where
  visible := visible
  mask := bitmapMax
  recordId := 0
  tfilePath := tfilePath
  traceFile := []
  helperCalls := 0
  traceWrites := 0

/-- One completed call of a traced operation. -/
abbrev Done (L : Type) := Execution Call.Reply (Machine L) Outcome

def TracedOp.exec (op : TracedOp) (env : Environment L) (helpers : Helpers) (state : Machine L) :
    Option (Done L) := op.program.exec (handle env helpers) state

end

end Trfs.Kernel
