/-
This file models `trfs_readlink` and `trfs_get_link` with the memory of the link and the delayed call.
-/

import Trfs.Construction.Kernel.Calls
import Trfs.Library.Heap

namespace Trfs.Kernel
open Bytes Effect Heaps

/-- `PAGE_SIZE` -/
def pageSize : Nat := 4096

/-- `NULL`, the start of a block, or `ERR_PTR` of a negated error number. -/
inductive Pointer where
  | null
  | block (number : Nat)
  | errPtr (err : BitVec 32)
deriving DecidableEq

/-- The calls of the two functions. `delayedCall` is the argument of `kfree_link`, if it was registered. -/
inductive LinkCall where
  | kmalloc (size : Nat)
  | kfree (pointer : Pointer)
  | storeByte (pointer : Pointer) (index : BitVec 32) (value : Byte)
  | getLowerPath
  | putLowerPath
  | lowerHasReadlink
  | lowerReadlink (buf : Pointer) (bufsiz : Nat)
  | copyAttrAtime
  | setDelayedCall (pointer : Pointer)
  | delayedCall

@[reducible] def LinkCall.Reply : LinkCall → Type
  | .kmalloc _ => Pointer
  | .lowerHasReadlink => Bool
  | .lowerReadlink .. => BitVec 32
  | .delayedCall => Option Pointer
  | _ => Unit

abbrev LinkProg := Program LinkCall.Reply

abbrev link (c : LinkCall) : LinkProg c.Reply := perform c

def trfsReadlink (buf : Pointer) (bufsiz : Nat) : LinkProg (BitVec 32) := do
  link .getLowerPath
  let there ← link .lowerHasReadlink
  if there then do
    let err ← link (.lowerReadlink buf bufsiz)
    if err.toInt < 0 then do
      link .putLowerPath
      pure err
    else do
      link .copyAttrAtime
      link .putLowerPath
      pure err
  else do
    link .putLowerPath
    pure EINVAL

/-- A path walk under RCU gives no dentry. -/
def trfsGetLink (dentry : Option Dentry) : LinkProg Pointer :=
  if dentry = none then pure (.errPtr ECHILD)
  else do
    let buf ← link (.kmalloc pageSize)
    if buf = .null then pure (.errPtr ENOMEM)
    else do
      let err ← trfsReadlink buf pageSize
      if err.toInt < 0 then do
        link (.kfree buf)
        let buf := .errPtr err
        link (.setDelayedCall buf)
        pure buf
      else do
        link (.storeByte buf err 0)
        link (.setDelayedCall buf)
        pure buf

/-- `do_delayed_call` runs `kfree_link` when the walk is over. -/
def doDelayedCall : LinkProg Unit := do
  let registered ← link .delayedCall
  match registered with
  | none => pure ()
  | some pointer => link (.kfree pointer)

/-- What the lower `readlink` stores into a buffer of a page. -/
structure LinkBody where
  bytes : List Byte
  fits : bytes.length ≤ pageSize

/-- The answers of the allocator and of the lower filesystem. -/
structure LinkHost where
  memory : Option (Nat → Byte)
  hasReadlink : Bool
  readlink : Except Errno LinkBody

structure LinkState where
  heap : Heap
  delayed : Option Pointer

/-- An access outside of a block and a `kfree` of anything but a block in use or `NULL` have no answer. -/
def handleLink (host : LinkHost) : Handler LinkCall.Reply LinkState
  | .kmalloc size, state =>
      match host.memory with
      | none => some (.null, state)
      | some garbage =>
          some (.block state.heap.next, { state with heap := state.heap.alloc (uninitialized garbage size) })
  | .kfree .null, state => some ((), state)
  | .kfree (.block number), state => (state.heap.free number).map fun heap => ((), { state with heap := heap })
  | .kfree (.errPtr _), _ => none
  | .storeByte (.block number) index value, state =>
      (state.heap.write number index.toNat [value]).map fun heap => ((), { state with heap := heap })
  | .storeByte _ _ _, _ => none
  | .getLowerPath, state | .putLowerPath, state | .copyAttrAtime, state => some ((), state)
  | .lowerHasReadlink, state => some (host.hasReadlink, state)
  | .lowerReadlink buf bufsiz, state =>
      match host.readlink, buf with
      | .error errno, _ => some (errno.code, state)
      | .ok body, .block number =>
          if body.bytes.length ≤ bufsiz then
            (state.heap.write number 0 body.bytes).map fun heap =>
              (BitVec.ofNat 32 body.bytes.length, { state with heap := heap })
          else none
      | .ok _, _ => none
  | .setDelayedCall pointer, state => some ((), { state with delayed := some pointer })
  | .delayedCall, state => some (state.delayed, state)

end Trfs.Kernel
