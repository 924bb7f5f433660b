/-
This file models the accessors of `lower_path` in `trfs.h` with their single accesses under the spinlock.
-/

import Mathlib.Data.Multiset.AddSub
import Trfs.Construction.Kernel.Mounted
import Trfs.Library.Sections

namespace Trfs.Kernel
open Effect

/-- What a reference count counts. -/
inductive Reference where
  | dentry (dentry : LowerDentry)
  | mnt (mnt : Nat)
deriving DecidableEq, Repr

/-- `path_get` takes one reference on each part of the path. `NULL` has none. -/
def LowerPath.references (path : LowerPath) : Multiset Reference :=
  (if path.mnt = 0 then 0 else {.mnt path.mnt}) + (if path.dentry.address = 0 then 0 else {.dentry path.dentry})

/-- The accesses to the two members of `TRFS_D(dent)->lower_path`. -/
inductive PathAccess where
  | loadDentry
  | loadMnt
  | storeDentry (value : LowerDentry)
  | storeMnt (value : Nat)

@[reducible] def PathAccess.Reply : PathAccess → Type
  | .loadDentry => LowerDentry
  | .loadMnt => Nat
  | .storeDentry _ | .storeMnt _ => Unit

/-- The calls that change reference counts. `found` is the reference that a lookup of the VFS gives. -/
inductive PathCall where
  | found (path : LowerPath)
  | pathGet (path : LowerPath)
  | pathPut (path : LowerPath)

@[reducible] def PathCall.Reply : PathCall → Type
  | .found _ | .pathGet _ | .pathPut _ => Unit

def PathAccess.answer : (c : PathAccess) → LowerPath → c.Reply × LowerPath
  | .loadDentry, path => (path.dentry, path)
  | .loadMnt, path => (path.mnt, path)
  | .storeDentry value, path => ((), { path with dentry := value })
  | .storeMnt value, path => ((), { path with mnt := value })

/-- An object whose count is 0 has been freed, and a call on it faults. -/
def PathCall.answer : Handler PathCall.Reply (Multiset Reference)
  | .found path, counts => some ((), counts + path.references)
  | .pathGet path, counts => if path.references ≤ counts then some ((), counts + path.references) else none
  | .pathPut path, counts => if path.references ≤ counts then some ((), counts - path.references) else none

/-- `spin_lock(&TRFS_D(dent)->lock)` guards `lower_path` and nothing else. -/
def pathGuarding : Guarding PathAccess.Reply PathCall.Reply LowerPath (Multiset Reference) where
  access := PathAccess.answer
  outer := PathCall.answer

namespace Spinlock

/-- A part of a section under the lock. -/
abbrev Part := Program (Inside.Reply PathAccess.Reply PathCall.Reply)

/-- `pathcpy` from the private data. -/
def pathcpyFrom : Part LowerPath := do
  let dentry ← perform (Inside.access PathAccess.loadDentry)
  let mnt ← perform (Inside.access PathAccess.loadMnt)
  pure ⟨dentry, mnt⟩

/-- `pathcpy` to the private data. The two assignments of `NULL` are the same with an empty path. -/
def pathcpyTo (path : LowerPath) : Part Unit := do
  perform (Inside.access (PathAccess.storeDentry path.dentry))
  perform (Inside.access (PathAccess.storeMnt path.mnt))

/-- The sections by the functions that contain them. A dentry is named by its address. -/
inductive PathOp where
  | get (dentry : Nat)
  | set (dentry : Nat) (path : LowerPath)
  | reset (dentry : Nat)
  | take (dentry : Nat)

@[reducible] def PathOp.Result : PathOp → Type
  | .get _ | .take _ => LowerPath
  | .set .. | .reset _ => Unit

/-- The dentry whose lock the section takes. -/
def PathOp.dentry : PathOp → Nat
  | .get dentry | .set dentry _ | .reset dentry | .take dentry => dentry

def PathOp.body : (op : PathOp) → Part op.Result
  | .get _ => do
      let lowerPath ← pathcpyFrom
      perform (Inside.outer (PathCall.pathGet lowerPath))
      pure lowerPath
  | .set _ lowerPath => pathcpyTo lowerPath
  | .reset _ => pathcpyTo .unset
  | .take _ => do
      let lowerPath ← pathcpyFrom
      pathcpyTo .unset
      pure lowerPath

/-- `path_get` is the only call that a section makes beside its accesses. -/
def sections : Sections PathOp.Result Nat PathAccess.Reply PathCall.Reply where
  key := PathOp.dentry
  body := PathOp.body
  once op := by
    cases op with
    | get dentry => exact fun _ _ _ => trivial
    | set dentry path => exact fun _ _ => trivial
    | reset dentry => exact fun _ _ => trivial
    | take dentry => exact fun _ _ _ _ => trivial

/-- A program that uses the accessors. -/
abbrev Client := Program (Coarse.Reply PathOp.Result PathCall.Reply)

def trfsGetLowerPath (dentry : Nat) : Client LowerPath := perform (Coarse.whole (PathOp.get dentry))

def trfsPutLowerPath (lowerPath : LowerPath) : Client Unit := perform (Coarse.outer (PathCall.pathPut lowerPath))

def trfsSetLowerPath (dentry : Nat) (lowerPath : LowerPath) : Client Unit :=
  perform (Coarse.whole (PathOp.set dentry lowerPath))

def trfsResetLowerPath (dentry : Nat) : Client Unit := perform (Coarse.whole (PathOp.reset dentry))

/-- `path_put` happens after the lock has been given back. -/
def trfsPutResetLowerPath (dentry : Nat) : Client Unit := do
  let lowerPath ← perform (Coarse.whole (PathOp.take dentry))
  perform (Coarse.outer (PathCall.pathPut lowerPath))

/-- The tasks with the steps that they have left, the private data, the locks and the counts. -/
abbrev Tasks (ι α : Type) :=
  Sections.System PathAccess.Reply PathCall.Reply ι Nat LowerPath (Multiset Reference) α

/-- The same when each section is one step. -/
abbrev AtomicTasks (ι α : Type) := Sections.Whole PathOp.Result PathCall.Reply ι Nat LowerPath (Multiset Reference) α

section
variable {ι α : Type} [DecidableEq ι]

/-- Any task makes its next access, call or operation on a lock. It waits at a lock that is held. -/
def Tasks.step (task : ι) (tasks : Tasks ι α) : Option (Tasks ι α) := Config.step pathGuarding.fine task tasks

def Tasks.run (schedule : List ι) (tasks : Tasks ι α) : Option (Tasks ι α) :=
  Config.run pathGuarding.fine schedule tasks

/-- The next section or call of a task as one step. -/
def AtomicTasks.step (task : ι) (tasks : AtomicTasks ι α) : Option (AtomicTasks ι α) :=
  Config.step (fun _ => pathGuarding.coarse sections) task tasks

end

end Spinlock

end Trfs.Kernel
