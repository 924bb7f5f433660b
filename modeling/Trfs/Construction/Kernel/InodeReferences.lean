/-
This file counts the references on the lower inodes that the inodes of the mount hold.
-/

import Trfs.Construction.Kernel.InodeCache

namespace Trfs.Kernel
open Effect

/-- The inode cache and the references that the mount has taken on each lower inode and not dropped. -/
structure Referenced where
  cache : InodeCache
  references : LowerInode → Int

def Referenced.igrab (state : Referenced) (lowerInode : LowerInode) : Referenced :=
  { state with references := Function.update state.references lowerInode (state.references lowerInode + 1) }

/-- `iput` of a `NULL` pointer does nothing. -/
def Referenced.iput (state : Referenced) (lowerInode : LowerInode) : Referenced :=
  if lowerInode = .null then state
  else { state with references := Function.update state.references lowerInode (state.references lowerInode - 1) }

/-- `trfs_evict_inode` gives back the reference of the inode. -/
def trfsEvictInode (inode : Inode) : Prog Unit := do
  let lowerInode ← upper (.lowerInode inode)
  upper (.setLowerInode inode .null)
  lower (.iput lowerInode)

section
variable {ι : Type}

/-- The calls on the inode cache, with their references. -/
def handleReferences (host : CacheHost ι) (task : ι) : Handler Call.Reply Referenced
  | .lower (.igrab lowerInode), state =>
      some (host.grabs task, if host.grabs task then state.igrab lowerInode else state)
  | .lower (.iput lowerInode), state => some ((), state.iput lowerInode)
  | .upper (.lowerInode inode), state =>
      (state.cache.find? fun entry => entry.inode = inode).map fun entry => (entry.lowerInode, state)
  | c, state => (handleCache host task c state.cache).map fun (reply, cache) => (reply, { state with cache := cache })

/-- A whole call of `trfs_iget`. It reads a member of the lower inode first. -/
def Referenced.iget (host : CacheHost ι) (task : ι) (lowerInode : LowerInode) (state : Referenced) :
    Option (Execution Call.Reply Referenced (Except (BitVec 32) Inode)) :=
  if lowerInode = .null then none else (trfsIget lowerInode).exec (handleReferences host task) state

/-- The kernel ends an inode that is not locked, and removes it from its hash chain. -/
def Referenced.evict (host : CacheHost ι) (task : ι) (inode : Inode) (state : Referenced) : Option Referenced :=
  ((trfsEvictInode inode).exec (handleReferences host task) state).bind fun done =>
    (done.state.cache.evict inode).map fun cache => { done.state with cache := cache }

/-- One whole call. The tasks of the host are the calls of a run, so each has its own outcomes. -/
inductive InodeCall (ι : Type) where
  | iget (task : ι) (lowerInode : LowerInode)
  | evict (task : ι) (inode : Inode)

def Referenced.step (host : CacheHost ι) : InodeCall ι → Referenced → Option Referenced
  | .iget task lowerInode, state => (state.iget host task lowerInode).map Execution.state
  | .evict task inode, state => state.evict host task inode

/-- A mount without inodes. -/
def Referenced.begin : Referenced := ⟨[], fun _ => 0⟩

end

end Trfs.Kernel
