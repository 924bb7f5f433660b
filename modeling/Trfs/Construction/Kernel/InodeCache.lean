/-
This file lets tasks call `trfs_iget` on the inode cache of one superblock.
-/

import Trfs.Construction.Kernel.Lookup
import Trfs.Library.Interleaving
import Trfs.Library.Transitions

namespace Trfs.Kernel
open Effect

/-- An inode of the mount in its hash chain. `isNew` is the bit `I_NEW`. -/
structure CachedInode where
  inode : Inode
  hashval : Nat
  isNew : Bool
  lowerInode : LowerInode
  attributes : Attributes
deriving DecidableEq

abbrev InodeCache := List CachedInode

/-- The inode numbers and the hash function, and what the allocator and the lower filesystem answer to each task. -/
structure CacheHost (ι : Type) where
  ino : LowerInode → Nat
  hash : Nat → Nat
  allocated : ι → Option (Inode × Attributes)
  grabs : ι → Bool
  attributes : ι → LowerInode → Attributes

def trfsInodeTest (entry : CachedInode) (candidate : LowerInode) : Bool := entry.lowerInode = candidate

/-- `trfs_inode_set` returns 0. The initialization is done in `trfs_iget`. -/
def trfsInodeSet (entry : CachedInode) (_ : LowerInode) : CachedInode := entry

def InodeCache.change (cache : InodeCache) (inode : Inode) (update : CachedInode → CachedInode) : InodeCache :=
  cache.map fun entry => if entry.inode = inode then update entry else entry

section
variable {ι : Type}

/-- The first inode of the hash chain that passes the test. -/
def InodeCache.find (host : CacheHost ι) (lowerInode : LowerInode) (cache : InodeCache) : Option CachedInode :=
  List.find? (fun entry => host.hash entry.hashval = host.hash (host.ino lowerInode) ∧ trfsInodeTest entry lowerInode)
    cache

/-- `iget5_locked` waits for a match that is still new. A new inode is memory that is not in use. -/
def iget5Locked (host : CacheHost ι) (task : ι) (lowerInode : LowerInode) (cache : InodeCache) :
    Option (Option (Inode × Bool) × InodeCache) :=
  match cache.find host lowerInode with
  | some entry => if entry.isNew then none else some (some (entry.inode, false), cache)
  | none =>
      match host.allocated task with
      | none => some (none, cache)
      | some (inode, attributes) =>
          if ∃ entry ∈ cache, entry.inode = inode then none
          else
            let entry : CachedInode :=
              { inode := inode
                hashval := host.ino lowerInode
                isNew := true
                lowerInode := .null
                attributes := attributes }
            some (some (inode, true), trfsInodeSet entry lowerInode :: cache)

/-- The calls of `trfs_iget` on the cache. -/
def handleCache (host : CacheHost ι) (task : ι) : Handler Call.Reply InodeCache
  | .upper (.iget5Locked lowerInode), cache => iget5Locked host task lowerInode cache
  | .upper (.setLowerInode inode value), cache =>
      some ((), cache.change inode fun entry => { entry with lowerInode := value })
  | .upper (.unlockNewInode inode), cache => some ((), cache.change inode fun entry => { entry with isNew := false })
  | .upper (.attributes inode), cache =>
      (cache.find? fun entry => entry.inode = inode).map fun entry => (entry.attributes, cache)
  | .upper (.setAttributes inode value), cache =>
      some ((), cache.change inode fun entry => { entry with attributes := value })
  | .lower (.attributes lowerInode), cache => some (host.attributes task lowerInode, cache)
  | .lower (.igrab _), cache => some (host.grabs task, cache)
  | .lower (.iput _), cache => some ((), cache)
  | _, _ => none

/-- `trfs_evict_inode` and the removal from the hash chain. A new inode is in use. -/
def InodeCache.evict (cache : InodeCache) (inode : Inode) : Option InodeCache :=
  if ∃ entry ∈ cache, entry.inode = inode ∧ entry.isNew = false then
    some (cache.filter fun entry => entry.inode ≠ inode)
  else none

/-- The tasks in the middle of their calls of `trfs_iget`. -/
abbrev CacheWorld (ι : Type) := Config Call.Reply ι InodeCache (Except (BitVec 32) Inode)

/-- A step of one task, or the end of an inode that nobody uses any more. -/
inductive CacheAction (ι : Type) where
  | task (task : ι)
  | evict (inode : Inode)

def CacheWorld.act [DecidableEq ι] (host : CacheHost ι) : CacheAction ι → CacheWorld ι → Option (CacheWorld ι)
  | .task task, world => Config.step (handleCache host) task world
  | .evict inode, world => (world.shared.evict inode).map fun cache => { world with shared := cache }

/-- Every task is about to ask for its lower inode, and the cache is empty. -/
def CacheWorld.begin (asked : ι → LowerInode) : CacheWorld ι where
  shared := []
  threads task := trfsIget (asked task)
  history := []

end

end Trfs.Kernel
