/-
This file models the export operations of `super.c`, which find an inode of the mount by the number in a file handle.
-/

import Trfs.Construction.Kernel.InodeReferences

namespace Trfs.Kernel
open Effect

/-- The members of `struct fid` for the types with 32-bit numbers. -/
structure Fid where
  ino : Nat
  gen : BitVec 32
  parentIno : Nat
  parentGen : BitVec 32
deriving DecidableEq, Repr

structure FileHandle where
  fid : Fid
  fhLen : Nat
  fhType : Nat
deriving DecidableEq, Repr

def FILEID_INO32_GEN : Nat := 1
def FILEID_INO32_GEN_PARENT : Nat := 2

/-- What `generic_fh_to_dentry` and `generic_fh_to_parent` give to `trfs_nfs_get_inode`, if they call it. -/
def FileHandle.wanted (handle : FileHandle) (parent : Bool) : Option (Nat × BitVec 32) :=
  if parent then
    if handle.fhLen ≤ 2 then none
    else if handle.fhType = FILEID_INO32_GEN_PARENT then
      some (handle.fid.parentIno, if handle.fhLen > 3 then handle.fid.parentGen else 0)
    else none
  else
    if handle.fhLen < 2 then none
    else if handle.fhType = FILEID_INO32_GEN ∨ handle.fhType = FILEID_INO32_GEN_PARENT then
      some (handle.fid.ino, handle.fid.gen)
    else none

/-- `ilookup` takes a reference on the inode that it finds. -/
def Referenced.ilookup (found : LowerInode) (state : Referenced) : Referenced :=
  if found = .null then state else state.igrab found

section
variable {ι : Type}

/-- `trfs_nfs_get_inode`. What is in the inode cache of the lower superblock is not foreseen. -/
def Referenced.nfsGetInode (host : CacheHost ι) (cached : ι → Nat → LowerInode) (task : ι) (ino : Nat)
    (_generation : BitVec 32) (state : Referenced) :
    Option (Execution Call.Reply Referenced (Except (BitVec 32) Inode)) :=
  let lowerInode := cached task ino
  (state.ilookup lowerInode).iget host task lowerInode

/-- A call on the inodes of the mount, or one of `trfs_fh_to_dentry` and `trfs_fh_to_parent`. -/
inductive ExportCall (ι : Type) where
  | inode (call : InodeCall ι)
  | fileHandle (task : ι) (handle : FileHandle) (parent : Bool)

def Referenced.serve (host : CacheHost ι) (cached : ι → Nat → LowerInode) :
    ExportCall ι → Referenced → Option Referenced
  | .inode call, state => state.step host call
  | .fileHandle task handle parent, state =>
      match handle.wanted parent with
      | none => some state
      | some (ino, generation) => (state.nfsGetInode host cached task ino generation).map Execution.state

end

end Trfs.Kernel
