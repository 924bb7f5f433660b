/-
This file models the interposition of `lookup.c`, which gives a dentry of the mount its inode.
-/

import Trfs.Construction.Kernel.Calls

namespace Trfs.Kernel
open Effect

/-- The members that `trfs_iget` gives to a new inode. -/
def initInode (inode : Inode) (lowerInode : LowerInode) : Prog Unit := do
  upper (.setLowerInode inode lowerInode)
  changeAttributes inode fun old => { old with atime := 0, mtime := 0, ctime := 0 }
  fsstackCopyAttrAll inode lowerInode
  fsstackCopyInodeSize inode lowerInode
  upper (.unlockNewInode inode)

/-- `trfs_iget` finds or initializes the inode of the mount for a lower inode. -/
def trfsIget (lowerInode : LowerInode) : Prog (Except (BitVec 32) Inode) := do
  let found ← upper (.iget5Locked lowerInode)
  match found with
  | none => do
      lower (.iput lowerInode)
      pure (.error EACCES)
  | some (inode, false) => pure (.ok inode)
  | some (inode, true) => do
      let grabbed ← lower (.igrab lowerInode)
      if grabbed then do
        initInode inode lowerInode
        pure (.ok inode)
      else pure (.error ESTALE)

/-- `trfs_interpose` returns 0 or the error number of its result. -/
def trfsInterpose (dentry : Dentry) (lowerPath : LowerPath) : Prog (BitVec 32) := do
  let lowerInode ← lowerDInode lowerPath.dentry
  let lowerSb ← upper .lowerSuper
  let super ← lower (.superBlock lowerInode)
  if super ≠ lowerSb then pure EXDEV
  else do
    let inode ← trfsIget lowerInode
    match inode with
    | .error err => pure err
    | .ok inode => upper (.dSpliceAlias inode dentry)

end Trfs.Kernel
