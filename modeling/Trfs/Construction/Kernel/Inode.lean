/-
This file models the traced operations of `inode.c`.
-/

import Trfs.Construction.Kernel.File
import Trfs.Construction.Kernel.Lookup

namespace Trfs.Kernel
open Bytes Effect Trace

/-- The label `out` undoes the locks and references first and then frees the buffers. -/
def TraceBuffers.out (leave : Prog Unit) (err : BitVec 32) (buffers : TraceBuffers) : Prog Outcome := do
  leave
  buffers.freeInode
  pure ⟨err, none⟩

/-- The operations that lock one parent leave it so. -/
def leaveParent (lowerParent : LowerDentry) (lowerPath : LowerPath) : Prog Unit := do
  unlockDir lowerParent
  trfsPutLowerPath lowerPath

def trfsCreate (dir : Inode) (dentry : Dentry) (mode : BitVec 16) (wantExcl : Bool) : Prog Outcome := do
  let lowerPath ← trfsGetLowerPath dentry
  let lowerParent ← lockParent lowerPath.dentry
  let parentInode ← lowerDInode lowerParent
  let err ← lower (.vfsCreate parentInode lowerPath.dentry mode wantExcl)
  let block : TraceBlock :=
    { kind := .create
      path1 := dentry
      path2 := .absent
      writeLen := 0
      content := none
      err := err
      openFlags := inodeMember dir fun inode => inode.opflags.setWidth 32
      permMode := pure mode }
  let buffers ← block.run
  if err ≠ 0 then buffers.out (leaveParent lowerParent lowerPath) err
  else do
    let err ← trfsInterpose dentry lowerPath
    if err ≠ 0 then buffers.out (leaveParent lowerParent lowerPath) err
    else do
      let lowerDir ← upper (.lowerInode dir)
      fsstackCopyAttrTimes dir lowerDir
      let parentInode ← lowerDInode lowerParent
      fsstackCopyInodeSize dir parentInode
      buffers.out (leaveParent lowerParent lowerPath) err

def leaveLink (lowerDir : LowerDentry) (lowerOldPath lowerNewPath : LowerPath) : Prog Unit := do
  unlockDir lowerDir
  trfsPutLowerPath lowerOldPath
  trfsPutLowerPath lowerNewPath

/-- `err || !d_inode(lower_dentry)` tests the dentry only when `err` is 0. -/
def failedOrNegative (err : BitVec 32) (lowerDentry : LowerDentry) : Prog Bool :=
  if err ≠ 0 then pure true else lower (.dNegative lowerDentry)

def trfsLink (oldDentry : Dentry) (dir : Inode) (newDentry : Dentry) : Prog Outcome := do
  let oldInode ← upper (.dInode oldDentry)
  let fileSizeSave ← inodeMember oldInode fun inode => inode.size
  let lowerOldPath ← trfsGetLowerPath oldDentry
  let lowerNewPath ← trfsGetLowerPath newDentry
  let lowerDir ← lockParent lowerNewPath.dentry
  let lowerDirInode ← lowerDInode lowerDir
  let err ← lower (.vfsLink lowerOldPath.dentry lowerDirInode lowerNewPath.dentry)
  let failed ← failedOrNegative err lowerNewPath.dentry
  if failed then TraceBuffers.null.out (leaveLink lowerDir lowerOldPath lowerNewPath) err
  else do
    let err ← trfsInterpose newDentry lowerNewPath
    if err ≠ 0 then TraceBuffers.null.out (leaveLink lowerDir lowerOldPath lowerNewPath) err
    else do
      let block : TraceBlock :=
        { kind := .link
          path1 := oldDentry
          path2 := .dentry newDentry
          writeLen := 0
          content := none
          err := err
          openFlags := pure 0
          permMode := pure 0 }
      let buffers ← block.run
      let lowerNewInode ← lowerDInode lowerNewPath.dentry
      fsstackCopyAttrTimes dir lowerNewInode
      let lowerNewInode ← lowerDInode lowerNewPath.dentry
      fsstackCopyInodeSize dir lowerNewInode
      let oldInode ← upper (.dInode oldDentry)
      let lowerOldInode ← upper (.lowerInode oldInode)
      copyNlink oldInode lowerOldInode
      let newInode ← upper (.dInode newDentry)
      changeAttributes newInode fun inode => { inode with size := fileSizeSave }
      buffers.out (leaveLink lowerDir lowerOldPath lowerNewPath) err

def leaveUnlink (lowerDir lowerDentry : LowerDentry) (lowerPath : LowerPath) : Prog Unit := do
  unlockDir lowerDir
  lower (.dput lowerDentry)
  trfsPutLowerPath lowerPath

/-- A file that NFS renamed instead of removing counts as deleted. -/
def sillyRenamed (err : BitVec 32) (lowerDentry : LowerDentry) : Prog (BitVec 32) :=
  if err = EBUSY then do
    let renamed ← lower (.nfsRenamed lowerDentry)
    if renamed then pure 0 else pure err
  else pure err

def trfsUnlink (dir : Inode) (dentry : Dentry) : Prog Outcome := do
  let lowerDirInode ← upper (.lowerInode dir)
  let lowerPath ← trfsGetLowerPath dentry
  lower (.dget lowerPath.dentry)
  let lowerDir ← lockParent lowerPath.dentry
  let err ← lower (.vfsUnlink lowerDirInode lowerPath.dentry)
  let err ← sillyRenamed err lowerPath.dentry
  if err ≠ 0 then TraceBuffers.null.out (leaveUnlink lowerDir lowerPath.dentry lowerPath) err
  else do
    let block : TraceBlock :=
      { kind := .unlink
        path1 := dentry
        path2 := .absent
        writeLen := 0
        content := none
        err := err
        openFlags := pure 0
        permMode := pure 0 }
    let buffers ← block.run
    fsstackCopyAttrTimes dir lowerDirInode
    fsstackCopyInodeSize dir lowerDirInode
    let inode ← upper (.dInode dentry)
    let lowerInode ← upper (.lowerInode inode)
    copyNlink inode lowerInode
    let ctime ← inodeMember dir fun inode => inode.ctime
    let inode ← upper (.dInode dentry)
    changeAttributes inode fun inode => { inode with ctime := ctime }
    upper (.dDrop dentry)
    buffers.out (leaveUnlink lowerDir lowerPath.dentry lowerPath) err

def trfsSymlink (dir : Inode) (dentry : Dentry) (symname : CString) : Prog Outcome := do
  let lowerPath ← trfsGetLowerPath dentry
  let lowerParent ← lockParent lowerPath.dentry
  let parentInode ← lowerDInode lowerParent
  let err ← lower (.vfsSymlink parentInode lowerPath.dentry symname)
  if err ≠ 0 then TraceBuffers.null.out (leaveParent lowerParent lowerPath) err
  else do
    let err ← trfsInterpose dentry lowerPath
    if err ≠ 0 then TraceBuffers.null.out (leaveParent lowerParent lowerPath) err
    else do
      let block : TraceBlock :=
        { kind := .symlink
          path1 := dentry
          path2 := .symname symname
          writeLen := 0
          content := none
          err := err
          openFlags := pure 0
          permMode := pure 0 }
      let buffers ← block.run
      let lowerDir ← upper (.lowerInode dir)
      fsstackCopyAttrTimes dir lowerDir
      let parentInode ← lowerDInode lowerParent
      fsstackCopyInodeSize dir parentInode
      buffers.out (leaveParent lowerParent lowerPath) err

def trfsMkdir (dir : Inode) (dentry : Dentry) (mode : BitVec 16) : Prog Outcome := do
  let lowerPath ← trfsGetLowerPath dentry
  let lowerParent ← lockParent lowerPath.dentry
  let parentInode ← lowerDInode lowerParent
  let err ← lower (.vfsMkdir parentInode lowerPath.dentry mode)
  if err ≠ 0 then TraceBuffers.null.out (leaveParent lowerParent lowerPath) err
  else do
    let block : TraceBlock :=
      { kind := .mkdir
        path1 := dentry
        path2 := .absent
        writeLen := 0
        content := none
        err := err
        openFlags := inodeMember dir fun inode => inode.opflags.setWidth 32
        permMode := pure mode }
    let buffers ← block.run
    let err ← trfsInterpose dentry lowerPath
    if err ≠ 0 then buffers.out (leaveParent lowerParent lowerPath) err
    else do
      let lowerDir ← upper (.lowerInode dir)
      fsstackCopyAttrTimes dir lowerDir
      let parentInode ← lowerDInode lowerParent
      fsstackCopyInodeSize dir parentInode
      let lowerDir ← upper (.lowerInode dir)
      copyNlink dir lowerDir
      buffers.out (leaveParent lowerParent lowerPath) err

/-- `if (d_inode(dentry)) clear_nlink(d_inode(dentry))` -/
def clearNlink (dentry : Dentry) : Prog Unit := do
  let inode ← upper (.dInode dentry)
  runIf (inode ≠ Inode.null) (changeAttributes inode fun inode => { inode with nlink := 0 })

def trfsRmdir (dir : Inode) (dentry : Dentry) : Prog Outcome := do
  let lowerPath ← trfsGetLowerPath dentry
  let lowerDir ← lockParent lowerPath.dentry
  let lowerDirInode ← lowerDInode lowerDir
  let err ← lower (.vfsRmdir lowerDirInode lowerPath.dentry)
  if err ≠ 0 then TraceBuffers.null.out (leaveParent lowerDir lowerPath) err
  else do
    let block : TraceBlock :=
      { kind := .rmdir
        path1 := dentry
        path2 := .absent
        writeLen := 0
        content := none
        err := err
        openFlags := inodeMember dir fun inode => inode.opflags.setWidth 32
        permMode := inodeMember dir fun inode => inode.mode }
    let buffers ← block.run
    upper (.dDrop dentry)
    clearNlink dentry
    let lowerDirInode ← lowerDInode lowerDir
    fsstackCopyAttrTimes dir lowerDirInode
    let lowerDirInode ← lowerDInode lowerDir
    fsstackCopyInodeSize dir lowerDirInode
    let lowerDirInode ← lowerDInode lowerDir
    copyNlink dir lowerDirInode
    buffers.out (leaveParent lowerDir lowerPath) err

def trfsMknod (dir : Inode) (dentry : Dentry) (mode : BitVec 16) (dev : BitVec 32) : Prog Outcome := do
  let lowerPath ← trfsGetLowerPath dentry
  let lowerParent ← lockParent lowerPath.dentry
  let parentInode ← lowerDInode lowerParent
  let err ← lower (.vfsMknod parentInode lowerPath.dentry mode dev)
  if err ≠ 0 then TraceBuffers.null.out (leaveParent lowerParent lowerPath) err
  else do
    let err ← trfsInterpose dentry lowerPath
    if err ≠ 0 then TraceBuffers.null.out (leaveParent lowerParent lowerPath) err
    else do
      let block : TraceBlock :=
        { kind := .mknod
          path1 := dentry
          path2 := .absent
          writeLen := 0
          content := none
          err := err
          openFlags := pure dev
          permMode := pure mode }
      let buffers ← block.run
      let lowerDir ← upper (.lowerInode dir)
      fsstackCopyAttrTimes dir lowerDir
      let parentInode ← lowerDInode lowerParent
      fsstackCopyInodeSize dir parentInode
      buffers.out (leaveParent lowerParent lowerPath) err

/-- The dentries that `trfs_rename` works on below the mount. -/
structure RenameLower where
  oldPath : LowerPath
  newPath : LowerPath
  oldDir : LowerDentry
  newDir : LowerDentry

def leaveRename (below : RenameLower) : Prog Unit := do
  unlockRename below.oldDir below.newDir
  lower (.dput below.oldDir)
  lower (.dput below.newDir)
  trfsPutLowerPath below.oldPath
  trfsPutLowerPath below.newPath

/-- `fsstack_copy_attr_all` and `fsstack_copy_inode_size` from a lower directory. -/
def copyDirectory (dir : Inode) (lowerDir : LowerDentry) : Prog Unit := do
  let lowerInode ← lowerDInode lowerDir
  fsstackCopyAttrAll dir lowerInode
  let lowerInode ← lowerDInode lowerDir
  fsstackCopyInodeSize dir lowerInode

def trfsRename (oldDir : Inode) (oldDentry : Dentry) (newDir : Inode) (newDentry : Dentry) :
    Prog Outcome := do
  let lowerOldPath ← trfsGetLowerPath oldDentry
  let lowerNewPath ← trfsGetLowerPath newDentry
  let lowerOldDir ← lower (.dgetParent lowerOldPath.dentry)
  let lowerNewDir ← lower (.dgetParent lowerNewPath.dentry)
  let below : RenameLower := ⟨lowerOldPath, lowerNewPath, lowerOldDir, lowerNewDir⟩
  let trap ← lockRename lowerOldDir lowerNewDir
  if trap = some lowerOldPath.dentry then TraceBuffers.null.out (leaveRename below) EINVAL
  else if trap = some lowerNewPath.dentry then TraceBuffers.null.out (leaveRename below) ENOTEMPTY
  else do
    let oldDirInode ← lowerDInode lowerOldDir
    let newDirInode ← lowerDInode lowerNewDir
    let err ← lower (.vfsRename oldDirInode lowerOldPath.dentry newDirInode lowerNewPath.dentry)
    if err ≠ 0 then TraceBuffers.null.out (leaveRename below) err
    else do
      let block : TraceBlock :=
        { kind := .rename
          path1 := oldDentry
          path2 := .dentry newDentry
          writeLen := 0
          content := none
          err := err
          openFlags := pure 0
          permMode := pure 0 }
      let buffers ← block.run
      copyDirectory newDir lowerNewDir
      runIf (newDir ≠ oldDir) (copyDirectory oldDir lowerOldDir)
      buffers.out (leaveRename below) err

/-- One call of a traced operation with its arguments. -/
inductive TracedOp where
  | open (inode : Inode) (file : File)
  | read (file : File) (buf : Nat) (count ppos : BitVec 64)
  | write (file : File) (buf : UserMemory) (count ppos : BitVec 64)
  | release (file : File)
  | create (dir : Inode) (dentry : Dentry) (mode : BitVec 16) (wantExcl : Bool)
  | link (oldDentry : Dentry) (dir : Inode) (newDentry : Dentry)
  | unlink (dir : Inode) (dentry : Dentry)
  | symlink (dir : Inode) (dentry : Dentry) (symname : CString)
  | mkdir (dir : Inode) (dentry : Dentry) (mode : BitVec 16)
  | rmdir (dir : Inode) (dentry : Dentry)
  | mknod (dir : Inode) (dentry : Dentry) (mode : BitVec 16) (dev : BitVec 32)
  | rename (oldDir : Inode) (oldDentry : Dentry) (newDir : Inode) (newDentry : Dentry)

def TracedOp.program : TracedOp → Prog Outcome
  | .open inode file => trfsOpen inode file
  | .read file buf count ppos => trfsRead file buf count ppos
  | .write file buf count ppos => trfsWrite file buf count ppos
  | .release file => trfsFileRelease file
  | .create dir dentry mode wantExcl => trfsCreate dir dentry mode wantExcl
  | .link oldDentry dir newDentry => trfsLink oldDentry dir newDentry
  | .unlink dir dentry => trfsUnlink dir dentry
  | .symlink dir dentry symname => trfsSymlink dir dentry symname
  | .mkdir dir dentry mode => trfsMkdir dir dentry mode
  | .rmdir dir dentry => trfsRmdir dir dentry
  | .mknod dir dentry mode dev => trfsMknod dir dentry mode dev
  | .rename oldDir oldDentry newDir newDentry => trfsRename oldDir oldDentry newDir newDentry

end Trfs.Kernel
