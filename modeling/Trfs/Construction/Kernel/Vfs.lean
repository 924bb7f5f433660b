/-
This file models `trfs_lookup`, `dentry.c` and the attribute and synchronization operations of the mount.
-/

import Trfs.Construction.Kernel.Machine

namespace Trfs.Kernel
open Bytes Effect Trace

/-- `d_splice_alias` gives `NULL`, a dentry that the inode has already, or an error. -/
inductive Spliced where
  | null
  | alias (dentry : Dentry)
  | error (errno : Errno)

/-- `struct iattr`. The file is that of the mount or the lower one. -/
structure Iattr (FileType : Type) where
  valid : BitVec 32
  mode : BitVec 16
  uid : BitVec 32
  gid : BitVec 32
  size : BitVec 64
  atime : Nat
  mtime : Nat
  ctime : Nat
  file : FileType

/-- `struct kstat`: the members of an inode and its own block count. -/
structure Kstat where
  attributes : Attributes
  blocks : BitVec 64

/-- The calls that only these operations make. `vfs` stands before the calls of the lower filesystem. -/
inductive VfsCall where
  | dgetParent (dentry : Dentry)
  | dput (dentry : Dentry)
  | isRoot (dentry : Dentry)
  | dName (dentry : Dentry)
  | newDentryPrivateData (dentry : Dentry)
  | setLowerPath (dentry : Dentry) (path : LowerPath)
  | takeLowerPath (dentry : Dentry)
  | freeDentryPrivateData (dentry : Dentry)
  | dSpliceAlias (inode : Inode) (dentry : Dentry)
  | vfsPathLookup (dir : LowerDentry) (mnt : Nat) (name : CString)
  | dLookup (dir : LowerDentry) (name : CString)
  | dAlloc (dir : LowerDentry) (name : CString)
  | dAdd (dentry : LowerDentry)
  | mntget (mnt : Nat)
  | opRevalidate (dentry : LowerDentry)
  | dRevalidate (dentry : LowerDentry) (flags : BitVec 32)
  | inodeChangeOk (inode : Inode) (ia : Iattr (Option File))
  | inodeNewsizeOk (inode : Inode) (size : BitVec 64)
  | truncateSetsize (inode : Inode) (size : BitVec 64)
  | notifyChange (dentry : LowerDentry) (ia : Iattr (Option LowerFile))
  | vfsGetattr (path : LowerPath)
  | genericFileFsync (file : File) (start last : BitVec 64) (datasync : BitVec 32)
  | vfsFsyncRange (file : LowerFile) (start last : BitVec 64) (datasync : BitVec 32)

@[reducible] def VfsCall.Reply : VfsCall → Type
  | .dgetParent _ => Dentry
  | .isRoot _ | .newDentryPrivateData _ | .opRevalidate _ => Bool
  | .dName _ => CString
  | .takeLowerPath _ => LowerPath
  | .dSpliceAlias .. => Spliced
  | .vfsPathLookup .. => Except Errno LowerPath
  | .dLookup .. | .dAlloc .. => Option LowerDentry
  | .dRevalidate .. | .inodeChangeOk .. | .inodeNewsizeOk .. | .notifyChange .. | .genericFileFsync ..
  | .vfsFsyncRange .. => BitVec 32
  | .vfsGetattr _ => BitVec 32 × Kstat
  | .dput _ | .setLowerPath .. | .freeDentryPrivateData _ | .dAdd _ | .mntget _ | .truncateSetsize .. => Unit

inductive MountCall where
  | kernel (c : Call)
  | vfs (c : VfsCall)

@[reducible] def MountCall.Reply : MountCall → Type
  | .kernel c => c.Reply
  | .vfs c => c.Reply

abbrev MountProg := Program MountCall.Reply

abbrev vfs (c : VfsCall) : MountProg c.Reply := perform (MountCall.vfs c)

/-- A program of the other files as a part of one of these. -/
def kernel {α : Type} : Prog α → MountProg α
  | .pure value => .pure value
  | .call c next => .call (.kernel c) fun reply => kernel (next reply)

/-- `EXDEV`, `EACCES` and `ESTALE` as error pointers, for the results of `trfs_iget`. -/
def errorOf (err : BitVec 32) : Errno :=
  if fits : -4095 ≤ err.toInt ∧ err.toInt < 0 then ⟨err, fits⟩ else ⟨EINVAL, by decide⟩

/-- `__trfs_interpose` returns the dentry that `d_splice_alias` gives. -/
def interpose (dentry : Dentry) (lowerPath : LowerPath) : MountProg Spliced := do
  let lowerInode ← kernel (lowerDInode lowerPath.dentry)
  let lowerSb ← kernel (upper .lowerSuper)
  let crossed ← kernel (lower (.superBlock lowerInode))
  if crossed ≠ lowerSb then pure (.error (errorOf EXDEV))
  else do
    let inode ← kernel (trfsIget lowerInode)
    match inode with
    | .error err => pure (.error (errorOf err))
    | .ok inode => vfs (.dSpliceAlias inode dentry)

/-- `trfs_put_reset_lower_path` -/
def trfsPutResetPath (dentry : Dentry) : MountProg Unit := do
  let lowerPath ← vfs (.takeLowerPath dentry)
  kernel (lower (.pathPut lowerPath))

/-- The label `setup_lower`. -/
def setupLower (dentry : Dentry) (lowerDentry : LowerDentry) (lowerDirMnt : Nat) : MountProg Spliced := do
  vfs (.mntget lowerDirMnt)
  vfs (.setLowerPath dentry ⟨lowerDentry, lowerDirMnt⟩)
  pure .null

/-- `__trfs_lookup` -/
def lookupBelow (dentry : Dentry) (lowerParentPath : LowerPath) : MountProg Spliced := do
  let root ← vfs (.isRoot dentry)
  if root then pure .null
  else do
    let name ← vfs (.dName dentry)
    let found ← vfs (.vfsPathLookup lowerParentPath.dentry lowerParentPath.mnt name)
    match found with
    | .ok lowerPath => do
        vfs (.setLowerPath dentry lowerPath)
        let spliced ← interpose dentry lowerPath
        match spliced with
        | .error errno => do
            trfsPutResetPath dentry
            pure (.error errno)
        | spliced => pure spliced
    | .error errno =>
        if errno.code ≠ ENOENT then pure (.error errno)
        else do
          let lowerDentry ← vfs (.dLookup lowerParentPath.dentry name)
          match lowerDentry with
          | some lowerDentry => setupLower dentry lowerDentry lowerParentPath.mnt
          | none => do
              let lowerDentry ← vfs (.dAlloc lowerParentPath.dentry name)
              match lowerDentry with
              | none => pure (.error (errorOf ENOMEM))
              | some lowerDentry => do
                  vfs (.dAdd lowerDentry)
                  setupLower dentry lowerDentry lowerParentPath.mnt

/-- The attributes that a lookup copies. The dentry is the one that `d_splice_alias` gave, if any. -/
def copyLooked (dentry parent : Dentry) : Prog Unit := do
  let inode ← upper (.dInode dentry)
  runIf (inode ≠ Inode.null) do
    let lowerInode ← upper (.lowerInode inode)
    fsstackCopyAttrTimes inode lowerInode
  let dir ← upper (.dInode parent)
  let lowerDir ← upper (.lowerInode dir)
  fsstackCopyAttrAtime dir lowerDir

/-- `trfs_lookup` returns `NULL`, a dentry or an error. -/
def trfsLookup (dentry : Dentry) : MountProg Spliced := do
  let parent ← vfs (.dgetParent dentry)
  let lowerParentPath ← kernel (trfsGetLowerPath parent)
  let allocated ← vfs (.newDentryPrivateData dentry)
  let spliced ← if allocated then do
      let spliced ← lookupBelow dentry lowerParentPath
      match spliced with
      | .error _ => pure ()
      | .null => kernel (copyLooked dentry parent)
      | .alias other => kernel (copyLooked other parent)
      pure spliced
    else pure (.error (errorOf ENOMEM))
  kernel (trfsPutLowerPath lowerParentPath)
  vfs (.dput parent)
  pure spliced

def LOOKUP_RCU : BitVec 32 := 0x40

def trfsDRevalidate (dentry : Dentry) (flags : BitVec 32) : MountProg (BitVec 32) := do
  if flags &&& LOOKUP_RCU ≠ 0 then pure ECHILD
  else do
    let lowerPath ← kernel (trfsGetLowerPath dentry)
    let defined ← vfs (.opRevalidate lowerPath.dentry)
    let err ← if defined then vfs (.dRevalidate lowerPath.dentry flags) else pure 1
    kernel (trfsPutLowerPath lowerPath)
    pure err

def trfsDentryRelease (dentry : Dentry) : MountProg Unit := do
  trfsPutResetPath dentry
  vfs (.freeDentryPrivateData dentry)

def ATTR_MODE : BitVec 32 := 0x1
def ATTR_SIZE : BitVec 32 := 0x8
def ATTR_KILL_SUID : BitVec 32 := 0x800
def ATTR_KILL_SGID : BitVec 32 := 0x1000
def ATTR_FILE : BitVec 32 := 0x2000

/-- The lower file of `ia->ia_file`, when the attributes come with one. -/
def lowerFileOf (ia : Iattr (Option File)) : Prog (Option LowerFile) :=
  if ia.valid &&& ATTR_FILE ≠ 0 then
    match ia.file with
    | none => oops
    | some file => upper (.lowerFile file)
  else pure none

/-- The size check of `trfs_setattr`. -/
def checkSize (inode : Inode) (ia : Iattr (Option File)) : MountProg (BitVec 32) :=
  if ia.valid &&& ATTR_SIZE ≠ 0 then do
    let err ← vfs (.inodeNewsizeOk inode ia.size)
    if err ≠ 0 then pure err
    else do
      vfs (.truncateSetsize inode ia.size)
      pure 0
  else pure 0

/-- The bits of the lower request: a request that clears the setuid or setgid bit does not change the mode. -/
def lowerValid (valid : BitVec 32) : BitVec 32 :=
  if valid &&& (ATTR_KILL_SUID ||| ATTR_KILL_SGID) ≠ 0 then valid &&& ~~~ATTR_MODE else valid

/-- `notify_change` under the lock of the lower inode. -/
def notifyLower (lowerDentry : LowerDentry) (ia : Iattr (Option LowerFile)) : MountProg (BitVec 32) := do
  let locked ← kernel (lowerDInode lowerDentry)
  kernel (upper (.lock [locked]))
  let err ← vfs (.notifyChange lowerDentry ia)
  let unlocked ← kernel (lowerDInode lowerDentry)
  kernel (upper (.unlock [unlocked]))
  pure err

def trfsSetattr (dentry : Dentry) (ia : Iattr (Option File)) : MountProg (BitVec 32) := do
  let inode ← kernel (upper (.dInode dentry))
  let err ← vfs (.inodeChangeOk inode ia)
  if err ≠ 0 then pure err
  else do
    let lowerPath ← kernel (trfsGetLowerPath dentry)
    let lowerInode ← kernel (upper (.lowerInode inode))
    let lowerFile ← kernel (lowerFileOf ia)
    let err ← checkSize inode ia
    if err ≠ 0 then do
      kernel (trfsPutLowerPath lowerPath)
      pure err
    else do
      let err ← notifyLower lowerPath.dentry { ia with valid := lowerValid ia.valid, file := lowerFile }
      if err ≠ 0 then do
        kernel (trfsPutLowerPath lowerPath)
        pure err
      else do
        kernel (fsstackCopyAttrAll inode lowerInode)
        kernel (trfsPutLowerPath lowerPath)
        pure 0

def trfsGetattr (dentry : Dentry) : MountProg (BitVec 32 × Option Kstat) := do
  let lowerPath ← kernel (trfsGetLowerPath dentry)
  let (err, lowerStat) ← vfs (.vfsGetattr lowerPath)
  if err ≠ 0 then do
    kernel (trfsPutLowerPath lowerPath)
    pure (err, none)
  else do
    let inode ← kernel (upper (.dInode dentry))
    let lowerInode ← kernel (lowerDInode lowerPath.dentry)
    kernel (fsstackCopyAttrAll inode lowerInode)
    let inode ← kernel (upper (.dInode dentry))
    let attributes ← kernel (upper (.attributes inode))
    kernel (trfsPutLowerPath lowerPath)
    pure (err, some ⟨attributes, lowerStat.blocks⟩)

def trfsFsync (file : File) (start last : BitVec 64) (datasync : BitVec 32) : MountProg (BitVec 32) := do
  let err ← vfs (.genericFileFsync file start last datasync)
  if err ≠ 0 then pure err
  else do
    let lowerFile ← kernel (upper (.lowerFile file))
    let lowerPath ← kernel (trfsGetLowerPath file.dentry)
    match lowerFile with
    | none => kernel oops
    | some lowerFile => do
        let err ← vfs (.vfsFsyncRange lowerFile start last datasync)
        kernel (trfsPutLowerPath lowerPath)
        pure err

end Trfs.Kernel
