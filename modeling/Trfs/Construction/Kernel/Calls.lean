/-
This file lists the kernel calls of the traced operations and the data that they exchange.
-/

import Trfs.Library.CString
import Trfs.Library.Program
import Trfs.Construction.Trace.Format

namespace Trfs.Kernel
open Bytes Effect

/-- An error pointer or a failed call carries a negated error number. -/
structure Errno where
  code : BitVec 32
  isErr : -4095 ≤ code.toInt ∧ code.toInt < 0
deriving DecidableEq, Repr

/-- Each name stands for the negated number, as in `-ENOENT`. -/
def ENOENT : BitVec 32 := -2
def ECHILD : BitVec 32 := -10
def ENOMEM : BitVec 32 := -12
def EACCES : BitVec 32 := -13
def EBUSY : BitVec 32 := -16
def EXDEV : BitVec 32 := -18
def EINVAL : BitVec 32 := -22
def ENOTTY : BitVec 32 := -25
def ENAMETOOLONG : Errno := ⟨-36, by decide⟩
def ENOTEMPTY : BitVec 32 := -39
def ESTALE : BitVec 32 := -116
def EIOCBQUEUED : BitVec 32 := -529

/-- The pointers of `struct inode` and `struct dentry`. The address 0 is `NULL`. -/
structure Inode where
  address : Nat
deriving DecidableEq, Repr

structure LowerInode where
  address : Nat
deriving DecidableEq, Repr

structure LowerDentry where
  address : Nat
deriving DecidableEq, Repr

def Inode.null : Inode := ⟨0⟩

def LowerInode.null : LowerInode := ⟨0⟩

structure LowerPath where
  dentry : LowerDentry
  mnt : Nat
deriving DecidableEq, Repr

/-- An open file of the lower filesystem and its `file_inode`. -/
structure LowerFile where
  address : Nat
  inode : LowerInode
deriving DecidableEq, Repr

/-- A dentry of the mount with the path that `dentry_path_raw` finds for it. -/
structure Dentry where
  address : Nat
  path : CString

structure File where
  address : Nat
  dentry : Dentry
  flags : BitVec 32

structure TraceFile where
  address : Nat
deriving DecidableEq, Repr

/-- The inode members that the filesystem copies or records. -/
structure Attributes where
  mode : BitVec 16
  opflags : BitVec 16
  uid : BitVec 32
  gid : BitVec 32
  rdev : BitVec 32
  atime : Nat
  mtime : Nat
  ctime : Nat
  blkbits : BitVec 32
  flags : BitVec 32
  nlink : BitVec 32
  size : BitVec 64
  blocks : BitVec 64
deriving DecidableEq, Repr

/-- The bytes of the caller's memory from a buffer address on. -/
abbrev UserMemory := Nat → Byte

/-- The result of `vfs_read` or `vfs_write` and the position that it leaves in `*pos`. -/
structure IoReply where
  result : BitVec 64
  position : BitVec 64
deriving DecidableEq, Repr

/-- One `struct iovec`. An iterator is a list of them. -/
structure Segment where
  base : Nat
  len : BitVec 64
deriving DecidableEq, Repr

/-- The members of `struct kiocb` that the filesystem uses. -/
structure Kiocb (FileType : Type) where
  filp : FileType
  pos : BitVec 64

/-- The calls that the lower filesystem answers. `dNegative` is the test `!d_inode(dentry)`. -/
inductive LowerCall where
  | vfsCreate (dir : LowerInode) (dentry : LowerDentry) (mode : BitVec 16) (wantExcl : Bool)
  | vfsLink (oldDentry : LowerDentry) (dir : LowerInode) (newDentry : LowerDentry)
  | vfsUnlink (dir : LowerInode) (dentry : LowerDentry)
  | vfsSymlink (dir : LowerInode) (dentry : LowerDentry) (symname : CString)
  | vfsMkdir (dir : LowerInode) (dentry : LowerDentry) (mode : BitVec 16)
  | vfsRmdir (dir : LowerInode) (dentry : LowerDentry)
  | vfsMknod (dir : LowerInode) (dentry : LowerDentry) (mode : BitVec 16) (dev : BitVec 32)
  | vfsRename (oldDir : LowerInode) (oldDentry : LowerDentry) (newDir : LowerInode)
      (newDentry : LowerDentry)
  | vfsRead (file : LowerFile) (buf : Nat) (count pos : BitVec 64)
  | vfsWrite (file : LowerFile) (buf : UserMemory) (count pos : BitVec 64)
  | dentryOpen (path : LowerPath) (flags : BitVec 32)
  | fput (file : LowerFile)
  | unlockedIoctl (file : LowerFile) (cmd : BitVec 32) (arg : BitVec 64)
  | dInode (dentry : LowerDentry)
  | dNegative (dentry : LowerDentry)
  | dgetParent (dentry : LowerDentry)
  | dget (dentry : LowerDentry)
  | dput (dentry : LowerDentry)
  | pathGet (path : LowerPath)
  | pathPut (path : LowerPath)
  | renameTrap (first second : LowerDentry)
  | nfsRenamed (dentry : LowerDentry)
  | superBlock (inode : LowerInode)
  | igrab (inode : LowerInode)
  | iput (inode : LowerInode)
  | attributes (inode : LowerInode)
  | hasReadIter (file : LowerFile)
  | hasWriteIter (file : LowerFile)
  | getFile (file : LowerFile)
  | readIter (iocb : Kiocb LowerFile) (iter : List Segment)
  | writeIter (iocb : Kiocb LowerFile) (memory : UserMemory) (iter : List Segment)

@[reducible] def LowerCall.Reply : LowerCall → Type
  | .vfsRead .. | .vfsWrite .. | .readIter .. | .writeIter .. => IoReply
  | .dentryOpen .. => Except Errno LowerFile
  | .unlockedIoctl .. => Option (BitVec 64)
  | .dInode _ => LowerInode
  | .dgetParent _ => LowerDentry
  | .renameTrap .. => Option LowerDentry
  | .dNegative _ | .nfsRenamed _ | .igrab _ | .hasReadIter _ | .hasWriteIter _ => Bool
  | .superBlock _ => Nat
  | .attributes _ => Attributes
  | .iput _ | .fput _ | .dget _ | .dput _ | .pathGet _ | .pathPut _ | .getFile _ => Unit
  | .vfsCreate .. | .vfsLink .. | .vfsUnlink .. | .vfsSymlink .. | .vfsMkdir .. | .vfsRmdir ..
  | .vfsMknod .. | .vfsRename .. => BitVec 32

/-- An allocation of `size` bytes with the contents that it happens to have. -/
structure Block (size : Nat) where
  address : Nat
  bytes : List Byte
  length : bytes.length = size

/-- The calls on the inodes, dentries and open files of the mount itself. -/
inductive UpperCall where
  | lock (inodes : List LowerInode)
  | unlock (inodes : List LowerInode)
  | lowerSuper
  | lowerPath (dentry : Dentry)
  | dInode (dentry : Dentry)
  | dUnhashed (dentry : Dentry)
  | dDrop (dentry : Dentry)
  | dSpliceAlias (inode : Inode) (dentry : Dentry)
  | iget5Locked (inode : LowerInode)
  | unlockNewInode (inode : Inode)
  | lowerInode (inode : Inode)
  | setLowerInode (inode : Inode) (value : LowerInode)
  | attributes (inode : Inode)
  | setAttributes (inode : Inode) (value : Attributes)
  | kzallocFileInfo (file : File)
  | kfreeFileInfo (file : File)
  | lowerFile (file : File)
  | setLowerFile (file : File) (value : Option LowerFile)

/-- `iget5_locked` may fail, and it says whether the inode is new. The number that
`d_splice_alias` gives is the result of `PTR_ERR` on its dentry, which is 0 for `NULL`. -/
@[reducible] def UpperCall.Reply : UpperCall → Type
  | .lowerSuper => Nat
  | .lowerPath _ => LowerPath
  | .dInode _ => Inode
  | .dUnhashed _ | .kzallocFileInfo _ => Bool
  | .dSpliceAlias .. => BitVec 32
  | .iget5Locked _ => Option (Inode × Bool)
  | .lowerInode _ => LowerInode
  | .attributes _ => Attributes
  | .lowerFile _ => Option LowerFile
  | .lock _ | .unlock _ | .dDrop _ | .unlockNewInode _ | .setLowerInode .. | .setAttributes ..
  | .kfreeFileInfo _ | .setLowerFile .. => Unit

/-- The calls of the tracing block. -/
inductive TracerCall where
  | mask
  | tfilePath
  | recordId
  | setRecordId (value : BitVec 32)
  | kmalloc (size : Nat)
  | kfree (address : Nat)
  | filpOpen (filename : CString) (flags : BitVec 32)
  | vfsWrite (file : TraceFile) (source : List Byte) (count : BitVec 64)
  | filpClose (file : TraceFile)

@[reducible] def TracerCall.Reply : TracerCall → Type
  | .mask | .vfsWrite .. => BitVec 64
  | .tfilePath => CString
  | .recordId => BitVec 32
  | .kmalloc size => Option (Block size)
  | .filpOpen .. => Except Errno TraceFile
  | .setRecordId _ | .kfree _ | .filpClose _ => Unit

/-- All calls of the filesystem. `oops` stands for a fault on a bad kernel pointer. -/
inductive Call where
  | lower (c : LowerCall)
  | upper (c : UpperCall)
  | tracer (c : TracerCall)
  | setMask (value : BitVec 64)
  | copyMaskToUser (address : BitVec 64)
  | oops

@[reducible] def Call.Reply : Call → Type
  | .lower c => c.Reply
  | .upper c => c.Reply
  | .tracer c => c.Reply
  | .setMask _ => Unit
  | .copyMaskToUser _ => BitVec 64
  | .oops => Empty

abbrev Prog := Program Call.Reply

abbrev lower (c : LowerCall) : Prog c.Reply := perform (Call.lower c)

abbrev upper (c : UpperCall) : Prog c.Reply := perform (Call.upper c)

abbrev tracer (c : TracerCall) : Prog c.Reply := perform (Call.tracer c)

def oops {α : Type} : Prog α := .call .oops fun impossible => nomatch impossible

/-- An `if` statement without an `else`. -/
def runIf (condition : Prop) [Decidable condition] (action : Prog Unit) : Prog Unit :=
  if condition then action else pure ()

/-- `trfs_get_lower_path` takes a reference on the path that it returns. -/
def trfsGetLowerPath (dentry : Dentry) : Prog LowerPath := do
  let path ← upper (.lowerPath dentry)
  lower (.pathGet path)
  pure path

def trfsPutLowerPath (path : LowerPath) : Prog Unit := lower (.pathPut path)

def lowerDInode (dentry : LowerDentry) : Prog LowerInode := lower (.dInode dentry)

def lockParent (dentry : LowerDentry) : Prog LowerDentry := do
  let dir ← lower (.dgetParent dentry)
  let inode ← lowerDInode dir
  upper (.lock [inode])
  pure dir

def unlockDir (dir : LowerDentry) : Prog Unit := do
  let inode ← lowerDInode dir
  upper (.unlock [inode])
  lower (.dput dir)

/-- `lock_rename` locks both directories and returns the dentry that the rename must not touch. -/
def lockRename (first second : LowerDentry) : Prog (Option LowerDentry) := do
  let firstInode ← lowerDInode first
  let secondInode ← lowerDInode second
  upper (.lock [firstInode, secondInode])
  lower (.renameTrap first second)

def unlockRename (first second : LowerDentry) : Prog Unit := do
  let firstInode ← lowerDInode first
  let secondInode ← lowerDInode second
  upper (.unlock [firstInode, secondInode])

/-- Each `fsstack` function copies some members of a lower inode into an inode of the mount. -/
def fsstackCopy (select : Attributes → Attributes → Attributes) (dest : Inode) (src : LowerInode) :
    Prog Unit := do
  let source ← lower (.attributes src)
  let old ← upper (.attributes dest)
  upper (.setAttributes dest (select source old))

def fsstackCopyAttrAtime : Inode → LowerInode → Prog Unit :=
  fsstackCopy fun source old => { old with atime := source.atime }

def fsstackCopyAttrTimes : Inode → LowerInode → Prog Unit :=
  fsstackCopy fun source old =>
    { old with atime := source.atime, mtime := source.mtime, ctime := source.ctime }

def fsstackCopyInodeSize : Inode → LowerInode → Prog Unit :=
  fsstackCopy fun source old => { old with size := source.size, blocks := source.blocks }

def fsstackCopyAttrAll : Inode → LowerInode → Prog Unit :=
  fsstackCopy fun source old => { source with opflags := old.opflags, size := old.size, blocks := old.blocks }

/-- `set_nlink` with the link count of a lower inode. -/
def copyNlink : Inode → LowerInode → Prog Unit :=
  fsstackCopy fun source old => { old with nlink := source.nlink }

/-- An update of an inode of the mount from its own members. -/
def changeAttributes (inode : Inode) (change : Attributes → Attributes) : Prog Unit := do
  let old ← upper (.attributes inode)
  upper (.setAttributes inode (change old))

end Trfs.Kernel
