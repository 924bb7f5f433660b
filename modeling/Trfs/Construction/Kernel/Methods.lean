/-
This file models the methods of the mount without a tracer that pass their work on, and the table of all methods.
-/

import Trfs.Construction.Kernel.GetLink
import Trfs.Construction.Kernel.Mounted
import Trfs.Construction.Kernel.Seek
import Trfs.Library.Translation

namespace Trfs.Kernel.Methods
open Bytes Effect

def EOPNOTSUPP : BitVec 32 := -95

/-- The members of `i_op` that may be missing in the lower filesystem. -/
inductive InodeMember where
  | readlink | setxattr | getxattr | listxattr | removexattr
deriving DecidableEq, Repr

inductive FileMember where
  | flush | fasync | compatIoctl
deriving DecidableEq, Repr

/-- `struct kstatfs` -/
structure Kstatfs where
  type : BitVec 64
  bsize : BitVec 64
  blocks : BitVec 64
  bfree : BitVec 64
  bavail : BitVec 64
  files : BitVec 64
  ffree : BitVec 64
  fsid : BitVec 64
  namelen : BitVec 64
  frsize : BitVec 64
  flags : BitVec 64
deriving DecidableEq, Repr

/-- The calls that only these methods make. A file is one of the mount or a lower one. -/
inductive MethodCall where
  | memory (c : LinkCall)
  | hasInodeOps (inode : LowerInode)
  | hasInodeMember (inode : LowerInode) (member : InodeMember)
  | readlink (dentry : LowerDentry) (buf : Pointer) (bufsiz : Nat)
  | vfsSetxattr (dentry : LowerDentry) (name : CString) (value : List Byte) (flags : BitVec 32)
  | vfsGetxattr (dentry : LowerDentry) (name : CString) (buffer : Nat) (size : BitVec 64)
  | vfsListxattr (dentry : LowerDentry) (buffer : Nat) (size : BitVec 64)
  | vfsRemovexattr (dentry : LowerDentry) (name : CString)
  | inodePermission (inode : LowerInode) (mask : BitVec 32)
  | vfsStatfs (path : LowerPath)
  | hasUmountBegin (lowerSb : Nat)
  | umountBegin (lowerSb : Nat)
  | hasFileOps (file : LowerFile)
  | hasFileMember (file : LowerFile) (member : FileMember)
  | filemapWriteAndWait (file : File)
  | flush (file : LowerFile) (id : Nat)
  | fasync (fd : BitVec 32) (file : LowerFile) (flag : BitVec 32)
  | compatIoctl (file : LowerFile) (cmd : BitVec 32) (arg : BitVec 64)
  | genericFileLlseek (file : File ⊕ LowerFile) (offset : BitVec 64) (whence : BitVec 32)
  | iterateDir (file : LowerFile)
  | position (file : File ⊕ LowerFile)
  | setPosition (file : File ⊕ LowerFile) (value : BitVec 64)

@[reducible] def MethodCall.Reply : MethodCall → Type
  | .memory c => c.Reply
  | .hasInodeOps _ | .hasInodeMember .. | .hasUmountBegin _ | .hasFileOps _ | .hasFileMember .. => Bool
  | .readlink .. | .vfsSetxattr .. | .vfsRemovexattr .. | .inodePermission .. | .flush .. | .fasync ..
  | .iterateDir _ => BitVec 32
  | .vfsGetxattr .. | .vfsListxattr .. | .compatIoctl .. | .genericFileLlseek .. | .position _ => BitVec 64
  | .vfsStatfs _ => BitVec 32 × Kstatfs
  | .umountBegin _ | .filemapWriteAndWait _ | .setPosition .. => Unit

inductive TableCall where
  | mount (c : MountCall)
  | method (c : MethodCall)

@[reducible] def TableCall.Reply : TableCall → Type
  | .mount c => c.Reply
  | .method c => c.Reply

abbrev MethodProg := Program TableCall.Reply

abbrev method (c : MethodCall) : MethodProg c.Reply := perform (TableCall.method c)

/-- A program of the other files as a part of one of these. -/
def mount {α : Type} : MountProg α → MethodProg α
  | .pure value => .pure value
  | .call c next => .call (.mount c) fun reply => mount (next reply)

def own {α : Type} (program : Prog α) : MethodProg α := mount (kernel program)

/-- The test of a member of `i_op`. Two of the methods test `i_op` itself before. -/
def hasMember (testsOps : Bool) (inode : LowerInode) (member : InodeMember) : MethodProg Bool := do
  let ops ← if testsOps then method (.hasInodeOps inode) else pure true
  if ops then method (.hasInodeMember inode member) else pure false

/-- The methods for extended attributes have this form. They differ in the member and its test, in the error for a
missing member, in the call, and in what they copy after a result of 0. -/
def forwardXattr (member : InodeMember) (testsOps : Bool) (missing : BitVec 32)
    (copy : Inode → LowerInode → Prog Unit) (forward : LowerDentry → MethodProg (BitVec 32)) (dentry : Dentry) :
    MethodProg (BitVec 32) := do
  let lowerPath ← own (trfsGetLowerPath dentry)
  let lowerInode ← own (lowerDInode lowerPath.dentry)
  let there ← hasMember testsOps lowerInode member
  if !there then do
    own (trfsPutLowerPath lowerPath)
    pure missing
  else do
    let err ← forward lowerPath.dentry
    if err ≠ 0 then do
      own (trfsPutLowerPath lowerPath)
      pure err
    else do
      let inode ← own (upper (.dInode dentry))
      let lowerInode ← own (lowerDInode lowerPath.dentry)
      own (copy inode lowerInode)
      own (trfsPutLowerPath lowerPath)
      pure err

/-- The result of a call goes into the `int` variable `err`. -/
def intResult (result : MethodProg (BitVec 64)) : MethodProg (BitVec 32) := do
  let reply ← result
  pure (reply.setWidth 32)

def trfsSetxattr (name : CString) (value : List Byte) (flags : BitVec 32) : Dentry → MethodProg (BitVec 32) :=
  forwardXattr .setxattr false EOPNOTSUPP fsstackCopyAttrAll fun lowerDentry =>
    method (.vfsSetxattr lowerDentry name value flags)

def trfsGetxattr (name : CString) (buffer : Nat) (size : BitVec 64) : Dentry → MethodProg (BitVec 32) :=
  forwardXattr .getxattr false EOPNOTSUPP fsstackCopyAttrAtime fun lowerDentry =>
    intResult (method (.vfsGetxattr lowerDentry name buffer size))

def trfsListxattr (buffer : Nat) (size : BitVec 64) : Dentry → MethodProg (BitVec 32) :=
  forwardXattr .listxattr false EOPNOTSUPP fsstackCopyAttrAtime fun lowerDentry =>
    intResult (method (.vfsListxattr lowerDentry buffer size))

def trfsRemovexattr (name : CString) : Dentry → MethodProg (BitVec 32) :=
  forwardXattr .removexattr true EINVAL fsstackCopyAttrAll fun lowerDentry =>
    method (.vfsRemovexattr lowerDentry name)

/-- The calls of `trfs_readlink` and `trfs_get_link` on the dentry. The state is the variable `lower_path`. -/
def linkCall (dentry : Dentry) : (c : LinkCall) → LowerPath → MethodProg (c.Reply × LowerPath)
  | .getLowerPath, _ => do
      let lowerPath ← own (trfsGetLowerPath dentry)
      pure ((), lowerPath)
  | .putLowerPath, lowerPath => do
      own (trfsPutLowerPath lowerPath)
      pure ((), lowerPath)
  | .lowerHasReadlink, lowerPath => do
      let lowerInode ← own (lowerDInode lowerPath.dentry)
      let there ← hasMember true lowerInode .readlink
      pure (there, lowerPath)
  | .lowerReadlink buf bufsiz, lowerPath => do
      let err ← method (.readlink lowerPath.dentry buf bufsiz)
      pure (err, lowerPath)
  | .copyAttrAtime, lowerPath => do
      let inode ← own (upper (.dInode dentry))
      let lowerInode ← own (lowerDInode lowerPath.dentry)
      own (fsstackCopyAttrAtime inode lowerInode)
      pure ((), lowerPath)
  | .kmalloc size, lowerPath => do
      let buf ← method (.memory (.kmalloc size))
      pure (buf, lowerPath)
  | .kfree pointer, lowerPath => do
      method (.memory (.kfree pointer))
      pure ((), lowerPath)
  | .storeByte pointer index value, lowerPath => do
      method (.memory (.storeByte pointer index value))
      pure ((), lowerPath)
  | .setDelayedCall pointer, lowerPath => do
      method (.memory (.setDelayedCall pointer))
      pure ((), lowerPath)
  | .delayedCall, lowerPath => do
      let registered ← method (.memory .delayedCall)
      pure (registered, lowerPath)

def trfsReadlink (dentry : Dentry) (buf : Pointer) (bufsiz : Nat) : MethodProg (BitVec 32 × LowerPath) :=
  (Kernel.trfsReadlink buf bufsiz).translate (linkCall dentry) .unset

/-- The first test of `trfs_get_link` needs no dentry. -/
def trfsGetLink : Option Dentry → MethodProg (Pointer × LowerPath)
  | none => pure (.errPtr ECHILD, .unset)
  | some dentry => (Kernel.trfsGetLink (some dentry)).translate (linkCall dentry) .unset

/-- The variable `lower_file` gets its value before its first use. -/
def loadLower (file : File) : Option LowerFile → MethodProg LowerFile
  | some lowerFile => pure lowerFile
  | none => own (openLowerFile file)

/-- The calls of `trfs_file_llseek` and `trfs_readdir` on the file. The state is the variable `lower_file`. -/
def positionCall (file : File) : (c : PositionCall) → Option LowerFile → MethodProg (c.Reply × Option LowerFile)
  | .genericFileLlseek .upper offset whence, lowerFile => do
      let reached ← method (.genericFileLlseek (.inl file) offset whence)
      pure (reached, lowerFile)
  | .genericFileLlseek .lower offset whence, lowerFile => do
      let lowerFile ← loadLower file lowerFile
      let reached ← method (.genericFileLlseek (.inr lowerFile) offset whence)
      pure (reached, some lowerFile)
  | .iterateDir, lowerFile => do
      let lowerFile ← loadLower file lowerFile
      let err ← method (.iterateDir lowerFile)
      pure (err, some lowerFile)
  | .position .upper, lowerFile => do
      let position ← method (.position (.inl file))
      pure (position, lowerFile)
  | .position .lower, lowerFile => do
      let lowerFile ← loadLower file lowerFile
      let position ← method (.position (.inr lowerFile))
      pure (position, some lowerFile)
  | .setPosition .upper value, lowerFile => do
      method (.setPosition (.inl file) value)
      pure ((), lowerFile)
  | .setPosition .lower value, lowerFile => do
      let lowerFile ← loadLower file lowerFile
      method (.setPosition (.inr lowerFile) value)
      pure ((), some lowerFile)
  | .copyAttrAtime, lowerFile => do
      let lowerFile ← loadLower file lowerFile
      let inode ← own (upper (.dInode file.dentry))
      own (fsstackCopyAttrAtime inode lowerFile.inode)
      pure ((), some lowerFile)

def trfsFileLlseek (file : File) (offset : BitVec 64) (whence : BitVec 32) :
    MethodProg (BitVec 64 × Option LowerFile) :=
  (Kernel.trfsFileLlseek offset whence).translate (positionCall file) none

def trfsReaddir (file : File) : MethodProg (BitVec 32 × Option LowerFile) :=
  Kernel.trfsReaddir.translate (positionCall file) none

def trfsPermission (inode : Inode) (mask : BitVec 32) : MethodProg (BitVec 32) := do
  let lowerInode ← own (upper (.lowerInode inode))
  method (.inodePermission lowerInode mask)

/-- `magic` is `TRFS_SUPER_MAGIC`. The member `f_type` gets it also after an error. -/
def trfsStatfs (magic : BitVec 64) (dentry : Dentry) : MethodProg (BitVec 32 × Kstatfs) := do
  let lowerPath ← own (trfsGetLowerPath dentry)
  let (err, buf) ← method (.vfsStatfs lowerPath)
  own (trfsPutLowerPath lowerPath)
  pure (err, { buf with type := magic })

def MS_RDONLY : BitVec 32 := 0x1
def MS_MANDLOCK : BitVec 32 := 0x40
def MS_SILENT : BitVec 32 := 0x8000

def trfsRemountFs (flags : BitVec 32) : BitVec 32 :=
  if flags &&& ~~~(MS_RDONLY ||| MS_MANDLOCK ||| MS_SILENT) ≠ 0 then EINVAL else 0

def trfsUmountBegin : MethodProg Unit := do
  let lowerSb ← own (upper .lowerSuper)
  if lowerSb = 0 then pure ()
  else do
    let there ← method (.hasUmountBegin lowerSb)
    if there then method (.umountBegin lowerSb) else pure ()

/-- `lower_file->f_op && lower_file->f_op->member` -/
def hasFileMember (lowerFile : LowerFile) (member : FileMember) : MethodProg Bool := do
  let ops ← method (.hasFileOps lowerFile)
  if ops then method (.hasFileMember lowerFile member) else pure false

def trfsFlush (file : File) (id : Nat) : MethodProg (BitVec 32) := do
  let lowerFile ← own (upper (.lowerFile file))
  match lowerFile with
  | none => pure 0
  | some lowerFile => do
      let there ← hasFileMember lowerFile .flush
      if there then do
        method (.filemapWriteAndWait file)
        method (.flush lowerFile id)
      else pure 0

def trfsFasync (fd : BitVec 32) (file : File) (flag : BitVec 32) : MethodProg (BitVec 32) := do
  let lowerFile ← own (openLowerFile file)
  let there ← hasFileMember lowerFile .fasync
  if there then method (.fasync fd lowerFile flag) else pure 0

def trfsCompatIoctl (file : File) (cmd : BitVec 32) (arg : BitVec 64) : MethodProg (BitVec 64) := do
  let lowerFile ← own (upper (.lowerFile file))
  match lowerFile with
  | none => pure (ENOTTY.signExtend 64)
  | some lowerFile => do
      let there ← hasFileMember lowerFile .compatIoctl
      if there then method (.compatIoctl lowerFile cmd arg) else pure (ENOTTY.signExtend 64)

structure MethodEnvironment (L : Type) extends VfsEnvironment L where
  method : (c : MethodCall) → L → c.Reply × L

/-- One call of the VFS into the filesystem: the requests of the other files and those of this one. -/
inductive Request where
  | vfs (request : VfsRequest)
  | readlink (dentry : Dentry) (buf : Pointer) (bufsiz : Nat)
  | getLink (dentry : Option Dentry)
  | permission (inode : Inode) (mask : BitVec 32)
  | setxattr (name : CString) (value : List Byte) (flags : BitVec 32) (dentry : Dentry)
  | getxattr (name : CString) (buffer : Nat) (size : BitVec 64) (dentry : Dentry)
  | listxattr (buffer : Nat) (size : BitVec 64) (dentry : Dentry)
  | removexattr (name : CString) (dentry : Dentry)
  | statfs (magic : BitVec 64) (dentry : Dentry)
  | remountFs (flags : BitVec 32)
  | umountBegin
  | flush (file : File) (id : Nat)
  | fasync (fd : BitVec 32) (file : File) (flag : BitVec 32)
  | llseek (file : File) (offset : BitVec 64) (whence : BitVec 32)
  | readdir (file : File)
  | unlockedIoctl (file : File) (fileInode : Inode) (cmd : BitVec 32) (arg : BitVec 64)
  | compatIoctl (file : File) (cmd : BitVec 32) (arg : BitVec 64)

/-- A request without its result. -/
def discard {α : Type} (program : MethodProg α) : MethodProg Unit := do
  let _ ← program
  pure ()

def Request.program : Request → MethodProg Unit
  | .vfs request => mount request.program
  | .readlink dentry buf bufsiz => discard (trfsReadlink dentry buf bufsiz)
  | .getLink dentry => discard (trfsGetLink dentry)
  | .permission inode mask => discard (trfsPermission inode mask)
  | .setxattr name value flags dentry => discard (trfsSetxattr name value flags dentry)
  | .getxattr name buffer size dentry => discard (trfsGetxattr name buffer size dentry)
  | .listxattr buffer size dentry => discard (trfsListxattr buffer size dentry)
  | .removexattr name dentry => discard (trfsRemovexattr name dentry)
  | .statfs magic dentry => discard (trfsStatfs magic dentry)
  | .remountFs flags => discard (pure (trfsRemountFs flags))
  | .umountBegin => trfsUmountBegin
  | .flush file id => discard (trfsFlush file id)
  | .fasync fd file flag => discard (trfsFasync fd file flag)
  | .llseek file offset whence => discard (trfsFileLlseek file offset whence)
  | .readdir file => discard (trfsReaddir file)
  | .unlockedIoctl file fileInode cmd arg => discard (own (trfsUnlockedIoctl file fileInode cmd arg))
  | .compatIoctl file cmd arg => discard (trfsCompatIoctl file cmd arg)

section
variable {L : Type}

def handleTable (env : MethodEnvironment L) (helpers : Helpers) : Handler TableCall.Reply (Mounted L)
  | .mount c, state => handleMount env.toVfsEnvironment helpers c state
  | .method c, state =>
      let (reply, after) := env.method c state.machine.visible.lower
      some (reply, state.setLower after)

/-- The VFS makes a request, or the rest of the kernel changes everything but the private data of the mount. -/
inductive TableAction (L : Type) where
  | request (request : Request)
  | outside (change : Visible L → Visible L) (mask : BitVec 64)

/-- One action of a run with the calls that it makes. A request that faults ends the run. -/
def tableStep (env : MethodEnvironment L) (helpers : Helpers) :
    TableAction L → Mounted L × List (Event TableCall.Reply) → Option (Mounted L × List (Event TableCall.Reply))
  | .request request, (state, events) =>
      (request.program.exec (handleTable env helpers) state).map fun done => (done.state, events ++ done.events)
  | .outside change mask, (state, events) => some (state.change change mask, events)

/-- The VFS looks up a new dentry and opens a new file. -/
def Request.Fresh (state : Mounted L) : Request → Prop
  | .vfs request => request.Fresh state
  | _ => True

def TableAction.Fresh (reached : Mounted L × List (Event TableCall.Reply)) : TableAction L → Prop
  | .request made => made.Fresh reached.1
  | .outside .. => True

end

end Trfs.Kernel.Methods
