/-
This file models the traced operations of `file.c` and the control requests of the mount.
-/

import Trfs.Construction.Kernel.Tracer

namespace Trfs.Kernel
open Bytes Effect Trace

/-- The value that an operation returns and the position that it leaves in `*ppos`. -/
structure Outcome where
  err : BitVec 32
  ppos : Option (BitVec 64)
deriving DecidableEq, Repr

/-- The use of the lower file of an open file. -/
def openLowerFile (file : File) : Prog LowerFile := do
  let lowerFile ← upper (.lowerFile file)
  match lowerFile with
  | none => oops
  | some lowerFile => pure lowerFile

/-- A member of `dentry->d_inode`. -/
def dInodeMember {α : Type} (dentry : Dentry) (select : Attributes → α) : Prog α := do
  let inode ← upper (.dInode dentry)
  let attributes ← upper (.attributes inode)
  pure (select attributes)

/-- A member of an inode of the mount. -/
def inodeMember {α : Type} (inode : Inode) (select : Attributes → α) : Prog α := do
  let attributes ← upper (.attributes inode)
  pure (select attributes)

/-- The end of the functions in `file.c` frees the buffers. -/
def TraceBuffers.returnFile (outcome : Outcome) (buffers : TraceBuffers) : Prog Outcome := do
  buffers.freeFile
  pure outcome

def trfsRead (file : File) (buf : Nat) (count ppos : BitVec 64) : Prog Outcome := do
  let lowerFile ← openLowerFile file
  let io ← lower (.vfsRead lowerFile buf count ppos)
  let err : BitVec 32 := io.result.setWidth 32
  runIf (0 ≤ err.toInt) do
    let inode ← upper (.dInode file.dentry)
    fsstackCopyAttrAtime inode lowerFile.inode
  let block : TraceBlock :=
    { kind := .read
      path1 := file.dentry
      path2 := .absent
      writeLen := 0
      content := none
      err := err
      openFlags := dInodeMember file.dentry fun inode => inode.opflags.setWidth 32
      permMode := dInodeMember file.dentry fun inode => inode.mode }
  let buffers ← block.run
  buffers.returnFile ⟨err, some io.position⟩

def trfsWrite (file : File) (buf : UserMemory) (count ppos : BitVec 64) : Prog Outcome := do
  let lowerFile ← openLowerFile file
  let io ← lower (.vfsWrite lowerFile buf count ppos)
  let err : BitVec 32 := io.result.setWidth 32
  let block : TraceBlock :=
    { kind := .write
      path1 := file.dentry
      path2 := .absent
      writeLen := err
      content := some buf
      err := err
      openFlags := dInodeMember file.dentry fun inode => inode.opflags.setWidth 32
      permMode := dInodeMember file.dentry fun inode => inode.mode }
  let buffers ← block.run
  runIf (0 ≤ err.toInt) do
    let inode ← upper (.dInode file.dentry)
    fsstackCopyInodeSize inode lowerFile.inode
    let inode ← upper (.dInode file.dentry)
    fsstackCopyAttrTimes inode lowerFile.inode
  buffers.returnFile ⟨err, some io.position⟩

/-- `trfs_set_lower_file(file, NULL)` and `fput` when the file has a lower file. -/
def dropLowerFile (file : File) : Prog Unit := do
  let lowerFile ← upper (.lowerFile file)
  match lowerFile with
  | none => pure ()
  | some lowerFile => do
      upper (.setLowerFile file none)
      lower (.fput lowerFile)

/-- The lower open of `trfs_open` and the number that it leaves in `err`. -/
def openLower (file : File) : Prog (BitVec 32) := do
  let lowerPath ← trfsGetLowerPath file.dentry
  let opened ← lower (.dentryOpen lowerPath file.flags)
  trfsPutLowerPath lowerPath
  match opened with
  | .error errno => do
      dropLowerFile file
      pure errno.code
  | .ok lowerFile => do
      upper (.setLowerFile file (some lowerFile))
      pure 0

/-- A failed open frees the file information, and a successful one copies the attributes. -/
def settleOpen (inode : Inode) (file : File) (err : BitVec 32) : Prog Unit :=
  if err ≠ 0 then upper (.kfreeFileInfo file)
  else do
    let lowerInode ← upper (.lowerInode inode)
    fsstackCopyAttrAll inode lowerInode

def trfsOpen (inode : Inode) (file : File) : Prog Outcome := do
  let unhashed ← upper (.dUnhashed file.dentry)
  if unhashed then pure ⟨ENOENT, none⟩
  else do
    let allocated ← upper (.kzallocFileInfo file)
    if !allocated then pure ⟨ENOMEM, none⟩
    else do
      let err ← openLower file
      let block : TraceBlock :=
        { kind := .open
          path1 := file.dentry
          path2 := .absent
          writeLen := 0
          content := none
          err := err
          openFlags := pure file.flags
          permMode := dInodeMember file.dentry fun inode => inode.mode }
      let buffers ← block.run
      settleOpen inode file err
      buffers.returnFile ⟨err, none⟩

def trfsFileRelease (file : File) : Prog Outcome := do
  dropLowerFile file
  let block : TraceBlock :=
    { kind := .release
      path1 := file.dentry
      path2 := .absent
      writeLen := 0
      content := none
      err := 0
      openFlags := pure 0
      permMode := pure 0 }
  let buffers ← block.run
  upper (.kfreeFileInfo file)
  buffers.returnFile ⟨0, none⟩

/-- The iterator counterpart of `trfs_read`. It has no tracing block. -/
def trfsReadIter (iocb : Kiocb File) (iter : List Segment) : Prog Outcome := do
  let lowerFile ← openLowerFile iocb.filp
  let defined ← lower (.hasReadIter lowerFile)
  if !defined then pure ⟨EINVAL, some iocb.pos⟩
  else do
    lower (.getFile lowerFile)
    let io ← lower (.readIter { iocb with filp := lowerFile } iter)
    lower (.fput lowerFile)
    let err : BitVec 32 := io.result.setWidth 32
    runIf (0 ≤ err.toInt ∨ err = EIOCBQUEUED) do
      let inode ← upper (.dInode iocb.filp.dentry)
      fsstackCopyAttrAtime inode lowerFile.inode
    pure ⟨err, some io.position⟩

/-- The iterator counterpart of `trfs_write`. The segments lie in the caller's memory. -/
def trfsWriteIter (iocb : Kiocb File) (memory : UserMemory) (iter : List Segment) : Prog Outcome := do
  let lowerFile ← openLowerFile iocb.filp
  let defined ← lower (.hasWriteIter lowerFile)
  if !defined then pure ⟨EINVAL, some iocb.pos⟩
  else do
    lower (.getFile lowerFile)
    let io ← lower (.writeIter { iocb with filp := lowerFile } memory iter)
    lower (.fput lowerFile)
    let err : BitVec 32 := io.result.setWidth 32
    runIf (0 ≤ err.toInt ∨ err = EIOCBQUEUED) do
      let inode ← upper (.dInode iocb.filp.dentry)
      fsstackCopyInodeSize inode lowerFile.inode
      let inode ← upper (.dInode iocb.filp.dentry)
      fsstackCopyAttrTimes inode lowerFile.inode
    pure ⟨err, some io.position⟩

/-- The requests of `trctl`: `_IOW` and `_IOR` numbers of `unsigned long`. -/
def ALL : BitVec 32 := 0x40084700
def NONE : BitVec 32 := 0x40084701
def HEX : BitVec 32 := 0x40084702
def RET : BitVec 32 := 0x80084703

/-- The `switch` of `trfs_unlocked_ioctl`. -/
def maskRequest (cmd : BitVec 32) (arg : BitVec 64) : Prog Unit :=
  if cmd = ALL ∨ cmd = NONE ∨ cmd = HEX then perform (Call.setMask arg)
  else if cmd = RET then do
    let _ ← perform (Call.copyMaskToUser arg)
    pure ()
  else pure ()

def trfsUnlockedIoctl (file : File) (fileInode : Inode) (cmd : BitVec 32) (arg : BitVec 64) :
    Prog (BitVec 64) := do
  maskRequest cmd arg
  let lowerFile ← upper (.lowerFile file)
  match lowerFile with
  | none => pure (ENOTTY.signExtend 64)
  | some lowerFile => do
      let reply ← lower (.unlockedIoctl lowerFile cmd arg)
      let err := reply.getD (ENOTTY.signExtend 64)
      runIf (err = 0) (fsstackCopyAttrAll fileInode lowerFile.inode)
      pure err

end Trfs.Kernel
