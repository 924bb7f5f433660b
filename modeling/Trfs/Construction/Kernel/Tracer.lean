/-
This file models the tracing block that the twelve traced operations repeat.
-/

import Trfs.Construction.Kernel.Calls

namespace Trfs.Kernel
open Bytes Effect Trace

/-- The second path of a record: the path of another dentry or the target of a symbolic link. -/
inductive SecondPath where
  | absent
  | dentry (dentry : Dentry)
  | symname (symname : CString)

/-- The members of a record that an operation supplies, apart from the flags and the mode. -/
structure RecordPlan where
  kind : CallKind
  path1 : Dentry
  path2 : SecondPath
  writeLen : BitVec 32
  content : Option UserMemory
  err : BitVec 32

/-- The values that differ between the twelve copies of the tracing block. -/
structure TraceBlock extends RecordPlan where
  openFlags : Prog (BitVec 32)
  permMode : Prog (BitVec 16)

/-- The three buffers of a tracing block. They are `NULL` while the block has not run. -/
structure TraceBuffers where
  traceStr : Option Nat
  buffer : Option Nat
  writer : Option Nat
deriving DecidableEq, Repr

def TraceBuffers.null : TraceBuffers := ⟨none, none, none⟩

def pathBufferSize : Nat := 256

/-- `O_WRONLY|O_CREAT|O_APPEND` -/
def traceOpenFlags : BitVec 32 := 0x441

/-- The path is stored with its NUL in the last byte. -/
def Block.storePath {size : Nat} (block : Block size) (path : CString) : Block size where
  address := block.address
  bytes := storeRight block.bytes path
  length := by rw [storeRight_length, block.length]

/-- `dentry_path_raw` stores the path at the end of the buffer and returns the offset of its first
byte. A path that does not fit gives an error pointer, and a `NULL` buffer faults. -/
def dentryPathRaw {size : Nat} (dentry : Dentry) (buffer : Option (Block size)) :
    Prog (Block size × Except Errno Nat) :=
  match buffer with
  | none => oops
  | some block =>
      if dentry.path.length < size then
        pure (block.storePath dentry.path, .ok (size - 1 - dentry.path.length))
      else pure (block, .error ENAMETOOLONG)

/-- The bytes from a path pointer on. An error pointer faults. -/
def pathMemory {size : Nat} (buffer : Block size) (pathName : Except Errno Nat) : Prog (List Byte) :=
  match pathName with
  | .error _ => oops
  | .ok offset => pure (buffer.bytes.drop offset)

/-- `len_path = strlen(path_name)` with a `short` length. -/
def pathLength {size : Nat} (buffer : Block size) (pathName : Except Errno Nat) : Prog (BitVec 16) := do
  let memory ← pathMemory buffer pathName
  pure (BitVec.ofNat 16 (strlen memory))

/-- The use of a pointer that `kmalloc` returned. -/
def deref {size : Nat} (pointer : Option (Block size)) : Prog (Block size) :=
  match pointer with
  | none => oops
  | some block => pure block

/-- `vfs_write` on the trace file. An error pointer in place of the file faults. -/
def vfsWrite (fileOp : Except Errno TraceFile) (source : List Byte) (count : BitVec 64) :
    Prog (BitVec 64) :=
  match fileOp with
  | .error _ => oops
  | .ok file => tracer (.vfsWrite file source count)

def filpClose (fileOp : Except Errno TraceFile) : Prog Unit :=
  match fileOp with
  | .error _ => oops
  | .ok file => tracer (.filpClose file)

/-- The bytes of the caller's buffer that a write of `count` bytes reads. -/
def userBytes (buf : UserMemory) (count : BitVec 32) : List Byte :=
  (List.range count.toInt.toNat).map buf

/-- The pointer and the length of the second path. Both paths use the same buffer. -/
def TraceBlock.secondPath (block : TraceBlock) (buffer : Block pathBufferSize) :
    Prog (Block pathBufferSize × Except Errno Nat × BitVec 16) :=
  match block.path2 with
  | .absent => pure (buffer, .ok 0, 0)
  | .symname symname => pure (buffer, .ok 0, BitVec.ofNat 16 symname.length)
  | .dentry dentry => do
      let (buffer, pathName2) ← dentryPathRaw dentry (some buffer)
      let lenPath2 ← pathLength buffer pathName2
      pure (buffer, pathName2, lenPath2)

/-- The `vfs_write` of the second path. -/
def TraceBlock.writePath2 (block : TraceBlock) (fileOp : Except Errno TraceFile)
    (buffer : Block pathBufferSize) (pathName2 : Except Errno Nat) (lenPath2 : BitVec 16) : Prog Unit :=
  match block.path2 with
  | .absent => pure ()
  | .symname symname => do
      let _ ← vfsWrite fileOp symname.bytes (lenPath2.signExtend 64)
      pure ()
  | .dentry _ => do
      let memory2 ← pathMemory buffer pathName2
      let _ ← vfsWrite fileOp memory2 (lenPath2.signExtend 64)
      pure ()

/-- The `vfs_write` of the caller's buffer with the result of the lower write as its count. -/
def TraceBlock.writeContent (block : TraceBlock) (fileOp : Except Errno TraceFile) : Prog Unit :=
  match block.content with
  | none => pure ()
  | some buf => do
      let _ ← vfsWrite fileOp (userBytes buf block.err) (block.err.signExtend 64)
      pure ()

/-- The tracing block after its mask test. -/
def TraceBlock.body (block : TraceBlock) : Prog TraceBuffers := do
  let filename ← tracer .tfilePath
  let recId ← tracer .recordId
  let openFlags ← block.openFlags
  let permMode ← block.permMode
  let allocated ← tracer (.kmalloc pathBufferSize)
  let (buffer, pathName1) ← dentryPathRaw block.path1 allocated
  let lenPath1 ← pathLength buffer pathName1
  let (buffer, pathName2, lenPath2) ← block.secondPath buffer
  let fileOp ← tracer (.filpOpen filename traceOpenFlags)
  let traceStr ← tracer (.kmalloc sizeofTraceDs)
  let object ← deref traceStr
  let header : TraceDs :=
    { pathLen1 := lenPath1
      pathLen2 := lenPath2
      writeLen := block.writeLen
      recordId := recId
      recordType := block.kind.recordType
      openFlags := openFlags
      permissionMode := permMode
      err := block.err }
  let writer ← tracer (.kmalloc sizeofTraceDs)
  let copy ← deref writer
  let written := memcpy copy.bytes (header.assign object.bytes) sizeofTraceDs
  let _ ← vfsWrite fileOp written (BitVec.ofNat 64 sizeofTraceDs)
  let memory1 ← pathMemory buffer pathName1
  let _ ← vfsWrite fileOp memory1 (lenPath1.signExtend 64)
  block.writePath2 fileOp buffer pathName2 lenPath2
  block.writeContent fileOp
  filpClose fileOp
  tracer (.setRecordId (recId + 1))
  pure ⟨some object.address, some buffer.address, some copy.address⟩

/-- The tracing block tests the bit of its record type in the mask of the mount. -/
def TraceBlock.run (block : TraceBlock) : Prog TraceBuffers := do
  let mask ← tracer .mask
  if (mask >>> block.kind.recordType.toNat) &&& 1 = 1 then block.body else pure .null

/-- `if (pointer != NULL) kfree(pointer)` -/
def kfreeSet (pointer : Option Nat) : Prog Unit :=
  match pointer with
  | none => pure ()
  | some address => tracer (.kfree address)

/-- The end of the functions in `file.c`. -/
def TraceBuffers.freeFile (buffers : TraceBuffers) : Prog Unit := do
  kfreeSet buffers.traceStr
  kfreeSet buffers.buffer
  kfreeSet buffers.writer

/-- The end of the functions in `inode.c`. -/
def TraceBuffers.freeInode (buffers : TraceBuffers) : Prog Unit := do
  kfreeSet buffers.traceStr
  kfreeSet buffers.writer
  kfreeSet buffers.buffer

end Trfs.Kernel
