/-
This file gives the layout of `struct trfs_trace_ds` and of one record in the trace file.
-/

import Trfs.Library.Bytes

namespace Trfs.Trace
open Bytes

/-- The twelve traced operations in the order of their record types. -/
inductive CallKind where
  | open | read | write | release | create | link | unlink | symlink | mkdir | rmdir | mknod | rename
deriving DecidableEq, Repr

/-- The constants `OPEN_CALL` to `RENAME_CALL` of `trfs.h`. -/
def CallKind.recordType : CallKind → BitVec 8
  | .open => 0
  | .read => 1
  | .write => 2
  | .release => 3
  | .create => 4
  | .link => 5
  | .unlink => 6
  | .symlink => 7
  | .mkdir => 8
  | .rmdir => 9
  | .mknod => 10
  | .rename => 11

/-- The case of a `switch` over these constants. -/
def CallKind.ofRecordType (recordType : BitVec 8) : Option CallKind :=
  [CallKind.open, .read, .write, .release, .create, .link, .unlink, .symlink, .mkdir, .rmdir, .mknod,
    .rename].find? fun kind => kind.recordType = recordType

/-- A record type gives its kind back. -/
@[simp] theorem CallKind.ofRecordType_recordType (kind : CallKind) : ofRecordType kind.recordType = some kind := by
  cases kind <;> rfl

structure TraceDs where
  pathLen1 : BitVec 16
  pathLen2 : BitVec 16
  writeLen : BitVec 32
  recordId : BitVec 32
  recordType : BitVec 8
  openFlags : BitVec 32
  permissionMode : BitVec 16
  err : BitVec 32
deriving DecidableEq, Repr

/-- The compiler's `sizeof (struct trfs_trace_ds)`. -/
def sizeofTraceDs : Nat := 28

/-- The eight member assignments write 23 of the 28 bytes of the object. -/
def TraceDs.assign (value : TraceDs) (object : List Byte) : List Byte :=
  let object := store object 0 (encodeWord 2 value.pathLen1)
  let object := store object 2 (encodeWord 2 value.pathLen2)
  let object := store object 4 (encodeWord 4 value.writeLen)
  let object := store object 8 (encodeWord 4 value.recordId)
  let object := store object 12 (encodeWord 1 value.recordType)
  let object := store object 16 (encodeWord 4 value.openFlags)
  let object := store object 20 (encodeWord 2 value.permissionMode)
  store object 24 (encodeWord 4 value.err)

/-- The members of the object that starts at the first byte. -/
def TraceDs.view (object : List Byte) : TraceDs where
  pathLen1 := decodeWord 16 (load object 0 2)
  pathLen2 := decodeWord 16 (load object 2 2)
  writeLen := decodeWord 32 (load object 4 4)
  recordId := decodeWord 32 (load object 8 4)
  recordType := decodeWord 8 (load object 12 1)
  openFlags := decodeWord 32 (load object 16 4)
  permissionMode := decodeWord 16 (load object 20 2)
  err := decodeWord 32 (load object 24 4)

/-- An assigned object keeps its size. -/
theorem TraceDs.assign_length (value : TraceDs) (object : List Byte)
    (size : object.length = sizeofTraceDs) : (value.assign object).length = sizeofTraceDs := by
  simp [assign, size]

/-- Reading the members back gives the assigned values, whatever the object held before. -/
theorem TraceDs.view_assign (value : TraceDs) (object : List Byte)
    (size : object.length = sizeofTraceDs) : view (value.assign object) = value := by
  simp only [sizeofTraceDs] at size
  simp [view, assign, load_store_same, load_store_before, size, decodeWord_encodeWord]

/-- One record of the trace file: the written image of the structure and the parts after it. -/
structure Record where
  image : List Byte
  path1 : List Byte
  path2 : List Byte
  content : List Byte
deriving DecidableEq, Repr

def Record.header (record : Record) : TraceDs := TraceDs.view record.image

def Record.payload (record : Record) : List Byte := record.path1 ++ record.path2 ++ record.content

def Record.bytes (record : Record) : List Byte := record.image ++ record.payload

/-- A framed record stores the byte lengths of its own parts. -/
structure FramedRecord extends Record where
  imageSize : image.length = sizeofTraceDs
  pathLen1 : (TraceDs.view image).pathLen1.toInt = path1.length
  pathLen2 : (TraceDs.view image).pathLen2.toInt = path2.length
  writeLen : (TraceDs.view image).writeLen.toInt = content.length

/-- The bytes of a record are its header and its three strings. -/
theorem FramedRecord.bytes_length (record : FramedRecord) :
    record.bytes.length =
      sizeofTraceDs + record.path1.length + record.path2.length + record.content.length := by
  simp only [Record.bytes, Record.payload, List.length_append, record.imageSize]
  omega

/-- The bytes of a trace that consists of whole records. -/
def traceBytes (records : List FramedRecord) : List Byte := records.flatMap fun record => record.bytes

/-- The empty trace has no bytes. -/
@[simp] theorem traceBytes_nil : traceBytes [] = [] := rfl

/-- The bytes of the first record come first. -/
@[simp] theorem traceBytes_cons (record : FramedRecord) (records : List FramedRecord) :
    traceBytes (record :: records) = record.bytes ++ traceBytes records := rfl

/-- The bytes of two traces in a row. -/
theorem traceBytes_append (first second : List FramedRecord) :
    traceBytes (first ++ second) = traceBytes first ++ traceBytes second := by
  simp [traceBytes]

end Trfs.Trace
