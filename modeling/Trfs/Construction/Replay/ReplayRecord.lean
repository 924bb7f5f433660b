/-
This file models `replay_record` of `treplay.c`.
-/

import Trfs.Construction.Trace.Format
import Trfs.Library.CString
import Trfs.Library.Program

namespace Trfs.Replay
open Bytes Effect Trace

/-- The calls of `replay_record`. A missing string stands for `NULL`, and `fault` for `strlen(NULL)`. -/
inductive SystemCall where
  | printf (text : String)
  | open (path : CString) (flags : BitVec 32) (mode : Option (BitVec 32))
  | read (fd : BitVec 32) (count : BitVec 64)
  | write (fd : BitVec 32) (bytes : List Byte)
  | close (fd : BitVec 32)
  | link (oldpath : CString) (newpath : Option CString)
  | unlink (path : CString)
  | symlink (target : CString) (linkpath : Option CString)
  | mkdir (path : CString) (mode : BitVec 32)
  | rmdir (path : CString)
  | mknod (path : CString) (mode : BitVec 32) (dev : BitVec 64)
  | rename (oldpath : CString) (newpath : Option CString)
  | fault
deriving DecidableEq

@[reducible] def SystemCall.Reply : SystemCall → Type
  | .printf _ => Unit
  | .read .. | .write .. => BitVec 64
  | .fault => Empty
  | _ => BitVec 32

abbrev UserProg := Program SystemCall.Reply

def segfault {α : Type} : UserProg α := .call .fault fun impossible => nomatch impossible

/-- The arguments of `replay_record`. -/
structure ReplayArgs where
  tracer : TraceDs
  path1 : CString
  path2 : Option CString
  content : Option CString
deriving DecidableEq

/-- The case of the `switch` over `rec_type`. -/
def ReplayArgs.kind (args : ReplayArgs) : Option CallKind := CallKind.ofRecordType args.tracer.recordType

/-- `replay_path` -/
def replayPath : CString := ⟨ascii "/usr/src/replay", by decide +kernel⟩

/-- `fullpath1` and `fullpath2` -/
def fullPath (path : CString) : CString := replayPath.append path

/-- The output of `Original return value : %d` and `Replay return value : %d`. -/
def originalText (err : BitVec 32) : String := "Original return value : " ++ toString err.toInt ++ "\n"

def replayText (errval : BitVec 32) : String := "Replay return value : " ++ toString errval.toInt ++ "\n"

/-- The comparison at the end of all cases but `OPEN_CALL`. The global `fd` stays as it is. -/
def compared (fd : BitVec 32) (tracer : TraceDs) (errval : BitVec 32) : UserProg (BitVec 32 × Bool) := do
  perform (SystemCall.printf (replayText errval))
  pure (fd, decide (tracer.err = errval))

/-- The case `OPEN_CALL`. -/
def replayOpen (fd : BitVec 32) (args : ReplayArgs) : UserProg (BitVec 32 × Bool) := do
  let opened ← perform (SystemCall.open (fullPath args.path1) args.tracer.openFlags none)
  let (fd, errval) : BitVec 32 × BitVec 32 := if opened.toInt < 0 then (fd, -1) else (opened, 0)
  perform (SystemCall.printf (replayText errval))
  pure (fd, decide (args.tracer.err = 0 ∧ 0 < errval.toInt))

/-- The cases `READ_CALL` and `WRITE_CALL`. `bytes_read` is 0. -/
def replayRead (fd : BitVec 32) (args : ReplayArgs) : UserProg (BitVec 32 × Bool) := do
  let count ← perform (SystemCall.read fd 0)
  compared fd args.tracer (count.setWidth 32)

def replayWrite (fd : BitVec 32) (args : ReplayArgs) : UserProg (BitVec 32 × Bool) :=
  match args.content with
  | none => segfault
  | some content => do
      let count ← perform (SystemCall.write fd content.bytes)
      compared fd args.tracer (count.setWidth 32)

/-- The cases that make one system call and compare its result. -/
def replayResult (fd : BitVec 32) (args : ReplayArgs) (result : UserProg (BitVec 32)) :
    UserProg (BitVec 32 × Bool) := do
  let errval ← result
  compared fd args.tracer errval

/-- The `switch` over `rec_type`. Each case returns, and an unknown type falls through to `return true`. -/
def replayCall (fd : BitVec 32) (args : ReplayArgs) : UserProg (BitVec 32 × Bool) :=
  let fullpath1 := fullPath args.path1
  let fullpath2 := args.path2.map fullPath
  let mode : BitVec 32 := args.tracer.permissionMode.setWidth 32
  match args.kind with
  | some .open => replayOpen fd args
  | some .read => replayRead fd args
  | some .write => replayWrite fd args
  | some .release => replayResult fd args (perform (SystemCall.close fd))
  | some .create => replayResult fd args (perform (SystemCall.open fullpath1 args.tracer.openFlags (some mode)))
  | some .link => replayResult fd args (perform (SystemCall.link fullpath1 fullpath2))
  | some .unlink => replayResult fd args (perform (SystemCall.unlink fullpath1))
  | some .symlink => replayResult fd args (perform (SystemCall.symlink fullpath1 args.path2))
  | some .mkdir => replayResult fd args (perform (SystemCall.mkdir fullpath1 mode))
  | some .rmdir => replayResult fd args (perform (SystemCall.rmdir fullpath1))
  | some .mknod => replayResult fd args
      (perform (SystemCall.mknod fullpath1 mode (args.tracer.openFlags.setWidth 64)))
  | some .rename => replayResult fd args (perform (SystemCall.rename fullpath1 fullpath2))
  | none => pure (fd, true)

/-- `replay_record` gets the global `fd` and returns it beside its result. -/
def replayRecord (fd : BitVec 32) (args : ReplayArgs) : UserProg (BitVec 32 × Bool) := do
  perform (SystemCall.printf "Replay result ->\n\n")
  perform (SystemCall.printf (originalText args.tracer.err))
  replayCall fd args

/-- One record with the global `fd` and the state in which its replay began. -/
structure Replayed (σ : Type) where
  args : ReplayArgs
  fd : BitVec 32
  before : σ
  done : Execution SystemCall.Reply σ (BitVec 32 × Bool)

/-- `main` without `-s` replays the records one after the other. -/
def replayRun {σ : Type} (handler : Handler SystemCall.Reply σ) :
    List ReplayArgs → BitVec 32 → σ → Option (List (Replayed σ))
  | [], _, _ => some []
  | args :: rest, fd, state => ((replayRecord fd args).exec handler state).bind fun done =>
      (replayRun handler rest done.value.1 done.state).map fun later => ⟨args, fd, state, done⟩ :: later

end Trfs.Replay
