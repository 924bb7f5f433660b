import Trfs.Construction.Kernel.Inode

namespace Trfs.Kernel
open Bytes Effect Trace

/-- The replies of one operation that decide whether it reaches its tracing block and what it returns. -/
structure Answers where
  unhashed : Option Bool
  allocated : Option Bool
  lower : Option (BitVec 32)
  negative : Option Bool
  renamed : Option Bool
  lowerSuper : Option Nat
  interposed : Option (BitVec 32)
deriving DecidableEq, Repr

def Answers.none : Answers :=
  { unhashed := .none, allocated := .none, lower := .none, negative := .none, renamed := .none,
    lowerSuper := .none, interposed := .none }

/-- The value of `err` after the lower call of an operation. -/
def LowerCall.result : (c : LowerCall) → c.Reply → Option (BitVec 32)
  | .vfsCreate .., reply | .vfsLink .., reply | .vfsUnlink .., reply | .vfsSymlink .., reply
  | .vfsMkdir .., reply | .vfsRmdir .., reply | .vfsMknod .., reply | .vfsRename .., reply => some reply
  | .vfsRead .., reply | .vfsWrite .., reply => some (reply.result.setWidth 32)
  | .dentryOpen .., .ok _ => some 0
  | .dentryOpen .., .error errno => some errno.code
  | _, _ => none

def Answers.nextLower (answers : Answers) : (c : LowerCall) → c.Reply → Answers
  | .dNegative _, reply => { answers with negative := some reply }
  | .nfsRenamed _, reply => { answers with renamed := some reply }
  | .superBlock _, reply =>
      if answers.lowerSuper = some reply then answers else { answers with interposed := some EXDEV }
  | .igrab _, reply => if reply then answers else { answers with interposed := some ESTALE }
  | c, reply =>
      match c.result reply with
      | .none => answers
      | .some err => { answers with lower := some err }

def Answers.nextUpper (answers : Answers) : (c : UpperCall) → c.Reply → Answers
  | .dUnhashed _, reply => { answers with unhashed := some reply }
  | .kzallocFileInfo _, reply => { answers with allocated := some reply }
  | .lowerSuper, reply => { answers with lowerSuper := some reply }
  | .iget5Locked _, .none => { answers with interposed := some EACCES }
  | .dSpliceAlias .., reply => { answers with interposed := some reply }
  | _, _ => answers

def Answers.next (answers : Answers) : (c : Call) → c.Reply → Answers
  | .lower c, reply => answers.nextLower c reply
  | .upper c, reply => answers.nextUpper c reply
  | _, _ => answers

/-- The calls outside the tracing block. -/
def Plain : Call → Prop
  | .lower _ | .upper _ => True
  | _ => False

def observe : Monitor Call.Reply Answers where
  permits _ c := Plain c
  next := Answers.next

/-- A quiet call leaves the answers as they are, whatever its reply is. -/
def Quiet : Call → Prop
  | .lower (.dNegative _) | .lower (.nfsRenamed _) | .lower (.superBlock _) | .lower (.igrab _)
  | .lower (.vfsCreate ..) | .lower (.vfsLink ..) | .lower (.vfsUnlink ..) | .lower (.vfsSymlink ..)
  | .lower (.vfsMkdir ..) | .lower (.vfsRmdir ..) | .lower (.vfsMknod ..) | .lower (.vfsRename ..)
  | .lower (.vfsRead ..) | .lower (.vfsWrite ..) | .lower (.dentryOpen ..)
  | .upper (.dUnhashed _) | .upper (.kzallocFileInfo _) | .upper .lowerSuper | .upper (.iget5Locked _)
  | .upper (.dSpliceAlias ..) | .tracer _ | .setMask _ | .copyMaskToUser _ | .oops => False
  | .lower _ | .upper _ => True

/-- A quiet call is plain. -/
theorem Quiet.plain {c : Call} (quiet : Quiet c) : Plain c := by
  cases c <;> first | exact trivial | exact quiet.elim

/-- A quiet call adds no answer. -/
theorem Quiet.next {c : Call} (quiet : Quiet c) (answers : Answers) (reply : c.Reply) :
    answers.next c reply = answers := by
  cases c with
  | lower c => cases c <;> first | rfl | exact quiet.elim
  | upper c => cases c <;> first | rfl | exact quiet.elim
  | oops => exact nomatch reply
  | tracer c => rfl
  | setMask value => rfl
  | copyMaskToUser address => rfl

def IsKfree : Call → Prop
  | .tracer (.kfree _) => True
  | _ => False

def IsRead : Call → Prop
  | .upper (.dInode _) | .upper (.attributes _) => True
  | _ => False

section
variable (op : TracedOp)

def TracedOp.kind : TracedOp → CallKind
  | .open .. => .open
  | .read .. => .read
  | .write .. => .write
  | .release .. => .release
  | .create .. => .create
  | .link .. => .link
  | .unlink .. => .unlink
  | .symlink .. => .symlink
  | .mkdir .. => .mkdir
  | .rmdir .. => .rmdir
  | .mknod .. => .mknod
  | .rename .. => .rename

/-- The dentry whose path comes first in a record. -/
def TracedOp.path1 : TracedOp → Dentry
  | .open _ file | .read file .. | .write file .. | .release file => file.dentry
  | .create _ dentry .. | .unlink _ dentry | .symlink _ dentry _ | .mkdir _ dentry _ | .rmdir _ dentry
  | .mknod _ dentry .. => dentry
  | .link oldDentry .. | .rename _ oldDentry .. => oldDentry

def TracedOp.path2 : TracedOp → SecondPath
  | .link _ _ newDentry | .rename _ _ _ newDentry => .dentry newDentry
  | .symlink _ _ symname => .symname symname
  | _ => .absent

/-- The buffer of a traced write. -/
def TracedOp.content : TracedOp → Option UserMemory
  | .write _ buf _ _ => some buf
  | _ => none

/-- The operations that write a record whatever the lower filesystem returned. -/
def TracedOp.TracesFailures (op : TracedOp) : Prop :=
  match op.kind with
  | .open | .read | .write | .release | .create => True
  | _ => False

instance : Decidable op.TracesFailures := by
  unfold TracedOp.TracesFailures
  split <;> infer_instance

/-- The result that goes into the record: the others have failed before they reach the block. -/
def TracedOp.recordedErr (op : TracedOp) (answers : Answers) : BitVec 32 :=
  match op.kind with
  | .open | .read | .write | .create => answers.lower.getD 0
  | _ => 0

def TracedOp.plan (op : TracedOp) (answers : Answers) : RecordPlan where
  kind := op.kind
  path1 := op.path1
  path2 := op.path2
  writeLen := match op.content with
    | none => 0
    | some _ => op.recordedErr answers
  content := op.content
  err := op.recordedErr answers

/-- The replies with which an operation reaches its tracing block. -/
def TracedOp.Reaches (op : TracedOp) (answers : Answers) : Prop :=
  match op.kind with
  | .open => answers.unhashed = some false ∧ answers.allocated = some true
  | .read | .write | .release | .create => True
  | .link => answers.lower = some 0 ∧ answers.negative = some false ∧ answers.interposed = some 0
  | .unlink => answers.lower = some 0 ∨ (answers.lower = some EBUSY ∧ answers.renamed = some true)
  | .symlink | .mknod => answers.lower = some 0 ∧ answers.interposed = some 0
  | .mkdir | .rmdir | .rename => answers.lower = some 0

/-- The value that an operation returns after these replies. -/
def TracedOp.Returned (op : TracedOp) (answers : Answers) (err : BitVec 32) : Prop :=
  match op.kind with
  | .open => (answers.unhashed = some true ∧ answers.lower = none ∧ err = ENOENT) ∨
      (answers.allocated = some false ∧ answers.lower = none ∧ err = ENOMEM) ∨
      (answers.unhashed = some false ∧ answers.allocated = some true ∧ answers.lower = some err)
  | .read | .write | .rmdir => answers.lower = some err
  | .release => err = 0
  | .create | .symlink | .mkdir | .mknod => (answers.lower = some err ∧ err ≠ 0) ∨
      (answers.lower = some 0 ∧ answers.interposed = some err)
  | .link => (answers.lower = some err ∧ err ≠ 0) ∨
      (answers.lower = some 0 ∧ answers.negative = some true ∧ err = 0) ∨
      (answers.lower = some 0 ∧ answers.negative = some false ∧ answers.interposed = some err)
  | .unlink => (answers.lower = some EBUSY ∧ answers.renamed = some true ∧ err = 0) ∨
      (answers.lower = some err ∧ (err = EBUSY → answers.renamed = some false))
  | .rename => (answers.lower = none ∧ (err = EINVAL ∨ err = ENOTEMPTY)) ∨ answers.lower = some err

/-- The rest of an operation after its tracing block uses the three buffers only to free them. -/
inductive Tail (plan : RecordPlan) : (TraceBuffers → Prog Outcome) → Answers → Prop where
  | ends (frees : TraceBuffers → Prog Unit) (outcome : Outcome) (answers : Answers)
      (freeing : ∀ buffers, (frees buffers).Calls IsKfree) (kept : op.plan answers = plan)
      (reaches : op.Reaches answers) (returned : op.Returned answers outcome.err) :
      Tail plan (fun buffers => frees buffers >>= fun _ => .pure outcome) answers
  | call (c : Call) (next : TraceBuffers → c.Reply → Prog Outcome) (answers : Answers) (plain : Plain c)
      (rest : ∀ reply, Tail plan (fun buffers => next buffers reply) (answers.next c reply)) :
      Tail plan (fun buffers => .call c (next buffers)) answers

/-- An operation makes plain calls, runs its tracing block at most once, and makes plain calls again.
Before the block it may fault on a file that is not open. -/
inductive Staged : Prog Outcome → Answers → Prop where
  | stop (outcome : Outcome) (answers : Answers) (early : ¬ op.Reaches answers)
      (returned : op.Returned answers outcome.err) : Staged (.pure outcome) answers
  | fault (next : Empty → Prog Outcome) (answers : Answers) : Staged (.call .oops next) answers
  | call (c : Call) (next : c.Reply → Prog Outcome) (answers : Answers) (plain : Plain c)
      (rest : ∀ reply, Staged (next reply) (answers.next c reply)) : Staged (.call c next) answers
  | block (block : TraceBlock) (after : TraceBuffers → Prog Outcome) (answers : Answers)
      (plan : block.toRecordPlan = op.plan answers) (flags : block.openFlags.Calls IsRead)
      (mode : block.permMode.Calls IsRead) (reaches : op.Reaches answers)
      (tail : Tail op (op.plan answers) after answers) :
      Staged (block.run >>= after) answers

end

section
variable {op : TracedOp} {plan : RecordPlan} {α : Type} {answers : Answers}

/-- A program may stand before a tail that follows what it observes. -/
theorem Tail.bind {program : Prog α} {next : TraceBuffers → α → Prog Outcome}
    (meets : program.Meets observe (fun value reached => Tail op plan (fun buffers => next buffers value) reached)
      answers) : Tail op plan (fun buffers => program >>= next buffers) answers := by
  induction program generalizing answers with
  | pure value => exact meets
  | call c continued ih =>
      apply Tail.call c (fun buffers reply => continued reply >>= next buffers) answers meets.1
      intro reply
      exact ih reply (meets.2 reply)

/-- A program may stand before a staged one that follows what it observes. -/
theorem Staged.bind {program : Prog α} {next : α → Prog Outcome}
    (meets : program.Meets observe (fun value reached => Staged op (next value) reached) answers) :
    Staged op (program >>= next) answers := by
  induction program generalizing answers with
  | pure value => exact meets
  | call c continued ih =>
      apply Staged.call c (fun reply => continued reply >>= next) answers meets.1
      intro reply
      exact ih reply (meets.2 reply)

/-- A call of the upper level may stand before a tail. -/
theorem Tail.upperCall {c : UpperCall} {next : TraceBuffers → c.Reply → Prog Outcome}
    (rest : ∀ reply, Tail op plan (fun buffers => next buffers reply) (answers.nextUpper c reply)) :
    Tail op plan (fun buffers => perform (Call.upper c) >>= next buffers) answers :=
  .call (Call.upper c) next answers trivial rest

/-- A call of the upper level may stand before a staged program. -/
theorem Staged.upperCall {c : UpperCall} {next : c.Reply → Prog Outcome}
    (rest : ∀ reply, Staged op (next reply) (answers.nextUpper c reply)) :
    Staged op (perform (Call.upper c) >>= next) answers :=
  .call (Call.upper c) next answers trivial rest

/-- So may a call of the lower level. -/
theorem Staged.lowerCall {c : LowerCall} {next : c.Reply → Prog Outcome}
    (rest : ∀ reply, Staged op (next reply) (answers.nextLower c reply)) :
    Staged op (perform (Call.lower c) >>= next) answers :=
  .call (Call.lower c) next answers trivial rest

/-- A quiet program observes nothing new. -/
theorem observe_quiet {post : α → Answers → Prop} {program : Prog α} (quiet : program.Calls Quiet)
    (ends : ∀ value, post value answers) : program.Meets observe post answers :=
  quiet.meets (fun _ calm progress => ⟨calm.plain, fun reply => calm.next progress reply⟩) ends

/-- A quiet program may stand before a tail. -/
theorem Tail.quiet {program : Prog α} {next : TraceBuffers → α → Prog Outcome}
    (quiet : program.Calls Quiet) (rest : ∀ value, Tail op plan (fun buffers => next buffers value) answers) :
    Tail op plan (fun buffers => program >>= next buffers) answers :=
  Tail.bind (observe_quiet quiet rest)

/-- A quiet program may stand before a staged one. -/
theorem Staged.quiet {program : Prog α} {next : α → Prog Outcome} (quiet : program.Calls Quiet)
    (rest : ∀ value, Staged op (next value) answers) : Staged op (program >>= next) answers :=
  Staged.bind (observe_quiet quiet rest)

end

end Trfs.Kernel
