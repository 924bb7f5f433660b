/-
This file lets a process read and write one open file of the mount sequentially.
-/

import Trfs.Construction.Kernel.Machine

namespace Trfs.Kernel
open Bytes Effect Trace

inductive FileCall where
  | read (buf : Nat) (count : BitVec 64)
  | write (buf : UserMemory) (count : BitVec 64)

/-- The operation that the call gets to when the file is at this position. -/
def FileCall.op (call : FileCall) (file : File) (position : BitVec 64) : TracedOp :=
  match call with
  | .read buf count => .read file buf count position
  | .write buf count => .write file buf count position

/-- The mount and the position of the open file. -/
structure Session (L : Type) where
  machine : Machine L
  position : BitVec 64

/-- A completed call with the session in which it began. -/
structure Transferred (L : Type) where
  call : FileCall
  before : Session L
  done : Done L

section
variable {L : Type}

/-- `read` and `write` store the position back when their result is not negative. -/
def Transferred.after (step : Transferred L) : Session L where
  machine := step.done.state
  position :=
    if 0 ≤ step.done.value.err.toInt then step.done.value.ppos.getD step.before.position
    else step.before.position

def runSession (env : Environment L) (helpers : Helpers) (file : File) :
    List FileCall → Session L → Option (List (Transferred L))
  | [], _ => some []
  | call :: rest, session =>
      ((call.op file session.position).exec env helpers session.machine).bind fun done =>
        let step : Transferred L := ⟨call, session, done⟩
        (runSession env helpers file rest step.after).map fun later => step :: later

end

end Trfs.Kernel
