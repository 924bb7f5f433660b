/-
This file runs requests on a mount one after the other.
-/

import Trfs.Construction.Kernel.Machine

namespace Trfs.Kernel
open Effect

/-- What can happen on a mount while no traced operation runs. Other calls and the rest of the kernel may
change everything that the tracer does not own. -/
inductive Request (L : Type) where
  | call (op : TracedOp)
  | ioctl (file : File) (fileInode : Inode) (cmd : BitVec 32) (arg : BitVec 64)
  | outside (change : Visible L → Visible L)

/-- A completed call with the state in which it began. -/
structure Report (L : Type) where
  op : TracedOp
  before : Machine L
  done : Done L

section
variable {L : Type}

/-- The run stops when a call faults. -/
def runRequests (env : Environment L) (helpers : Helpers) :
    List (Request L) → Machine L → Option (List (Report L) × Machine L)
  | [], state => some ([], state)
  | .call op :: rest, state =>
      (op.exec env helpers state).bind fun done =>
        (runRequests env helpers rest done.state).map fun (reports, last) => (⟨op, state, done⟩ :: reports, last)
  | .ioctl file fileInode cmd arg :: rest, state =>
      ((trfsUnlockedIoctl file fileInode cmd arg).exec (handle env helpers) state).bind fun done =>
        runRequests env helpers rest done.state
  | .outside change :: rest, state =>
      runRequests env helpers rest { state with visible := change state.visible }

/-- One call of a run under bitmaps of its own, with the changes that other calls made before it. -/
structure Turn (L : Type) where
  outside : Visible L → Visible L
  op : TracedOp

/-- The run gives its calls these bitmaps, from the given index on, and stops when a call faults. -/
def runMasked (env : Environment L) (helpers : Helpers) (masks : Nat → BitVec 64) :
    Nat → List (Turn L) → Machine L → Option (List (Done L) × Machine L)
  | _, [], state => some ([], state)
  | index, turn :: rest, state =>
      (turn.op.exec env helpers
        { state with visible := turn.outside state.visible, mask := masks index }).bind fun done =>
        (runMasked env helpers masks (index + 1) rest done.state).map fun (later, last) => (done :: later, last)

end

end Trfs.Kernel
