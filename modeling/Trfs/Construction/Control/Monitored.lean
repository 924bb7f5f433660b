/-
This file runs `trctl` and the traced calls on one mount, one after the other.
-/

import Trfs.Construction.Control.Mount
import Trfs.Construction.Kernel.Run

namespace Trfs.Control
open Bytes Effect Trace Kernel

/-- What happens on a mount until its trace is replayed. -/
inductive Activity (L : Type) where
  | trctl (client : Client) (argv : List CString)
  | call (op : TracedOp)
  | outside (change : Visible L → Visible L)

section
variable {L : Type}

/-- The reports are those of the calls. -/
def runActivities (env : Environment L) (helpers : Helpers) (peek : L → BitVec 64 → BitVec 64) :
    List (Activity L) → Machine L → Option (List (Report L) × Machine L)
  | [], state => some ([], state)
  | .trctl client argv :: rest, state =>
      ((trctl argv).exec (serve env helpers peek client) state).bind fun done =>
        runActivities env helpers peek rest done.state
  | .call op :: rest, state =>
      (op.exec env helpers state).bind fun done =>
        (runActivities env helpers peek rest done.state).map fun (reports, last) => (⟨op, state, done⟩ :: reports, last)
  | .outside change :: rest, state =>
      runActivities env helpers peek rest { state with visible := change state.visible }

end

end Trfs.Control
