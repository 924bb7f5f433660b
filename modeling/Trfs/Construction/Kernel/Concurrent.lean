/-
This file lets any number of tasks make their calls on one mount at the same time.
-/

import Trfs.Construction.Kernel.Machine
import Trfs.Library.Interleaving

namespace Trfs.Kernel
open Effect

/-- The mount that the tasks share and the holder of each `i_mutex` of a lower directory. -/
structure Shared (ι L : Type) where
  machine : Machine L
  holder : LowerInode → Option ι

section
variable {ι L : Type}

/-- A task waits at a lock that is held. Every other call has the effect that it has on its own. -/
def handleShared (env : Environment L) (helpers : Helpers) (task : ι) : Handler Call.Reply (Shared ι L)
  | .upper (.lock inodes), state =>
      if ∀ inode ∈ inodes, (state.holder inode).isNone then
        some ((), { state with
          holder := fun inode => if inode ∈ inodes then some task else state.holder inode })
      else none
  | .upper (.unlock inodes), state =>
      some ((), { state with holder := fun inode => if inode ∈ inodes then none else state.holder inode })
  | c, state => (handle env helpers c state.machine).map fun (reply, after) =>
      (reply, { state with machine := after })

/-- The tasks in the middle of their calls. A task that makes one call after the other is several threads
here, and its schedules are those in which a thread begins after the one before it has ended. -/
abbrev World (ι L : Type) := Config Call.Reply ι (Shared ι L) Outcome

/-- No task has begun its call, and no lock is held. -/
def World.begin (ops : ι → TracedOp) (machine : Machine L) : World ι L where
  shared := { machine := machine, holder := fun _ => none }
  threads task := (ops task).program
  history := []

/-- The world after the steps of a schedule. A task that waits for a lock or has faulted makes no step. -/
def World.run [DecidableEq ι] (env : Environment L) (helpers : Helpers) (schedule : List ι)
    (world : World ι L) : Option (World ι L) := Config.run (handleShared env helpers) schedule world

/-- Every task has returned from its call. -/
def World.Finished (world : World ι L) : Prop := ∀ task, ∃ outcome, world.threads task = .pure outcome

end

end Trfs.Kernel
