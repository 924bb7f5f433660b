/-
This file lets any number of tasks make requests of one mount at the same time.
-/

import Trfs.Construction.Kernel.Methods
import Trfs.Library.Interleaving

namespace Trfs.Kernel.Methods
open Effect

/-- The mount that the tasks share and the holder of each `i_mutex` of a lower inode. -/
structure SharedMount (ι L : Type) where
  mounted : Mounted L
  holder : LowerInode → Option ι

section
variable {ι L : Type}

/-- The calls of the tracer on its file. They walk its path, and opening it with `O_CREAT` locks its directory. -/
def usesTraceFile : TableCall → Bool
  | .mount (.kernel (.tracer (.filpOpen ..))) | .mount (.kernel (.tracer (.vfsWrite ..)))
  | .mount (.kernel (.tracer (.filpClose _))) => true
  | _ => false

/-- A task waits at a lock that is held, and it waits at its trace file while somebody, maybe the task itself, holds one of
the locks that the calls on the file take: `traceInodes` are the lower inodes on the path of the trace file and its own.
There are none when the trace file is not in the lower filesystem. Every other call has the effect that it has on its
own. -/
def handleTasks (traceInodes : List LowerInode) (env : MethodEnvironment L) (helpers : Helpers) (task : ι) :
    Handler TableCall.Reply (SharedMount ι L)
  | .mount (.kernel (.upper (.lock inodes))), state =>
      if LowerInode.null ∉ inodes ∧ ∀ inode ∈ inodes, (state.holder inode).isNone then
        some ((), { state with holder := fun inode => if inode ∈ inodes then some task else state.holder inode })
      else none
  | .mount (.kernel (.upper (.unlock inodes))), state =>
      some ((), { state with holder := fun inode => if inode ∈ inodes then none else state.holder inode })
  | c, state =>
      if usesTraceFile c ∧ ¬ ∀ inode ∈ traceInodes, (state.holder inode).isNone then none
      else (handleTable env helpers c state.mounted).map fun (reply, after) => (reply, { state with mounted := after })

/-- The tasks in the middle of their requests. -/
abbrev RequestTasks (ι L : Type) := Config TableCall.Reply ι (SharedMount ι L) Unit

/-- No task has begun its request, and no lock is held. -/
def RequestTasks.begin (requests : ι → Request) (mounted : Mounted L) : RequestTasks ι L where
  shared := ⟨mounted, fun _ => none⟩
  threads task := (requests task).program
  history := []

def RequestTasks.run [DecidableEq ι] (traceInodes : List LowerInode) (env : MethodEnvironment L) (helpers : Helpers)
    (schedule : List ι) (tasks : RequestTasks ι L) : Option (RequestTasks ι L) :=
  Config.run (handleTasks traceInodes env helpers) schedule tasks

end

end Trfs.Kernel.Methods
