/-
This file lets runs of `trctl` act on a mount.
-/

import Trfs.Construction.Control.Trctl
import Trfs.Construction.Kernel.Machine
import Trfs.Library.Interleaving

namespace Trfs.Control
open Bytes Effect Trace Kernel

/-- What one run of `trctl` has open, and the address of its `retmapval`. -/
structure Client where
  fd : BitVec 32
  file : File
  fileInode : Inode
  retmapval : BitVec 64

/-- The result of a system call whose kernel function returned this value. -/
def syscallResult (value : BitVec 64) : BitVec 32 := if value.toInt < 0 then -1 else value.setWidth 32

section
variable {L : Type}

/-- The requests of one run on the mount. `peek` reads a word of the caller's memory. -/
def serve (env : Environment L) (helpers : Helpers) (peek : L → BitVec 64 → BitVec 64) (client : Client) :
    Handler ControlCall.Reply (Machine L)
  | .printf _, state => some ((), state)
  | .open _ _, state => some (client.fd, state)
  | .ioctl _ cmd arg, state =>
      ((trfsUnlockedIoctl client.file client.fileInode cmd arg).exec (handle env helpers) state).map fun done =>
        (syscallResult done.value, done.state)
  | .ioctlRet _, state =>
      ((trfsUnlockedIoctl client.file client.fileInode RET client.retmapval).exec
        (handle env helpers) state).map fun done =>
          ((syscallResult done.value, peek done.state.visible.lower client.retmapval), done.state)
  | .close _, state => some ((), state)

/-- Runs of `trctl` in the middle of their requests. Each request is one step. -/
abbrev Runs (ι L : Type) := Config ControlCall.Reply ι (Machine L) (BitVec 32)

/-- No run has begun. -/
def Runs.begin {ι : Type} (argv : ι → List CString) (state : Machine L) : Runs ι L where
  shared := state
  threads run := trctl (argv run)
  history := []

end

end Trfs.Control
