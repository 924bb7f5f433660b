/-
This file runs requests on a mount whose dentries and open files hold references.
-/

import Mathlib.Data.Finset.Erase
import Mathlib.Data.Finset.Insert
import Trfs.Construction.Kernel.Vfs
import Trfs.Library.Transitions

namespace Trfs.Kernel
open Effect

/-- A mount with the dentries that have private data and the files that are open. -/
structure Mounted (L : Type) where
  machine : Machine L
  live : Finset Nat
  opened : Finset Nat

structure VfsEnvironment (L : Type) extends Environment L where
  vfs : (c : VfsCall) → L → c.Reply × L

def LowerPath.unset : LowerPath := ⟨⟨0⟩, 0⟩

section
variable {L : Type}

def Mounted.setMachine (state : Mounted L) (machine : Machine L) : Mounted L := { state with machine := machine }

def Mounted.lowerPath (state : Mounted L) (address : Nat) : LowerPath := state.machine.visible.upper.lowerPath address

def Mounted.lowerFile (state : Mounted L) (address : Nat) : Option LowerFile :=
  state.machine.visible.upper.lowerFile address

/-- The calls of the other files. They fault on private data that are not there and on the lock of no inode. -/
def handleOwned (env : Environment L) (helpers : Helpers) : Handler Call.Reply (Mounted L)
  | .upper (.lock inodes), state => if LowerInode.null ∈ inodes then none else some ((), state)
  | .upper (.lowerPath dentry), state =>
      if dentry.address ∈ state.live then some (state.lowerPath dentry.address, state) else none
  | .upper (.lowerFile file), state =>
      if file.address ∈ state.opened then some (state.lowerFile file.address, state) else none
  | .upper (.setLowerFile file value), state =>
      if file.address ∈ state.opened then
        (handle env helpers (.upper (.setLowerFile file value)) state.machine).map fun (reply, after) =>
          (reply, state.setMachine after)
      else none
  | .upper (.kzallocFileInfo file), state =>
      (handle env helpers (.upper (.kzallocFileInfo file)) state.machine).map fun (reply, after) =>
        (reply, { state with
          machine := after
          opened := if reply then insert file.address state.opened else state.opened })
  | .upper (.kfreeFileInfo file), state =>
      (handle env helpers (.upper (.kfreeFileInfo file)) state.machine).map fun (reply, after) =>
        (reply, { state with machine := after, opened := state.opened.erase file.address })
  | c, state => (handle env helpers c state.machine).map fun (reply, after) => (reply, state.setMachine after)

/-- The mount with another state outside it. -/
def Mounted.setLower (state : Mounted L) (after : L) : Mounted L :=
  state.setMachine { state.machine with visible := { state.machine.visible with lower := after } }

def Mounted.setUpper (state : Mounted L) (upper : Upper) : Mounted L :=
  state.setMachine { state.machine with visible := state.machine.visible.setUpper upper }

/-- The member `lower_path` of the private data of a dentry. -/
def Mounted.setPath (state : Mounted L) (dentry : Dentry) (path : LowerPath) : Mounted L :=
  state.setUpper { state.machine.visible.upper with
    lowerPath := Function.update state.machine.visible.upper.lowerPath dentry.address path }

def handleMount (env : VfsEnvironment L) (helpers : Helpers) : Handler MountCall.Reply (Mounted L)
  | .kernel c, state => handleOwned env.toEnvironment helpers c state
  | .vfs (.newDentryPrivateData dentry), state =>
      let (reply, after) := env.vfs (.newDentryPrivateData dentry) state.machine.visible.lower
      let state := state.setLower after
      some (reply, if reply then
        { state.setPath dentry .unset with live := insert dentry.address state.live } else state)
  | .vfs (.setLowerPath dentry path), state =>
      if dentry.address ∈ state.live then some ((), state.setPath dentry path) else none
  | .vfs (.takeLowerPath dentry), state =>
      if dentry.address ∈ state.live then some (state.lowerPath dentry.address, state.setPath dentry .unset) else none
  | .vfs (.freeDentryPrivateData dentry), state => some ((), { state with live := state.live.erase dentry.address })
  | .vfs (.dSpliceAlias inode dentry), state =>
      let (reply, after) := env.vfs (.dSpliceAlias inode dentry) state.machine.visible.lower
      let state := state.setLower after
      let upper := state.machine.visible.upper
      some (reply, match reply with
        | .null => state.setUpper { upper with
            inode := Function.update upper.inode dentry.address inode
            unhashed := Function.update upper.unhashed dentry.address false }
        | _ => state)
  | .vfs c, state =>
      let (reply, after) := env.vfs c state.machine.visible.lower
      some (reply, state.setLower after)

/-- One call of the VFS into the filesystem. -/
inductive VfsRequest where
  | traced (op : TracedOp)
  | readIter (iocb : Kiocb File) (iter : List Segment)
  | writeIter (iocb : Kiocb File) (memory : UserMemory) (iter : List Segment)
  | lookup (dentry : Dentry)
  | revalidate (dentry : Dentry) (flags : BitVec 32)
  | release (dentry : Dentry)
  | setattr (dentry : Dentry) (ia : Iattr (Option File))
  | getattr (dentry : Dentry)
  | fsync (file : File) (start last : BitVec 64) (datasync : BitVec 32)

/-- The program of a request without its result. -/
def VfsRequest.program : VfsRequest → MountProg Unit
  | .traced op => do
      let _ ← kernel op.program
      pure ()
  | .readIter iocb iter => do
      let _ ← kernel (trfsReadIter iocb iter)
      pure ()
  | .writeIter iocb memory iter => do
      let _ ← kernel (trfsWriteIter iocb memory iter)
      pure ()
  | .lookup dentry => do
      let _ ← trfsLookup dentry
      pure ()
  | .revalidate dentry flags => do
      let _ ← trfsDRevalidate dentry flags
      pure ()
  | .release dentry => trfsDentryRelease dentry
  | .setattr dentry ia => do
      let _ ← trfsSetattr dentry ia
      pure ()
  | .getattr dentry => do
      let _ ← trfsGetattr dentry
      pure ()
  | .fsync file start last datasync => do
      let _ ← trfsFsync file start last datasync
      pure ()

/-- The VFS looks up a new dentry and opens a new file. -/
def VfsRequest.Fresh (state : Mounted L) : VfsRequest → Prop
  | .lookup dentry => dentry.address ∉ state.live
  | .traced (.open _ file) => file.address ∉ state.opened
  | _ => True

/-- The VFS makes a request, or the rest of the kernel changes everything but the private data of the mount. -/
inductive MountAction (L : Type) where
  | request (request : VfsRequest)
  | outside (change : Visible L → Visible L) (mask : BitVec 64)

def Mounted.change (state : Mounted L) (change : Visible L → Visible L) (mask : BitVec 64) : Mounted L :=
  let visible := change state.machine.visible
  let own := state.machine.visible.upper
  state.setMachine { state.machine with
    mask := mask
    visible := visible.setUpper { visible.upper with
      lowerPath := own.lowerPath
      fileInfo := own.fileInfo
      lowerFile := own.lowerFile } }

/-- One action of a run with the calls that it makes. A request that faults ends the run. -/
def mountStep (env : VfsEnvironment L) (helpers : Helpers) :
    MountAction L → Mounted L × List (Event MountCall.Reply) → Option (Mounted L × List (Event MountCall.Reply))
  | .request request, (state, events) =>
      (request.program.exec (handleMount env helpers) state).map fun done => (done.state, events ++ done.events)
  | .outside change mask, (state, events) => some (state.change change mask, events)

def MountAction.Fresh (reached : Mounted L × List (Event MountCall.Reply)) : MountAction L → Prop
  | .request made => made.Fresh reached.1
  | .outside .. => True

end

end Trfs.Kernel
