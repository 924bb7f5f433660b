import Trfs.Library.Locks
import Trfs.Proof.Kernel.LeasedOperations

namespace Trfs.Kernel
open Bytes Effect Trace

/-- What a call does with the locks of the lower inodes. A call that takes such locks itself, or that may give up the last
reference on a lower inode, comes without a lock. Only the tracer opens, writes and closes its file under one: `filp_open`
with `O_CREAT` locks the directory of the trace file. -/
def callAct : Call → Act LowerInode
  | .upper (.lock inodes) => if LowerInode.null ∈ inodes then .faults else .opens inodes
  | .upper (.unlock inodes) => .closes inodes
  | .lower (.vfsCreate dir ..) | .lower (.vfsLink _ dir _) | .lower (.vfsSymlink dir ..) | .lower (.vfsMkdir dir ..)
  | .lower (.vfsRmdir dir _) | .lower (.vfsMknod dir ..) => .inside [dir]
  | .lower (.vfsRename oldDir _ newDir _) => .inside [oldDir, newDir]
  | .lower (.vfsUnlink ..) => .within
  | .lower (.pathPut _) | .lower (.dput _) | .lower (.fput _) | .lower (.dentryOpen ..) | .lower (.vfsRead ..)
  | .lower (.vfsWrite ..) | .lower (.readIter ..) | .lower (.writeIter ..) | .lower (.unlockedIoctl ..) => .outside
  | .tracer (.filpOpen ..) | .tracer (.vfsWrite ..) | .tracer (.filpClose _) => .borrows
  | _ => .anywhere

def callReads : (c : Call) → c.Reply → Option (LowerDentry × LowerInode)
  | .lower (.dInode dentry), inode => some (dentry, inode)
  | _, _ => none

def callDiscipline : Discipline Call.Reply LowerDentry LowerInode := ⟨callAct, callReads, .null⟩

abbrev Loose (c : Call) : Prop := (callDiscipline.act c).IsLoose

abbrev Outer (c : Call) : Prop := (callDiscipline.act c).IsOuter

/-- A call that needs no reference may be made with or without a lock. -/
theorem Free.loose (c : Call) (free : Free c) : Loose c := by
  cases c with
  | lower c => cases c <;> first | exact trivial | exact free.elim
  | upper c => cases c <;> first | exact trivial | exact free.elim
  | tracer c => cases c <;> exact trivial
  | oops => exact trivial
  | _ => exact free.elim

/-- So it may be made without one. -/
theorem Loose.outer (c : Call) (loose : Loose c) : Outer c := Act.IsLoose.outer loose

section
variable {α : Type} {program : Prog α}

/-- This holds of whole programs too. -/
theorem free_loose (calls : program.Calls Free) : program.Calls Loose := calls.mono Free.loose

/-- A program that may run under a lock may run without one. -/
theorem loose_outer (calls : program.Calls Loose) : program.Calls Outer := calls.mono Loose.outer

/-- So may a program that needs no reference. -/
theorem free_outer (calls : program.Calls Free) : program.Calls Outer := loose_outer (free_loose calls)

/-- The tracing block may run under a lock. -/
theorem run_loose {block : TraceBlock} (flags : block.openFlags.Calls IsRead) (mode : block.permMode.Calls IsRead) :
    block.run.Calls Loose := free_loose ((run_hidden flags mode).mono Hidden.free)

/-- A condition does not change where an action may run. -/
theorem runIf_loose {condition : Prop} [Decidable condition] {action : Prog Unit} (calls : action.Calls Loose) :
    (runIf condition action).Calls Loose := by
  unfold runIf
  split
  · exact calls
  · trivial

end

section
variable {dentry : Dentry} {path : LowerPath} {lowerDentry lowerDir : LowerDentry} {dir : Inode} {err : BitVec 32}

/-- The lower path may be taken under a lock. -/
theorem getPath_loose (dentry : Dentry) : (trfsGetLowerPath dentry).Calls Loose :=
  ⟨trivial, fun _ => ⟨trivial, fun _ => trivial⟩⟩

/-- The inode of a lower dentry may be read under a lock. -/
theorem dInode_loose (lowerDentry : LowerDentry) : (lowerDInode lowerDentry).Calls Loose := ⟨trivial, fun _ => trivial⟩

/-- `trfs_interpose` runs under the lock of the lower directory. -/
theorem interposing_loose : (trfsInterpose dentry path).Calls Loose := by
  refine ⟨trivial, fun lowerInode => ?_⟩
  apply free_loose
  refine ⟨trivial, fun lowerSb => ⟨trivial, fun super => ?_⟩⟩
  change Program.Calls Free (ite (super ≠ lowerSb) _ _)
  split
  · trivial
  · apply (trfsIget_free lowerInode).bind
    intro found
    cases found with
    | error err => trivial
    | ok inode => exact ⟨trivial, fun _ => trivial⟩

/-- The test of the lower dentry after a link may run under a lock. -/
theorem failedOrNegative_loose : (failedOrNegative err lowerDentry).Calls Loose := by
  unfold failedOrNegative
  split
  · trivial
  · exact ⟨trivial, fun _ => trivial⟩

/-- So may the test for the silly rename of NFS. -/
theorem sillyRenamed_loose : (sillyRenamed err lowerDentry).Calls Loose := by
  unfold sillyRenamed
  split
  · refine ⟨trivial, fun renamed => ?_⟩
    cases renamed <;> trivial
  · trivial

/-- One of the copies from the inode of a lower dentry. -/
theorem copyFrom_loose (select : Attributes → Attributes → Attributes) (dir : Inode) (lowerDir : LowerDentry) :
    (lowerDInode lowerDir >>= fun source => fsstackCopy select dir source).Calls Loose :=
  ⟨trivial, fun source => free_loose (fsstackCopy_free dir source select)⟩

/-- So may the copies from a lower directory. -/
theorem copyDirectory_loose : (copyDirectory dir lowerDir).Calls Loose := by
  refine ⟨trivial, fun source => ?_⟩
  apply (free_loose (fsstackCopy_free dir source _)).bind
  exact fun _ => copyFrom_loose _ dir lowerDir

/-- So may the copy of times and size after a new name. -/
theorem copyingParent_loose :
    (do
      let source ← upper (.lowerInode dir)
      fsstackCopyAttrTimes dir source
      let parentInode ← lowerDInode lowerDir
      fsstackCopyInodeSize dir parentInode : Prog Unit).Calls Loose := by
  refine ⟨trivial, fun source => ?_⟩
  apply (free_loose (fsstackCopy_free dir source _)).bind
  exact fun _ => copyFrom_loose _ dir lowerDir

end

section
variable {α : Type} {pins : List (LowerDentry × LowerInode)} {locked : Option (List LowerInode)}
  {progress : Option (Standing LowerDentry LowerInode)} {post : α → Option (Standing LowerDentry LowerInode) → Prop}
  {dentry : Dentry} {path : LowerPath} {lowerDir lowerDentry : LowerDentry} {dir : Inode} {inode : LowerInode}
  {err : BitVec 32} {buffers : TraceBuffers}

/-- A program keeps to the discipline from where it has no lock, and it ends without one. -/
def Ordered (program : Prog α) : Prop := ∀ progress, Locking [] none progress →
  program.Meets callDiscipline.monitor (fun _ => Locking [] none) progress

/-- A program without a lock takes some, or it faults at an inode that is `NULL`. -/
theorem lock_stands {inodes : List LowerInode} {next : Unit → Prog α} (stands : Locking pins none progress)
    (ends : ∀ value, post value none)
    (continues : ∀ progress, LowerInode.null ∉ inodes → Locking pins (some inodes) progress →
      (next ()).Meets callDiscipline.monitor post progress) :
    (upper (.lock inodes) >>= next).Meets callDiscipline.monitor post progress := by
  by_cases absent : LowerInode.null ∈ inodes
  · exact faults_stands (if_pos absent) ends
  · apply opens_stands (if_neg absent) stands
    exact fun _ progress stands => continues progress absent stands

/-- `lock_parent` locks the inode that it finds in the parent. -/
theorem lockParent_stands {next : LowerDentry → Prog α} (stands : Locking pins none progress) (ends : ∀ value, post value none)
    (continues : ∀ dir inode progress, Locking ((dir, inode) :: pins) (some [inode]) progress →
      (next dir).Meets callDiscipline.monitor post progress) :
    (lockParent lowerDentry >>= next).Meets callDiscipline.monitor post progress := by
  have parent : (lower (.dgetParent lowerDentry)).Calls Loose := ⟨trivial, fun _ => trivial⟩
  change (lower (.dgetParent lowerDentry) >>= fun dir => lowerDInode dir >>= fun inode =>
    upper (.lock [inode]) >>= fun _ => next dir).Meets _ _ _
  apply parent.loose stands
  intro dir progress stands
  apply read_stands rfl (fun _ => rfl) stands
  intro inode progress stands pinned
  by_cases absent : inode = .null
  · exact faults_stands (if_pos (by simp [absent])) ends
  · apply lock_stands (pinned absent) ends
    exact fun progress _ stands => continues dir inode progress stands

/-- `unlock_dir` reads the inode again that was locked. -/
theorem unlockDir_stands {next : Unit → Prog α} (stands : Locking pins (some [inode]) progress)
    (pin : (lowerDir, inode) ∈ pins) (ends : ∀ value, post value none)
    (continues : ∀ progress, Locking pins none progress → (next ()).Meets callDiscipline.monitor post progress) :
    (unlockDir lowerDir >>= next).Meets callDiscipline.monitor post progress := by
  have puts : (lower (.dput lowerDir)).Calls Outer := ⟨trivial, fun _ => trivial⟩
  change (lowerDInode lowerDir >>= fun inode => upper (.unlock [inode]) >>= fun _ => lower (.dput lowerDir) >>= next).Meets
    _ _ _
  apply again_stands rfl (fun _ => rfl) stands pin ends
  rintro shown progress rfl stands
  apply closes_stands rfl stands
  intro _ progress stands
  apply puts.outer stands
  exact fun _ progress stands => continues progress stands

/-- The end of a request that has given its locks back. -/
theorem free_settles {leave : Prog Unit} (calls : leave.Calls Outer) (stands : Locking pins none progress) :
    (leave >>= fun _ => buffers.freeInode >>= fun _ => (pure ⟨err, none⟩ : Prog Outcome)).Meets callDiscipline.monitor
      (fun _ => Locking [] none) progress := by
  apply calls.outer stands
  intro _ progress stands
  apply (free_outer (freeInode_free buffers)).outer stands
  exact fun _ progress stands => stands.settled

/-- The lower path is put without a lock. -/
theorem putPath_outer (path : LowerPath) : (trfsPutLowerPath path).Calls Outer := ⟨trivial, fun _ => trivial⟩

/-- The exit under a parent unlocks first and puts its references then. -/
theorem leaveParent_stands (stands : Locking pins (some [inode]) progress) (pin : (lowerDir, inode) ∈ pins) :
    (buffers.out (leaveParent lowerDir path) err).Meets callDiscipline.monitor (fun _ => Locking [] none) progress := by
  change (unlockDir lowerDir >>= fun _ => trfsPutLowerPath path >>= fun _ => buffers.freeInode >>= fun _ =>
    (pure ⟨err, none⟩ : Prog Outcome)).Meets _ _ _
  apply unlockDir_stands stands pin fun _ => Locking.nothing
  intro progress stands
  exact free_settles (putPath_outer path) stands

/-- The operations under a parent come to lock the inode of that parent. -/
theorem underParent_stands {next : LowerPath → LowerDentry → LowerInode → Prog α}
    (stands : Locking [] none progress) (ends : ∀ value, post value none)
    (continues : ∀ path lowerDir inode progress, Locking [(lowerDir, inode)] (some [inode]) progress →
      (next path lowerDir inode).Meets callDiscipline.monitor post progress) :
    (do
      let path ← trfsGetLowerPath dentry
      let lowerDir ← lockParent path.dentry
      let inode ← lowerDInode lowerDir
      next path lowerDir inode).Meets callDiscipline.monitor post progress := by
  apply (getPath_loose dentry).loose stands
  intro path progress stands
  apply lockParent_stands stands ends
  intro lowerDir inode progress stands
  apply again_stands rfl (fun _ => rfl) stands List.mem_cons_self ends
  rintro shown progress rfl stands
  exact continues path lowerDir shown progress stands

/-- A change of the directory whose inode is locked. -/
theorem change_stands {c : LowerCall} {locks : List LowerInode} {next : c.Reply → Prog α} (act : callAct (.lower c) = .inside locks)
    (stands : Locking pins (some locks) progress)
    (continues : ∀ reply progress, Locking pins (some locks) progress →
      (next reply).Meets callDiscipline.monitor post progress) :
    (lower c >>= next).Meets callDiscipline.monitor post progress := by
  have calls : (lower c).Calls fun c => ¬ (callDiscipline.act c).Takes ∧ (callDiscipline.act c).Allowed (some locks) := by
    change (_ ∧ _) ∧ _
    change (¬ (callAct (.lower c)).Takes ∧ (callAct (.lower c)).Allowed (some locks)) ∧ _
    rw [act]
    exact ⟨⟨id, rfl⟩, fun _ => trivial⟩
  exact calls.stands stands continues

/-- The operations that make a name end with the copy of their parent. -/
theorem made_stands (stands : Locking pins (some [inode]) progress) (pin : (lowerDir, inode) ∈ pins) :
    (do
      let source ← upper (.lowerInode dir)
      fsstackCopyAttrTimes dir source
      let parentInode ← lowerDInode lowerDir
      fsstackCopyInodeSize dir parentInode
      buffers.out (leaveParent lowerDir path) err).Meets callDiscipline.monitor (fun _ => Locking [] none) progress :=
  copyingParent_loose.loose stands fun _ _ stands => leaveParent_stands stands pin

/-- `trfs_create` takes one lock and gives it back. -/
theorem trfsCreate_ordered {mode : BitVec 16} {wantExcl : Bool} : Ordered (trfsCreate dir dentry mode wantExcl) := by
  intro progress stands
  apply underParent_stands stands fun _ => Locking.nothing
  intro path lowerDir inode progress stands
  apply change_stands rfl stands
  intro err progress stands
  apply (run_loose (by exact ⟨trivial, fun _ => trivial⟩) (by trivial)).loose stands
  intro buffers progress stands
  apply meets_ite (leaveParent_stands stands List.mem_cons_self)
  apply interposing_loose.loose stands
  intro err progress stands
  apply meets_ite (leaveParent_stands stands List.mem_cons_self)
  exact made_stands stands List.mem_cons_self

/-- `trfs_symlink` takes one lock and gives it back. -/
theorem trfsSymlink_ordered {symname : CString} : Ordered (trfsSymlink dir dentry symname) := by
  intro progress stands
  apply underParent_stands stands fun _ => Locking.nothing
  intro path lowerDir inode progress stands
  apply change_stands rfl stands
  intro err progress stands
  apply meets_ite (leaveParent_stands stands List.mem_cons_self)
  apply interposing_loose.loose stands
  intro err progress stands
  apply meets_ite (leaveParent_stands stands List.mem_cons_self)
  apply (run_loose (by trivial) (by trivial)).loose stands
  intro buffers progress stands
  exact made_stands stands List.mem_cons_self

/-- `trfs_mknod` takes one lock and gives it back. -/
theorem trfsMknod_ordered {mode : BitVec 16} {dev : BitVec 32} : Ordered (trfsMknod dir dentry mode dev) := by
  intro progress stands
  apply underParent_stands stands fun _ => Locking.nothing
  intro path lowerDir inode progress stands
  apply change_stands rfl stands
  intro err progress stands
  apply meets_ite (leaveParent_stands stands List.mem_cons_self)
  apply interposing_loose.loose stands
  intro err progress stands
  apply meets_ite (leaveParent_stands stands List.mem_cons_self)
  apply (run_loose (by trivial) (by trivial)).loose stands
  intro buffers progress stands
  exact made_stands stands List.mem_cons_self

/-- `trfs_mkdir` takes one lock and gives it back. -/
theorem trfsMkdir_ordered {mode : BitVec 16} : Ordered (trfsMkdir dir dentry mode) := by
  intro progress stands
  apply underParent_stands stands fun _ => Locking.nothing
  intro path lowerDir inode progress stands
  apply change_stands rfl stands
  intro err progress stands
  apply meets_ite (leaveParent_stands stands List.mem_cons_self)
  apply (run_loose (by exact ⟨trivial, fun _ => trivial⟩) (by trivial)).loose stands
  intro buffers progress stands
  apply interposing_loose.loose stands
  intro err progress stands
  apply meets_ite (leaveParent_stands stands List.mem_cons_self)
  apply copyingParent_loose.loose stands
  intro _ progress stands
  have copies : (do
      let lowerDir ← upper (.lowerInode dir)
      copyNlink dir lowerDir : Prog Unit).Calls Loose :=
    free_loose ⟨trivial, fun source => fsstackCopy_free dir source _⟩
  apply copies.loose stands
  exact fun _ progress stands => leaveParent_stands stands List.mem_cons_self

/-- `trfs_rmdir` takes one lock and gives it back. -/
theorem trfsRmdir_ordered : Ordered (trfsRmdir dir dentry) := by
  intro progress stands
  apply underParent_stands stands fun _ => Locking.nothing
  intro path lowerDir inode progress stands
  apply change_stands rfl stands
  intro err progress stands
  apply meets_ite (leaveParent_stands stands List.mem_cons_self)
  apply (run_loose (by exact ⟨trivial, fun _ => trivial⟩) (by exact ⟨trivial, fun _ => trivial⟩)).loose stands
  intro buffers progress stands
  have drops : (upper (.dDrop dentry)).Calls Loose := ⟨trivial, fun _ => trivial⟩
  apply drops.loose stands
  intro _ progress stands
  apply (free_loose (clearNlink_free dentry)).loose stands
  intro _ progress stands
  apply (copyFrom_loose _ dir lowerDir).loose stands
  intro _ progress stands
  apply (copyFrom_loose _ dir lowerDir).loose stands
  intro _ progress stands
  apply (copyFrom_loose _ dir lowerDir).loose stands
  exact fun _ progress stands => leaveParent_stands stands List.mem_cons_self

/-- `trfs_unlink` locks the directory of the lower dentry. -/
theorem trfsUnlink_ordered : Ordered (trfsUnlink dir dentry) := by
  intro progress stands
  have looks : ∀ inode, (upper (.lowerInode inode)).Calls Loose := fun _ => ⟨trivial, fun _ => trivial⟩
  apply (looks dir).loose stands
  intro lowerDirInode progress stands
  apply (getPath_loose dentry).loose stands
  intro path progress stands
  have gets : (lower (.dget path.dentry)).Calls Loose := ⟨trivial, fun _ => trivial⟩
  apply gets.loose stands
  intro _ progress stands
  apply lockParent_stands stands fun _ => Locking.nothing
  intro lowerDir inode progress stands
  have leaves : ∀ (buffers : TraceBuffers) (err : BitVec 32) progress,
      Locking [(lowerDir, inode)] (some [inode]) progress →
      (buffers.out (leaveUnlink lowerDir path.dentry path) err).Meets callDiscipline.monitor (fun _ => Locking [] none)
        progress := by
    intro buffers err progress stands
    have rest : (do
        lower (.dput path.dentry)
        trfsPutLowerPath path : Prog Unit).Calls Outer := ⟨trivial, fun _ => putPath_outer path⟩
    apply unlockDir_stands stands List.mem_cons_self fun _ => Locking.nothing
    exact fun progress stands => free_settles rest stands
  have removes : (lower (.vfsUnlink lowerDirInode path.dentry)).Calls fun c =>
      ¬ (callDiscipline.act c).Takes ∧ (callDiscipline.act c).Allowed (some [inode]) :=
    ⟨⟨id, inode, [], rfl⟩, fun _ => trivial⟩
  apply removes.stands stands
  intro err progress stands
  apply sillyRenamed_loose.loose stands
  intro err progress stands
  apply meets_ite (leaves _ err progress stands)
  apply (run_loose (by trivial) (by trivial)).loose stands
  intro buffers progress stands
  apply (free_loose (fsstackCopy_free dir lowerDirInode _)).loose stands
  intro _ progress stands
  apply (free_loose (fsstackCopy_free dir lowerDirInode _)).loose stands
  intro _ progress stands
  have reads : (upper (.dInode dentry)).Calls Loose := ⟨trivial, fun _ => trivial⟩
  apply reads.loose stands
  intro upperInode progress stands
  apply (looks upperInode).loose stands
  intro lowerInode progress stands
  apply (free_loose (fsstackCopy_free upperInode lowerInode _)).loose stands
  intro _ progress stands
  apply (free_loose (inodeMember_free dir _)).loose stands
  intro ctime progress stands
  apply reads.loose stands
  intro upperInode progress stands
  apply (free_loose (changeAttributes_free upperInode _)).loose stands
  intro _ progress stands
  have drops : (upper (.dDrop dentry)).Calls Loose := ⟨trivial, fun _ => trivial⟩
  apply drops.loose stands
  exact fun _ progress stands => leaves buffers err progress stands

section
variable {oldPath newPath : LowerPath} {oldDentry newDentry : Dentry}

/-- The exit of a link unlocks first. -/
theorem leaveLink_stands (stands : Locking pins (some [inode]) progress) (pin : (lowerDir, inode) ∈ pins) :
    (buffers.out (leaveLink lowerDir oldPath newPath) err).Meets callDiscipline.monitor (fun _ => Locking [] none)
      progress := by
  have rest : (do
      trfsPutLowerPath oldPath
      trfsPutLowerPath newPath : Prog Unit).Calls Outer := (putPath_outer oldPath).bind fun _ => putPath_outer newPath
  apply unlockDir_stands stands pin fun _ => Locking.nothing
  exact fun progress stands => free_settles rest stands

/-- `trfs_link` takes one lock and gives it back. -/
theorem trfsLink_ordered : Ordered (trfsLink oldDentry dir newDentry) := by
  intro progress stands
  have reads : ∀ dentry, (upper (.dInode dentry)).Calls Loose := fun _ => ⟨trivial, fun _ => trivial⟩
  apply (reads oldDentry).loose stands
  intro oldInode progress stands
  apply (free_loose (inodeMember_free oldInode _)).loose stands
  intro fileSizeSave progress stands
  apply (getPath_loose oldDentry).loose stands
  intro oldPath progress stands
  apply (getPath_loose newDentry).loose stands
  intro newPath progress stands
  apply lockParent_stands stands fun _ => Locking.nothing
  intro lowerDir inode progress stands
  apply again_stands rfl (fun _ => rfl) stands List.mem_cons_self fun _ => Locking.nothing
  rintro shown progress rfl stands
  apply change_stands rfl stands
  intro err progress stands
  apply failedOrNegative_loose.loose stands
  intro failed progress stands
  cases failed with
  | true => exact leaveLink_stands stands List.mem_cons_self
  | false =>
      apply interposing_loose.loose stands
      intro err progress stands
      apply meets_ite (leaveLink_stands stands List.mem_cons_self)
      apply (run_loose (by trivial) (by trivial)).loose stands
      intro buffers progress stands
      apply (copyFrom_loose _ dir newPath.dentry).loose stands
      intro _ progress stands
      apply (copyFrom_loose _ dir newPath.dentry).loose stands
      intro _ progress stands
      apply (reads oldDentry).loose stands
      intro oldInode progress stands
      have looks : (upper (.lowerInode oldInode)).Calls Loose := ⟨trivial, fun _ => trivial⟩
      apply looks.loose stands
      intro lowerOldInode progress stands
      apply (free_loose (fsstackCopy_free oldInode lowerOldInode _)).loose stands
      intro _ progress stands
      apply (reads newDentry).loose stands
      intro newInode progress stands
      apply (free_loose (changeAttributes_free newInode _)).loose stands
      exact fun _ progress stands => leaveLink_stands stands List.mem_cons_self

end

section
variable {below : RenameLower} {a b : LowerInode}

/-- `lock_rename` locks both inodes at once. -/
theorem lockRename_stands {first second : LowerDentry} {next : Option LowerDentry → Prog α} (stands : Locking pins none progress)
    (ends : ∀ value, post value none)
    (continues : ∀ trap a b progress, Locking ((second, b) :: (first, a) :: pins) (some [a, b]) progress →
      (next trap).Meets callDiscipline.monitor post progress) :
    (lockRename first second >>= next).Meets callDiscipline.monitor post progress := by
  change (lowerDInode first >>= fun a => lowerDInode second >>= fun b => upper (.lock [a, b]) >>= fun _ =>
    lower (.renameTrap first second) >>= next).Meets _ _ _
  apply read_stands rfl (fun _ => rfl) stands
  intro a progress stands firstPin
  by_cases absent : a = .null
  · apply (dInode_loose second).loose stands
    exact fun b progress _ => faults_stands (if_pos (by simp [absent])) ends
  apply read_stands rfl (fun _ => rfl) (firstPin absent)
  intro b progress stands secondPin
  by_cases missing : b = .null
  · exact faults_stands (if_pos (by simp [missing])) ends
  apply lock_stands (secondPin missing) ends
  intro progress _ stands
  have traps : (lower (.renameTrap first second)).Calls Loose := ⟨trivial, fun _ => trivial⟩
  apply traps.loose stands
  exact fun trap progress stands => continues trap a b progress stands

/-- The exit of a rename unlocks both directories first. -/
theorem leaveRename_stands (stands : Locking pins (some [a, b]) progress) (first : (below.oldDir, a) ∈ pins)
    (second : (below.newDir, b) ∈ pins) :
    (buffers.out (leaveRename below) err).Meets callDiscipline.monitor (fun _ => Locking [] none) progress := by
  have rest : (do
      lower (.dput below.oldDir)
      lower (.dput below.newDir)
      trfsPutLowerPath below.oldPath
      trfsPutLowerPath below.newPath : Prog Unit).Calls Outer :=
    ⟨trivial, fun _ => ⟨trivial, fun _ => ⟨trivial, fun _ => putPath_outer below.newPath⟩⟩⟩
  change (lowerDInode below.oldDir >>= fun a => lowerDInode below.newDir >>= fun b => upper (.unlock [a, b]) >>= fun _ =>
    _).Meets _ _ _
  apply again_stands rfl (fun _ => rfl) stands first fun _ => Locking.nothing
  rintro shown progress rfl stands
  apply again_stands rfl (fun _ => rfl) stands second fun _ => Locking.nothing
  rintro other progress rfl stands
  apply closes_stands rfl stands
  exact fun _ progress stands => free_settles rest stands

/-- `trfs_rename` takes its two locks at once and gives them back. -/
theorem trfsRename_ordered {oldDir newDir : Inode} {oldDentry newDentry : Dentry} :
    Ordered (trfsRename oldDir oldDentry newDir newDentry) := by
  intro progress stands
  apply (getPath_loose oldDentry).loose stands
  intro oldPath progress stands
  apply (getPath_loose newDentry).loose stands
  intro newPath progress stands
  have parent : ∀ dentry, (lower (.dgetParent dentry)).Calls Loose := fun _ => ⟨trivial, fun _ => trivial⟩
  apply (parent oldPath.dentry).loose stands
  intro lowerOldDir progress stands
  apply (parent newPath.dentry).loose stands
  intro lowerNewDir progress stands
  apply lockRename_stands stands fun _ => Locking.nothing
  intro trap a b progress stands
  have newPin : (lowerNewDir, b) ∈ [(lowerNewDir, b), (lowerOldDir, a)] := List.mem_cons_self
  have oldPin : (lowerOldDir, a) ∈ [(lowerNewDir, b), (lowerOldDir, a)] := List.mem_cons_of_mem _ List.mem_cons_self
  apply meets_ite (leaveRename_stands stands oldPin newPin)
  apply meets_ite (leaveRename_stands stands oldPin newPin)
  apply again_stands rfl (fun _ => rfl) stands oldPin fun _ => Locking.nothing
  rintro shown progress rfl stands
  apply again_stands rfl (fun _ => rfl) stands newPin fun _ => Locking.nothing
  rintro other progress rfl stands
  apply change_stands rfl stands
  intro err progress stands
  apply meets_ite (leaveRename_stands stands oldPin newPin)
  apply (run_loose (by trivial) (by trivial)).loose stands
  intro buffers progress stands
  apply copyDirectory_loose.loose stands
  intro _ progress stands
  apply (runIf_loose copyDirectory_loose).loose stands
  exact fun _ progress stands => leaveRename_stands stands oldPin newPin

end

end

end Trfs.Kernel
