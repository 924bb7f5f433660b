import Trfs.Proof.Kernel.Attributes

namespace Trfs.Kernel
open Bytes Effect Trace

section
variable {L : Type} {env : Environment L} {helpers : Helpers} {shape : L → LowerShape} {dir : Inode}
  {own : LowerInode} {paths : Nat → LowerPath} {tree : LowerShape} {now : Attributes} {state : Machine L}
  {progress : Sources} {α : Type}

/-- After a call that succeeded the directory has the size and the times of its own lower inode, and only these. -/
def Refreshed (shape : L → LowerShape) (dir : Inode) (own : LowerInode) (paths : Nat → LowerPath)
    (outcome : Outcome) (state : Machine L) (progress : Sources) : Prop :=
  outcome.err = 0 → ∃ tree now, SameSizeTimes now (tree.attributes own) ∧
    Steady shape dir own paths tree now state progress

/-- The end of an operation that failed. -/
theorem failed_ensures (shows : Shows env shape) {leave : Prog Unit} {err : BitVec 32} {buffers : TraceBuffers}
    (leaves : leave.Calls Calm) (failed : err ≠ 0) (steady : Steady shape dir own paths tree now state progress) :
    (buffers.out leave err).Ensures (handle env helpers) sourcing (Refreshed shape dir own paths) state progress :=
  out_ensures shows leaves steady fun _ _ _ succeeded => absurd succeeded failed

/-- The end of an operation after the directory was refreshed. -/
theorem refreshed_ensures (shows : Shows env shape) {leave : Prog Unit} {err : BitVec 32} {buffers : TraceBuffers}
    (leaves : leave.Calls Calm) (same : SameSizeTimes now (tree.attributes own))
    (steady : Steady shape dir own paths tree now state progress) :
    (buffers.out leave err).Ensures (handle env helpers) sourcing (Refreshed shape dir own paths) state progress :=
  out_ensures shows leaves steady fun _ _ steady _ => ⟨tree, now, same, steady⟩

/-- Unlocking the directory changes no attributes. -/
theorem unlockDir_calm (lowerDir : LowerDentry) : (unlockDir lowerDir).Calls Calm :=
  ⟨id, fun _ => ⟨trivial, fun _ => ⟨id, fun _ => trivial⟩⟩⟩

/-- Putting the lower path changes none. -/
theorem trfsPutLowerPath_calm (path : LowerPath) : (trfsPutLowerPath path).Calls Calm := ⟨id, fun _ => trivial⟩

/-- The exit under a parent changes none. -/
theorem leaveParent_calm (lowerParent : LowerDentry) (path : LowerPath) : (leaveParent lowerParent path).Calls Calm :=
  (unlockDir_calm lowerParent).bind fun _ => trfsPutLowerPath_calm path

/-- The exit of a link changes none. -/
theorem leaveLink_calm (lowerDir : LowerDentry) (oldPath newPath : LowerPath) :
    (leaveLink lowerDir oldPath newPath).Calls Calm :=
  (unlockDir_calm lowerDir).bind fun _ => (trfsPutLowerPath_calm oldPath).bind fun _ => trfsPutLowerPath_calm newPath

/-- The exit of an unlink changes none. -/
theorem leaveUnlink_calm (lowerDir lowerDentry : LowerDentry) (path : LowerPath) :
    (leaveUnlink lowerDir lowerDentry path).Calls Calm :=
  (unlockDir_calm lowerDir).bind fun _ => ⟨id, fun _ => trfsPutLowerPath_calm path⟩

/-- The exit of a rename changes none. -/
theorem leaveRename_calm (below : RenameLower) : (leaveRename below).Calls Calm := by
  have unlocks : (unlockRename below.oldDir below.newDir).Calls Calm :=
    ⟨id, fun _ => ⟨id, fun _ => ⟨trivial, fun _ => trivial⟩⟩⟩
  apply unlocks.bind
  intro _
  refine ⟨id, fun _ => ⟨id, fun _ => ?_⟩⟩
  exact (trfsPutLowerPath_calm below.oldPath).bind fun _ => trfsPutLowerPath_calm below.newPath

/-- The times of the directory come from its own lower inode. -/
theorem copyTimes_ensures (shows : Shows env shape) {src : LowerInode} {next : Unit → Prog α}
    {post : α → Machine L → Sources → Prop} (steady : Steady shape dir own paths tree now state progress)
    (owns : src = own)
    (rest : ∀ state progress value, SameTimes value (tree.attributes own) →
      Steady shape dir own paths tree value state progress →
      (next ()).Ensures (handle env helpers) sourcing post state progress) :
    (fsstackCopyAttrTimes dir src >>= next).Ensures (handle env helpers) sourcing post state progress := by
  apply copy_ensures shows steady fun _ => owns
  intro state progress value here steady
  rw [given_self] at steady
  apply rest state progress value _ steady
  rw [here rfl]
  exact ⟨rfl, rfl, rfl⟩

/-- A directory with the right times needs the size only. -/
theorem copySize_ensures (shows : Shows env shape) {src : LowerInode} {next : Unit → Prog α}
    {post : α → Machine L → Sources → Prop} (steady : Steady shape dir own paths tree now state progress)
    (owns : src = own) (times : SameTimes now (tree.attributes own))
    (rest : ∀ state progress value, SameSizeTimes value (tree.attributes own) →
      Steady shape dir own paths tree value state progress →
      (next ()).Ensures (handle env helpers) sourcing post state progress) :
    (fsstackCopyInodeSize dir src >>= next).Ensures (handle env helpers) sourcing post state progress := by
  apply copy_ensures shows steady fun _ => owns
  intro state progress value here steady
  rw [given_self] at steady
  apply rest state progress value _ steady
  rw [here rfl]
  exact ⟨rfl, times⟩

/-- A link count that is copied changes neither the size nor the times. -/
theorem copyNlink_ensures (shows : Shows env shape) {dest : Inode} {src : LowerInode} {next : Unit → Prog α}
    {post : α → Machine L → Sources → Prop} (steady : Steady shape dir own paths tree now state progress)
    (owns : dest = dir → src = own) (same : SameSizeTimes now (tree.attributes own))
    (rest : ∀ state progress value, SameSizeTimes value (tree.attributes own) →
      Steady shape dir own paths tree value state progress →
      (next ()).Ensures (handle env helpers) sourcing post state progress) :
    (copyNlink dest src >>= next).Ensures (handle env helpers) sourcing post state progress := by
  apply copy_ensures shows steady owns
  intro state progress value here steady
  apply rest state progress _ _ steady
  by_cases self : dest = dir
  · subst self
    rw [given_self, here rfl]
    exact same
  · rw [given_other self]
    exact same

/-- An update that keeps the size and the times of the directory, or is none of it. -/
theorem changeAttributes_keeps {inode : Inode} {change : Attributes → Attributes} {next : Unit → Prog α}
    {post : α → Machine L → Sources → Prop} (steady : Steady shape dir own paths tree now state progress)
    (same : SameSizeTimes now (tree.attributes own)) (kept : SameSizeTimes (change now) (tree.attributes own))
    (rest : ∀ state progress value, SameSizeTimes value (tree.attributes own) →
      Steady shape dir own paths tree value state progress →
      (next ()).Ensures (handle env helpers) sourcing post state progress) :
    (changeAttributes inode change >>= next).Ensures (handle env helpers) sourcing post state progress := by
  apply changeAttributes_ensures steady
  intro state progress value here steady
  apply rest state progress _ _ steady
  by_cases self : inode = dir
  · subst self
    rw [given_self, here rfl]
    exact kept
  · rw [given_other self]
    exact same

/-- The refresh after an entry was added: the times through the inode of the mount, the size through the dentry. -/
theorem copyParent_ensures (shows : Shows env shape) {lowerParent : LowerDentry} {next : Unit → Prog α}
    {post : α → Machine L → Sources → Prop} (steady : Steady shape dir own paths tree now state progress)
    (parent : tree.inode lowerParent = own)
    (rest : ∀ state progress value, SameSizeTimes value (tree.attributes own) →
      Steady shape dir own paths tree value state progress →
      (next ()).Ensures (handle env helpers) sourcing post state progress) :
    (upper (.lowerInode dir) >>= fun lowerDir => fsstackCopyAttrTimes dir lowerDir >>= fun _ =>
      lowerDInode lowerParent >>= fun parentInode => fsstackCopyInodeSize dir parentInode >>= next).Ensures
      (handle env helpers) sourcing post state progress := by
  apply lowerInode_ensures shows steady
  intro lowerDir state progress owns steady
  apply copyTimes_ensures shows steady (owns rfl)
  intro state progress value times steady
  apply dInode_ensures shows steady
  intro state progress steady
  exact copySize_ensures shows steady parent times rest

/-- The start of the operations that lock the parent of one dentry. -/
theorem lockedParent_ensures (shows : Shows env shape) {dentry : Dentry}
    {rest : LowerPath → LowerDentry → LowerInode → Prog α} {post : α → Machine L → Sources → Prop}
    (steady : Steady shape dir own paths tree now state progress)
    (continues : ∀ state progress, Steady shape dir own paths tree now state progress →
      (rest (paths dentry.address) (tree.parent (paths dentry.address).dentry)
        (tree.inode (tree.parent (paths dentry.address).dentry))).Ensures
        (handle env helpers) sourcing post state progress) :
    (trfsGetLowerPath dentry >>= fun path => lockParent path.dentry >>= fun parent =>
      lowerDInode parent >>= fun inode => rest path parent inode).Ensures
      (handle env helpers) sourcing post state progress := by
  apply getPath_ensures shows steady
  intro state progress steady
  apply lockParent_ensures shows steady
  intro state progress steady
  exact dInode_ensures shows steady continues

/-- After a successful `trfs_create` the directory has times and size from its lower inode. -/
theorem trfsCreate_ensures (shows : Shows env shape) (fresh : Fresh env dir) {dentry : Dentry} {mode : BitVec 16}
    {wantExcl : Bool} (steady : Steady shape dir own paths tree now state progress)
    (parent : tree.inode (tree.parent (paths dentry.address).dentry) = own) :
    (trfsCreate dir dentry mode wantExcl).Ensures (handle env helpers) sourcing
      (Refreshed shape dir own paths) state progress := by
  unfold trfsCreate
  apply lockedParent_ensures shows steady
  intro state progress steady
  apply change_ensures shows (by trivial) steady
  intro err state after progress kept steady
  refine run_ensures shows steady (inodeMember_reads _ _) trivial ?_
  intro buffers state progress steady
  by_cases failed : err ≠ 0
  · rw [if_pos failed]
    exact failed_ensures shows (leaveParent_calm _ _) failed steady
  rw [if_neg failed]
  apply trfsInterpose_ensures shows fresh steady
  intro err state progress steady
  by_cases failed : err ≠ 0
  · rw [if_pos failed]
    exact failed_ensures shows (leaveParent_calm _ _) failed steady
  rw [if_neg failed]
  apply copyParent_ensures shows steady ((kept _).trans parent)
  intro state progress value same steady
  exact refreshed_ensures shows (leaveParent_calm _ _) same steady

/-- Symlinks and device nodes attach the new inode first and are traced after that. -/
theorem attach_ensures (shows : Shows env shape) (fresh : Fresh env dir) {dentry : Dentry} {path : LowerPath}
    {lowerParent : LowerDentry} {block : BitVec 32 → TraceBlock} {err : BitVec 32}
    (steady : Steady shape dir own paths tree now state progress) (parent : tree.inode lowerParent = own)
    (flags : (block 0).openFlags.Calls IsRead) (mode : (block 0).permMode.Calls IsRead) :
    (if err ≠ 0 then TraceBuffers.null.out (leaveParent lowerParent path) err else
      trfsInterpose dentry path >>= fun err =>
        if err ≠ 0 then TraceBuffers.null.out (leaveParent lowerParent path) err else
          (block err).run >>= fun buffers => upper (.lowerInode dir) >>= fun lowerDir =>
            fsstackCopyAttrTimes dir lowerDir >>= fun _ => lowerDInode lowerParent >>= fun parentInode =>
              fsstackCopyInodeSize dir parentInode >>= fun _ =>
                buffers.out (leaveParent lowerParent path) err).Ensures
      (handle env helpers) sourcing (Refreshed shape dir own paths) state progress := by
  by_cases failed : err ≠ 0
  · rw [if_pos failed]
    exact failed_ensures shows (leaveParent_calm _ _) failed steady
  rw [if_neg failed]
  apply trfsInterpose_ensures shows fresh steady
  intro err state progress steady
  by_cases failed : err ≠ 0
  · rw [if_pos failed]
    exact failed_ensures shows (leaveParent_calm _ _) failed steady
  obtain rfl := not_not.mp failed
  apply run_ensures shows steady flags mode
  intro buffers state progress steady
  apply copyParent_ensures shows steady parent
  intro state progress value same steady
  exact refreshed_ensures shows (leaveParent_calm _ _) same steady

/-- So it has after `trfs_symlink`. -/
theorem trfsSymlink_ensures (shows : Shows env shape) (fresh : Fresh env dir) {dentry : Dentry} {symname : CString}
    (steady : Steady shape dir own paths tree now state progress)
    (parent : tree.inode (tree.parent (paths dentry.address).dentry) = own) :
    (trfsSymlink dir dentry symname).Ensures (handle env helpers) sourcing
      (Refreshed shape dir own paths) state progress := by
  unfold trfsSymlink
  apply lockedParent_ensures shows steady
  intro state progress steady
  apply change_ensures shows (by trivial) steady
  intro err state after progress kept steady
  exact attach_ensures shows fresh steady ((kept _).trans parent) trivial trivial

/-- So it has after `trfs_mknod`. -/
theorem trfsMknod_ensures (shows : Shows env shape) (fresh : Fresh env dir) {dentry : Dentry} {mode : BitVec 16}
    {dev : BitVec 32} (steady : Steady shape dir own paths tree now state progress)
    (parent : tree.inode (tree.parent (paths dentry.address).dentry) = own) :
    (trfsMknod dir dentry mode dev).Ensures (handle env helpers) sourcing
      (Refreshed shape dir own paths) state progress := by
  unfold trfsMknod
  apply lockedParent_ensures shows steady
  intro state progress steady
  apply change_ensures shows (by trivial) steady
  intro err state after progress kept steady
  exact attach_ensures shows fresh steady ((kept _).trans parent) trivial trivial

/-- After `trfs_mkdir` it has the link count as well. -/
theorem trfsMkdir_ensures (shows : Shows env shape) (fresh : Fresh env dir) {dentry : Dentry} {mode : BitVec 16}
    (steady : Steady shape dir own paths tree now state progress)
    (parent : tree.inode (tree.parent (paths dentry.address).dentry) = own) :
    (trfsMkdir dir dentry mode).Ensures (handle env helpers) sourcing
      (Refreshed shape dir own paths) state progress := by
  unfold trfsMkdir
  apply lockedParent_ensures shows steady
  intro state progress steady
  apply change_ensures shows (by trivial) steady
  intro err state after progress kept steady
  by_cases failed : err ≠ 0
  · rw [if_pos failed]
    exact failed_ensures shows (leaveParent_calm _ _) failed steady
  rw [if_neg failed]
  refine run_ensures shows steady (inodeMember_reads _ _) trivial ?_
  intro buffers state progress steady
  apply trfsInterpose_ensures shows fresh steady
  intro err state progress steady
  by_cases failed : err ≠ 0
  · rw [if_pos failed]
    exact failed_ensures shows (leaveParent_calm _ _) failed steady
  rw [if_neg failed]
  apply copyParent_ensures shows steady ((kept _).trans parent)
  intro state progress value same steady
  apply lowerInode_ensures shows steady
  intro lowerDir state progress owns steady
  apply copyNlink_ensures shows steady owns same
  intro state progress value same steady
  exact refreshed_ensures shows (leaveParent_calm _ _) same steady

/-- Clearing the link count of the removed directory changes nothing else. -/
theorem clearNlink_ensures (shows : Shows env shape) {dentry : Dentry} {next : Unit → Prog α}
    {post : α → Machine L → Sources → Prop} (steady : Steady shape dir own paths tree now state progress)
    (rest : ∀ state progress nlink, Steady shape dir own paths tree { now with nlink := nlink } state progress →
      (next ()).Ensures (handle env helpers) sourcing post state progress) :
    (clearNlink dentry >>= next).Ensures (handle env helpers) sourcing post state progress := by
  have looks : (upper (.dInode dentry)).Calls Calm := ⟨trivial, fun _ => trivial⟩
  rw [Program.ensures_bind]
  apply calm_ensures shows looks steady
  intro inode state progress steady
  unfold runIf
  by_cases present : inode ≠ Inode.null
  · rw [if_pos present]
    change (changeAttributes inode _ >>= fun done => Program.pure done).Ensures _ _ _ _ _
    apply changeAttributes_ensures steady
    intro state progress value here steady
    by_cases self : inode = dir
    · subst self
      rw [given_self, here rfl] at steady
      exact rest state progress 0 steady
    · rw [given_other self] at steady
      exact rest state progress now.nlink steady
  · rw [if_neg present]
    exact rest state progress now.nlink steady

/-- After `trfs_rmdir` the directory has times, size and link count from its lower inode. -/
theorem trfsRmdir_ensures (shows : Shows env shape) {dentry : Dentry}
    (steady : Steady shape dir own paths tree now state progress)
    (parent : tree.inode (tree.parent (paths dentry.address).dentry) = own) :
    (trfsRmdir dir dentry).Ensures (handle env helpers) sourcing
      (Refreshed shape dir own paths) state progress := by
  unfold trfsRmdir
  apply lockedParent_ensures shows steady
  intro state progress steady
  apply change_ensures shows (by trivial) steady
  intro err state after progress kept steady
  by_cases failed : err ≠ 0
  · rw [if_pos failed]
    exact failed_ensures shows (leaveParent_calm _ _) failed steady
  rw [if_neg failed]
  apply run_ensures shows steady (inodeMember_reads _ _) (inodeMember_reads _ _)
  intro buffers state progress steady
  have drops : (upper (.dDrop dentry)).Calls Calm := ⟨trivial, fun _ => trivial⟩
  apply calm_ensures shows drops steady
  intro _ state progress steady
  apply clearNlink_ensures shows steady
  intro state progress nlink steady
  have there := (kept (paths dentry.address).dentry).trans parent
  apply dInode_ensures shows steady
  intro state progress steady
  apply copyTimes_ensures shows steady there
  intro state progress value times steady
  apply dInode_ensures shows steady
  intro state progress steady
  apply copySize_ensures shows steady there times
  intro state progress value same steady
  apply dInode_ensures shows steady
  intro state progress steady
  apply copyNlink_ensures shows steady (fun _ => there) same
  intro state progress value same steady
  exact refreshed_ensures shows (leaveParent_calm _ _) same steady

/-- The test for the silly rename of NFS changes no attributes. -/
theorem sillyRenamed_calm (err : BitVec 32) (lowerDentry : LowerDentry) : (sillyRenamed err lowerDentry).Calls Calm := by
  unfold sillyRenamed
  split
  · refine ⟨id, fun renamed => ?_⟩
    cases renamed <;> trivial
  · trivial

/-- After a successful `trfs_unlink` the directory has times and size from its lower inode. -/
theorem trfsUnlink_ensures (shows : Shows env shape) {dentry : Dentry}
    (steady : Steady shape dir own paths tree now state progress) :
    (trfsUnlink dir dentry).Ensures (handle env helpers) sourcing
      (Refreshed shape dir own paths) state progress := by
  unfold trfsUnlink
  apply lowerInode_ensures shows steady
  intro lowerDirInode state progress owns steady
  apply getPath_ensures shows steady
  intro state progress steady
  have gets : (lower (.dget (paths dentry.address).dentry)).Calls Calm := ⟨id, fun _ => trivial⟩
  apply calm_ensures shows gets steady
  intro _ state progress steady
  apply lockParent_ensures shows steady
  intro state progress steady
  apply change_ensures shows (by trivial) steady
  intro err state after progress kept steady
  apply calm_ensures shows (sillyRenamed_calm err _) steady
  intro err state progress steady
  by_cases failed : err ≠ 0
  · rw [if_pos failed]
    exact failed_ensures shows (leaveUnlink_calm _ _ _) failed steady
  rw [if_neg failed]
  refine run_ensures shows steady trivial trivial ?_
  intro buffers state progress steady
  apply copyTimes_ensures shows steady (owns rfl)
  intro state progress value times steady
  apply copySize_ensures shows steady (owns rfl) times
  intro state progress value same steady
  have looks : (upper (.dInode dentry)).Calls Calm := ⟨trivial, fun _ => trivial⟩
  apply calm_ensures shows looks steady
  intro inode state progress steady
  apply lowerInode_ensures shows steady
  intro lowerInode state progress owns steady
  apply copyNlink_ensures shows steady owns same
  intro state progress value same steady
  -- the time that goes to the entry is the one that the directory has
  have own_ctime : ∀ reply after, handle env helpers (.upper (.attributes dir)) state = some (reply, after) →
      reply = value := by
    intro reply after answered
    rw [← (Prod.mk.inj (Option.some.inj answered)).1]
    exact steady.attributes
  refine read_ensures shows trivial steady own_ctime ?_
  rintro ctime state progress rfl steady
  apply calm_ensures shows looks steady
  intro inode state progress steady
  apply changeAttributes_keeps steady same same
  intro state progress value same steady
  have drops : (upper (.dDrop dentry)).Calls Calm := ⟨trivial, fun _ => trivial⟩
  apply calm_ensures shows drops steady
  intro _ state progress steady
  exact refreshed_ensures shows (leaveUnlink_calm _ _ _) same steady

/-- One of the two directories of a rename is refreshed. The other one may be the directory or not. -/
theorem copyDirectory_ensures (shows : Shows env shape) {dest : Inode} {lowerDir : LowerDentry}
    {next : Unit → Prog α} {post : α → Machine L → Sources → Prop}
    (steady : Steady shape dir own paths tree now state progress) (owns : dest = dir → tree.inode lowerDir = own)
    (rest : ∀ state progress value, (dest = dir → SameSizeTimes value (tree.attributes own)) →
      (dest ≠ dir → value = now) → Steady shape dir own paths tree value state progress →
      (next ()).Ensures (handle env helpers) sourcing post state progress) :
    (copyDirectory dest lowerDir >>= next).Ensures (handle env helpers) sourcing post state progress := by
  change (lowerDInode lowerDir >>= fun first => fsstackCopyAttrAll dest first >>= fun _ =>
    lowerDInode lowerDir >>= fun second => fsstackCopyInodeSize dest second >>= next).Ensures _ _ _ _ _
  apply dInode_ensures shows steady
  intro state progress steady
  apply copy_ensures shows steady owns
  intro state progress all copied steady
  apply dInode_ensures shows steady
  intro state progress steady
  apply copy_ensures shows steady owns
  intro state progress size sized steady
  apply rest state progress _ _ _ steady
  · rintro rfl
    rw [given_self, sized rfl, given_self, copied rfl]
    exact ⟨rfl, rfl, rfl, rfl⟩
  · intro other
    rw [given_other other, given_other other]

/-- The locks of a rename change no attributes. -/
theorem lockRename_calm (first second : LowerDentry) : (lockRename first second).Calls Calm :=
  ⟨id, fun _ => ⟨id, fun _ => ⟨trivial, fun _ => ⟨id, fun _ => trivial⟩⟩⟩⟩

/-- After a successful `trfs_rename` both directories have all attributes of their lower inodes. -/
theorem trfsRename_ensures (shows : Shows env shape) {oldDir newDir : Inode} {oldDentry newDentry : Dentry}
    (steady : Steady shape dir own paths tree now state progress) (among : oldDir = dir ∨ newDir = dir)
    (old : oldDir = dir → tree.inode (tree.parent (paths oldDentry.address).dentry) = own)
    (new : newDir = dir → tree.inode (tree.parent (paths newDentry.address).dentry) = own) :
    (trfsRename oldDir oldDentry newDir newDentry).Ensures (handle env helpers) sourcing
      (Refreshed shape dir own paths) state progress := by
  unfold trfsRename
  apply getPath_ensures shows steady
  intro state progress steady
  apply getPath_ensures shows steady
  intro state progress steady
  apply getParent_ensures shows steady
  intro state progress steady
  apply getParent_ensures shows steady
  intro state progress steady
  apply calm_ensures shows (lockRename_calm _ _) steady
  intro trap state progress steady
  by_cases ancestor : trap = some (paths oldDentry.address).dentry
  · rw [if_pos ancestor]
    exact failed_ensures shows (leaveRename_calm _) (by decide) steady
  rw [if_neg ancestor]
  by_cases descendant : trap = some (paths newDentry.address).dentry
  · rw [if_pos descendant]
    exact failed_ensures shows (leaveRename_calm _) (by decide) steady
  rw [if_neg descendant]
  apply dInode_ensures shows steady
  intro state progress steady
  apply dInode_ensures shows steady
  intro state progress steady
  apply change_ensures shows (by trivial) steady
  intro err state after progress kept steady
  by_cases failed : err ≠ 0
  · rw [if_pos failed]
    exact failed_ensures shows (leaveRename_calm _) failed steady
  rw [if_neg failed]
  refine run_ensures shows steady trivial trivial ?_
  intro buffers state progress steady
  apply copyDirectory_ensures shows steady fun here => (kept _).trans (new here)
  intro state progress value same other steady
  unfold runIf
  by_cases two : newDir ≠ oldDir
  · rw [if_pos two]
    apply copyDirectory_ensures shows steady fun here => (kept _).trans (old here)
    intro state progress last sameLast otherLast steady
    apply refreshed_ensures shows (leaveRename_calm _) _ steady
    rcases among with here | here
    · exact sameLast here
    · rw [otherLast fun there => two (here.trans there.symm)]
      exact same here
  · obtain rfl := not_not.mp two
    rw [if_neg two]
    exact refreshed_ensures shows (leaveRename_calm _) (same (or_self_iff.mp among)) steady

/-- The calls after which the lower tree is as it was. -/
def Lasts : Call → Prop
  | .lower c => ¬ c.Changes
  | .upper (.kzallocFileInfo _) | .setMask _ | .copyMaskToUser _ => False
  | _ => True

/-- A calm call leaves a copy as it is. -/
theorem Calm.lasts (c : Call) (calm : Calm c) : Lasts c := by
  cases c with
  | lower c => cases c <;> exact calm.elim
  | upper c => cases c <;> first | exact calm.elim | trivial
  | tracer c => trivial
  | oops => trivial
  | _ => exact calm.elim

/-- A copy that was made stays on record. -/
theorem next_copies (progress : Sources) (c : Call) (reply : c.Reply) {pair : Inode × LowerInode}
    (copied : pair ∈ progress.copies) : pair ∈ (sourcing.next progress c reply).copies := by
  cases c with
  | lower c => cases c <;> exact copied
  | upper c =>
      cases c with
      | setAttributes dest value =>
          change pair ∈ (progress.assign dest value).copies
          unfold Sources.assign
          split
          · exact copied
          · split
            · exact List.mem_append_left _ copied
            · exact copied
      | _ => exact copied
  | _ => exact copied

/-- The lower tree, and a copy that was made, at one moment. -/
def Copied (shape : L → LowerShape) (tree : LowerShape) (pair : Inode × LowerInode) (state : Machine L)
    (progress : Sources) : Prop :=
  shape state.visible.lower = tree ∧ pair ∈ progress.copies

/-- A copy stays one until something changes its attributes. -/
theorem handle_copied (shows : Shows env shape) {pair : Inode × LowerInode} (c : Call) (state : Machine L)
    (progress : Sources) (reply : c.Reply) (after : Machine L) (lasts : Lasts c)
    (copied : Copied shape tree pair state progress) (answered : handle env helpers c state = some (reply, after)) :
    Copied shape tree pair after (sourcing.next progress c reply) := by
  refine ⟨?_, next_copies progress c reply copied.2⟩
  cases c with
  | lower c =>
      obtain ⟨_, rfl⟩ := Prod.mk.inj (Option.some.inj answered)
      exact (shows.keeps c _ lasts).trans copied.1
  | upper c =>
      obtain ⟨_, rfl⟩ := Prod.mk.inj (Option.some.inj answered)
      cases c with
      | dSpliceAlias inode dentry => exact (shows.dSpliceAlias inode dentry _).trans copied.1
      | iget5Locked inode => exact (shows.iget5Locked inode _).trans copied.1
      | _ => first | exact lasts.elim | exact copied.1
  | tracer c =>
      have visible := handle_hidden (c := .tracer c) trivial answered
      rw [visible]
      exact copied.1
  | oops => exact Empty.elim reply
  | _ => exact lasts.elim

/-- The rule for a part of a program that comes after the copy. -/
theorem lasts_ensures (shows : Shows env shape) {pair : Inode × LowerInode} {program : Prog α}
    (lasts : program.Calls Lasts) (copied : Copied shape tree pair state progress) :
    program.Ensures (handle env helpers) sourcing (fun _ => Copied shape tree pair) state progress :=
  lasts.ensures (fun c state progress reply after lasts copied answered =>
    handle_copied shows c state progress reply after lasts copied answered) copied fun _ _ _ copied => copied

/-- The times that the directory takes from a lower inode are a copy from it. -/
theorem copied_ensures (shows : Shows env shape) {src : LowerInode} {next : Unit → Prog α}
    {post : α → Machine L → Sources → Prop} (steady : Steady shape dir own paths tree now state progress)
    (rest : ∀ state progress, Copied shape tree (dir, src) state progress →
      (next ()).Ensures (handle env helpers) sourcing post state progress) :
    (fsstackCopyAttrTimes dir src >>= next).Ensures (handle env helpers) sourcing post state progress := by
  intro read after answered old seen looked done last assigned
  obtain ⟨rfl, rfl⟩ := Prod.mk.inj (Option.some.inj answered)
  obtain ⟨rfl, rfl⟩ := Prod.mk.inj (Option.some.inj looked)
  obtain ⟨_, rfl⟩ := Prod.mk.inj (Option.some.inj assigned)
  apply rest
  refine ⟨(shows.keeps (.attributes src) state.visible.lower id).trans steady.tree, ?_⟩
  have takes : ∀ source old : Attributes, Takes
      { old with atime := source.atime, mtime := source.mtime, ctime := source.ctime } source :=
    fun _ _ => .inl ⟨rfl, rfl, rfl⟩
  change (dir, src) ∈ (ite (Takes _ _) (Sources.mk none _) _).copies
  rw [if_pos (takes _ _)]
  exact List.mem_append_right _ List.mem_cons_self

/-- A link that succeeded left the new name without an inode, or it copied the times from the inode at that name. -/
def Linked (shape : L → LowerShape) (dir : Inode) (own : LowerInode) (paths : Nat → LowerPath) (now : Attributes)
    (name : LowerDentry) (outcome : Outcome) (state : Machine L) (progress : Sources) : Prop :=
  outcome.err = 0 → ∃ tree,
    (tree.inode name = LowerInode.null ∧ Steady shape dir own paths tree now state progress) ∨
    (tree.inode name ≠ LowerInode.null ∧ Copied shape tree (dir, tree.inode name) state progress)

/-- The test after a link tells whether the new lower dentry is negative. -/
theorem failedOrNegative_ensures (shows : Shows env shape) {err : BitVec 32} {name : LowerDentry} {next : Bool → Prog α}
    {post : α → Machine L → Sources → Prop} (steady : Steady shape dir own paths tree now state progress)
    (rest : ∀ failed state progress, (err = 0 → failed = decide (tree.inode name = LowerInode.null)) →
      (failed = false → err = 0) → Steady shape dir own paths tree now state progress →
      (next failed).Ensures (handle env helpers) sourcing post state progress) :
    (failedOrNegative err name >>= next).Ensures (handle env helpers) sourcing post state progress := by
  unfold failedOrNegative
  by_cases failed : err ≠ 0
  · rw [if_pos failed]
    exact rest true state progress (fun succeeded => absurd succeeded failed) Bool.noConfusion steady
  · rw [if_neg failed]
    have here : ∀ reply after, handle env helpers (.lower (.dNegative name)) state = some (reply, after) →
        reply = decide (tree.inode name = LowerInode.null) := by
      intro reply after answered
      rw [← (Prod.mk.inj (Option.some.inj answered)).1, ← steady.tree]
      exact shows.negative name _
    refine read_ensures shows id steady here ?_
    intro negative state progress same steady
    exact rest negative state progress (fun _ => same) (fun _ => not_not.mp failed) steady

/-- After `trfs_link` the directory has times and size of the inode of the new name. -/
theorem trfsLink_ensures (shows : Shows env shape) (fresh : Fresh env dir) {oldDentry newDentry : Dentry}
    (steady : Steady shape dir own paths tree now state progress) :
    (trfsLink oldDentry dir newDentry).Ensures (handle env helpers) sourcing
      (Linked shape dir own paths now (paths newDentry.address).dentry) state progress := by
  have looks : ∀ dentry, (upper (.dInode dentry)).Calls Calm := fun _ => ⟨trivial, fun _ => trivial⟩
  unfold trfsLink
  apply calm_ensures shows (looks oldDentry) steady
  intro oldInode state progress steady
  have reads : (inodeMember oldInode fun inode => inode.size).Calls Calm :=
    ((inodeMember_reads _ _).mono IsRead.hidden).mono Hidden.calm
  apply calm_ensures shows reads steady
  intro fileSizeSave state progress steady
  apply getPath_ensures shows steady
  intro state progress steady
  apply getPath_ensures shows steady
  intro state progress steady
  apply lockParent_ensures shows steady
  intro state progress steady
  apply dInode_ensures shows steady
  intro state progress steady
  apply change_ensures shows (by trivial) steady
  intro err state after progress _ steady
  apply failedOrNegative_ensures shows steady
  intro failed state progress negative succeeded steady
  cases failed with
  | true =>
      change (TraceBuffers.null.out _ err).Ensures _ _ _ _ _
      apply out_ensures shows (leaveLink_calm _ _ _) steady
      intro state progress steady zero
      exact ⟨after, .inl ⟨of_decide_eq_true (negative zero).symm, steady⟩⟩
  | false =>
      have present : after.inode (paths newDentry.address).dentry ≠ LowerInode.null :=
        of_decide_eq_false (negative (succeeded rfl)).symm
      apply trfsInterpose_ensures shows fresh steady
      intro err state progress steady
      by_cases failed : err ≠ 0
      · rw [if_pos failed]
        exact out_ensures shows (leaveLink_calm _ _ _) steady fun _ _ _ zero => absurd zero failed
      rw [if_neg failed]
      refine run_ensures shows steady trivial trivial ?_
      intro buffers state progress steady
      apply dInode_ensures shows steady
      intro state progress steady
      apply copied_ensures shows steady
      intro state progress copied
      refine (lasts_ensures shows ?_ copied).mono fun _ _ _ copied _ => ⟨after, .inr ⟨present, copied⟩⟩
      have inodes : ∀ dentry, (upper (.dInode dentry)).Calls Lasts := fun _ => ⟨trivial, fun _ => trivial⟩
      have copies : ∀ select dest src, (fsstackCopy select dest src).Calls Lasts :=
        fun _ _ _ => ⟨id, fun _ => ⟨trivial, fun _ => ⟨trivial, fun _ => trivial⟩⟩⟩
      refine ⟨id, fun _ => ?_⟩
      apply (copies _ _ _).bind
      intro _
      apply (inodes _).bind
      intro _
      refine ⟨trivial, fun _ => ?_⟩
      apply (copies _ _ _).bind
      intro _
      apply (inodes _).bind
      intro _
      refine ⟨trivial, fun _ => ⟨trivial, fun _ => ?_⟩⟩
      apply ((leaveLink_calm _ _ _).mono Calm.lasts).bind
      intro _
      exact (((freeInode_frees buffers).mono IsKfree.calm).mono Calm.lasts).bind fun _ => trivial

end

end Trfs.Kernel
