import Trfs.Proof.Kernel.TreeCalls

namespace Trfs.Kernel
open Bytes Dentries Effect

section
attribute [local simp] Program.Calls Still

/-- Locking the parent changes no tree. -/
theorem lockParent_still (dentry : LowerDentry) : (lockParent dentry).Calls Still := by
  simp [lockParent, lowerDInode]

/-- Taking the lower path changes none. -/
theorem getPath_still (dentry : Dentry) : (trfsGetLowerPath dentry).Calls Still := by
  simp [trfsGetLowerPath]

/-- Copying attributes changes none. -/
theorem fsstackCopy_still (select : Attributes → Attributes → Attributes) (dest : Inode) (src : LowerInode) :
    (fsstackCopy select dest src).Calls Still := by
  simp [fsstackCopy]

/-- Reading a member of an inode changes none. -/
theorem inodeMember_still {α : Type} (inode : Inode) (select : Attributes → α) :
    (inodeMember inode select).Calls Still := by
  simp [inodeMember]

/-- Changing attributes of an inode changes none. -/
theorem changeAttributes_still (inode : Inode) (change : Attributes → Attributes) :
    (changeAttributes inode change).Calls Still := by
  simp [changeAttributes]

/-- An action that changes no tree changes none under a condition. -/
theorem runIf_still {condition : Prop} [Decidable condition] {action : Prog Unit} (still : action.Calls Still) :
    (runIf condition action).Calls Still := by
  unfold runIf
  split
  · exact still
  · trivial

/-- Clearing the link count changes none. -/
theorem clearNlink_still (dentry : Dentry) : (clearNlink dentry).Calls Still := by
  simp only [clearNlink, perform_bind, Program.Calls]
  exact ⟨trivial, fun inode => runIf_still (changeAttributes_still _ _)⟩

/-- The copies from a lower directory change none. -/
theorem copyDirectory_still (dir : Inode) (lowerDir : LowerDentry) : (copyDirectory dir lowerDir).Calls Still := by
  simp [copyDirectory, lowerDInode, fsstackCopyAttrAll, fsstackCopyInodeSize, fsstackCopy]

/-- The exit under a parent changes none. -/
theorem leaveParent_still (lowerParent : LowerDentry) (path : LowerPath) :
    (leaveParent lowerParent path).Calls Still := by
  simp [leaveParent, unlockDir, trfsPutLowerPath, lowerDInode]

/-- The exit of a link changes none. -/
theorem leaveLink_still (lowerDir : LowerDentry) (oldPath newPath : LowerPath) :
    (leaveLink lowerDir oldPath newPath).Calls Still := by
  simp [leaveLink, unlockDir, trfsPutLowerPath, lowerDInode]

/-- The exit of an unlink changes none. -/
theorem leaveUnlink_still (lowerDir lowerDentry : LowerDentry) (path : LowerPath) :
    (leaveUnlink lowerDir lowerDentry path).Calls Still := by
  simp [leaveUnlink, unlockDir, trfsPutLowerPath, lowerDInode]

/-- The exit of a rename changes none. -/
theorem leaveRename_still (below : RenameLower) : (leaveRename below).Calls Still := by
  simp [leaveRename, unlockRename, trfsPutLowerPath, lowerDInode]

/-- The locks of a rename change none. -/
theorem lockRename_still (first second : LowerDentry) : (lockRename first second).Calls Still := by
  simp [lockRename, lowerDInode]

/-- The test of the lower dentry after a link changes none. -/
theorem failedOrNegative_still (err : BitVec 32) (lowerDentry : LowerDentry) :
    (failedOrNegative err lowerDentry).Calls Still := by
  unfold failedOrNegative
  split <;> simp

/-- The test for the silly rename of NFS changes none. -/
theorem sillyRenamed_still (err : BitVec 32) (lowerDentry : LowerDentry) :
    (sillyRenamed err lowerDentry).Calls Still := by
  unfold sillyRenamed
  split
  · simp only [perform_bind, Program.Calls]
    refine ⟨trivial, fun renamed => ?_⟩
    split <;> trivial
  · trivial

end

/-- A single call that changes no tree is a program that does not. -/
theorem program_still (c : Call) (still : Still c) : (perform c : Prog c.Reply).Calls Still :=
  ⟨still, fun _ => trivial⟩

/-- The label `out` changes no tree. -/
theorem out_still {leave : Prog Unit} (still : leave.Calls Still) (err : BitVec 32) (buffers : TraceBuffers) :
    (buffers.out leave err).Calls Still := by
  apply still.bind
  intro _
  exact ((freeInode_frees buffers).mono IsKfree.still).bind fun _ => trivial

/-- The tracing block changes no tree. -/
theorem block_still {block : TraceBlock} (flags : block.openFlags.Calls IsRead) (mode : block.permMode.Calls IsRead) :
    block.run.Calls Still :=
  (run_hidden flags mode).mono Hidden.still

/-- The members of the directory that an operation copies after it made a file. -/
theorem copyParent_still (dir : Inode) (lowerParent : LowerDentry) {rest : Prog Outcome} (still : rest.Calls Still) :
    (upper (.lowerInode dir) >>= fun lowerDir => fsstackCopyAttrTimes dir lowerDir >>= fun _ =>
      lowerDInode lowerParent >>= fun parentInode => fsstackCopyInodeSize dir parentInode >>= fun _ => rest).Calls
      Still := by
  refine ⟨trivial, fun lowerDir => ?_⟩
  apply (fsstackCopy_still _ _ _).bind
  intro _
  refine ⟨trivial, fun parentInode => ?_⟩
  exact (fsstackCopy_still _ _ _).bind fun _ => still

section
variable {W : Type} {env : TreeEnvironment W} {helpers : Helpers} {state : Mounted (Trees W)} {root : Nat}
  {used : Finset Nat}

/-- A program of still calls leaves the trees as they are. -/
theorem Midway.still {program : Prog Outcome} {target : Nat} (midway : Midway root used target state.picture)
    (still : program.Calls Still) : program.Ensures (treeCall env helpers) blind
      (fun _ after _ => Midway root used target after.picture) state () := by
  rw [← program.bind_pure]
  apply still_ensures still
  intro _ after same
  change Midway root used target after.picture
  rw [same]
  exact midway

/-- What follows the interposition of the target leaves the trees as they are. -/
theorem Midway.interpose {dentry : Dentry} {path : LowerPath} {next : BitVec 32 → Prog Outcome}
    (midway : Midway root used dentry.address state.picture) (member : dentry.address ∈ used)
    (own : path = state.picture.lowerPath dentry.address) (still : ∀ err, (next err).Calls Still) :
    (trfsInterpose dentry path >>= next).Ensures (treeCall env helpers) blind
      (fun _ after _ => Midway root used dentry.address after.picture) state () := by
  apply interpose_ensures midway member own
  intro err after done
  exact done.still (still err)

/-- The operations that make a file lock the parent and make the lower file first. -/
theorem Midway.make {dentry : Dentry} {c : LowerPath → LowerInode → LowerCall}
    {next : (path : LowerPath) → (lowerParent : LowerDentry) → (parentInode : LowerInode) →
      (c path parentInode).Reply → Prog Outcome}
    (midway : Midway root used dentry.address state.picture) (member : dentry.address ∈ used)
    (makes : ∀ path inode, (c path inode).makes = some path.dentry)
    (continues : ∀ lowerParent parentInode reply err (after : Mounted (Trees W)),
      (c (state.picture.lowerPath dentry.address) parentInode).result reply = some err →
      after.picture.lowerPath = state.picture.lowerPath → Midway root used dentry.address after.picture →
      (next (state.picture.lowerPath dentry.address) lowerParent parentInode reply).Ensures (treeCall env helpers)
        blind (fun _ after _ => Midway root used dentry.address after.picture) after ()) :
    (trfsGetLowerPath dentry >>= fun path => lockParent path.dentry >>= fun lowerParent =>
      lowerDInode lowerParent >>= fun parentInode => lower (c path parentInode) >>= fun reply =>
        next path lowerParent parentInode reply).Ensures (treeCall env helpers) blind
      (fun _ after _ => Midway root used dentry.address after.picture) state () := by
  apply lowerPath_ensures
  intro first one
  apply still_ensures (lockParent_still _)
  intro lowerParent second two
  apply belowInode_ensures
  intro third three
  have same := three.trans (two.trans one)
  apply makes_ensures (makes _ _)
  intro reply err fourth result made
  rw [same] at made
  exact continues lowerParent _ reply err fourth result made.lowerPath (midway.makes member made)

/-- After `trfs_create` the trees correspond, and only the new dentry may have a lower file without an inode. -/
theorem trfsCreate_midway (dir : Inode) {dentry : Dentry} (mode : BitVec 16) (wantExcl : Bool)
    (midway : Midway root used dentry.address state.picture) (member : dentry.address ∈ used) :
    (trfsCreate dir dentry mode wantExcl).Ensures (treeCall env helpers) blind
      (fun _ after _ => Midway root used dentry.address after.picture) state () := by
  apply midway.make member (c := fun path inode => .vfsCreate inode path.dentry mode wantExcl) fun _ _ => rfl
  rintro lowerParent parentInode err _ after ⟨⟩ own made
  apply still_ensures
  · exact block_still (inodeMember_reads _ _) trivial
  intro buffers fifth five
  rw [← five] at made own
  change (if _ then _ else _ : Prog Outcome).Ensures _ _ _ _ _
  split
  · exact made.still (out_still (leaveParent_still _ _) _ _)
  · apply made.interpose member (by rw [own])
    intro err
    change (if _ then _ else _ : Prog Outcome).Calls _
    split
    · exact out_still (leaveParent_still _ _) _ _
    · exact copyParent_still _ _ (out_still (leaveParent_still _ _) _ _)

/-- So they do after `trfs_symlink`. -/
theorem trfsSymlink_midway (dir : Inode) {dentry : Dentry} (symname : CString)
    (midway : Midway root used dentry.address state.picture) (member : dentry.address ∈ used) :
    (trfsSymlink dir dentry symname).Ensures (treeCall env helpers) blind
      (fun _ after _ => Midway root used dentry.address after.picture) state () := by
  apply midway.make member (c := fun path inode => .vfsSymlink inode path.dentry symname) fun _ _ => rfl
  rintro lowerParent parentInode err _ after ⟨⟩ own made
  change (if _ then _ else _ : Prog Outcome).Ensures _ _ _ _ _
  split
  · exact made.still (out_still (leaveParent_still _ _) _ _)
  · apply made.interpose member (by rw [own])
    intro err
    change (if _ then _ else _ : Prog Outcome).Calls _
    split
    · exact out_still (leaveParent_still _ _) _ _
    · apply Program.Calls.bind
      · exact block_still trivial trivial
      intro buffers
      exact copyParent_still _ _ (out_still (leaveParent_still _ _) _ _)

/-- So they do after `trfs_mkdir`. -/
theorem trfsMkdir_midway (dir : Inode) {dentry : Dentry} (mode : BitVec 16)
    (midway : Midway root used dentry.address state.picture) (member : dentry.address ∈ used) :
    (trfsMkdir dir dentry mode).Ensures (treeCall env helpers) blind
      (fun _ after _ => Midway root used dentry.address after.picture) state () := by
  apply midway.make member (c := fun path inode => .vfsMkdir inode path.dentry mode) fun _ _ => rfl
  rintro lowerParent parentInode err _ after ⟨⟩ own made
  change (if _ then _ else _ : Prog Outcome).Ensures _ _ _ _ _
  split
  · exact made.still (out_still (leaveParent_still _ _) _ _)
  · apply still_ensures
    · exact block_still (inodeMember_reads _ _) trivial
    intro buffers fifth five
    rw [← five] at made own
    apply made.interpose member (by rw [own])
    intro err
    change (if _ then _ else _ : Prog Outcome).Calls _
    split
    · exact out_still (leaveParent_still _ _) _ _
    · apply copyParent_still
      refine ⟨trivial, fun lowerDir => ?_⟩
      exact (fsstackCopy_still _ _ _).bind fun _ => out_still (leaveParent_still _ _) _ _

/-- So they do after `trfs_mknod`. -/
theorem trfsMknod_midway (dir : Inode) {dentry : Dentry} (mode : BitVec 16) (dev : BitVec 32)
    (midway : Midway root used dentry.address state.picture) (member : dentry.address ∈ used) :
    (trfsMknod dir dentry mode dev).Ensures (treeCall env helpers) blind
      (fun _ after _ => Midway root used dentry.address after.picture) state () := by
  apply midway.make member (c := fun path inode => .vfsMknod inode path.dentry mode dev) fun _ _ => rfl
  rintro lowerParent parentInode err _ after ⟨⟩ own made
  change (if _ then _ else _ : Prog Outcome).Ensures _ _ _ _ _
  split
  · exact made.still (out_still (leaveParent_still _ _) _ _)
  · apply made.interpose member (by rw [own])
    intro err
    change (if _ then _ else _ : Prog Outcome).Calls _
    split
    · exact out_still (leaveParent_still _ _) _ _
    · apply Program.Calls.bind
      · exact block_still trivial trivial
      intro buffers
      exact copyParent_still _ _ (out_still (leaveParent_still _ _) _ _)

/-- So they do after `trfs_link`. -/
theorem trfsLink_midway (oldDentry : Dentry) (dir : Inode) {newDentry : Dentry}
    (midway : Midway root used newDentry.address state.picture) (member : newDentry.address ∈ used) :
    (trfsLink oldDentry dir newDentry).Ensures (treeCall env helpers) blind
      (fun _ after _ => Midway root used newDentry.address after.picture) state () := by
  apply stillCall_ensures (c := .upper (.dInode oldDentry)) trivial
  intro oldInode first one
  apply still_ensures (inodeMember_still _ _)
  intro fileSizeSave second two
  apply lowerPath_ensures
  intro third three
  have before := three.trans (two.trans one)
  rw [← before] at midway
  apply midway.make member (c := fun path inode => .vfsLink _ inode path.dentry) fun _ _ => rfl
  rintro lowerDir dirInode err _ after ⟨⟩ own made
  apply still_ensures (failedOrNegative_still _ _)
  intro failed fourth four
  rw [← four] at made own
  change (if _ then _ else _ : Prog Outcome).Ensures _ _ _ _ _
  split
  · exact made.still (out_still (leaveLink_still _ _ _) _ _)
  · apply made.interpose member (by rw [own])
    intro err
    change (if _ then _ else _ : Prog Outcome).Calls _
    split
    · exact out_still (leaveLink_still _ _ _) _ _
    · apply Program.Calls.bind
      · exact block_still trivial trivial
      intro buffers
      refine ⟨trivial, fun lowerNewInode => ?_⟩
      apply (fsstackCopy_still _ _ _).bind
      intro _
      refine ⟨trivial, fun lowerNewInode => ?_⟩
      apply (fsstackCopy_still _ _ _).bind
      intro _
      refine ⟨trivial, fun oldInode => ⟨trivial, fun lowerOldInode => ?_⟩⟩
      apply (fsstackCopy_still _ _ _).bind
      intro _
      refine ⟨trivial, fun newInode => ?_⟩
      exact (changeAttributes_still _ _).bind fun _ => out_still (leaveLink_still _ _ _) _ _

/-- `d_drop` of any dentry keeps the correspondence. -/
theorem Midway.drop {target : Nat} {dentry : Dentry} {next : Prog Outcome}
    (midway : Midway root used target state.picture) (still : next.Calls Still) :
    (upper (.dDrop dentry) >>= fun _ => next).Ensures (treeCall env helpers) blind
      (fun _ after _ => Midway root used target after.picture) state () := by
  intro _ after answered
  obtain ⟨owned, _⟩ := treeCall_eq_some answered
  obtain ⟨_, rfl⟩ := Prod.mk.inj (Option.some.inj owned)
  have dropped : Midway root used target (state.picture.drops dentry.address) :=
    ⟨midway.corresponds.drops, midway.waiting⟩
  exact dropped.still still

/-- A program of still calls keeps the correspondence for what follows. -/
theorem Midway.passes {β : Type} {target : Nat} {program : Prog β} {next : β → Prog Outcome}
    (midway : Midway root used target state.picture) (still : program.Calls Still)
    (continues : ∀ value (after : Mounted (Trees W)), Midway root used target after.picture →
      (next value).Ensures (treeCall env helpers) blind (fun _ after _ => Midway root used target after.picture)
        after ()) :
    (program >>= next).Ensures (treeCall env helpers) blind
      (fun _ after _ => Midway root used target after.picture) state () := by
  apply still_ensures still
  intro value after same
  rw [← same] at midway
  exact continues value after midway

/-- `trfs_unlink` makes no lower file. -/
theorem trfsUnlink_midway (dir : Inode) (dentry : Dentry) {target : Nat}
    (midway : Midway root used target state.picture) :
    (trfsUnlink dir dentry).Ensures (treeCall env helpers) blind
      (fun _ after _ => Midway root used target after.picture) state () := by
  apply midway.passes (program_still (.upper (.lowerInode dir)) trivial)
  intro lowerDirInode first midway
  apply midway.passes (getPath_still _)
  intro path second midway
  apply midway.passes (program_still (.lower (.dget _)) trivial)
  intro _ third midway
  apply midway.passes (lockParent_still _)
  intro lowerDir fourth midway
  apply midway.passes (program_still (.lower (.vfsUnlink _ _)) trivial)
  intro err fifth midway
  apply midway.passes (sillyRenamed_still _ _)
  intro err sixth midway
  change (if _ then _ else _ : Prog Outcome).Ensures _ _ _ _ _
  split
  · exact midway.still (out_still (leaveUnlink_still _ _ _) _ _)
  · apply midway.passes
    · exact block_still trivial trivial
    intro buffers first midway
    apply midway.passes (fsstackCopy_still _ _ _)
    intro _ second midway
    apply midway.passes (fsstackCopy_still _ _ _)
    intro _ third midway
    apply midway.passes (program_still (.upper (.dInode _)) trivial)
    intro inode fourth midway
    apply midway.passes (program_still (.upper (.lowerInode _)) trivial)
    intro lowerInode fifth midway
    apply midway.passes (fsstackCopy_still _ _ _)
    intro _ sixth midway
    apply midway.passes (inodeMember_still _ _)
    intro ctime seventh midway
    apply midway.passes (program_still (.upper (.dInode _)) trivial)
    intro inode eighth midway
    apply midway.passes (changeAttributes_still _ _)
    intro _ ninth midway
    exact midway.drop (out_still (leaveUnlink_still _ _ _) _ _)

/-- Neither does `trfs_rmdir`. -/
theorem trfsRmdir_midway (dir : Inode) (dentry : Dentry) {target : Nat}
    (midway : Midway root used target state.picture) :
    (trfsRmdir dir dentry).Ensures (treeCall env helpers) blind
      (fun _ after _ => Midway root used target after.picture) state () := by
  apply midway.passes (getPath_still _)
  intro path first midway
  apply midway.passes (lockParent_still _)
  intro lowerDir second midway
  apply midway.passes (program_still (.lower (.dInode _)) trivial)
  intro dirInode third midway
  apply midway.passes (program_still (.lower (.vfsRmdir _ _)) trivial)
  intro err fourth midway
  change (if _ then _ else _ : Prog Outcome).Ensures _ _ _ _ _
  split
  · exact midway.still (out_still (leaveParent_still _ _) _ _)
  · apply midway.passes
    · exact block_still (inodeMember_reads _ _) (inodeMember_reads _ _)
    intro buffers fifth midway
    apply midway.drop
    apply (clearNlink_still _).bind
    intro _
    refine ⟨trivial, fun lowerDirInode => ?_⟩
    apply (fsstackCopy_still _ _ _).bind
    intro _
    refine ⟨trivial, fun lowerDirInode => ?_⟩
    apply (fsstackCopy_still _ _ _).bind
    intro _
    refine ⟨trivial, fun lowerDirInode => ?_⟩
    exact (fsstackCopy_still _ _ _).bind fun _ => out_still (leaveParent_still _ _) _ _

/-- An exit returns its error and changes no tree. -/
theorem outStill_ensures {leave : Prog Unit} {buffers : TraceBuffers} {err : BitVec 32} (still : leave.Calls Still) :
    (buffers.out leave err).Ensures (treeCall env helpers) blind
      (fun outcome after _ => outcome.err = err ∧ after.picture = state.picture) state () := by
  apply still_ensures still
  intro _ first one
  apply still_ensures ((freeInode_frees buffers).mono IsKfree.still)
  intro _ after two
  exact ⟨rfl, two.trans one⟩

/-- The lower tree after a rename. -/
def Picture.moves (picture : Picture) (old new : Nat) : Picture :=
  { picture with lower := picture.lower.move (picture.below old) (picture.below new) }

/-- A rename below moves one lower dentry to the place of the other when it succeeds. -/
theorem picture_renames (state : Mounted (Trees W)) {world : W} {trees : Trees W} {old new : LowerDentry}
    {err : BitVec 32} (distinct : state.picture.lowerInode old.address ≠ state.picture.lowerInode new.address)
    (done : trees = if err = 0 then { state.trees with world := world }.rename old new
      else { state.trees with world := world }) :
    (state.setLower trees).picture = if err = 0 then
      { state.picture with lower := state.picture.lower.move old.address new.address } else state.picture := by
  by_cases succeeded : err = 0
  · have moves : Trees.rename { state.trees with world := world } old new =
        { Trees.delete { state.trees with world := world } new with
          lower := state.trees.lower.move old.address new.address } := if_neg distinct
    rw [done, if_pos succeeded, if_pos succeeded, moves]
    rfl
  · rw [done, if_neg succeeded, if_neg succeeded]
    rfl

/-- A rename of different files moves the lower dentry, or it fails. -/
theorem vfsRename_ensures {oldDir newDir : LowerInode} {old new : LowerDentry} {next : BitVec 32 → Prog Outcome}
    {post : Outcome → Mounted (Trees W) → Unit → Prop}
    (distinct : state.picture.lowerInode old.address ≠ state.picture.lowerInode new.address)
    (continues : ∀ (err : BitVec 32) (after : Mounted (Trees W)), after.picture = (if err = 0 then
        { state.picture with lower := state.picture.lower.move old.address new.address } else state.picture) →
      (next err).Ensures (treeCall env helpers) blind post after ()) :
    (lower (.vfsRename oldDir old newDir new) >>= next).Ensures (treeCall env helpers) blind post state () := by
  intro err after answered
  obtain ⟨owned, _⟩ := treeCall_eq_some answered
  obtain ⟨rfl, rfl⟩ := Prod.mk.inj (Option.some.inj owned)
  exact continues _ _ (picture_renames state distinct rfl)

/-- `trfs_rename` changes the lower tree exactly when it returns 0. -/
theorem trfsRename_moves (oldDir newDir : Inode) {oldDentry newDentry : Dentry}
    (distinct : state.picture.lowerInode (state.picture.below oldDentry.address) ≠
      state.picture.lowerInode (state.picture.below newDentry.address)) :
    (trfsRename oldDir oldDentry newDir newDentry).Ensures (treeCall env helpers) blind
      (fun outcome after _ => after.picture = if outcome.err = 0 then
        state.picture.moves oldDentry.address newDentry.address else state.picture) state () := by
  apply lowerPath_ensures
  intro first one
  apply lowerPath_ensures
  intro second two
  apply stillCall_ensures (c := .lower (.dgetParent _)) trivial
  intro lowerOldDir third three
  apply stillCall_ensures (c := .lower (.dgetParent _)) trivial
  intro lowerNewDir fourth four
  apply still_ensures (lockRename_still _ _)
  intro trap fifth five
  have start : fifth.picture = state.picture := five.trans (four.trans (three.trans (two.trans one)))
  have refused : ∀ (err : BitVec 32) below, err ≠ 0 → (TraceBuffers.null.out (leaveRename below) err).Ensures
      (treeCall env helpers) blind (fun outcome after _ => after.picture = if outcome.err = 0 then
        state.picture.moves oldDentry.address newDentry.address else state.picture) fifth () := by
    intro err below failed
    apply Program.Ensures.mono _ (outStill_ensures (leaveRename_still below))
    rintro outcome after _ ⟨result, same⟩
    rw [result, if_neg failed, same, start]
  change (if _ then _ else _ : Prog Outcome).Ensures _ _ _ _ _
  split
  · exact refused EINVAL _ (by decide)
  · split
    · exact refused ENOTEMPTY _ (by decide)
    · apply stillCall_ensures (c := .lower (.dInode _)) trivial
      intro oldDirInode sixth six
      apply stillCall_ensures (c := .lower (.dInode _)) trivial
      intro newDirInode seventh seven
      have before := seven.trans (six.trans start)
      rw [one]
      apply vfsRename_ensures (by rw [before]; exact distinct)
      intro err eighth moved
      rw [before] at moved
      change (if _ then _ else _ : Prog Outcome).Ensures _ _ _ _ _
      split
      · rename_i failed
        rw [if_neg failed] at moved
        apply Program.Ensures.mono _ (outStill_ensures (leaveRename_still _))
        rintro outcome after _ ⟨result, same⟩
        rw [result, if_neg failed, same, moved]
      · rename_i succeeded
        rw [if_pos (not_not.mp succeeded)] at moved
        apply still_ensures
        · exact block_still trivial trivial
        intro buffers ninth nine
        apply still_ensures (copyDirectory_still _ _)
        intro _ tenth ten
        apply still_ensures
        · exact runIf_still (copyDirectory_still _ _)
        intro _ eleventh eleven
        apply Program.Ensures.mono _ (outStill_ensures (leaveRename_still _))
        rintro outcome after _ ⟨result, same⟩
        rw [result, if_pos (not_not.mp succeeded), same, eleven, ten, nine, moved]
        rfl

end

end Trfs.Kernel
