import Trfs.Proof.Kernel.Staged
namespace Trfs.Kernel
open Bytes Effect Trace

section
attribute [local simp] Program.Calls Quiet IsRead IsKfree

/-- Taking the lower path is no call that a record shows. -/
theorem trfsGetLowerPath_quiet (dentry : Dentry) : (trfsGetLowerPath dentry).Calls Quiet := by
  simp [trfsGetLowerPath]

/-- Neither is putting it back. -/
theorem trfsPutLowerPath_quiet (path : LowerPath) : (trfsPutLowerPath path).Calls Quiet := by
  simp [trfsPutLowerPath]

/-- To read the inode of a lower dentry is quiet. -/
theorem lowerDInode_quiet (dentry : LowerDentry) : (lowerDInode dentry).Calls Quiet := by
  simp [lowerDInode]

/-- The lock of the parent is taken quietly. -/
theorem lockParent_quiet (dentry : LowerDentry) : (lockParent dentry).Calls Quiet := by
  simp [lockParent, lowerDInode]

/-- So are the two locks of a rename. -/
theorem lockRename_quiet (first second : LowerDentry) : (lockRename first second).Calls Quiet := by
  simp [lockRename, lowerDInode]

/-- A copy of attributes from the lower inode is quiet. -/
theorem fsstackCopy_quiet (select : Attributes → Attributes → Attributes) (dest : Inode)
    (src : LowerInode) : (fsstackCopy select dest src).Calls Quiet := by
  simp [fsstackCopy]

/-- A change of an upper inode is quiet. -/
theorem changeAttributes_quiet (inode : Inode) (change : Attributes → Attributes) :
    (changeAttributes inode change).Calls Quiet := by
  simp [changeAttributes]

/-- A quiet action under a condition is quiet. -/
theorem runIf_quiet (condition : Prop) [Decidable condition] {action : Prog Unit}
    (quiet : action.Calls Quiet) : (runIf condition action).Calls Quiet := by
  unfold runIf
  split
  · exact quiet
  · trivial

/-- Clearing and putting the lower file is quiet. -/
theorem dropLowerFile_quiet (file : File) : (dropLowerFile file).Calls Quiet := by
  simp only [dropLowerFile, perform_bind, Program.Calls]
  refine ⟨trivial, fun lowerFile => ?_⟩
  cases lowerFile <;> simp

/-- The copy of the access time after a read is quiet. -/
theorem copyAtime_quiet (dentry : Dentry) (src : LowerInode) :
    (upper (.dInode dentry) >>= fun inode => fsstackCopyAttrAtime inode src).Calls Quiet := by
  simp [fsstackCopyAttrAtime, fsstackCopy]

/-- The copy of size and times after a write is quiet. -/
theorem copySizeTimes_quiet (dentry : Dentry) (src : LowerInode) :
    (upper (.dInode dentry) >>= fun inode => fsstackCopyInodeSize inode src >>= fun _ =>
      upper (.dInode dentry) >>= fun inode => fsstackCopyAttrTimes inode src).Calls Quiet := by
  simp [fsstackCopyInodeSize, fsstackCopyAttrTimes, fsstackCopy]

/-- Both ways to end an open are quiet. -/
theorem settleOpen_quiet (inode : Inode) (file : File) (err : BitVec 32) :
    (settleOpen inode file err).Calls Quiet := by
  unfold settleOpen
  split <;> simp [fsstackCopyAttrAll, fsstackCopy]

/-- The two copies from a lower directory are quiet. -/
theorem copyDirectory_quiet (dir : Inode) (lowerDir : LowerDentry) :
    (copyDirectory dir lowerDir).Calls Quiet := by
  simp [copyDirectory, lowerDInode, fsstackCopyAttrAll, fsstackCopyInodeSize, fsstackCopy]

/-- Filling a new upper inode is quiet. -/
theorem initInode_quiet (inode : Inode) (lowerInode : LowerInode) :
    (initInode inode lowerInode).Calls Quiet := by
  simp [initInode, changeAttributes, fsstackCopyAttrAll, fsstackCopyInodeSize, fsstackCopy]

/-- The exit of the operations under a parent is quiet. -/
theorem leaveParent_quiet (lowerParent : LowerDentry) (path : LowerPath) :
    (leaveParent lowerParent path).Calls Quiet := by
  simp [leaveParent, unlockDir, trfsPutLowerPath, lowerDInode]

/-- The exit of a link is quiet. -/
theorem leaveLink_quiet (lowerDir : LowerDentry) (oldPath newPath : LowerPath) :
    (leaveLink lowerDir oldPath newPath).Calls Quiet := by
  simp [leaveLink, unlockDir, trfsPutLowerPath, lowerDInode]

/-- The exit of an unlink is quiet. -/
theorem leaveUnlink_quiet (lowerDir lowerDentry : LowerDentry) (path : LowerPath) :
    (leaveUnlink lowerDir lowerDentry path).Calls Quiet := by
  simp [leaveUnlink, unlockDir, trfsPutLowerPath, lowerDInode]

/-- The exit of a rename is quiet. -/
theorem leaveRename_quiet (below : RenameLower) : (leaveRename below).Calls Quiet := by
  simp [leaveRename, unlockRename, trfsPutLowerPath, lowerDInode]

/-- Clearing the link count is quiet. -/
theorem clearNlink_quiet (dentry : Dentry) : (clearNlink dentry).Calls Quiet := by
  simp only [clearNlink, perform_bind, Program.Calls]
  exact ⟨trivial, fun inode => runIf_quiet _ (changeAttributes_quiet _ _)⟩

/-- A member of an inode is found by a read. -/
theorem inodeMember_reads {α : Type} (inode : Inode) (select : Attributes → α) :
    (inodeMember inode select).Calls IsRead := by
  simp [inodeMember]

/-- To read a member of an inode is quiet. -/
theorem inodeMember_quiet {α : Type} (inode : Inode) (select : Attributes → α) :
    (inodeMember inode select).Calls Quiet := by
  simp [inodeMember]

/-- A member of the inode of a dentry is found by reads. -/
theorem dInodeMember_reads {α : Type} (dentry : Dentry) (select : Attributes → α) :
    (dInodeMember dentry select).Calls IsRead := by
  simp [dInodeMember]

/-- Freeing a pointer that may be `NULL` calls `kfree` only. -/
theorem kfreeSet_frees (pointer : Option Nat) : (kfreeSet pointer).Calls IsKfree := by
  cases pointer <;> simp [kfreeSet]

end

/-- The file operations free their buffers and do nothing else at their end. -/
theorem freeFile_frees (buffers : TraceBuffers) : buffers.freeFile.Calls IsKfree :=
  (kfreeSet_frees _).bind fun _ => (kfreeSet_frees _).bind fun _ => kfreeSet_frees _

/-- The inode operations free theirs. -/
theorem freeInode_frees (buffers : TraceBuffers) : buffers.freeInode.Calls IsKfree :=
  (kfreeSet_frees _).bind fun _ => (kfreeSet_frees _).bind fun _ => kfreeSet_frees _

section
variable {op : TracedOp} {plan : RecordPlan} {answers : Answers}

/-- An operation that finds no lower file faults, and otherwise it goes on with the file. -/
theorem Staged.openLowerFile {file : File} {next : LowerFile → Prog Outcome}
    (rest : ∀ lowerFile, Staged op (next lowerFile) answers) :
    Staged op (openLowerFile file >>= next) answers := by
  apply Staged.upperCall
  intro lowerFile
  cases lowerFile with
  | none => exact .fault _ answers
  | some lowerFile => exact rest lowerFile

/-- After the tracing block a file operation returns what it planned to. -/
theorem Tail.returnFile {outcome : Outcome} (kept : op.plan answers = plan) (reaches : op.Reaches answers)
    (returned : op.Returned answers outcome.err) : Tail op plan (TraceBuffers.returnFile outcome) answers :=
  .ends TraceBuffers.freeFile outcome answers freeFile_frees kept reaches returned

/-- After the tracing block an inode operation leaves through `out`. -/
theorem Tail.out {leave : Prog Unit} {err : BitVec 32} (quiet : leave.Calls Quiet)
    (kept : op.plan answers = plan) (reaches : op.Reaches answers) (returned : op.Returned answers err) :
    Tail op plan (TraceBuffers.out leave err) answers := by
  unfold TraceBuffers.out
  apply Tail.quiet quiet
  intro _
  exact .ends TraceBuffers.freeInode ⟨err, none⟩ answers freeInode_frees kept reaches returned

/-- An operation that leaves through `out` before its tracing block has no record. -/
theorem Staged.out {leave : Prog Unit} {err : BitVec 32} (quiet : leave.Calls Quiet)
    (early : ¬ op.Reaches answers) (returned : op.Returned answers err) :
    Staged op (TraceBuffers.null.out leave err) answers := by
  unfold TraceBuffers.out
  apply Staged.quiet quiet
  intro _
  exact .stop ⟨err, none⟩ answers early returned

end


section
variable {op : TracedOp} {plan : RecordPlan} {answers : Answers} {err : BitVec 32}

/-- The end of an operation may depend on a condition. -/
theorem Tail.ite {condition : Prop} [Decidable condition] {first second : TraceBuffers → Prog Outcome}
    (left : condition → Tail op plan first answers) (right : ¬ condition → Tail op plan second answers) :
    Tail op plan (fun buffers => if condition then first buffers else second buffers) answers := by
  by_cases holds : condition
  · simpa only [holds, if_true] using left holds
  · simpa only [holds, if_false] using right holds

/-- The operations in one directory begin with the lower paths and the lock. -/
theorem Staged.lockedParent {dentry : Dentry} {rest : LowerPath → LowerDentry → LowerInode → Prog Outcome}
    (continued : ∀ path dir inode, Staged op (rest path dir inode) answers) :
    Staged op (trfsGetLowerPath dentry >>= fun path => lockParent path.dentry >>= fun dir =>
      lowerDInode dir >>= fun inode => rest path dir inode) answers := by
  apply Staged.quiet (trfsGetLowerPath_quiet _)
  intro path
  apply Staged.quiet (lockParent_quiet _)
  intro dir
  apply Staged.quiet (lowerDInode_quiet _)
  intro inode
  exact continued path dir inode

/-- A copy from the inode of a lower dentry. -/
theorem Tail.copyLower {lowerDentry : LowerDentry} {inode : Inode}
    {select : Attributes → Attributes → Attributes} {rest : TraceBuffers → Prog Outcome}
    (continued : Tail op plan rest answers) :
    Tail op plan (fun buffers => lowerDInode lowerDentry >>= fun lowerInode =>
      fsstackCopy select inode lowerInode >>= fun _ => rest buffers) answers := by
  apply Tail.quiet (lowerDInode_quiet _)
  intro lowerInode
  apply Tail.quiet (fsstackCopy_quiet _ _ _)
  intro _
  exact continued

/-- Most of them end with the times of the lower directory and the size of its dentry's inode. -/
theorem Tail.copyParent {dir : Inode} {lowerParent : LowerDentry} {rest : TraceBuffers → Prog Outcome}
    (continued : Tail op plan rest answers) :
    Tail op plan (fun buffers => upper (.lowerInode dir) >>= fun lowerDir =>
      fsstackCopyAttrTimes dir lowerDir >>= fun _ => lowerDInode lowerParent >>= fun parentInode =>
      fsstackCopyInodeSize dir parentInode >>= fun _ => rest buffers) answers := by
  apply Tail.upperCall
  intro lowerDir
  apply Tail.quiet (fsstackCopy_quiet _ _ _)
  intro _
  exact Tail.copyLower continued

end

/-- `trfs_iget` changes none of the answers that a record is made from. -/
theorem trfsIget_meets (lowerInode : LowerInode) (answers : Answers) :
    (trfsIget lowerInode).Meets observe (fun result reached => match result with
      | .ok _ => reached = answers
      | .error err => reached = { answers with interposed := some err }) answers := by
  unfold trfsIget
  apply meets_perform_bind trivial
  rintro (_ | ⟨inode, fresh⟩)
  · exact meets_perform_bind trivial fun _ => rfl
  · cases fresh with
    | false => rfl
    | true =>
        apply meets_perform_bind trivial
        intro grabbed
        cases grabbed with
        | false => rfl
        | true =>
            change (initInode inode lowerInode >>= fun _ => _).Meets _ _ _
            rw [Program.meets_bind]
            exact observe_quiet (initInode_quiet inode lowerInode) fun _ => rfl

/-- The answers keep the result of the interposition. -/
theorem trfsInterpose_meets (dentry : Dentry) (path : LowerPath) (answers : Answers) :
    (trfsInterpose dentry path).Meets observe (fun err reached => ∃ lowerSuper,
      reached = { answers with lowerSuper := lowerSuper, interposed := some err }) answers := by
  unfold trfsInterpose
  rw [Program.meets_bind]
  apply observe_quiet (lowerDInode_quiet _)
  intro lowerInode
  apply meets_perform_bind trivial
  intro lowerSb
  apply meets_perform_bind trivial
  intro super
  by_cases crossed : super = lowerSb
  · subst crossed
    simp only [ne_eq, not_true_eq_false, if_false]
    rw [Program.meets_bind]
    have same : observe.next (observe.next answers (Call.upper .lowerSuper) super)
        (Call.lower (.superBlock lowerInode)) super = { answers with lowerSuper := some super } := by
      simp [observe, Answers.next, Answers.nextLower, Answers.nextUpper]
    rw [same]
    apply (trfsIget_meets lowerInode _).mono
    rintro (err | inode) reached found
    · exact ⟨some super, found⟩
    · subst found
      exact ⟨trivial, fun reply => ⟨some super, rfl⟩⟩
  · simp only [ne_eq, crossed, not_false_eq_true, if_true]
    refine ⟨some lowerSb, ?_⟩
    simp [observe, Answers.next, Answers.nextLower, Answers.nextUpper, Ne.symm crossed]

section
variable {op : TracedOp} {plan : RecordPlan} {answers : Answers} {dentry : Dentry} {path : LowerPath}

/-- Before the tracing block `trfs_interpose` leaves the lower superblock and its result as answers. -/
theorem Staged.interpose {next : BitVec 32 → Prog Outcome} (rest : ∀ err lowerSuper, Staged op (next err)
      { answers with lowerSuper := lowerSuper, interposed := some err }) :
    Staged op (trfsInterpose dentry path >>= next) answers := by
  apply Staged.bind
  apply (trfsInterpose_meets dentry path answers).mono
  rintro err _ ⟨lowerSuper, rfl⟩
  exact rest err lowerSuper

/-- After the tracing block it leaves them as well. -/
theorem Tail.interpose {next : TraceBuffers → BitVec 32 → Prog Outcome}
    (rest : ∀ err lowerSuper, Tail op plan (fun buffers => next buffers err)
      { answers with lowerSuper := lowerSuper, interposed := some err }) :
    Tail op plan (fun buffers => trfsInterpose dentry path >>= next buffers) answers := by
  apply Tail.bind
  apply (trfsInterpose_meets dentry path answers).mono
  rintro err _ ⟨lowerSuper, rfl⟩
  exact rest err lowerSuper

end

/-- `trfs_read` traces after the lower read. -/
theorem trfsRead_staged (file : File) (buf : Nat) (count ppos : BitVec 64) :
    Staged (.read file buf count ppos) (trfsRead file buf count ppos) .none := by
  unfold trfsRead
  apply Staged.openLowerFile
  intro lowerFile
  apply Staged.lowerCall
  intro io
  apply Staged.quiet (runIf_quiet _ (copyAtime_quiet _ _))
  intro _
  apply Staged.block
  · rfl
  · exact dInodeMember_reads _ _
  · exact dInodeMember_reads _ _
  · trivial
  · exact .returnFile rfl trivial rfl

/-- `trfs_write` traces after the lower write. -/
theorem trfsWrite_staged (file : File) (buf : UserMemory) (count ppos : BitVec 64) :
    Staged (.write file buf count ppos) (trfsWrite file buf count ppos) .none := by
  unfold trfsWrite
  apply Staged.openLowerFile
  intro lowerFile
  apply Staged.lowerCall
  intro io
  apply Staged.block
  · rfl
  · exact dInodeMember_reads _ _
  · exact dInodeMember_reads _ _
  · trivial
  · apply Tail.quiet (runIf_quiet _ (copySizeTimes_quiet _ _))
    intro _
    exact .returnFile rfl trivial rfl

/-- The lower open leaves its result in the answers. -/
theorem openLower_meets (file : File) (answers : Answers) :
    (openLower file).Meets observe (fun err reached => reached = { answers with lower := some err })
      answers := by
  unfold openLower
  rw [Program.meets_bind]
  apply observe_quiet (trfsGetLowerPath_quiet _)
  intro lowerPath
  apply meets_perform_bind trivial
  intro opened
  rw [Program.meets_bind]
  apply observe_quiet (trfsPutLowerPath_quiet _)
  intro _
  cases opened with
  | error errno =>
      rw [Program.meets_bind]
      exact observe_quiet (dropLowerFile_quiet _) fun _ => rfl
  | ok lowerFile => exact meets_perform_bind trivial fun _ => rfl

/-- `trfs_open` traces after the lower open, whether this succeeded or not. -/
theorem trfsOpen_staged (inode : Inode) (file : File) :
    Staged (.open inode file) (trfsOpen inode file) .none := by
  unfold trfsOpen
  apply Staged.upperCall
  intro unhashed
  cases unhashed with
  | true =>
      apply Staged.stop
      · simp [TracedOp.Reaches, TracedOp.kind, Answers.nextUpper]
      · exact .inl ⟨rfl, rfl, rfl⟩
  | false =>
      apply Staged.upperCall
      intro allocated
      cases allocated with
      | false =>
          apply Staged.stop
          · simp [TracedOp.Reaches, TracedOp.kind, Answers.nextUpper]
          · exact .inr (.inl ⟨rfl, rfl, rfl⟩)
      | true =>
          change Staged _ (openLower file >>= _) _
          apply Staged.bind
          apply (openLower_meets file _).mono
          rintro err _ rfl
          apply Staged.block
          · rfl
          · trivial
          · exact dInodeMember_reads _ _
          · exact ⟨rfl, rfl⟩
          · apply Tail.quiet (settleOpen_quiet _ _ _)
            intro _
            exact .returnFile rfl ⟨rfl, rfl⟩ (.inr (.inr ⟨rfl, rfl, rfl⟩))

/-- `trfs_file_release` traces after it has put the lower file. -/
theorem trfsFileRelease_staged (file : File) :
    Staged (.release file) (trfsFileRelease file) .none := by
  unfold trfsFileRelease
  apply Staged.quiet (dropLowerFile_quiet file)
  intro _
  apply Staged.block
  · rfl
  · trivial
  · trivial
  · trivial
  · apply Tail.upperCall
    intro _
    exact .returnFile rfl trivial rfl

/-- `trfs_create` traces before it looks at the result of the lower create. -/
theorem trfsCreate_staged (dir : Inode) (dentry : Dentry) (mode : BitVec 16) (wantExcl : Bool) :
    Staged (.create dir dentry mode wantExcl) (trfsCreate dir dentry mode wantExcl) .none := by
  unfold trfsCreate
  apply Staged.lockedParent
  intro path parent inode
  apply Staged.lowerCall
  intro err
  apply Staged.block
  · rfl
  · exact inodeMember_reads _ _
  · trivial
  · trivial
  · apply Tail.ite
    · intro failed
      exact .out (leaveParent_quiet _ _) rfl trivial (.inl ⟨rfl, failed⟩)
    · intro succeeded
      obtain rfl := not_not.mp succeeded
      apply Tail.interpose
      intro err lowerSuper
      apply Tail.ite
      · intro _
        exact .out (leaveParent_quiet _ _) rfl trivial (.inr ⟨rfl, rfl⟩)
      · intro _
        exact Tail.copyParent (.out (leaveParent_quiet _ _) rfl trivial (.inr ⟨rfl, rfl⟩))

/-- Symlinks and device nodes attach the new inode first and are traced after that. -/
theorem Staged.attach {op : TracedOp} {answers : Answers} {dir : Inode} {dentry : Dentry} {path : LowerPath}
    {parent : LowerDentry} {block : BitVec 32 → TraceBlock} {err : BitVec 32}
    (reaches : ∀ reached, op.Reaches reached ↔ reached.lower = some 0 ∧ reached.interposed = some 0)
    (returned : ∀ reached result, (reached.lower = some result ∧ result ≠ 0) ∨
      (reached.lower = some 0 ∧ reached.interposed = some result) → op.Returned reached result)
    (plan : ∀ reached, (block 0).toRecordPlan = op.plan reached) (flags : (block 0).openFlags.Calls IsRead)
    (mode : (block 0).permMode.Calls IsRead) (lower : answers.lower = some err) :
    Staged op (if err ≠ 0 then TraceBuffers.null.out (leaveParent parent path) err else
      trfsInterpose dentry path >>= fun err =>
        if err ≠ 0 then TraceBuffers.null.out (leaveParent parent path) err else
          (block err).run >>= fun buffers => upper (.lowerInode dir) >>= fun lowerDir =>
            fsstackCopyAttrTimes dir lowerDir >>= fun _ => lowerDInode parent >>= fun parentInode =>
              fsstackCopyInodeSize dir parentInode >>= fun _ =>
                buffers.out (leaveParent parent path) err) answers := by
  by_cases succeeded : err = 0
  · subst succeeded
    apply Staged.interpose
    intro err lowerSuper
    by_cases attached : err = 0
    · subst attached
      have here := (reaches { answers with lowerSuper := lowerSuper, interposed := some 0 }).mpr ⟨lower, rfl⟩
      apply Staged.block (block 0) _ _ (plan _) flags mode here
      exact Tail.copyParent (.out (leaveParent_quiet _ _) rfl here (returned _ _ (.inr ⟨lower, rfl⟩)))
    · rw [if_pos attached]
      apply Staged.out (leaveParent_quiet _ _)
      · exact fun here => attached (Option.some.inj ((reaches _).mp here).2)
      · exact returned _ _ (.inr ⟨lower, rfl⟩)
  · rw [if_pos succeeded]
    apply Staged.out (leaveParent_quiet _ _)
    · exact fun here => succeeded (Option.some.inj (lower.symm.trans ((reaches _).mp here).1))
    · exact returned _ _ (.inl ⟨lower, succeeded⟩)

/-- `trfs_symlink` traces after it has interposed the new link. -/
theorem trfsSymlink_staged (dir : Inode) (dentry : Dentry) (symname : CString) :
    Staged (.symlink dir dentry symname) (trfsSymlink dir dentry symname) .none := by
  unfold trfsSymlink
  apply Staged.lockedParent
  intro path parent inode
  apply Staged.lowerCall
  intro err
  exact Staged.attach (fun _ => Iff.rfl) (fun _ _ => id) (fun _ => rfl) trivial trivial rfl

/-- `trfs_mknod` traces after it has interposed the new node. -/
theorem trfsMknod_staged (dir : Inode) (dentry : Dentry) (mode : BitVec 16) (dev : BitVec 32) :
    Staged (.mknod dir dentry mode dev) (trfsMknod dir dentry mode dev) .none := by
  unfold trfsMknod
  apply Staged.lockedParent
  intro path parent inode
  apply Staged.lowerCall
  intro err
  exact Staged.attach (fun _ => Iff.rfl) (fun _ _ => id) (fun _ => rfl) trivial trivial rfl

/-- `trfs_mkdir` traces between the check of the lower result and `trfs_interpose`. -/
theorem trfsMkdir_staged (dir : Inode) (dentry : Dentry) (mode : BitVec 16) :
    Staged (.mkdir dir dentry mode) (trfsMkdir dir dentry mode) .none := by
  unfold trfsMkdir
  apply Staged.lockedParent
  intro path parent inode
  apply Staged.lowerCall
  intro err
  by_cases succeeded : err = 0
  · subst succeeded
    apply Staged.block
    · rfl
    · exact inodeMember_reads _ _
    · trivial
    · rfl
    · apply Tail.interpose
      intro err lowerSuper
      apply Tail.ite
      · intro _
        exact .out (leaveParent_quiet _ _) rfl rfl (.inr ⟨rfl, rfl⟩)
      · intro _
        apply Tail.copyParent
        apply Tail.upperCall
        intro lowerDir
        apply Tail.quiet (fsstackCopy_quiet _ _ _)
        intro _
        exact .out (leaveParent_quiet _ _) rfl rfl (.inr ⟨rfl, rfl⟩)
  · rw [if_pos succeeded]
    exact .out (leaveParent_quiet _ _) (fun reaches => succeeded (Option.some.inj reaches))
      (.inl ⟨rfl, succeeded⟩)

/-- `trfs_rmdir` traces after a removal that succeeded. -/
theorem trfsRmdir_staged (dir : Inode) (dentry : Dentry) :
    Staged (.rmdir dir dentry) (trfsRmdir dir dentry) .none := by
  unfold trfsRmdir
  apply Staged.lockedParent
  intro path lowerDir inode
  apply Staged.lowerCall
  intro err
  by_cases succeeded : err = 0
  · subst succeeded
    apply Staged.block
    · rfl
    · exact inodeMember_reads _ _
    · exact inodeMember_reads _ _
    · rfl
    · apply Tail.upperCall
      intro _
      apply Tail.quiet (clearNlink_quiet _)
      intro _
      apply Tail.copyLower
      apply Tail.copyLower
      apply Tail.copyLower
      exact .out (leaveParent_quiet _ _) rfl rfl rfl
  · rw [if_pos succeeded]
    exact .out (leaveParent_quiet _ _) (fun reaches => succeeded (Option.some.inj reaches)) rfl

/-- The test after `vfs_link` records whether the new dentry is negative. -/
theorem failedOrNegative_meets (err : BitVec 32) (lowerDentry : LowerDentry) (answers : Answers) :
    (failedOrNegative err lowerDentry).Meets observe (fun failed reached =>
      (err ≠ 0 ∧ failed = true ∧ reached = answers) ∨
        (err = 0 ∧ reached = { answers with negative := some failed })) answers := by
  unfold failedOrNegative
  split
  · rename_i failed
    exact .inl ⟨failed, rfl, rfl⟩
  · rename_i succeeded
    exact ⟨trivial, fun negative => .inr ⟨not_not.mp succeeded, rfl⟩⟩

/-- `trfs_link` traces after it has interposed the new name. -/
theorem trfsLink_staged (oldDentry : Dentry) (dir : Inode) (newDentry : Dentry) :
    Staged (.link oldDentry dir newDentry) (trfsLink oldDentry dir newDentry) .none := by
  unfold trfsLink
  apply Staged.upperCall
  intro oldInode
  apply Staged.quiet (inodeMember_quiet _ _)
  intro fileSizeSave
  apply Staged.quiet (trfsGetLowerPath_quiet _)
  intro oldPath
  apply Staged.lockedParent
  intro newPath lowerDir inode
  apply Staged.lowerCall
  intro err
  apply Staged.bind
  apply (failedOrNegative_meets err newPath.dentry _).mono
  rintro failed reached (⟨wrong, rfl, rfl⟩ | ⟨rfl, rfl⟩)
  · exact .out (leaveLink_quiet _ _ _) (fun reaches => wrong (Option.some.inj reaches.1))
      (.inl ⟨rfl, wrong⟩)
  cases failed with
  | true =>
      apply Staged.out (leaveLink_quiet _ _ _)
      · intro reaches
        exact nomatch Option.some.inj reaches.2.1
      · exact .inr (.inl ⟨rfl, rfl, rfl⟩)
  | false =>
      apply Staged.interpose
      intro err lowerSuper
      by_cases attached : err = 0
      · subst attached
        apply Staged.block
        · rfl
        · trivial
        · trivial
        · exact ⟨rfl, rfl, rfl⟩
        · apply Tail.copyLower
          apply Tail.copyLower
          apply Tail.upperCall
          intro _
          apply Tail.upperCall
          intro _
          apply Tail.quiet (fsstackCopy_quiet _ _ _)
          intro _
          apply Tail.upperCall
          intro _
          apply Tail.quiet (changeAttributes_quiet _ _)
          intro _
          exact .out (leaveLink_quiet _ _ _) rfl ⟨rfl, rfl, rfl⟩ (.inr (.inr ⟨rfl, rfl, rfl⟩))
      · rw [if_pos attached]
        exact .out (leaveLink_quiet _ _ _) (fun reaches => attached (Option.some.inj reaches.2.2))
          (.inr (.inr ⟨rfl, rfl, rfl⟩))

/-- A silly-renamed file leaves both the error and the flag in the answers. -/
theorem sillyRenamed_meets (err : BitVec 32) (lowerDentry : LowerDentry) (answers : Answers)
    (failed : answers.lower = some err) :
    (sillyRenamed err lowerDentry).Meets observe (fun result reached =>
      (reached.lower = some EBUSY ∧ reached.renamed = some true ∧ result = 0) ∨
        (reached.lower = some result ∧ (result = EBUSY → reached.renamed = some false))) answers := by
  unfold sillyRenamed
  split
  · rename_i busy
    subst busy
    apply meets_perform_bind trivial
    intro renamed
    cases renamed with
    | true => exact .inl ⟨failed, rfl, rfl⟩
    | false => exact .inr ⟨failed, fun _ => rfl⟩
  · rename_i other
    exact .inr ⟨failed, fun busy => absurd busy other⟩

/-- `trfs_unlink` traces after a removal that succeeded or that NFS has renamed. -/
theorem trfsUnlink_staged (dir : Inode) (dentry : Dentry) :
    Staged (.unlink dir dentry) (trfsUnlink dir dentry) .none := by
  unfold trfsUnlink
  apply Staged.upperCall
  intro dirInode
  apply Staged.quiet (trfsGetLowerPath_quiet _)
  intro path
  apply Staged.lowerCall
  intro _
  apply Staged.quiet (lockParent_quiet _)
  intro lowerDir
  apply Staged.lowerCall
  intro err
  apply Staged.bind
  apply (sillyRenamed_meets err path.dentry _ rfl).mono
  intro err reached settled
  have returned : (TracedOp.unlink dir dentry).Returned reached err := settled
  by_cases succeeded : err = 0
  · subst succeeded
    have reaches : (TracedOp.unlink dir dentry).Reaches reached :=
      settled.symm.imp (fun plain => plain.1) fun silly => ⟨silly.1, silly.2.1⟩
    apply Staged.block
    · rfl
    · trivial
    · trivial
    · exact reaches
    · apply Tail.quiet (fsstackCopy_quiet _ _ _)
      intro _
      apply Tail.quiet (fsstackCopy_quiet _ _ _)
      intro _
      apply Tail.upperCall
      intro _
      apply Tail.upperCall
      intro _
      apply Tail.quiet (fsstackCopy_quiet _ _ _)
      intro _
      apply Tail.quiet (inodeMember_quiet _ _)
      intro _
      apply Tail.upperCall
      intro _
      apply Tail.quiet (changeAttributes_quiet _ _)
      intro _
      apply Tail.upperCall
      intro _
      exact .out (leaveUnlink_quiet _ _ _) rfl reaches returned
  · rw [if_pos succeeded]
    apply Staged.out (leaveUnlink_quiet _ _ _)
    · rcases settled with silly | ⟨plain, named⟩
      · exact absurd silly.2.2 succeeded
      · rintro (zero | ⟨busy, renamed⟩)
        · exact succeeded (Option.some.inj (plain.symm.trans zero))
        · have kept := named (Option.some.inj (plain.symm.trans busy))
          exact nomatch Option.some.inj (kept.symm.trans renamed)
    · exact returned

/-- `trfs_rename` traces after a rename that succeeded. -/
theorem trfsRename_staged (oldDir : Inode) (oldDentry : Dentry) (newDir : Inode) (newDentry : Dentry) :
    Staged (.rename oldDir oldDentry newDir newDentry) (trfsRename oldDir oldDentry newDir newDentry)
      .none := by
  unfold trfsRename
  apply Staged.quiet (trfsGetLowerPath_quiet _)
  intro oldPath
  apply Staged.quiet (trfsGetLowerPath_quiet _)
  intro newPath
  apply Staged.lowerCall
  intro lowerOldDir
  apply Staged.lowerCall
  intro lowerNewDir
  apply Staged.quiet (lockRename_quiet _ _)
  intro trap
  by_cases ancestor : trap = some oldPath.dentry
  · rw [if_pos ancestor]
    exact .out (leaveRename_quiet _) (fun reaches => nomatch reaches) (.inl ⟨rfl, .inl rfl⟩)
  rw [if_neg ancestor]
  by_cases descendant : trap = some newPath.dentry
  · rw [if_pos descendant]
    exact .out (leaveRename_quiet _) (fun reaches => nomatch reaches) (.inl ⟨rfl, .inr rfl⟩)
  rw [if_neg descendant]
  apply Staged.quiet (lowerDInode_quiet _)
  intro oldInode
  apply Staged.quiet (lowerDInode_quiet _)
  intro newInode
  apply Staged.lowerCall
  intro err
  by_cases succeeded : err = 0
  · subst succeeded
    apply Staged.block
    · rfl
    · trivial
    · trivial
    · rfl
    · apply Tail.quiet (copyDirectory_quiet _ _)
      intro _
      apply Tail.quiet (runIf_quiet _ (copyDirectory_quiet _ _))
      intro _
      exact .out (leaveRename_quiet _) rfl rfl (.inr rfl)
  · rw [if_pos succeeded]
    exact .out (leaveRename_quiet _) (fun reaches => succeeded (Option.some.inj reaches)) (.inr rfl)

/-- Every traced operation has one place for its tracing block, or leaves before it. -/
theorem TracedOp.staged (op : TracedOp) : Staged op op.program .none := by
  cases op with
  | «open» inode file => exact trfsOpen_staged inode file
  | read file buf count ppos => exact trfsRead_staged file buf count ppos
  | write file buf count ppos => exact trfsWrite_staged file buf count ppos
  | release file => exact trfsFileRelease_staged file
  | create dir dentry mode wantExcl => exact trfsCreate_staged dir dentry mode wantExcl
  | link oldDentry dir newDentry => exact trfsLink_staged oldDentry dir newDentry
  | unlink dir dentry => exact trfsUnlink_staged dir dentry
  | symlink dir dentry symname => exact trfsSymlink_staged dir dentry symname
  | mkdir dir dentry mode => exact trfsMkdir_staged dir dentry mode
  | rmdir dir dentry => exact trfsRmdir_staged dir dentry
  | mknod dir dentry mode dev => exact trfsMknod_staged dir dentry mode dev
  | rename oldDir oldDentry newDir newDentry => exact trfsRename_staged oldDir oldDentry newDir newDentry

end Trfs.Kernel
