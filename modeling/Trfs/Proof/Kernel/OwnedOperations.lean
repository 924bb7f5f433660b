import Trfs.Proof.Kernel.OwnedBlock

namespace Trfs.Kernel
open Bytes Effect Trace

attribute [local simp] Program.Calls Neutral

section
variable (dir dest : Inode) (dentry : Dentry) (lowerDentry : LowerDentry) (src lowerInode : LowerInode) (err : BitVec 32)

/-- An action without references has none under a condition. -/
theorem runIf_neutral {condition : Prop} [Decidable condition] {action : Prog Unit} (calls : action.Calls Neutral) :
    (runIf condition action).Calls Neutral := by
  unfold runIf
  split
  · exact calls
  · trivial

/-- A copy of attributes takes and gives no reference. -/
theorem fsstackCopy_neutral (select : Attributes → Attributes → Attributes) :
    (fsstackCopy select dest src).Calls Neutral :=
  ⟨trivial, fun _ => ⟨trivial, fun _ => ⟨trivial, fun _ => trivial⟩⟩⟩

/-- Neither does a read of a member. -/
theorem inodeMember_neutral (select : Attributes → α) : (inodeMember dir select).Calls Neutral :=
  ⟨trivial, fun _ => trivial⟩

/-- Neither does a change of an upper inode. -/
theorem changeAttributes_neutral (change : Attributes → Attributes) : (changeAttributes dest change).Calls Neutral :=
  ⟨trivial, fun _ => ⟨trivial, fun _ => trivial⟩⟩

/-- Neither does filling a new inode. -/
theorem initInode_neutral : (initInode dest lowerInode).Calls Neutral := by
  refine ⟨trivial, fun _ => ?_⟩
  apply (changeAttributes_neutral dest _).bind
  intro _
  apply (fsstackCopy_neutral dest lowerInode _).bind
  intro _
  apply (fsstackCopy_neutral dest lowerInode _).bind
  intro _
  exact ⟨trivial, fun _ => trivial⟩

/-- The references that `trfs_iget` takes belong to the new inode and are counted elsewhere. -/
theorem trfsIget_neutral : (trfsIget lowerInode).Calls Neutral := by
  refine ⟨trivial, fun found => ?_⟩
  cases found with
  | none => exact ⟨trivial, fun _ => trivial⟩
  | some found =>
      obtain ⟨inode, new⟩ := found
      cases new with
      | false => trivial
      | true =>
          refine ⟨trivial, fun grabbed => ?_⟩
          cases grabbed with
          | false => trivial
          | true => exact (initInode_neutral inode lowerInode).bind fun _ => trivial

/-- So `trfs_interpose` takes and gives none. -/
theorem trfsInterpose_neutral (path : LowerPath) : (trfsInterpose dentry path).Calls Neutral := by
  refine ⟨trivial, fun lowerInode => ⟨trivial, fun lowerSb => ⟨trivial, fun super => ?_⟩⟩⟩
  change Program.Calls Neutral (ite (super ≠ lowerSb) _ _)
  split
  · trivial
  · apply (trfsIget_neutral lowerInode).bind
    intro found
    cases found with
    | error err => trivial
    | ok inode => exact ⟨trivial, fun _ => trivial⟩

/-- The test of the lower dentry after a link takes and gives none. -/
theorem failedOrNegative_neutral : (failedOrNegative err lowerDentry).Calls Neutral := by
  unfold failedOrNegative
  split
  · trivial
  · exact ⟨trivial, fun _ => trivial⟩

/-- The test for the silly rename of NFS takes and gives none. -/
theorem sillyRenamed_neutral : (sillyRenamed err lowerDentry).Calls Neutral := by
  unfold sillyRenamed
  split
  · refine ⟨trivial, fun renamed => ?_⟩
    cases renamed <;> trivial
  · trivial

/-- Clearing the link count takes and gives none. -/
theorem clearNlink_neutral : (clearNlink dentry).Calls Neutral :=
  ⟨trivial, fun inode => runIf_neutral (changeAttributes_neutral inode _)⟩

/-- The copies from a lower directory take and give none. -/
theorem copyDirectory_neutral : (copyDirectory dir lowerDentry).Calls Neutral := by
  refine ⟨trivial, fun source => ?_⟩
  apply (fsstackCopy_neutral dir source _).bind
  intro _
  exact ⟨trivial, fun source => fsstackCopy_neutral dir source _⟩

/-- Looking at the lower file of an open file takes and gives none. -/
theorem openLowerFile_neutral (file : File) : (openLowerFile file).Calls Neutral := by
  refine ⟨trivial, fun lowerFile => ?_⟩
  cases lowerFile with
  | none => exact ⟨trivial, nofun⟩
  | some lowerFile => trivial

end

/-- The copy of the times and the size of the parent at the end of an operation that made a name. -/
theorem copyParent_neutral (dir : Inode) (lowerParent : LowerDentry) :
    (do
      let lowerDir ← upper (.lowerInode dir)
      fsstackCopyAttrTimes dir lowerDir
      let parentInode ← lowerDInode lowerParent
      fsstackCopyInodeSize dir parentInode : Prog Unit).Calls Neutral := by
  refine ⟨trivial, fun lowerDir => ?_⟩
  apply (fsstackCopy_neutral dir lowerDir _).bind
  intro _
  exact ⟨trivial, fun parentInode => fsstackCopy_neutral dir parentInode _⟩

section
variable {L : Type} {env : Environment L} {helpers : Helpers} {referenced : L → LowerDentry → Prop}
  {held rest : Multiset Token} {pinned : List (LowerDentry × LowerInode)} {holdings : Holdings} {state after : Mounted L}
  {progress : Option (Multiset Token)} {α β : Type} {err : BitVec 32} {buffers : TraceBuffers}

/-- A request without buffers owns what it owned. -/
theorem Owns.null (owns : Owns env referenced held pinned holdings state progress) :
    Owns env referenced (held + TraceBuffers.null.tokens) pinned holdings state progress := by
  rw [TraceBuffers.tokens_null, add_zero]
  exact owns

/-- The exit under a parent gives back all that such an operation owns. -/
theorem leaveParent_owns (pinning : Pinning env referenced) {path : LowerPath} {dir : LowerDentry}
    {inode : LowerInode} (there : inode ≠ .null) (pin : (dir, inode) ∈ pinned)
    (owns : Owns env referenced (0 + pathTokens path + dentryTokens dir + {.lock [inode]} + buffers.tokens) pinned
      holdings state progress) :
    (buffers.out (leaveParent dir path) err).Ensures (handleOwned env helpers) callLedger.account
      (fun _ after progress => Owns env referenced 0 [] holdings after progress) state progress := by
  have order : 0 + pathTokens path + dentryTokens dir + {.lock [inode]} + buffers.tokens =
      {.lock [inode]} + (dentryTokens dir + (pathTokens path + (buffers.tokens + 0))) := by abel
  apply out_owns pinning
  apply unlockDir_owns pinning owns pin there order
  intro state progress owns
  exact putPath_owns pinning owns rfl fun state progress owns => owns

/-- The exit of a link gives back both paths, the directory and its lock. -/
theorem leaveLink_owns (pinning : Pinning env referenced) {oldPath newPath : LowerPath} {dir : LowerDentry}
    {inode : LowerInode} (there : inode ≠ .null) (pin : (dir, inode) ∈ pinned)
    (owns : Owns env referenced
      (0 + pathTokens oldPath + pathTokens newPath + dentryTokens dir + {.lock [inode]} + buffers.tokens) pinned
      holdings state progress) :
    (buffers.out (leaveLink dir oldPath newPath) err).Ensures (handleOwned env helpers) callLedger.account
      (fun _ after progress => Owns env referenced 0 [] holdings after progress) state progress := by
  have order : 0 + pathTokens oldPath + pathTokens newPath + dentryTokens dir + {.lock [inode]} + buffers.tokens =
      {.lock [inode]} + (dentryTokens dir + (pathTokens oldPath + (pathTokens newPath + (buffers.tokens + 0)))) := by
    abel
  apply out_owns pinning
  apply unlockDir_owns pinning owns pin there order
  intro state progress owns
  apply putPath_owns pinning owns rfl
  intro state progress owns
  exact putPath_owns pinning owns rfl fun state progress owns => owns

/-- The exit of an unlink gives back the path, the extra reference, the directory and its lock. -/
theorem leaveUnlink_owns (pinning : Pinning env referenced) {path : LowerPath} {dir : LowerDentry}
    {inode : LowerInode} (there : inode ≠ .null) (pin : (dir, inode) ∈ pinned)
    (owns : Owns env referenced
      (0 + pathTokens path + dentryTokens path.dentry + dentryTokens dir + {.lock [inode]} + buffers.tokens) pinned
      holdings state progress) :
    (buffers.out (leaveUnlink dir path.dentry path) err).Ensures (handleOwned env helpers) callLedger.account
      (fun _ after progress => Owns env referenced 0 [] holdings after progress) state progress := by
  have order : 0 + pathTokens path + dentryTokens path.dentry + dentryTokens dir + {.lock [inode]} + buffers.tokens =
      {.lock [inode]} + (dentryTokens dir + (dentryTokens path.dentry + (pathTokens path + (buffers.tokens + 0)))) := by
    abel
  apply out_owns pinning
  apply unlockDir_owns pinning owns pin there order
  intro state progress owns
  apply dput_owns pinning owns rfl
  intro state progress owns
  exact putPath_owns pinning owns rfl fun state progress owns => owns

/-- The operations that make a name end with the copy of their parent. -/
theorem made_owns (pinning : Pinning env referenced) {dir : Inode} {lowerParent : LowerDentry} {path : LowerPath}
    {inode : LowerInode} (there : inode ≠ .null) (pin : (lowerParent, inode) ∈ pinned)
    (owns : Owns env referenced (0 + pathTokens path + dentryTokens lowerParent + {.lock [inode]} + buffers.tokens)
      pinned holdings state progress) :
    (do
      let lowerDir ← upper (.lowerInode dir)
      fsstackCopyAttrTimes dir lowerDir
      let parentInode ← lowerDInode lowerParent
      fsstackCopyInodeSize dir parentInode
      buffers.out (leaveParent lowerParent path) err).Ensures (handleOwned env helpers) callLedger.account
      (fun _ after progress => Owns env referenced 0 [] holdings after progress) state progress :=
  neutral_ensures pinning (copyParent_neutral dir lowerParent) owns
    fun _ _ _ owns => leaveParent_owns pinning there pin owns

/-- The operations that lock one parent begin with it. -/
theorem underParent_owns (pinning : Pinning env referenced) {dentry : Dentry}
    {next : LowerPath → LowerDentry → LowerInode → Prog α} {post : α → Mounted L → Option (Multiset Token) → Prop}
    (owns : Owns env referenced 0 [] holdings state progress)
    (continues : ∀ path lowerParent inode after progress, inode ≠ .null →
      Owns env referenced (0 + pathTokens path + dentryTokens lowerParent + {.lock [inode]}) [(lowerParent, inode)]
        holdings after progress →
      (next path lowerParent inode).Ensures (handleOwned env helpers) callLedger.account post after progress) :
    (do
      let path ← trfsGetLowerPath dentry
      let lowerParent ← lockParent path.dentry
      let inode ← lowerDInode lowerParent
      next path lowerParent inode).Ensures (handleOwned env helpers) callLedger.account post state progress := by
  apply getPath_owns pinning owns
  intro path state progress owns
  apply lockParent_owns pinning owns
  intro lowerParent inode state progress there owns
  apply readPinned_owns pinning owns List.mem_cons_self there
  intro state progress owns
  exact continues path lowerParent inode state progress there owns

/-- `trfs_create` gives back on every way out what it has taken. -/
theorem trfsCreate_owns (pinning : Pinning env referenced) {dir : Inode} {dentry : Dentry} {mode : BitVec 16}
    {wantExcl : Bool} (owns : Owns env referenced 0 [] holdings state progress) :
    (trfsCreate dir dentry mode wantExcl).Ensures (handleOwned env helpers) callLedger.account
      (fun _ after progress => Owns env referenced 0 [] holdings after progress) state progress := by
  unfold trfsCreate
  apply underParent_owns pinning owns
  intro path lowerParent inode state progress there owns
  have pin : (lowerParent, inode) ∈ [(lowerParent, inode)] := List.mem_cons_self
  have changes : (lower (.vfsCreate inode path.dentry mode wantExcl)).Calls Neutral := ⟨trivial, fun _ => trivial⟩
  apply neutral_ensures pinning changes owns
  intro err state progress owns
  apply run_owns pinning owns (by exact ⟨trivial, fun _ => trivial⟩) (by trivial)
  intro buffers state progress owns
  by_cases failed : err ≠ 0
  · rw [if_pos failed]
    exact leaveParent_owns pinning there pin owns
  · rw [if_neg failed]
    apply neutral_ensures pinning (trfsInterpose_neutral dentry path) owns
    intro err state progress owns
    by_cases failed : err ≠ 0
    · rw [if_pos failed]
      exact leaveParent_owns pinning there pin owns
    · rw [if_neg failed]
      exact made_owns pinning there pin owns

/-- `trfs_symlink` does so too. -/
theorem trfsSymlink_owns (pinning : Pinning env referenced) {dir : Inode} {dentry : Dentry} {symname : CString}
    (owns : Owns env referenced 0 [] holdings state progress) :
    (trfsSymlink dir dentry symname).Ensures (handleOwned env helpers) callLedger.account
      (fun _ after progress => Owns env referenced 0 [] holdings after progress) state progress := by
  unfold trfsSymlink
  apply underParent_owns pinning owns
  intro path lowerParent inode state progress there owns
  have pin : (lowerParent, inode) ∈ [(lowerParent, inode)] := List.mem_cons_self
  have changes : (lower (.vfsSymlink inode path.dentry symname)).Calls Neutral := ⟨trivial, fun _ => trivial⟩
  apply neutral_ensures pinning changes owns
  intro err state progress owns
  by_cases failed : err ≠ 0
  · rw [if_pos failed]
    exact leaveParent_owns pinning there pin owns.null
  · rw [if_neg failed]
    apply neutral_ensures pinning (trfsInterpose_neutral dentry path) owns
    intro err state progress owns
    by_cases failed : err ≠ 0
    · rw [if_pos failed]
      exact leaveParent_owns pinning there pin owns.null
    · rw [if_neg failed]
      apply run_owns pinning owns (by trivial) (by trivial)
      intro buffers state progress owns
      exact made_owns pinning there pin owns

/-- `trfs_mknod` does so too. -/
theorem trfsMknod_owns (pinning : Pinning env referenced) {dir : Inode} {dentry : Dentry} {mode : BitVec 16}
    {dev : BitVec 32} (owns : Owns env referenced 0 [] holdings state progress) :
    (trfsMknod dir dentry mode dev).Ensures (handleOwned env helpers) callLedger.account
      (fun _ after progress => Owns env referenced 0 [] holdings after progress) state progress := by
  unfold trfsMknod
  apply underParent_owns pinning owns
  intro path lowerParent inode state progress there owns
  have pin : (lowerParent, inode) ∈ [(lowerParent, inode)] := List.mem_cons_self
  have changes : (lower (.vfsMknod inode path.dentry mode dev)).Calls Neutral := ⟨trivial, fun _ => trivial⟩
  apply neutral_ensures pinning changes owns
  intro err state progress owns
  by_cases failed : err ≠ 0
  · rw [if_pos failed]
    exact leaveParent_owns pinning there pin owns.null
  · rw [if_neg failed]
    apply neutral_ensures pinning (trfsInterpose_neutral dentry path) owns
    intro err state progress owns
    by_cases failed : err ≠ 0
    · rw [if_pos failed]
      exact leaveParent_owns pinning there pin owns.null
    · rw [if_neg failed]
      apply run_owns pinning owns (by trivial) (by trivial)
      intro buffers state progress owns
      exact made_owns pinning there pin owns

/-- `trfs_mkdir` does so too. -/
theorem trfsMkdir_owns (pinning : Pinning env referenced) {dir : Inode} {dentry : Dentry} {mode : BitVec 16}
    (owns : Owns env referenced 0 [] holdings state progress) :
    (trfsMkdir dir dentry mode).Ensures (handleOwned env helpers) callLedger.account
      (fun _ after progress => Owns env referenced 0 [] holdings after progress) state progress := by
  unfold trfsMkdir
  apply underParent_owns pinning owns
  intro path lowerParent inode state progress there owns
  have pin : (lowerParent, inode) ∈ [(lowerParent, inode)] := List.mem_cons_self
  have changes : (lower (.vfsMkdir inode path.dentry mode)).Calls Neutral := ⟨trivial, fun _ => trivial⟩
  apply neutral_ensures pinning changes owns
  intro err state progress owns
  by_cases failed : err ≠ 0
  · rw [if_pos failed]
    exact leaveParent_owns pinning there pin owns.null
  · rw [if_neg failed]
    apply run_owns pinning owns (by exact ⟨trivial, fun _ => trivial⟩) (by trivial)
    intro buffers state progress owns
    apply neutral_ensures pinning (trfsInterpose_neutral dentry path) owns
    intro err state progress owns
    by_cases failed : err ≠ 0
    · rw [if_pos failed]
      exact leaveParent_owns pinning there pin owns
    · rw [if_neg failed]
      apply neutral_ensures pinning (copyParent_neutral dir lowerParent) owns
      intro _ state progress owns
      have looks : (upper (.lowerInode dir)).Calls Neutral := ⟨trivial, fun _ => trivial⟩
      apply neutral_ensures pinning looks owns
      intro lowerDir state progress owns
      apply neutral_ensures pinning (fsstackCopy_neutral dir lowerDir _) owns
      intro _ state progress owns
      exact leaveParent_owns pinning there pin owns

/-- `trfs_rmdir` does so too. -/
theorem trfsRmdir_owns (pinning : Pinning env referenced) {dir : Inode} {dentry : Dentry}
    (owns : Owns env referenced 0 [] holdings state progress) :
    (trfsRmdir dir dentry).Ensures (handleOwned env helpers) callLedger.account
      (fun _ after progress => Owns env referenced 0 [] holdings after progress) state progress := by
  unfold trfsRmdir
  apply underParent_owns pinning owns
  intro path lowerDir inode state progress there owns
  have pin : (lowerDir, inode) ∈ [(lowerDir, inode)] := List.mem_cons_self
  have changes : (lower (.vfsRmdir inode path.dentry)).Calls Neutral := ⟨trivial, fun _ => trivial⟩
  apply neutral_ensures pinning changes owns
  intro err state progress owns
  by_cases failed : err ≠ 0
  · rw [if_pos failed]
    exact leaveParent_owns pinning there pin owns.null
  · rw [if_neg failed]
    apply run_owns pinning owns (by exact ⟨trivial, fun _ => trivial⟩) (by exact ⟨trivial, fun _ => trivial⟩)
    intro buffers state progress owns
    have drops : (upper (.dDrop dentry)).Calls Neutral := ⟨trivial, fun _ => trivial⟩
    apply neutral_ensures pinning drops owns
    intro _ state progress owns
    apply neutral_ensures pinning (clearNlink_neutral dentry) owns
    intro _ state progress owns
    apply readPinned_owns pinning owns pin there
    intro state progress owns
    apply neutral_ensures pinning (fsstackCopy_neutral dir inode _) owns
    intro _ state progress owns
    apply readPinned_owns pinning owns pin there
    intro state progress owns
    apply neutral_ensures pinning (fsstackCopy_neutral dir inode _) owns
    intro _ state progress owns
    apply readPinned_owns pinning owns pin there
    intro state progress owns
    apply neutral_ensures pinning (fsstackCopy_neutral dir inode _) owns
    intro _ state progress owns
    exact leaveParent_owns pinning there pin owns

/-- `trfs_unlink` does so too. -/
theorem trfsUnlink_owns (pinning : Pinning env referenced) {dir : Inode} {dentry : Dentry}
    (owns : Owns env referenced 0 [] holdings state progress) :
    (trfsUnlink dir dentry).Ensures (handleOwned env helpers) callLedger.account
      (fun _ after progress => Owns env referenced 0 [] holdings after progress) state progress := by
  unfold trfsUnlink
  have looks : ∀ inode, (upper (.lowerInode inode)).Calls Neutral := fun _ => ⟨trivial, fun _ => trivial⟩
  apply neutral_ensures pinning (looks dir) owns
  intro lowerDirInode state progress owns
  apply getPath_owns pinning owns
  intro path state progress owns
  refine gain_ensures pinning (.lower (.dget path.dentry)) trivial rfl (fun _ => id) owns ?_
  intro _ state progress _ owns
  apply lockParent_owns pinning owns
  intro lowerDir inode state progress there owns
  have pin : (lowerDir, inode) ∈ [(lowerDir, inode)] := List.mem_cons_self
  have removes : (lower (.vfsUnlink lowerDirInode path.dentry)).Calls Neutral := ⟨trivial, fun _ => trivial⟩
  apply neutral_ensures pinning removes owns
  intro err state progress owns
  apply neutral_ensures pinning (sillyRenamed_neutral path.dentry err) owns
  intro err state progress owns
  by_cases failed : err ≠ 0
  · rw [if_pos failed]
    exact leaveUnlink_owns pinning there pin owns.null
  · rw [if_neg failed]
    apply run_owns pinning owns (by trivial) (by trivial)
    intro buffers state progress owns
    apply neutral_ensures pinning (fsstackCopy_neutral dir lowerDirInode _) owns
    intro _ state progress owns
    apply neutral_ensures pinning (fsstackCopy_neutral dir lowerDirInode _) owns
    intro _ state progress owns
    have reads : (upper (.dInode dentry)).Calls Neutral := ⟨trivial, fun _ => trivial⟩
    apply neutral_ensures pinning reads owns
    intro upperInode state progress owns
    apply neutral_ensures pinning (looks upperInode) owns
    intro lowerInode state progress owns
    apply neutral_ensures pinning (fsstackCopy_neutral upperInode lowerInode _) owns
    intro _ state progress owns
    apply neutral_ensures pinning (inodeMember_neutral dir _) owns
    intro ctime state progress owns
    apply neutral_ensures pinning reads owns
    intro upperInode state progress owns
    apply neutral_ensures pinning (changeAttributes_neutral upperInode _) owns
    intro _ state progress owns
    have drops : (upper (.dDrop dentry)).Calls Neutral := ⟨trivial, fun _ => trivial⟩
    apply neutral_ensures pinning drops owns
    intro _ state progress owns
    exact leaveUnlink_owns pinning there pin owns

/-- `trfs_link` does so too, also when the new name cannot be interposed. -/
theorem trfsLink_owns (pinning : Pinning env referenced) {oldDentry newDentry : Dentry} {dir : Inode}
    (owns : Owns env referenced 0 [] holdings state progress) :
    (trfsLink oldDentry dir newDentry).Ensures (handleOwned env helpers) callLedger.account
      (fun _ after progress => Owns env referenced 0 [] holdings after progress) state progress := by
  unfold trfsLink
  have reads : ∀ dentry, (upper (.dInode dentry)).Calls Neutral := fun _ => ⟨trivial, fun _ => trivial⟩
  apply neutral_ensures pinning (reads oldDentry) owns
  intro oldInode state progress owns
  apply neutral_ensures pinning (inodeMember_neutral oldInode _) owns
  intro fileSizeSave state progress owns
  apply getPath_owns pinning owns
  intro oldPath state progress owns
  apply getPath_owns pinning owns
  intro newPath state progress owns
  apply lockParent_owns pinning owns
  intro lowerDir inode state progress there owns
  have pin : (lowerDir, inode) ∈ [(lowerDir, inode)] := List.mem_cons_self
  apply readPinned_owns pinning owns pin there
  intro state progress owns
  have links : (lower (.vfsLink oldPath.dentry inode newPath.dentry)).Calls Neutral := ⟨trivial, fun _ => trivial⟩
  apply neutral_ensures pinning links owns
  intro err state progress owns
  apply neutral_ensures pinning (failedOrNegative_neutral newPath.dentry err) owns
  intro failed state progress owns
  cases failed with
  | true => exact leaveLink_owns pinning there pin owns.null
  | false =>
      apply neutral_ensures pinning (trfsInterpose_neutral newDentry newPath) owns
      intro err state progress owns
      by_cases failed : err ≠ 0
      · rw [if_pos failed]
        exact leaveLink_owns pinning there pin owns.null
      · rw [if_neg failed]
        apply run_owns pinning owns (by trivial) (by trivial)
        intro buffers state progress owns
        have lowers : (lowerDInode newPath.dentry).Calls Neutral := ⟨trivial, fun _ => trivial⟩
        apply neutral_ensures pinning lowers owns
        intro source state progress owns
        apply neutral_ensures pinning (fsstackCopy_neutral dir source _) owns
        intro _ state progress owns
        apply neutral_ensures pinning lowers owns
        intro source state progress owns
        apply neutral_ensures pinning (fsstackCopy_neutral dir source _) owns
        intro _ state progress owns
        apply neutral_ensures pinning (reads oldDentry) owns
        intro oldInode state progress owns
        have looks : (upper (.lowerInode oldInode)).Calls Neutral := ⟨trivial, fun _ => trivial⟩
        apply neutral_ensures pinning looks owns
        intro lowerOldInode state progress owns
        apply neutral_ensures pinning (fsstackCopy_neutral oldInode lowerOldInode _) owns
        intro _ state progress owns
        apply neutral_ensures pinning (reads newDentry) owns
        intro newInode state progress owns
        apply neutral_ensures pinning (changeAttributes_neutral newInode _) owns
        intro _ state progress owns
        exact leaveLink_owns pinning there pin owns

/-- What `trfs_rename` holds while both directories are locked. -/
def RenameLower.tokens (below : RenameLower) (locked : List LowerInode) : Multiset Token :=
  0 + pathTokens below.oldPath + pathTokens below.newPath + dentryTokens below.oldDir + dentryTokens below.newDir +
    {.lock locked}

/-- `lock_rename` locks the inodes of two dentries with references. -/
theorem lockRename_owns (pinning : Pinning env referenced) {first second : LowerDentry}
    {next : Option LowerDentry → Prog α} {post : α → Mounted L → Option (Multiset Token) → Prop}
    (owns : Owns env referenced held pinned holdings state progress) (firstPin : (first, .null) ∈ pinned)
    (secondPin : (second, .null) ∈ pinned)
    (continues : ∀ trap a b after progress, a ≠ .null → b ≠ .null →
      Owns env referenced (held + {.lock [a, b]}) [(first, a), (second, b)] holdings after progress →
      (next trap).Ensures (handleOwned env helpers) callLedger.account post after progress) :
    (lockRename first second >>= next).Ensures (handleOwned env helpers) callLedger.account post state progress := by
  change (lowerDInode first >>= fun a => lowerDInode second >>= fun b => upper (.lock [a, b]) >>= fun _ =>
    lower (.renameTrap first second) >>= next).Ensures _ _ _ _ _
  apply readInode_owns pinning owns firstPin
  intro a state progress owns
  apply readInode_owns pinning owns (List.mem_cons_of_mem _ secondPin)
  intro b state progress owns
  apply lock_owns pinning owns
  intro state progress there owns
  have traps : (lower (.renameTrap first second)).Calls Neutral := ⟨trivial, fun _ => trivial⟩
  apply neutral_ensures pinning traps owns
  intro trap state progress owns
  refine continues trap a b state progress (there a (by simp)) (there b (by simp)) { owns with pinned := ?_ }
  intro pair member
  apply owns.pinned
  rcases List.mem_cons.mp member with rfl | last
  · simp
  · obtain rfl := List.mem_singleton.mp last
    simp

/-- The exit of a rename gives back both paths, both directories and their locks. -/
theorem leaveRename_owns (pinning : Pinning env referenced) {below : RenameLower} {a b : LowerInode}
    (first : a ≠ .null) (second : b ≠ .null)
    (owns : Owns env referenced (below.tokens [a, b] + buffers.tokens) [(below.oldDir, a), (below.newDir, b)] holdings
      state progress) :
    (buffers.out (leaveRename below) err).Ensures (handleOwned env helpers) callLedger.account
      (fun _ after progress => Owns env referenced 0 [] holdings after progress) state progress := by
  have order : below.tokens [a, b] + buffers.tokens = {.lock [a, b]} + (dentryTokens below.oldDir +
      (dentryTokens below.newDir + (pathTokens below.oldPath + (pathTokens below.newPath + (buffers.tokens + 0))))) := by
    unfold RenameLower.tokens
    abel
  apply out_owns pinning
  change (lowerDInode below.oldDir >>= fun a => lowerDInode below.newDir >>= fun b => upper (.unlock [a, b]) >>= fun _ =>
    lower (.dput below.oldDir) >>= fun _ => lower (.dput below.newDir) >>= fun _ =>
    trfsPutLowerPath below.oldPath >>= fun _ => trfsPutLowerPath below.newPath).Ensures _ _ _ _ _
  apply readPinned_owns pinning owns List.mem_cons_self first
  intro state progress owns
  apply readPinned_owns pinning owns (List.mem_cons_of_mem _ List.mem_cons_self) second
  intro state progress owns
  apply unlock_owns pinning owns order
  intro state progress owns
  apply dput_owns pinning owns rfl
  intro state progress owns
  apply dput_owns pinning owns rfl
  intro state progress owns
  apply putPath_owns pinning owns rfl
  intro state progress owns
  exact putPath_owns pinning owns rfl fun state progress owns => owns

/-- `trfs_rename` gives back on every way out what it has taken. -/
theorem trfsRename_owns (pinning : Pinning env referenced) {oldDir newDir : Inode} {oldDentry newDentry : Dentry}
    (owns : Owns env referenced 0 [] holdings state progress) :
    (trfsRename oldDir oldDentry newDir newDentry).Ensures (handleOwned env helpers) callLedger.account
      (fun _ after progress => Owns env referenced 0 [] holdings after progress) state progress := by
  unfold trfsRename
  apply getPath_owns pinning owns
  intro oldPath state progress owns
  apply getPath_owns pinning owns
  intro newPath state progress owns
  apply dgetParent_owns pinning owns
  intro lowerOldDir state progress owns
  apply dgetParent_owns pinning owns
  intro lowerNewDir state progress owns
  apply lockRename_owns pinning owns (List.mem_cons_of_mem _ List.mem_cons_self) List.mem_cons_self
  intro trap a b state progress first second owns
  by_cases oldTrap : trap = some oldPath.dentry
  · rw [if_pos oldTrap]
    exact leaveRename_owns pinning first second owns.null
  rw [if_neg oldTrap]
  by_cases newTrap : trap = some newPath.dentry
  · rw [if_pos newTrap]
    exact leaveRename_owns pinning first second owns.null
  rw [if_neg newTrap]
  apply readPinned_owns pinning owns List.mem_cons_self first
  intro state progress owns
  apply readPinned_owns pinning owns (List.mem_cons_of_mem _ List.mem_cons_self) second
  intro state progress owns
  have renames : (lower (.vfsRename a oldPath.dentry b newPath.dentry)).Calls Neutral := ⟨trivial, fun _ => trivial⟩
  apply neutral_ensures pinning renames owns
  intro err state progress owns
  by_cases failed : err ≠ 0
  · rw [if_pos failed]
    exact leaveRename_owns pinning first second owns.null
  · rw [if_neg failed]
    apply run_owns pinning owns (by trivial) (by trivial)
    intro buffers state progress owns
    apply neutral_ensures pinning (copyDirectory_neutral newDir lowerNewDir) owns
    intro _ state progress owns
    apply neutral_ensures pinning (runIf_neutral (copyDirectory_neutral oldDir lowerOldDir)) owns
    intro _ state progress owns
    exact leaveRename_owns pinning first second owns

end

end Trfs.Kernel
