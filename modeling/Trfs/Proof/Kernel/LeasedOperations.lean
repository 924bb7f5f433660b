import Trfs.Proof.Kernel.Leased

namespace Trfs.Kernel
open Bytes Effect Trace

section
variable (dir dest : Inode) (dentry : Dentry) (lowerDentry : LowerDentry) (src lowerInode : LowerInode) (err : BitVec 32)

/-- An action that needs nothing needs nothing under a condition. -/
theorem runIf_free {condition : Prop} [Decidable condition] {action : Prog Unit} (calls : action.Calls Free) :
    (runIf condition action).Calls Free := by
  unfold runIf
  split
  · exact calls
  · trivial

/-- A copy of attributes needs no reference. -/
theorem fsstackCopy_free (select : Attributes → Attributes → Attributes) : (fsstackCopy select dest src).Calls Free :=
  ⟨trivial, fun _ => ⟨trivial, fun _ => ⟨trivial, fun _ => trivial⟩⟩⟩

/-- To read a member of an upper inode needs none. -/
theorem inodeMember_free (select : Attributes → α) : (inodeMember dir select).Calls Free := ⟨trivial, fun _ => trivial⟩

/-- To change an upper inode needs none. -/
theorem changeAttributes_free (change : Attributes → Attributes) : (changeAttributes dest change).Calls Free :=
  ⟨trivial, fun _ => ⟨trivial, fun _ => trivial⟩⟩

/-- To fill a new upper inode needs none. -/
theorem initInode_free : (initInode dest lowerInode).Calls Free := by
  refine ⟨trivial, fun _ => ?_⟩
  apply (changeAttributes_free dest _).bind
  intro _
  apply (fsstackCopy_free dest lowerInode _).bind
  intro _
  apply (fsstackCopy_free dest lowerInode _).bind
  intro _
  exact ⟨trivial, fun _ => trivial⟩

/-- `trfs_iget` needs none: it takes its own on the lower inode. -/
theorem trfsIget_free : (trfsIget lowerInode).Calls Free := by
  refine ⟨trivial, fun found => ?_⟩
  cases found with
  | none => exact ⟨trivial, fun _ => trivial⟩
  | some found =>
      obtain ⟨inode, new⟩ := found
      cases new with
      | false => trivial
      | true =>
          refine ⟨trivial, fun grabbed => ?_⟩
          cases grabbed with
          | false => trivial
          | true => exact (initInode_free inode lowerInode).bind fun _ => trivial

/-- Clearing the link count needs none. -/
theorem clearNlink_free : (clearNlink dentry).Calls Free :=
  ⟨trivial, fun inode => runIf_free (changeAttributes_free inode _)⟩

/-- The buffers of an inode operation are freed without a reference. -/
theorem freeInode_free (buffers : TraceBuffers) : buffers.freeInode.Calls Free := by
  apply (freeInode_frees buffers).mono
  intro c frees
  cases c with
  | tracer c => trivial
  | _ => exact frees.elim

/-- So are those of a file operation. -/
theorem freeFile_free (buffers : TraceBuffers) : buffers.freeFile.Calls Free := by
  apply (freeFile_frees buffers).mono
  intro c frees
  cases c with
  | tracer c => trivial
  | _ => exact frees.elim

end

section
variable {held rest : Multiset Token} {known : Knowledge} {α : Type} {post : α → Multiset Token → Knowledge → Prop}
  {dentry : Dentry} {path : LowerPath} {lowerDir lowerDentry : LowerDentry} {dir : Inode} {inode : LowerInode}
  {err : BitVec 32} {buffers : TraceBuffers}

/-- A condition does not change what an action needs. -/
theorem runIf_tame {condition : Prop} [Decidable condition] {action : Prog Unit}
    (calls : action.Calls (callLeasing.Tame held known)) :
    (runIf condition action).Calls (callLeasing.Tame held known) := by
  unfold runIf
  split
  · exact calls
  · trivial

/-- All calls of a request have what they need, from its first one on. -/
def Leased (program : Prog α) : Prop := program.Covers callLeasing (fun _ _ _ => True) 0 .start

/-- `trfs_interpose` needs the lower dentry of the path that it gets. -/
theorem interposing_tame (enough : dentryTokens path.dentry ≤ held) :
    (trfsInterpose dentry path).Calls (callLeasing.Tame held known) := by
  refine ⟨tame_of_held trivial enough, fun lowerInode => ?_⟩
  apply free_tame
  refine ⟨trivial, fun lowerSb => ⟨trivial, fun super => ?_⟩⟩
  change Program.Calls Free (ite (super ≠ lowerSb) _ _)
  split
  · trivial
  · apply (trfsIget_free lowerInode).bind
    intro found
    cases found with
    | error err => trivial
    | ok inode => exact ⟨trivial, fun _ => trivial⟩

/-- The test of the lower dentry after a link needs that dentry. -/
theorem failedOrNegative_tame (enough : dentryTokens lowerDentry ≤ held) :
    (failedOrNegative err lowerDentry).Calls (callLeasing.Tame held known) := by
  unfold failedOrNegative
  split
  · trivial
  · exact ⟨tame_of_held trivial enough, fun _ => trivial⟩

/-- The test for the silly rename of NFS needs the removed dentry. -/
theorem sillyRenamed_tame (enough : dentryTokens lowerDentry ≤ held) :
    (sillyRenamed err lowerDentry).Calls (callLeasing.Tame held known) := by
  unfold sillyRenamed
  split
  · refine ⟨tame_of_held trivial enough, fun renamed => ?_⟩
    cases renamed <;> trivial
  · trivial

/-- The two copies from a lower directory need its dentry. -/
theorem copyDirectory_tame (enough : dentryTokens lowerDir ≤ held) :
    (copyDirectory dir lowerDir).Calls (callLeasing.Tame held known) := by
  refine ⟨tame_of_held trivial enough, fun source => ?_⟩
  apply (free_tame (fsstackCopy_free dir source _)).bind
  intro _
  exact ⟨tame_of_held trivial enough, fun source => free_tame (fsstackCopy_free dir source _)⟩

/-- So does the copy of times and size after a new name. -/
theorem copyingParent_tame (enough : dentryTokens lowerDir ≤ held) :
    (do
      let source ← upper (.lowerInode dir)
      fsstackCopyAttrTimes dir source
      let parentInode ← lowerDInode lowerDir
      fsstackCopyInodeSize dir parentInode : Prog Unit).Calls (callLeasing.Tame held known) := by
  refine ⟨Free.tame _ trivial, fun source => ?_⟩
  apply (free_tame (fsstackCopy_free dir source _)).bind
  intro _
  exact ⟨tame_of_held trivial enough, fun parentInode => free_tame (fsstackCopy_free dir parentInode _)⟩

/-- The label `out` frees the buffers, which needs nothing. -/
theorem out_covers {leave : Prog Unit} (covers : leave.Covers callLeasing (fun _ _ _ => True) held known) :
    (buffers.out leave err).Covers callLeasing (fun _ _ _ => True) held known := by
  unfold TraceBuffers.out
  rw [Program.covers_bind]
  apply covers.weaken
  exact fun _ _ _ _ => (free_tame (freeInode_free buffers)).covers fun _ _ _ => trivial

/-- What the operations in one directory hold. -/
def underParent (path : LowerPath) (dir : LowerDentry) (inode : LowerInode) : Multiset Token :=
  0 + pathTokens path + dentryTokens dir + {.lock [inode]}

/-- Under the parent the path of the new name is held, -/
theorem underParent_path : dentryTokens path.dentry ≤ underParent path lowerDir inode := by
  have whole : underParent path lowerDir inode =
      dentryTokens path.dentry + (mntTokens path.mnt + dentryTokens lowerDir + {.lock [inode]}) := by
    unfold underParent pathTokens
    abel
  exact le_of_parts whole

/-- the dentry of the directory is held too, -/
theorem underParent_dir : dentryTokens lowerDir ≤ underParent path lowerDir inode := by
  have whole : underParent path lowerDir inode = dentryTokens lowerDir + (pathTokens path + {.lock [inode]}) := by
    unfold underParent
    abel
  exact le_of_parts whole

/-- and so are its lock and the dentry of the name, which a change of the directory needs. -/
theorem underParent_lock : {.lock [inode]} + dentryTokens path.dentry ≤ underParent path lowerDir inode := by
  have whole : underParent path lowerDir inode =
      {.lock [inode]} + dentryTokens path.dentry + (mntTokens path.mnt + dentryTokens lowerDir) := by
    unfold underParent pathTokens
    abel
  exact le_of_parts whole

/-- The operations under a parent begin with the path, the parent and its lock. -/
theorem underParent_covers {next : LowerPath → LowerDentry → LowerInode → Prog α}
    (continues : ∀ path lowerDir inode, inode ≠ .null →
      (next path lowerDir inode).Covers callLeasing post (underParent path lowerDir inode) ⟨true, [], [(lowerDir, inode)]⟩) :
    (do
      let path ← trfsGetLowerPath dentry
      let lowerDir ← lockParent path.dentry
      let inode ← lowerDInode lowerDir
      next path lowerDir inode).Covers callLeasing post 0 .start := by
  apply getPath_covers rfl
  intro path
  apply lockParent_covers (le_of_parts (zero_add _))
  intro lowerDir inode real
  apply readPinned_covers underParent_dir List.mem_cons_self real
  have more : ⟨true, [], [(lowerDir, inode)]⟩ ≤ (Knowledge.start.pin path.dentry .null).pin lowerDir inode :=
    ⟨rfl, List.Subset.refl _, List.cons_subset_cons _ (List.nil_subset _)⟩
  exact (continues path lowerDir inode real).mono more

/-- Their exit gives back exactly these. -/
theorem leaveParent_covers (real : inode ≠ .null) (pin : (lowerDir, inode) ∈ known.pinned) :
    (buffers.out (leaveParent lowerDir path) err).Covers callLeasing (fun _ _ _ => True)
      (underParent path lowerDir inode) known := by
  have order : underParent path lowerDir inode = {.lock [inode]} + (dentryTokens lowerDir + (pathTokens path + 0)) := by
    unfold underParent
    abel
  apply out_covers
  apply unlockDir_covers pin real order
  exact putPath_covers rfl fun _ _ => trivial

/-- The operations that make a name end with the copy of their parent. -/
theorem made_covers (real : inode ≠ .null) (pin : (lowerDir, inode) ∈ known.pinned) :
    (do
      let source ← upper (.lowerInode dir)
      fsstackCopyAttrTimes dir source
      let parentInode ← lowerDInode lowerDir
      fsstackCopyInodeSize dir parentInode
      buffers.out (leaveParent lowerDir path) err).Covers callLeasing (fun _ _ _ => True)
      (underParent path lowerDir inode) known :=
  (copyingParent_tame underParent_dir).covers fun _ => leaveParent_covers real pin

/-- `trfs_create` holds what each of its calls needs. -/
theorem trfsCreate_leased {mode : BitVec 16} {wantExcl : Bool} : Leased (trfsCreate dir dentry mode wantExcl) := by
  apply underParent_covers
  intro path lowerDir inode real
  have changes : (lower (.vfsCreate inode path.dentry mode wantExcl)).Calls (callLeasing.Tame (underParent path lowerDir inode)
        ⟨true, [], [(lowerDir, inode)]⟩) :=
    ⟨tame_of_held trivial underParent_lock, fun _ => trivial⟩
  apply changes.covers
  intro err
  apply run_covers (by exact ⟨trivial, fun _ => trivial⟩) (by trivial)
  intro buffers
  apply covers_ite (leaveParent_covers real List.mem_cons_self)
  apply (interposing_tame underParent_path).covers
  intro err
  apply covers_ite (leaveParent_covers real List.mem_cons_self)
  exact made_covers real List.mem_cons_self

/-- `trfs_symlink` holds what each of its calls needs. -/
theorem trfsSymlink_leased {symname : CString} : Leased (trfsSymlink dir dentry symname) := by
  apply underParent_covers
  intro path lowerDir inode real
  have changes : (lower (.vfsSymlink inode path.dentry symname)).Calls (callLeasing.Tame (underParent path lowerDir inode)
        ⟨true, [], [(lowerDir, inode)]⟩) :=
    ⟨tame_of_held trivial underParent_lock, fun _ => trivial⟩
  apply changes.covers
  intro err
  apply covers_ite (leaveParent_covers real List.mem_cons_self)
  apply (interposing_tame underParent_path).covers
  intro err
  apply covers_ite (leaveParent_covers real List.mem_cons_self)
  apply run_covers (by trivial) (by trivial)
  intro buffers
  exact made_covers real List.mem_cons_self

/-- `trfs_mknod` holds what each of its calls needs. -/
theorem trfsMknod_leased {mode : BitVec 16} {dev : BitVec 32} : Leased (trfsMknod dir dentry mode dev) := by
  apply underParent_covers
  intro path lowerDir inode real
  have changes : (lower (.vfsMknod inode path.dentry mode dev)).Calls (callLeasing.Tame (underParent path lowerDir inode)
        ⟨true, [], [(lowerDir, inode)]⟩) :=
    ⟨tame_of_held trivial underParent_lock, fun _ => trivial⟩
  apply changes.covers
  intro err
  apply covers_ite (leaveParent_covers real List.mem_cons_self)
  apply (interposing_tame underParent_path).covers
  intro err
  apply covers_ite (leaveParent_covers real List.mem_cons_self)
  apply run_covers (by trivial) (by trivial)
  intro buffers
  exact made_covers real List.mem_cons_self

/-- `trfs_mkdir` holds what each of its calls needs. -/
theorem trfsMkdir_leased {mode : BitVec 16} : Leased (trfsMkdir dir dentry mode) := by
  apply underParent_covers
  intro path lowerDir inode real
  have changes : (lower (.vfsMkdir inode path.dentry mode)).Calls (callLeasing.Tame (underParent path lowerDir inode)
        ⟨true, [], [(lowerDir, inode)]⟩) :=
    ⟨tame_of_held trivial underParent_lock, fun _ => trivial⟩
  apply changes.covers
  intro err
  apply covers_ite (leaveParent_covers real List.mem_cons_self)
  apply run_covers (by exact ⟨trivial, fun _ => trivial⟩) (by trivial)
  intro buffers
  apply (interposing_tame underParent_path).covers
  intro err
  apply covers_ite (leaveParent_covers real List.mem_cons_self)
  apply (copyingParent_tame underParent_dir).covers
  intro _
  have looks : (upper (.lowerInode dir)).Calls Free := ⟨trivial, fun _ => trivial⟩
  apply (free_tame looks).covers
  intro source
  apply (free_tame (fsstackCopy_free dir source _)).covers
  intro _
  exact leaveParent_covers real List.mem_cons_self

/-- `trfs_rmdir` holds what each of its calls needs. -/
theorem trfsRmdir_leased : Leased (trfsRmdir dir dentry) := by
  apply underParent_covers
  intro path lowerDir inode real
  have changes : (lower (.vfsRmdir inode path.dentry)).Calls (callLeasing.Tame (underParent path lowerDir inode)
        ⟨true, [], [(lowerDir, inode)]⟩) :=
    ⟨tame_of_held trivial underParent_lock, fun _ => trivial⟩
  apply changes.covers
  intro err
  apply covers_ite (leaveParent_covers real List.mem_cons_self)
  apply run_covers (by exact ⟨trivial, fun _ => trivial⟩) (by exact ⟨trivial, fun _ => trivial⟩)
  intro buffers
  have drops : (upper (.dDrop dentry)).Calls Free := ⟨trivial, fun _ => trivial⟩
  apply (free_tame drops).covers
  intro _
  apply (free_tame (clearNlink_free dentry)).covers
  intro _
  have reads : (lowerDInode lowerDir).Calls (callLeasing.Tame (underParent path lowerDir inode)
      ⟨true, [], [(lowerDir, inode)]⟩) := ⟨tame_of_held trivial underParent_dir, fun _ => trivial⟩
  apply reads.covers
  intro source
  apply (free_tame (fsstackCopy_free dir source _)).covers
  intro _
  apply reads.covers
  intro source
  apply (free_tame (fsstackCopy_free dir source _)).covers
  intro _
  apply reads.covers
  intro source
  apply (free_tame (fsstackCopy_free dir source _)).covers
  intro _
  exact leaveParent_covers real List.mem_cons_self

/-- What `trfs_unlink` holds while the directory of the lower dentry is locked. -/
def underUnlink (path : LowerPath) (dir : LowerDentry) (inode : LowerInode) : Multiset Token :=
  0 + pathTokens path + dentryTokens path.dentry + dentryTokens dir + {.lock [inode]}

/-- In an unlink the dentry of the name is held. -/
theorem underUnlink_path : dentryTokens path.dentry ≤ underUnlink path lowerDir inode := by
  have whole : underUnlink path lowerDir inode =
      dentryTokens path.dentry + (pathTokens path + dentryTokens lowerDir + {.lock [inode]}) := by
    unfold underUnlink
    abel
  exact le_of_parts whole

/-- The exit of an unlink gives back the lock and all references. -/
theorem leaveUnlink_covers (real : inode ≠ .null) (pin : (lowerDir, inode) ∈ known.pinned) :
    (buffers.out (leaveUnlink lowerDir path.dentry path) err).Covers callLeasing (fun _ _ _ => True)
      (underUnlink path lowerDir inode) known := by
  have order : underUnlink path lowerDir inode =
      {.lock [inode]} + (dentryTokens lowerDir + (dentryTokens path.dentry + (pathTokens path + 0))) := by
    unfold underUnlink
    abel
  apply out_covers
  apply unlockDir_covers pin real order
  apply dput_covers rfl
  exact putPath_covers rfl fun _ _ => trivial

/-- `trfs_unlink` holds what each of its calls needs. -/
theorem trfsUnlink_leased : Leased (trfsUnlink dir dentry) := by
  unfold Leased trfsUnlink
  have looks : ∀ inode, (upper (.lowerInode inode)).Calls Free := fun _ => ⟨trivial, fun _ => trivial⟩
  apply (free_tame (looks dir)).covers
  intro lowerDirInode
  apply getPath_covers rfl
  intro path
  apply dget_covers (le_of_parts (zero_add _))
  apply lockParent_covers (Multiset.le_add_left _ _)
  intro lowerDir inode real
  have pin : (lowerDir, inode) ∈ ((Knowledge.start.pin path.dentry .null).pin lowerDir inode).pinned := List.mem_cons_self
  have removes : (lower (.vfsUnlink lowerDirInode path.dentry)).Calls (callLeasing.Tame (underUnlink path lowerDir inode)
      ((Knowledge.start.pin path.dentry .null).pin lowerDir inode)) :=
    ⟨tame_of_held trivial underUnlink_path, fun _ => trivial⟩
  apply removes.covers
  intro err
  apply (sillyRenamed_tame underUnlink_path).covers
  intro err
  apply covers_ite (leaveUnlink_covers real pin)
  apply run_covers (by trivial) (by trivial)
  intro buffers
  apply (free_tame (fsstackCopy_free dir lowerDirInode _)).covers
  intro _
  apply (free_tame (fsstackCopy_free dir lowerDirInode _)).covers
  intro _
  have reads : (upper (.dInode dentry)).Calls Free := ⟨trivial, fun _ => trivial⟩
  apply (free_tame reads).covers
  intro upperInode
  apply (free_tame (looks upperInode)).covers
  intro lowerInode
  apply (free_tame (fsstackCopy_free upperInode lowerInode _)).covers
  intro _
  apply (free_tame (inodeMember_free dir _)).covers
  intro ctime
  apply (free_tame reads).covers
  intro upperInode
  apply (free_tame (changeAttributes_free upperInode _)).covers
  intro _
  have drops : (upper (.dDrop dentry)).Calls Free := ⟨trivial, fun _ => trivial⟩
  apply (free_tame drops).covers
  intro _
  exact leaveUnlink_covers real pin

/-- What `trfs_link` holds while the directory of the new name is locked. -/
def underLink (oldPath newPath : LowerPath) (dir : LowerDentry) (inode : LowerInode) : Multiset Token :=
  0 + pathTokens oldPath + pathTokens newPath + dentryTokens dir + {.lock [inode]}

section
variable {oldPath newPath : LowerPath} {oldDentry newDentry : Dentry}

/-- In a link the path of the new name is held, -/
theorem underLink_new : dentryTokens newPath.dentry ≤ underLink oldPath newPath lowerDir inode := by
  have whole : underLink oldPath newPath lowerDir inode = dentryTokens newPath.dentry +
      (mntTokens newPath.mnt + pathTokens oldPath + dentryTokens lowerDir + {.lock [inode]}) := by
    unfold underLink pathTokens
    abel
  exact le_of_parts whole

/-- the dentry of the directory is held too, -/
theorem underLink_dir : dentryTokens lowerDir ≤ underLink oldPath newPath lowerDir inode := by
  have whole : underLink oldPath newPath lowerDir inode =
      dentryTokens lowerDir + (pathTokens oldPath + pathTokens newPath + {.lock [inode]}) := by
    unfold underLink
    abel
  exact le_of_parts whole

/-- and so are its lock and the dentries of both names. -/
theorem underLink_lock : {.lock [inode]} + (dentryTokens oldPath.dentry + dentryTokens newPath.dentry) ≤
    underLink oldPath newPath lowerDir inode := by
  have whole : underLink oldPath newPath lowerDir inode =
      {.lock [inode]} + (dentryTokens oldPath.dentry + dentryTokens newPath.dentry) +
        (mntTokens oldPath.mnt + mntTokens newPath.mnt + dentryTokens lowerDir) := by
    unfold underLink pathTokens
    abel
  exact le_of_parts whole

/-- The exit of a link gives back the lock and all references. -/
theorem leaveLink_covers (real : inode ≠ .null) (pin : (lowerDir, inode) ∈ known.pinned) :
    (buffers.out (leaveLink lowerDir oldPath newPath) err).Covers callLeasing (fun _ _ _ => True)
      (underLink oldPath newPath lowerDir inode) known := by
  have order : underLink oldPath newPath lowerDir inode =
      {.lock [inode]} + (dentryTokens lowerDir + (pathTokens oldPath + (pathTokens newPath + 0))) := by
    unfold underLink
    abel
  apply out_covers
  apply unlockDir_covers pin real order
  apply putPath_covers rfl
  exact putPath_covers rfl fun _ _ => trivial

/-- `trfs_link` holds what each of its calls needs. -/
theorem trfsLink_leased : Leased (trfsLink oldDentry dir newDentry) := by
  unfold Leased trfsLink
  have reads : ∀ dentry, (upper (.dInode dentry)).Calls Free := fun _ => ⟨trivial, fun _ => trivial⟩
  apply (free_tame (reads oldDentry)).covers
  intro oldInode
  apply (free_tame (inodeMember_free oldInode _)).covers
  intro fileSizeSave
  apply getPath_covers rfl
  intro oldPath
  apply getPath_covers rfl
  intro newPath
  apply lockParent_covers
  · have whole : 0 + pathTokens oldPath + pathTokens newPath =
        dentryTokens newPath.dentry + (mntTokens newPath.mnt + pathTokens oldPath) := by
      unfold pathTokens
      abel
    exact le_of_parts whole
  intro lowerDir inode real
  generalize known_eq : (((Knowledge.start.pin oldPath.dentry .null).pin newPath.dentry .null).pin lowerDir inode) = known
  have pin : (lowerDir, inode) ∈ known.pinned := by
    rw [← known_eq]
    exact List.mem_cons_self
  apply readPinned_covers underLink_dir pin real
  have links : (lower (.vfsLink oldPath.dentry inode newPath.dentry)).Calls
      (callLeasing.Tame (underLink oldPath newPath lowerDir inode) known) :=
    ⟨tame_of_held trivial underLink_lock, fun _ => trivial⟩
  apply links.covers
  intro err
  apply (failedOrNegative_tame underLink_new).covers
  intro failed
  cases failed with
  | true => exact leaveLink_covers real pin
  | false =>
      apply (interposing_tame underLink_new).covers
      intro err
      apply covers_ite (leaveLink_covers real pin)
      apply run_covers (by trivial) (by trivial)
      intro buffers
      have lowers : (lowerDInode newPath.dentry).Calls
          (callLeasing.Tame (underLink oldPath newPath lowerDir inode) known) :=
        ⟨tame_of_held trivial underLink_new, fun _ => trivial⟩
      apply lowers.covers
      intro source
      apply (free_tame (fsstackCopy_free dir source _)).covers
      intro _
      apply lowers.covers
      intro source
      apply (free_tame (fsstackCopy_free dir source _)).covers
      intro _
      apply (free_tame (reads oldDentry)).covers
      intro oldInode
      have looks : (upper (.lowerInode oldInode)).Calls Free := ⟨trivial, fun _ => trivial⟩
      apply (free_tame looks).covers
      intro lowerOldInode
      apply (free_tame (fsstackCopy_free oldInode lowerOldInode _)).covers
      intro _
      apply (free_tame (reads newDentry)).covers
      intro newInode
      apply (free_tame (changeAttributes_free newInode _)).covers
      intro _
      exact leaveLink_covers real pin

end

section
variable {below : RenameLower} {locked : List LowerInode} {a b : LowerInode}

/-- A rename holds the old directory, -/
theorem RenameLower.tokens_oldDir : dentryTokens below.oldDir ≤ below.tokens locked := by
  have whole : below.tokens locked = dentryTokens below.oldDir +
      (pathTokens below.oldPath + pathTokens below.newPath + dentryTokens below.newDir + {.lock locked}) := by
    unfold tokens
    abel
  exact le_of_parts whole

/-- it holds the new one too, -/
theorem RenameLower.tokens_newDir : dentryTokens below.newDir ≤ below.tokens locked := by
  have whole : below.tokens locked = dentryTokens below.newDir +
      (pathTokens below.oldPath + pathTokens below.newPath + dentryTokens below.oldDir + {.lock locked}) := by
    unfold tokens
    abel
  exact le_of_parts whole

/-- and it holds their locks and the dentries of both names. -/
theorem RenameLower.tokens_lock :
    {.lock locked} + (dentryTokens below.oldPath.dentry + dentryTokens below.newPath.dentry) ≤ below.tokens locked := by
  have whole : below.tokens locked =
      {.lock locked} + (dentryTokens below.oldPath.dentry + dentryTokens below.newPath.dentry) +
        (mntTokens below.oldPath.mnt + mntTokens below.newPath.mnt + dentryTokens below.oldDir +
          dentryTokens below.newDir) := by
    unfold tokens pathTokens
    abel
  exact le_of_parts whole

/-- `lock_rename` holds the lock of the inodes of both dentries. -/
theorem lockRename_covers {first second : LowerDentry} {next : Option LowerDentry → Prog α}
    (enough : dentryTokens first + dentryTokens second ≤ held) (firstPin : (first, .null) ∈ known.pinned)
    (secondPin : (second, .null) ∈ known.pinned)
    (continues : ∀ trap a b, a ≠ .null → b ≠ .null →
      (next trap).Covers callLeasing post (held + {.lock [a, b]}) ((known.pin first a).pin second b)) :
    (lockRename first second >>= next).Covers callLeasing post held known := by
  change (lowerDInode first >>= fun a => lowerDInode second >>= fun b => upper (.lock [a, b]) >>= fun _ =>
    lower (.renameTrap first second) >>= next).Covers _ _ _ _
  apply readInode_covers ((Multiset.le_add_right _ _).trans enough) firstPin
  intro a
  apply readInode_covers ((Multiset.le_add_left _ _).trans enough) (List.mem_cons_of_mem _ secondPin)
  intro b
  apply lock_covers
  intro real
  have traps : (lower (.renameTrap first second)).Calls (callLeasing.Tame (held + {.lock [a, b]})
      ((known.pin first a).pin second b)) :=
    ⟨tame_of_held trivial (enough.trans (Multiset.le_add_right _ _)), fun _ => trivial⟩
  apply traps.covers
  exact fun trap => continues trap a b (real a (by simp)) (real b (by simp))

/-- The exit of a rename gives back both locks and all references. -/
theorem leaveRename_covers (first : a ≠ .null) (second : b ≠ .null) (firstPin : (below.oldDir, a) ∈ known.pinned)
    (secondPin : (below.newDir, b) ∈ known.pinned) :
    (buffers.out (leaveRename below) err).Covers callLeasing (fun _ _ _ => True) (below.tokens [a, b]) known := by
  have order : below.tokens [a, b] = {.lock [a, b]} + (dentryTokens below.oldDir +
      (dentryTokens below.newDir + (pathTokens below.oldPath + (pathTokens below.newPath + 0)))) := by
    unfold RenameLower.tokens
    abel
  apply out_covers
  change (lowerDInode below.oldDir >>= fun a => lowerDInode below.newDir >>= fun b => upper (.unlock [a, b]) >>= fun _ =>
    lower (.dput below.oldDir) >>= fun _ => lower (.dput below.newDir) >>= fun _ =>
    trfsPutLowerPath below.oldPath >>= fun _ => trfsPutLowerPath below.newPath).Covers _ _ _ _
  apply readPinned_covers RenameLower.tokens_oldDir firstPin first
  apply readPinned_covers RenameLower.tokens_newDir secondPin second
  apply unlock_covers order
  apply dput_covers rfl
  apply dput_covers rfl
  apply putPath_covers rfl
  exact putPath_covers rfl fun _ _ => trivial

/-- `trfs_rename` holds what each of its calls needs. -/
theorem trfsRename_leased {oldDir newDir : Inode} {oldDentry newDentry : Dentry} :
    Leased (trfsRename oldDir oldDentry newDir newDentry) := by
  unfold Leased trfsRename
  apply getPath_covers rfl
  intro oldPath
  apply getPath_covers rfl
  intro newPath
  apply dgetParent_covers
  · have whole : 0 + pathTokens oldPath + pathTokens newPath =
        dentryTokens oldPath.dentry + (mntTokens oldPath.mnt + pathTokens newPath) := by
      unfold pathTokens
      abel
    exact le_of_parts whole
  intro lowerOldDir
  apply dgetParent_covers
  · have whole : 0 + pathTokens oldPath + pathTokens newPath + dentryTokens lowerOldDir =
        dentryTokens newPath.dentry + (mntTokens newPath.mnt + pathTokens oldPath + dentryTokens lowerOldDir) := by
      unfold pathTokens
      abel
    exact le_of_parts whole
  intro lowerNewDir
  apply lockRename_covers _ (List.mem_cons_of_mem _ List.mem_cons_self) List.mem_cons_self
  · intro trap a b first second
    generalize known_eq : Knowledge.pin (Knowledge.pin _ lowerOldDir a) lowerNewDir b = known
    have newPin : (lowerNewDir, b) ∈ known.pinned := by
      rw [← known_eq]
      exact List.mem_cons_self
    have oldPin : (lowerOldDir, a) ∈ known.pinned := by
      rw [← known_eq]
      exact List.mem_cons_of_mem _ List.mem_cons_self
    apply covers_ite (leaveRename_covers first second oldPin newPin)
    apply covers_ite (leaveRename_covers first second oldPin newPin)
    let below : RenameLower := ⟨oldPath, newPath, lowerOldDir, lowerNewDir⟩
    apply readPinned_covers below.tokens_oldDir oldPin first
    apply readPinned_covers below.tokens_newDir newPin second
    have renames : (lower (.vfsRename a oldPath.dentry b newPath.dentry)).Calls
        (callLeasing.Tame (below.tokens [a, b]) known) := ⟨tame_of_held trivial below.tokens_lock, fun _ => trivial⟩
    apply renames.covers
    intro err
    apply covers_ite (leaveRename_covers first second oldPin newPin)
    apply run_covers (by trivial) (by trivial)
    intro buffers
    apply (copyDirectory_tame below.tokens_newDir).covers
    intro _
    apply (runIf_tame (copyDirectory_tame below.tokens_oldDir)).covers
    intro _
    exact leaveRename_covers first second oldPin newPin
  · exact add_le_add (Multiset.le_add_left _ _) le_rfl

end

end

end Trfs.Kernel
