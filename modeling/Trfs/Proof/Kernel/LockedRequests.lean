import Trfs.Proof.Kernel.LeasedFiles
import Trfs.Proof.Kernel.LeasedRequests
import Trfs.Proof.Kernel.LockOrder

namespace Trfs.Kernel
open Bytes Effect Trace

section
variable {α : Type} {program : Prog α} {file : File} {inode : Inode}

/-- A program that takes no lock keeps to the discipline. -/
theorem outer_ordered (calls : program.Calls Outer) : Ordered program := fun _ stands => calls.settles stands

/-- A tracing block without a lock around it takes none. -/
theorem runThen_outer {block : TraceBlock} {next : TraceBuffers → Prog α} (flags : block.openFlags.Calls IsRead)
    (mode : block.permMode.Calls IsRead) (rest : ∀ buffers, (next buffers).Calls Outer) :
    (block.run >>= next).Calls Outer := (loose_outer (run_loose flags mode)).bind rest

/-- The lower file of an open file is found without a lock. -/
theorem openLowerFile_outer (file : File) : (openLowerFile file).Calls Outer := by
  refine ⟨trivial, fun lowerFile => ?_⟩
  cases lowerFile with
  | none => exact ⟨trivial, nofun⟩
  | some lowerFile => trivial

/-- The file operations end without a lock. -/
theorem returnFile_outer (buffers : TraceBuffers) (outcome : Outcome) : (buffers.returnFile outcome).Calls Outer :=
  (free_outer (freeFile_free buffers)).bind fun _ => trivial

/-- The access time is copied without a lock. -/
theorem copyAtime_outer {condition : Prop} [Decidable condition] (dentry : Dentry) (lowerInode : LowerInode) :
    (runIf condition do
      let inode ← upper (.dInode dentry)
      fsstackCopyAttrAtime inode lowerInode).Calls Outer :=
  free_outer (runIf_free ⟨trivial, fun inode => fsstackCopy_free inode lowerInode _⟩)

/-- `trfs_read` takes no lock itself. -/
theorem trfsRead_outer {buf : Nat} {count ppos : BitVec 64} : (trfsRead file buf count ppos).Calls Outer := by
  apply (openLowerFile_outer file).bind
  intro lowerFile
  refine ⟨trivial, fun io => ?_⟩
  apply (copyAtime_outer file.dentry lowerFile.inode).bind
  intro _
  apply runThen_outer (by exact ⟨trivial, fun _ => ⟨trivial, fun _ => trivial⟩⟩)
    (by exact ⟨trivial, fun _ => ⟨trivial, fun _ => trivial⟩⟩)
  exact fun buffers => returnFile_outer buffers _

/-- `trfs_write` takes no lock itself. -/
theorem trfsWrite_outer {buf : UserMemory} {count ppos : BitVec 64} : (trfsWrite file buf count ppos).Calls Outer := by
  apply (openLowerFile_outer file).bind
  intro lowerFile
  refine ⟨trivial, fun io => ?_⟩
  apply runThen_outer (by exact ⟨trivial, fun _ => ⟨trivial, fun _ => trivial⟩⟩)
    (by exact ⟨trivial, fun _ => ⟨trivial, fun _ => trivial⟩⟩)
  intro buffers
  apply (free_outer (runIf_free (copyWritten_free file.dentry lowerFile.inode))).bind
  exact fun _ => returnFile_outer buffers _

/-- The lower file is put without a lock. -/
theorem dropLowerFile_outer (file : File) : (dropLowerFile file).Calls Outer := by
  refine ⟨trivial, fun lowerFile => ?_⟩
  cases lowerFile with
  | none => trivial
  | some lowerFile => exact ⟨trivial, fun _ => ⟨trivial, fun _ => trivial⟩⟩

/-- The lower file is opened without a lock. -/
theorem openLower_outer (file : File) : (openLower file).Calls Outer := by
  apply (loose_outer (getPath_loose file.dentry)).bind
  intro path
  refine ⟨trivial, fun opened => ⟨trivial, fun _ => ?_⟩⟩
  cases opened with
  | error errno => exact (dropLowerFile_outer file).bind fun _ => trivial
  | ok lowerFile => exact ⟨trivial, fun _ => trivial⟩

/-- Both ways to end an open take no lock. -/
theorem settleOpen_outer (inode : Inode) (file : File) (err : BitVec 32) : (settleOpen inode file err).Calls Outer := by
  unfold settleOpen
  split
  · exact ⟨trivial, fun _ => trivial⟩
  · exact ⟨trivial, fun lowerInode => free_outer (fsstackCopy_free inode lowerInode _)⟩

/-- `trfs_open` takes no lock itself. -/
theorem trfsOpen_outer : (trfsOpen inode file).Calls Outer := by
  refine ⟨trivial, fun unhashed => ?_⟩
  cases unhashed with
  | true => trivial
  | false =>
      refine ⟨trivial, fun allocated => ?_⟩
      cases allocated with
      | false => trivial
      | true =>
          apply (openLower_outer file).bind
          intro err
          apply runThen_outer (by trivial) (by exact ⟨trivial, fun _ => ⟨trivial, fun _ => trivial⟩⟩)
          intro buffers
          exact (settleOpen_outer inode file err).bind fun _ => returnFile_outer buffers _

/-- `trfs_file_release` takes no lock itself. -/
theorem trfsFileRelease_outer : (trfsFileRelease file).Calls Outer := by
  apply (dropLowerFile_outer file).bind
  intro _
  apply runThen_outer (by trivial) (by trivial)
  exact fun buffers => ⟨trivial, fun _ => returnFile_outer buffers _⟩

/-- `trfs_read_iter` takes no lock itself. -/
theorem trfsReadIter_outer {iocb : Kiocb File} {iter : List Segment} : (trfsReadIter iocb iter).Calls Outer := by
  apply (openLowerFile_outer iocb.filp).bind
  intro lowerFile
  refine ⟨trivial, fun defined => ?_⟩
  cases defined with
  | false => trivial
  | true =>
      refine ⟨trivial, fun _ => ⟨trivial, fun io => ⟨trivial, fun _ => ?_⟩⟩⟩
      exact (copyAtime_outer iocb.filp.dentry lowerFile.inode).bind fun _ => trivial

/-- `trfs_write_iter` takes no lock itself. -/
theorem trfsWriteIter_outer {iocb : Kiocb File} {memory : UserMemory} {iter : List Segment} :
    (trfsWriteIter iocb memory iter).Calls Outer := by
  apply (openLowerFile_outer iocb.filp).bind
  intro lowerFile
  refine ⟨trivial, fun defined => ?_⟩
  cases defined with
  | false => trivial
  | true =>
      refine ⟨trivial, fun _ => ⟨trivial, fun io => ⟨trivial, fun _ => ?_⟩⟩⟩
      exact (free_outer (runIf_free (copyWritten_free iocb.filp.dentry lowerFile.inode))).bind fun _ => trivial

/-- `trfs_unlocked_ioctl` takes no lock itself. -/
theorem trfsUnlockedIoctl_outer {fileInode : Inode} {cmd : BitVec 32} {arg : BitVec 64} :
    (trfsUnlockedIoctl file fileInode cmd arg).Calls Outer := by
  have switch : (maskRequest cmd arg).Calls Outer := by
    unfold maskRequest
    split
    · exact ⟨trivial, fun _ => trivial⟩
    · split
      · exact ⟨trivial, fun _ => trivial⟩
      · trivial
  apply switch.bind
  intro _
  refine ⟨trivial, fun lowerFile => ?_⟩
  cases lowerFile with
  | none => trivial
  | some lowerFile =>
      refine ⟨trivial, fun reply => ?_⟩
      exact (free_outer (runIf_free (fsstackCopy_free fileInode lowerFile.inode _))).bind fun _ => trivial

/-- The traced operations take one lock at a time and give it back. -/
theorem TracedOp.ordered (op : TracedOp) : Ordered op.program := by
  cases op with
  | «open» inode file => exact outer_ordered trfsOpen_outer
  | read file buf count ppos => exact outer_ordered trfsRead_outer
  | write file buf count ppos => exact outer_ordered trfsWrite_outer
  | release file => exact outer_ordered trfsFileRelease_outer
  | create dir dentry mode wantExcl => exact trfsCreate_ordered
  | link oldDentry dir newDentry => exact trfsLink_ordered
  | unlink dir dentry => exact trfsUnlink_ordered
  | symlink dir dentry symname => exact trfsSymlink_ordered
  | mkdir dir dentry mode => exact trfsMkdir_ordered
  | rmdir dir dentry => exact trfsRmdir_ordered
  | mknod dir dentry mode dev => exact trfsMknod_ordered
  | rename oldDir oldDentry newDir newDentry => exact trfsRename_ordered

end

def vfsAct : VfsCall → Act LowerInode
  | .notifyChange .. => .within
  | .dput _ | .vfsPathLookup .. | .dRevalidate .. | .truncateSetsize .. | .vfsGetattr _ | .genericFileFsync ..
  | .vfsFsyncRange .. => .outside
  | _ => .anywhere

def mountDiscipline : Discipline MountCall.Reply LowerDentry LowerInode where
  act c := match c with
    | .kernel c => callAct c
    | .vfs c => vfsAct c
  reads c reply := match c, reply with
    | .kernel c, reply => callReads c reply
    | .vfs _, _ => none
  null := .null

abbrev MountOuter (c : MountCall) : Prop := (mountDiscipline.act c).IsOuter

section
variable {α β : Type} {pins : List (LowerDentry × LowerInode)} {progress : Option (Standing LowerDentry LowerInode)}
  {post : α → Option (Standing LowerDentry LowerInode) → Prop} {dentry : Dentry} {path : LowerPath}

/-- What holds of a program of the other files holds of it as a part. -/
theorem kernel_meets {program : Prog α} (meets : program.Meets callDiscipline.monitor post progress) :
    (kernel program).Meets mountDiscipline.monitor post progress := by
  induction program generalizing progress with
  | pure value => exact meets
  | call c next ih => exact ⟨meets.1, fun reply => ih reply (meets.2 reply)⟩

/-- A part without a lock is one in the other files too. -/
theorem kernel_outer {program : Prog α} (calls : program.Calls Outer) : (kernel program).Calls MountOuter := by
  induction program with
  | pure value => trivial
  | call c next ih => exact ⟨calls.1, fun reply => ih reply (calls.2 reply)⟩

def MountOrdered (program : MountProg α) : Prop := ∀ progress, Locking [] none progress →
  program.Meets mountDiscipline.monitor (fun _ => Locking [] none) progress

/-- A program of the other files that takes no lock keeps to the discipline. -/
theorem mountOuter_ordered {program : MountProg α} (calls : program.Calls MountOuter) : MountOrdered program :=
  fun _ stands => calls.settles stands

/-- A looked up dentry is interposed without a lock. -/
theorem interpose_outer : (interpose dentry path).Calls MountOuter := by
  apply (kernel_outer (loose_outer (dInode_loose path.dentry))).bind
  intro lowerInode
  refine ⟨trivial, fun lowerSb => ⟨trivial, fun crossed => ?_⟩⟩
  change Program.Calls MountOuter (ite (crossed ≠ lowerSb) _ _)
  split
  · trivial
  · apply (kernel_outer (free_outer (trfsIget_free lowerInode))).bind
    intro found
    cases found with
    | error err => trivial
    | ok inode => exact ⟨trivial, fun _ => trivial⟩

/-- The lower name is looked up without a lock of trfs. -/
theorem lookupBelow_outer {parentPath : LowerPath} : (lookupBelow dentry parentPath).Calls MountOuter := by
  refine ⟨trivial, fun root => ?_⟩
  cases root with
  | true => trivial
  | false =>
      refine ⟨trivial, fun name => ⟨trivial, fun found => ?_⟩⟩
      have setup : ∀ lowerDentry, (setupLower dentry lowerDentry parentPath.mnt).Calls MountOuter :=
        fun _ => ⟨trivial, fun _ => ⟨trivial, fun _ => trivial⟩⟩
      cases found with
      | ok path =>
          refine ⟨trivial, fun _ => ?_⟩
          apply interpose_outer.bind
          intro spliced
          cases spliced with
          | error errno => exact ⟨trivial, fun _ => ⟨trivial, fun _ => trivial⟩⟩
          | null => trivial
          | «alias» other => trivial
      | error errno =>
          change Program.Calls MountOuter (ite (errno.code ≠ ENOENT) _ _)
          split
          · trivial
          · refine ⟨trivial, fun lowerDentry => ?_⟩
            cases lowerDentry with
            | some lowerDentry => exact setup lowerDentry
            | none =>
                refine ⟨trivial, fun lowerDentry => ?_⟩
                cases lowerDentry with
                | none => trivial
                | some lowerDentry => exact ⟨trivial, fun _ => setup lowerDentry⟩

/-- `trfs_lookup` takes no lock itself. -/
theorem trfsLookup_outer : (trfsLookup dentry).Calls MountOuter := by
  refine ⟨trivial, fun parent => ?_⟩
  apply (kernel_outer (loose_outer (getPath_loose parent))).bind
  intro path
  have news : (vfs (.newDentryPrivateData dentry)).Calls MountOuter := ⟨trivial, fun _ => trivial⟩
  apply news.bind
  intro allocated
  have ends : ∀ spliced : Spliced, (kernel (trfsPutLowerPath path) >>= fun _ => vfs (.dput parent) >>= fun _ =>
      pure spliced).Calls MountOuter := fun _ => ⟨trivial, fun _ => ⟨trivial, fun _ => trivial⟩⟩
  cases allocated with
  | false => exact ends _
  | true =>
      have copied : ∀ other, (kernel (copyLooked other parent)).Calls MountOuter :=
        fun other => kernel_outer (free_outer (copyLooked_free other parent))
      rw [if_pos rfl]
      apply lookupBelow_outer.bind
      intro spliced
      cases spliced with
      | error errno => exact ends (.error errno)
      | null => exact (copied dentry).bind fun _ => ends .null
      | «alias» other => exact (copied other).bind fun _ => ends (.alias other)

/-- `trfs_d_revalidate` takes no lock itself. -/
theorem trfsDRevalidate_outer {flags : BitVec 32} : (trfsDRevalidate dentry flags).Calls MountOuter := by
  unfold trfsDRevalidate
  split
  · trivial
  · apply (kernel_outer (loose_outer (getPath_loose dentry))).bind
    intro path
    refine ⟨trivial, fun defined => ?_⟩
    cases defined with
    | true => exact ⟨trivial, fun _ => ⟨trivial, fun _ => trivial⟩⟩
    | false => exact ⟨trivial, fun _ => trivial⟩

/-- `trfs_getattr` takes no lock itself. -/
theorem trfsGetattr_outer : (trfsGetattr dentry).Calls MountOuter := by
  apply (kernel_outer (loose_outer (getPath_loose dentry))).bind
  intro path
  refine ⟨trivial, ?_⟩
  rintro ⟨err, lowerStat⟩
  change Program.Calls MountOuter (ite (err ≠ 0) _ _)
  split
  · exact ⟨trivial, fun _ => trivial⟩
  · refine ⟨trivial, fun inode => ⟨trivial, fun lowerInode => ?_⟩⟩
    apply (kernel_outer (free_outer (fsstackCopy_free inode lowerInode _))).bind
    exact fun _ => ⟨trivial, fun inode => ⟨trivial, fun attributes => ⟨trivial, fun _ => trivial⟩⟩⟩

/-- `trfs_fsync` takes no lock itself. -/
theorem trfsFsync_outer {file : File} {start last : BitVec 64} {datasync : BitVec 32} :
    (trfsFsync file start last datasync).Calls MountOuter := by
  refine ⟨trivial, fun err => ?_⟩
  change Program.Calls MountOuter (ite (err ≠ 0) _ _)
  split
  · trivial
  · refine ⟨trivial, fun lowerFile => ?_⟩
    apply (kernel_outer (loose_outer (getPath_loose file.dentry))).bind
    intro path
    cases lowerFile with
    | none => exact ⟨trivial, nofun⟩
    | some lowerFile => exact ⟨trivial, fun _ => ⟨trivial, fun _ => trivial⟩⟩

/-- The checks of a new size take no lock. -/
theorem checkSize_outer {inode : Inode} {ia : Iattr (Option File)} : (checkSize inode ia).Calls MountOuter := by
  unfold checkSize
  split
  · refine ⟨trivial, fun err => ?_⟩
    change Program.Calls MountOuter (ite (err ≠ 0) _ _)
    split
    · trivial
    · exact ⟨trivial, fun _ => trivial⟩
  · trivial

/-- `notify_change` runs under the lock of the inode that was read before. -/
theorem notifyLower_stands {lowerDentry : LowerDentry} {ia : Iattr (Option LowerFile)} {next : BitVec 32 → MountProg α}
    (stands : Locking pins none progress) (ends : ∀ value, post value none)
    (continues : ∀ err pins progress, Locking pins none progress →
      (next err).Meets mountDiscipline.monitor post progress) :
    (notifyLower lowerDentry ia >>= next).Meets mountDiscipline.monitor post progress := by
  change (perform (MountCall.kernel (.lower (.dInode lowerDentry))) >>= fun locked =>
    perform (MountCall.kernel (.upper (.lock [locked]))) >>= fun _ => vfs (.notifyChange lowerDentry ia) >>= fun err =>
    perform (MountCall.kernel (.lower (.dInode lowerDentry))) >>= fun unlocked =>
    perform (MountCall.kernel (.upper (.unlock [unlocked]))) >>= fun _ => next err : MountProg α).Meets _ _ _
  apply read_stands rfl (fun _ => rfl) stands
  intro inode progress stands pinned
  by_cases absent : inode = .null
  · exact faults_stands (if_pos (by simp [absent])) ends
  have real : LowerInode.null ∉ [inode] := by simpa [eq_comm] using absent
  apply opens_stands (if_neg real) (pinned absent)
  intro _ progress stands
  have changes : (vfs (.notifyChange lowerDentry ia)).Calls fun c =>
      ¬ (mountDiscipline.act c).Takes ∧ (mountDiscipline.act c).Allowed (some [inode]) :=
    ⟨⟨id, inode, [], rfl⟩, fun _ => trivial⟩
  apply changes.stands stands
  intro err progress stands
  apply again_stands rfl (fun _ => rfl) stands List.mem_cons_self ends
  rintro shown progress rfl stands
  apply closes_stands rfl stands
  exact fun _ progress stands => continues err _ progress stands

/-- The lower file of `ia_file` is read without a lock. -/
theorem lowerFileOf_free (ia : Iattr (Option File)) : (lowerFileOf ia).Calls Free := by
  unfold lowerFileOf
  split
  · split
    · exact ⟨trivial, nofun⟩
    · exact ⟨trivial, fun _ => trivial⟩
  · trivial

/-- `trfs_setattr` locks the lower inode around `notify_change` only. -/
theorem trfsSetattr_ordered {ia : Iattr (Option File)} : MountOrdered (trfsSetattr dentry ia) := by
  intro progress stands
  have reads : (kernel (upper (.dInode dentry))).Calls MountOuter := ⟨trivial, fun _ => trivial⟩
  apply reads.outer stands
  intro inode progress stands
  have checks : (vfs (.inodeChangeOk inode ia)).Calls MountOuter := ⟨trivial, fun _ => trivial⟩
  apply checks.outer stands
  intro err progress stands
  have refused : (pure err : MountProg (BitVec 32)).Meets mountDiscipline.monitor (fun _ => Locking [] none) progress :=
    stands
  apply meets_ite refused
  apply (kernel_outer (loose_outer (getPath_loose dentry))).outer stands
  intro path progress stands
  have ends : ∀ (err : BitVec 32) pins progress, Locking pins none progress →
      (kernel (trfsPutLowerPath path) >>= fun _ => pure err).Meets mountDiscipline.monitor (fun _ => Locking [] none)
        progress := by
    intro err pins progress stands
    have puts : (kernel (trfsPutLowerPath path)).Calls MountOuter := ⟨trivial, fun _ => trivial⟩
    apply puts.outer stands
    exact fun _ progress stands => stands.settled
  have looks : (kernel (upper (.lowerInode inode))).Calls MountOuter := ⟨trivial, fun _ => trivial⟩
  apply looks.outer stands
  intro lowerInode progress stands
  apply (kernel_outer (free_outer (lowerFileOf_free ia))).outer stands
  intro lowerFile progress stands
  apply checkSize_outer.outer stands
  intro err progress stands
  apply meets_ite (ends err _ progress stands)
  apply notifyLower_stands stands fun _ => Locking.nothing
  intro err pins progress stands
  apply meets_ite (ends err _ progress stands)
  apply (kernel_outer (free_outer (fsstackCopy_free inode lowerInode _))).outer stands
  exact fun _ progress stands => ends 0 _ progress stands

/-- The result of a program does not matter for its locks. -/
theorem MountOrdered.discard {program : MountProg β} (ordered : MountOrdered program) :
    MountOrdered (program >>= fun _ => pure ()) := by
  intro progress stands
  rw [Program.meets_bind]
  exact ordered progress stands

/-- Every request takes one lock at a time and gives it back. -/
theorem VfsRequest.ordered (request : VfsRequest) : MountOrdered request.program := by
  have part : ∀ {program : Prog Outcome}, Ordered program → MountOrdered (kernel program >>= fun _ => pure ()) := by
    intro program ordered
    apply MountOrdered.discard
    exact fun progress stands => kernel_meets (ordered progress stands)
  cases request with
  | traced op => exact part op.ordered
  | readIter iocb iter => exact part (outer_ordered trfsReadIter_outer)
  | writeIter iocb memory iter => exact part (outer_ordered trfsWriteIter_outer)
  | lookup dentry => exact (mountOuter_ordered trfsLookup_outer).discard
  | revalidate dentry flags => exact (mountOuter_ordered trfsDRevalidate_outer).discard
  | release dentry => exact mountOuter_ordered ⟨trivial, fun _ => ⟨trivial, fun _ => ⟨trivial, fun _ => trivial⟩⟩⟩
  | setattr dentry ia => exact trfsSetattr_ordered.discard
  | getattr dentry => exact (mountOuter_ordered trfsGetattr_outer).discard
  | fsync file start last datasync => exact (mountOuter_ordered trfsFsync_outer).discard

end

end Trfs.Kernel
