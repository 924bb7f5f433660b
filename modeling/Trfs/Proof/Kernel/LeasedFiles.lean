import Trfs.Proof.Kernel.LeasedOperations

namespace Trfs.Kernel
open Bytes Effect Trace

section
variable {held rest : Multiset Token} {known : Knowledge} {α : Type} {post : α → Multiset Token → Knowledge → Prop}
  {file : File} {lowerFile : LowerFile} {buffers : TraceBuffers} {outcome : Outcome}

/-- A call without effect is covered by what was lent. -/
theorem tame_of_lent {c : Call} {part : Multiset Token} (bare : Bare c) (lent : part ∈ known.lent)
    (enough : callNeeds c ≤ part) : callLeasing.Tame held known c :=
  ⟨bare.leasing, .of_lent lent enough⟩

/-- The rule for a call of which nothing is asked. What is held afterwards is left open. -/
theorem open_covers {c : Call} {next : c.Reply → Prog α} (needs : callNeeds c = 0)
    (spends : known.intact = true → leaseSpends c = 0)
    (continues : ∀ reply held above later, known ≤ above → callLearn above c reply = some later →
      (next reply).Covers callLeasing post held later) :
    (perform c >>= next).Covers callLeasing post held known := by
  refine ⟨⟨.inl ?_, fun intact => ?_⟩, fun reply above later le learnt => continues reply _ above later le learnt⟩
  · change callNeeds c ≤ held
    rw [needs]
    exact Multiset.zero_le held
  · change leaseSpends c ≤ held
    rw [spends intact]
    exact Multiset.zero_le held

/-- Closing the trace file and returning is covered. -/
theorem returnFile_covers : (buffers.returnFile outcome).Covers callLeasing (fun _ _ _ => True) held known :=
  (free_tame (freeFile_free buffers)).covers fun _ _ _ => trivial

/-- Every lower call of a read is covered. -/
theorem trfsRead_leased {buf : Nat} {count ppos : BitVec 64} : Leased (trfsRead file buf count ppos) := by
  unfold Leased trfsRead
  apply openLowerFile_covers
  intro lowerFile
  have reads : (lower (.vfsRead lowerFile buf count ppos)).Calls
      (callLeasing.Tame 0 (Knowledge.start.lend {.file lowerFile})) :=
    ⟨tame_of_lent trivial (Knowledge.mem_lend rfl) le_rfl, fun _ => trivial⟩
  apply reads.covers
  intro io
  have copies : (runIf (0 ≤ (io.result.setWidth 32).toInt) do
      let inode ← upper (.dInode file.dentry)
      fsstackCopyAttrAtime inode lowerFile.inode).Calls Free :=
    runIf_free ⟨trivial, fun inode => fsstackCopy_free inode lowerFile.inode _⟩
  apply (free_tame copies).covers
  intro _
  apply run_covers (by exact ⟨trivial, fun _ => ⟨trivial, fun _ => trivial⟩⟩)
    (by exact ⟨trivial, fun _ => ⟨trivial, fun _ => trivial⟩⟩)
  exact fun buffers => returnFile_covers

/-- Copying size and times after a write needs nothing. -/
theorem copyWritten_free (dentry : Dentry) (lowerInode : LowerInode) :
    (do
      let inode ← upper (.dInode dentry)
      fsstackCopyInodeSize inode lowerInode
      let inode ← upper (.dInode dentry)
      fsstackCopyAttrTimes inode lowerInode : Prog Unit).Calls Free := by
  refine ⟨trivial, fun inode => ?_⟩
  apply (fsstackCopy_free inode lowerInode _).bind
  intro _
  exact ⟨trivial, fun inode => fsstackCopy_free inode lowerInode _⟩

/-- Every lower call of a write is covered. -/
theorem trfsWrite_leased {buf : UserMemory} {count ppos : BitVec 64} : Leased (trfsWrite file buf count ppos) := by
  unfold Leased trfsWrite
  apply openLowerFile_covers
  intro lowerFile
  have writes : (lower (.vfsWrite lowerFile buf count ppos)).Calls
      (callLeasing.Tame 0 (Knowledge.start.lend {.file lowerFile})) :=
    ⟨tame_of_lent trivial (Knowledge.mem_lend rfl) le_rfl, fun _ => trivial⟩
  apply writes.covers
  intro io
  apply run_covers (by exact ⟨trivial, fun _ => ⟨trivial, fun _ => trivial⟩⟩)
    (by exact ⟨trivial, fun _ => ⟨trivial, fun _ => trivial⟩⟩)
  intro buffers
  apply (free_tame (runIf_free (copyWritten_free file.dentry lowerFile.inode))).covers
  exact fun _ => returnFile_covers

/-- The file gives up a reference that the request has not taken. -/
theorem dropLowerFile_covers {next : Unit → Prog α}
    (continues : ∀ held known, (next ()).Covers callLeasing post held known) :
    (dropLowerFile file >>= next).Covers callLeasing post held known := by
  rw [Program.covers_bind]
  unfold dropLowerFile
  apply lowerFile_covers
  intro lowerFile
  cases lowerFile with
  | none => exact fun later _ => continues held later
  | some lowerFile =>
      apply open_covers rfl (fun _ => rfl)
      intro _ held above later _ learnt
      obtain rfl := Option.some.inj learnt
      refine ⟨⟨.inl (Multiset.zero_le held), fun intact => ?_⟩, fun _ _ later _ _ last _ => continues _ last⟩
      cases intact

/-- The path of the file is held until the lower filesystem has opened it. -/
theorem openLower_covers {next : BitVec 32 → Prog α} (intact : known.intact = true)
    (continues : ∀ err held known, (next err).Covers callLeasing post held known) :
    (openLower file >>= next).Covers callLeasing post held known := by
  rw [Program.covers_bind]
  unfold openLower
  apply getPath_covers intact
  intro path
  apply covers_perform (.inl (Multiset.le_add_left (pathTokens path) held)) (zero_add _).symm
  intro reply above later le learnt
  obtain rfl := Option.some.inj learnt
  have order : held + pathTokens path + leaseGains (.lower (.dentryOpen path file.flags)) reply =
      pathTokens path + (held + leaseGains (.lower (.dentryOpen path file.flags)) reply) := by
    abel
  apply putPath_covers order
  cases reply with
  | error errno =>
      apply dropLowerFile_covers
      exact fun held known later _ => continues errno.code held later
  | ok lowerFile =>
      apply open_covers rfl (fun _ => rfl)
      exact fun _ held _ _ _ _ last _ => continues 0 held last

/-- The end of an open is covered. -/
theorem settleOpen_covers {inode : Inode} {err : BitVec 32} {next : Unit → Prog α}
    (continues : ∀ held known, (next ()).Covers callLeasing post held known) :
    (settleOpen inode file err >>= next).Covers callLeasing post held known := by
  rw [Program.covers_bind]
  unfold settleOpen
  split
  · apply open_covers rfl (fun _ => rfl)
    exact fun _ held _ _ _ _ last _ => continues held last
  · have looks : (do
        let lowerInode ← upper (.lowerInode inode)
        fsstackCopyAttrAll inode lowerInode : Prog Unit).Calls Free :=
      ⟨trivial, fun lowerInode => fsstackCopy_free inode lowerInode _⟩
    exact (free_tame looks).covers_last fun _ later _ => continues held later

/-- Every lower call of an open is covered. -/
theorem trfsOpen_leased {inode : Inode} : Leased (trfsOpen inode file) := by
  unfold Leased trfsOpen
  have looks : (upper (.dUnhashed file.dentry)).Calls Free := ⟨trivial, fun _ => trivial⟩
  apply (free_tame looks).covers
  intro unhashed
  cases unhashed with
  | true => exact fun _ _ => trivial
  | false =>
      apply open_covers rfl (fun _ => rfl)
      intro allocated held above later le learnt
      obtain rfl := Option.some.inj learnt
      cases allocated with
      | false => exact fun _ _ => trivial
      | true =>
          have intact : above.unlent.intact = true := (Knowledge.intact_iff le).mp rfl
          rw [if_neg (by decide)]
          apply openLower_covers intact
          intro err held known
          apply run_covers (by trivial) (by exact ⟨trivial, fun _ => ⟨trivial, fun _ => trivial⟩⟩)
          intro buffers
          apply settleOpen_covers
          exact fun held known => returnFile_covers

/-- Every lower call of a release is covered. -/
theorem trfsFileRelease_leased : Leased (trfsFileRelease file) := by
  unfold Leased trfsFileRelease
  apply dropLowerFile_covers
  intro held known
  apply run_covers (by trivial) (by trivial)
  intro buffers
  apply open_covers rfl (fun _ => rfl)
  exact fun _ held _ _ _ _ => returnFile_covers

/-- A lower file with its own reference during one call. -/
theorem heldFile_covers {β : Type} {program : Prog β} {next : β → Prog α} (lent : {.file lowerFile} ∈ known.lent)
    (calls : program.Calls (callLeasing.Tame (held + {.file lowerFile}) known))
    (continues : ∀ value known, (next value).Covers callLeasing post held known) :
    (do
      lower (.getFile lowerFile)
      let value ← program
      lower (.fput lowerFile)
      next value).Covers callLeasing post held known := by
  apply covers_perform (.of_lent lent le_rfl) (zero_add held).symm
  intro _ above later le learnt
  obtain rfl := Option.some.inj learnt
  apply Program.Covers.mono le
  apply calls.covers
  intro value
  apply covers_perform (.inl (Multiset.zero_le _)) (add_comm _ _)
  intro _ above later _ _
  change (next value).Covers callLeasing post (held + 0) later
  rw [add_zero]
  exact continues value later

/-- Every lower call of a read_iter is covered. -/
theorem trfsReadIter_leased {iocb : Kiocb File} {iter : List Segment} : Leased (trfsReadIter iocb iter) := by
  unfold Leased trfsReadIter
  apply openLowerFile_covers
  intro lowerFile
  have lent : {.file lowerFile} ∈ (Knowledge.start.lend {.file lowerFile}).lent := Knowledge.mem_lend rfl
  have defines : (lower (.hasReadIter lowerFile)).Calls (callLeasing.Tame 0 (Knowledge.start.lend {.file lowerFile})) :=
    ⟨tame_of_lent trivial lent le_rfl, fun _ => trivial⟩
  apply defines.covers
  intro defined
  cases defined with
  | false => exact fun _ _ => trivial
  | true =>
      have reads : (lower (.readIter { iocb with filp := lowerFile } iter)).Calls
          (callLeasing.Tame (0 + {.file lowerFile}) (Knowledge.start.lend {.file lowerFile})) :=
        ⟨tame_of_lent trivial lent le_rfl, fun _ => trivial⟩
      apply heldFile_covers lent reads
      intro io known
      have copies : (runIf (0 ≤ (io.result.setWidth 32).toInt ∨ io.result.setWidth 32 = EIOCBQUEUED) do
          let inode ← upper (.dInode iocb.filp.dentry)
          fsstackCopyAttrAtime inode lowerFile.inode).Calls Free :=
        runIf_free ⟨trivial, fun inode => fsstackCopy_free inode lowerFile.inode _⟩
      exact (free_tame copies).covers fun _ _ _ => trivial

/-- Every lower call of a write_iter is covered. -/
theorem trfsWriteIter_leased {iocb : Kiocb File} {memory : UserMemory} {iter : List Segment} :
    Leased (trfsWriteIter iocb memory iter) := by
  unfold Leased trfsWriteIter
  apply openLowerFile_covers
  intro lowerFile
  have lent : {.file lowerFile} ∈ (Knowledge.start.lend {.file lowerFile}).lent := Knowledge.mem_lend rfl
  have defines : (lower (.hasWriteIter lowerFile)).Calls (callLeasing.Tame 0 (Knowledge.start.lend {.file lowerFile})) :=
    ⟨tame_of_lent trivial lent le_rfl, fun _ => trivial⟩
  apply defines.covers
  intro defined
  cases defined with
  | false => exact fun _ _ => trivial
  | true =>
      have writes : (lower (.writeIter { iocb with filp := lowerFile } memory iter)).Calls
          (callLeasing.Tame (0 + {.file lowerFile}) (Knowledge.start.lend {.file lowerFile})) :=
        ⟨tame_of_lent trivial lent le_rfl, fun _ => trivial⟩
      apply heldFile_covers lent writes
      intro io known
      apply (free_tame (runIf_free (copyWritten_free iocb.filp.dentry lowerFile.inode))).covers
      exact fun _ _ _ => trivial

/-- The traced operations use lower dentries and lower files only with references on them. -/
theorem TracedOp.leased (op : TracedOp) : Leased op.program := by
  cases op with
  | «open» inode file => exact trfsOpen_leased
  | read file buf count ppos => exact trfsRead_leased
  | write file buf count ppos => exact trfsWrite_leased
  | release file => exact trfsFileRelease_leased
  | create dir dentry mode wantExcl => exact trfsCreate_leased
  | link oldDentry dir newDentry => exact trfsLink_leased
  | unlink dir dentry => exact trfsUnlink_leased
  | symlink dir dentry symname => exact trfsSymlink_leased
  | mkdir dir dentry mode => exact trfsMkdir_leased
  | rmdir dir dentry => exact trfsRmdir_leased
  | mknod dir dentry mode dev => exact trfsMknod_leased
  | rename oldDir oldDentry newDir newDentry => exact trfsRename_leased

end

end Trfs.Kernel
