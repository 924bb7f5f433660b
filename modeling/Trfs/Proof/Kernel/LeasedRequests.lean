import Trfs.Proof.Kernel.LeasedFiles

namespace Trfs.Kernel
open Bytes Effect Trace

section
variable {held rest : Multiset Token} {known : Knowledge} {α β : Type} {post : α → Multiset Token → Knowledge → Prop}
  {dentry : Dentry} {path : LowerPath}

/-- What holds of a program of the other files holds of it as a part. -/
theorem kernel_covers {program : Prog α} (covers : program.Covers callLeasing post held known) :
    (kernel program).Covers mountLeasing post held known := by
  induction program generalizing held known with
  | pure value => exact covers
  | call c next ih => exact ⟨covers.1, fun reply above later le learnt => ih reply (covers.2 reply above later le learnt)⟩

/-- A kernel part of a request is covered by its own calls. -/
theorem part_covers {program : Prog β} {next : β → MountProg α}
    (covers : program.Covers callLeasing (fun value held known => (next value).Covers mountLeasing post held known) held
      known) :
    (kernel program >>= next).Covers mountLeasing post held known := by
  rw [Program.covers_bind]
  exact kernel_covers covers

/-- A part without effect on what is held is passed over. -/
theorem tamePart_covers {program : Prog β} {next : β → MountProg α} (calls : program.Calls (callLeasing.Tame held known))
    (continues : ∀ value, (next value).Covers mountLeasing post held known) :
    (kernel program >>= next).Covers mountLeasing post held known := by
  apply part_covers
  exact calls.covers_last fun value _ le => (continues value).mono le

/-- A request that takes a lower path holds its tokens and pins its dentry. -/
theorem getPathPart_covers {next : LowerPath → MountProg α} (intact : known.intact = true)
    (continues : ∀ path, (next path).Covers mountLeasing post (held + pathTokens path) (known.pin path.dentry .null)) :
    (kernel (trfsGetLowerPath dentry) >>= next).Covers mountLeasing post held known := by
  apply part_covers
  rw [← (trfsGetLowerPath dentry).bind_pure]
  apply getPath_covers intact
  exact fun path _ le => (continues path).mono le

/-- A request that puts a lower path gives its tokens back. -/
theorem putPathPart_covers {next : Unit → MountProg α} (enough : held = pathTokens path + rest)
    (continues : (next ()).Covers mountLeasing post rest known.unpin) :
    (kernel (trfsPutLowerPath path) >>= next).Covers mountLeasing post held known := by
  apply part_covers
  rw [← (trfsPutLowerPath path).bind_pure]
  apply putPath_covers enough
  exact fun _ le => continues.mono le

/-- The calls of the VFS that neither take nor give. -/
theorem NeutralVfs.leasing {c : VfsCall} (neutral : NeutralVfs c) : mountLeasing.Idle (.vfs c) := by
  have same : ∀ {known later : Knowledge}, some known = some later → known ≤ later :=
    fun equal => (Option.some.inj equal).le
  cases c <;> first | exact neutral.elim | exact ⟨rfl, fun _ => rfl, fun _ _ _ => same⟩

/-- A neutral call of the VFS is passed over where its needs are held. -/
theorem vfsTame_covers (c : VfsCall) {next : c.Reply → MountProg α} (neutral : NeutralVfs c)
    (enough : mountLeasing.Covered held known (.vfs c))
    (continues : ∀ reply, (next reply).Covers mountLeasing post held known) :
    (vfs c >>= next).Covers mountLeasing post held known := by
  have tame : (vfs c).Calls (mountLeasing.Tame held known) := ⟨⟨neutral.leasing, enough⟩, fun _ => trivial⟩
  exact tame.covers continues

/-- A call without needs is covered in every state. -/
theorem needs_nothing {c : VfsCall} (nothing : c.needs = 0) : mountLeasing.Covered held known (.vfs c) := by
  left
  change c.needs ≤ held
  rw [nothing]
  exact Multiset.zero_le held

/-- All calls of a request have what they need, from its first one on. -/
def MountLeased (program : MountProg α) : Prop := program.Covers mountLeasing (fun _ _ _ => True) 0 .start

/-- The rule for a call of the VFS that gives, or that changes the private data of a dentry. -/
theorem vfsOpen_covers (c : VfsCall) {next : c.Reply → MountProg α} (enough : c.needs ≤ held) (spends : vfsSpends c = 0)
    (continues : ∀ reply later, (c.Alters → later = .altered) → (¬ c.Alters → known ≤ later) →
      (next reply).Covers mountLeasing post (held + vfsGains c reply) later) :
    (vfs c >>= next).Covers mountLeasing post held known := by
  have puts : ∀ other, c ≠ .dput other := by
    rintro other rfl
    exact absurd spends (Multiset.singleton_ne_zero _)
  have learns : ∀ known, vfsLearn known c = if c.Alters then some .altered else some known := by
    intro known
    cases c <;> first | rfl | exact absurd rfl (puts _)
  apply covers_perform (.inl enough)
  · change held = vfsSpends c + held
    rw [spends, zero_add]
  · intro reply above later le learnt
    change vfsLearn above c = some later at learnt
    rw [learns] at learnt
    apply continues reply later
    · intro alters
      rw [if_pos alters] at learnt
      exact (Option.some.inj learnt).symm
    · intro keeps
      rw [if_neg keeps] at learnt
      exact le.trans (Option.some.inj learnt).le

/-- After the private data have changed, the puts at the end of a request give what the request holds or what they held. -/
theorem putAltered_covers {next : Unit → MountProg α}
    (continues : ∀ held, (next ()).Covers mountLeasing post held .altered) :
    (kernel (trfsPutLowerPath path) >>= next).Covers mountLeasing post held .altered := by
  refine ⟨⟨.inl (Multiset.zero_le held), fun intact => ?_⟩, fun _ above later le learnt => ?_⟩
  · cases intact
  · obtain rfl := Option.some.inj learnt
    exact (continues _).mono (Knowledge.unpin_mono le)

/-- Interposition needs the reference on the lower dentry. -/
theorem interpose_covers {next : Spliced → MountProg α} (enough : dentryTokens path.dentry ≤ held)
    (continues : ∀ spliced, (next spliced).Covers mountLeasing post held known) :
    (interpose dentry path >>= next).Covers mountLeasing post held known := by
  have ends : ∀ spliced later, known ≤ later → (next spliced).Covers mountLeasing post held later :=
    fun spliced later le => (continues spliced).mono le
  rw [Program.covers_bind]
  unfold interpose
  have reads : (lowerDInode path.dentry).Calls (callLeasing.Tame held known) :=
    ⟨tame_of_held trivial enough, fun _ => trivial⟩
  apply tamePart_covers reads
  intro lowerInode
  have looks : (upper .lowerSuper).Calls Free := ⟨trivial, fun _ => trivial⟩
  apply tamePart_covers (free_tame looks)
  intro lowerSb
  have super : (lower (.superBlock lowerInode)).Calls Free := ⟨trivial, fun _ => trivial⟩
  apply tamePart_covers (free_tame super)
  intro crossed
  by_cases other : crossed ≠ lowerSb
  · rw [if_pos other]
    exact ends _
  · rw [if_neg other]
    apply tamePart_covers (free_tame (trfsIget_free lowerInode))
    intro found
    cases found with
    | error err => exact ends _
    | ok inode =>
        dsimp only
        rw [← (vfs (.dSpliceAlias inode dentry)).bind_pure]
        apply vfsTame_covers (.dSpliceAlias inode dentry) trivial (needs_nothing rfl)
        exact ends

/-- The label `setup_lower` takes its reference on the mount of a path that the lookup holds. -/
theorem setupLower_covers {lowerDentry : LowerDentry} {mnt : Nat} (enough : mntTokens mnt ≤ held) :
    (setupLower dentry lowerDentry mnt).Covers mountLeasing (fun _ _ known => .altered ≤ known) held known := by
  unfold setupLower
  apply vfsOpen_covers (.mntget mnt) enough rfl
  intro _ later _ _
  apply vfsOpen_covers (.setLowerPath dentry ⟨lowerDentry, mnt⟩) (Multiset.zero_le _) rfl
  intro _ later alters _
  obtain rfl := alters trivial
  exact fun _ le => le

/-- After a reset nothing is known about the paths any more. -/
theorem putResetPath_covers {next : Unit → MountProg α} (continues : ∀ held, (next ()).Covers mountLeasing post held .altered) :
    (trfsPutResetPath dentry >>= next).Covers mountLeasing post held known := by
  change (vfs (.takeLowerPath dentry) >>= fun path => kernel (trfsPutLowerPath path) >>= next).Covers _ _ _ _
  apply vfsOpen_covers (.takeLowerPath dentry) (Multiset.zero_le _) rfl
  intro path later alters _
  obtain rfl := alters trivial
  exact putAltered_covers continues

/-- The lookup below works with the path of the parent, which the request holds, and with what it finds itself. -/
theorem lookupBelow_covers {parentPath : LowerPath} (enough : pathTokens parentPath ≤ held) :
    (lookupBelow dentry parentPath).Covers mountLeasing (fun _ _ known => .altered ≤ known) held .altered := by
  have above : dentryTokens parentPath.dentry ≤ held := (Multiset.le_add_right _ _).trans enough
  have mount : mntTokens parentPath.mnt ≤ held := (Multiset.le_add_left _ _).trans enough
  unfold lookupBelow
  apply vfsTame_covers (.isRoot dentry) trivial (needs_nothing rfl)
  intro root
  cases root with
  | true => exact fun _ le => le
  | false =>
      apply vfsTame_covers (.dName dentry) trivial (needs_nothing rfl)
      intro name
      apply vfsOpen_covers (.vfsPathLookup parentPath.dentry parentPath.mnt name) enough rfl
      intro found later _ keeps
      apply Program.Covers.mono (keeps id)
      cases found with
      | ok path =>
          apply vfsOpen_covers (.setLowerPath dentry path) (Multiset.zero_le _) rfl
          intro _ later alters _
          obtain rfl := alters trivial
          have part : pathTokens path ≤ held + pathTokens path + vfsGains (.setLowerPath dentry path) () :=
            (Multiset.le_add_left _ _).trans (Multiset.le_add_right _ _)
          apply interpose_covers ((Multiset.le_add_right _ _).trans part)
          intro spliced
          cases spliced with
          | error errno =>
              apply putResetPath_covers
              exact fun _ _ le => le
          | null => exact fun _ le => le
          | «alias» other => exact fun _ le => le
      | error errno =>
          have more : held ≤ held + vfsGains (.vfsPathLookup parentPath.dentry parentPath.mnt name) (.error errno) :=
            Multiset.le_add_right _ _
          change Program.Covers _ _ (ite (errno.code ≠ ENOENT) _ _) _ _
          by_cases failed : errno.code ≠ ENOENT
          · rw [if_pos failed]
            exact fun _ le => le
          · rw [if_neg failed]
            apply vfsOpen_covers (.dLookup parentPath.dentry name) (above.trans more) rfl
            intro lowerDentry later _ keeps
            apply Program.Covers.mono (keeps id)
            have again := more.trans (Multiset.le_add_right _ (vfsGains (.dLookup parentPath.dentry name) lowerDentry))
            cases lowerDentry with
            | some lowerDentry => exact setupLower_covers (mount.trans again)
            | none =>
                apply vfsOpen_covers (.dAlloc parentPath.dentry name) (above.trans again) rfl
                intro lowerDentry later _ keeps
                apply Program.Covers.mono (keeps id)
                have last := again.trans (Multiset.le_add_right _ (vfsGains (.dAlloc parentPath.dentry name) lowerDentry))
                cases lowerDentry with
                | none => exact fun _ le => le
                | some lowerDentry =>
                    apply vfsTame_covers (.dAdd lowerDentry) trivial (.inl (Multiset.le_add_left _ _))
                    exact fun _ => setupLower_covers (mount.trans last)

/-- Copying the attributes after a lookup needs nothing. -/
theorem copyLooked_free (dentry parent : Dentry) : (copyLooked dentry parent).Calls Free := by
  refine ⟨trivial, fun inode => ?_⟩
  have own : (runIf (inode ≠ Inode.null) do
      let lowerInode ← upper (.lowerInode inode)
      fsstackCopyAttrTimes inode lowerInode).Calls Free :=
    runIf_free ⟨trivial, fun lowerInode => fsstackCopy_free inode lowerInode _⟩
  apply own.bind
  intro _
  exact ⟨trivial, fun dir => ⟨trivial, fun lowerDir => fsstackCopy_free dir lowerDir _⟩⟩

/-- Every lower call of a lookup is covered. -/
theorem trfsLookup_leased : MountLeased (trfsLookup dentry) := by
  unfold MountLeased trfsLookup
  apply vfsOpen_covers (.dgetParent dentry) (Multiset.zero_le _) rfl
  intro parent later _ keeps
  apply Program.Covers.mono (keeps id)
  apply getPathPart_covers rfl
  intro path
  have ends : ∀ (spliced : Spliced) held, (kernel (trfsPutLowerPath path) >>= fun _ => vfs (.dput parent) >>= fun _ =>
      pure spliced).Covers mountLeasing (fun _ _ _ => True) held .altered := by
    intro spliced held
    apply putAltered_covers
    intro held
    refine ⟨⟨needs_nothing rfl, fun intact => ?_⟩, fun _ _ _ _ _ _ _ => trivial⟩
    cases intact
  apply vfsOpen_covers (.newDentryPrivateData dentry) (Multiset.zero_le _) rfl
  intro allocated later alters _
  obtain rfl := alters trivial
  cases allocated with
  | false => exact ends _ _
  | true =>
      have part : pathTokens path ≤ 0 + vfsGains (.dgetParent dentry) parent + pathTokens path +
          vfsGains (.newDentryPrivateData dentry) true :=
        (Multiset.le_add_left _ _).trans (Multiset.le_add_right _ _)
      have copied : ∀ other (spliced : Spliced) held, (kernel (copyLooked other parent) >>= fun _ =>
          kernel (trfsPutLowerPath path) >>= fun _ => vfs (.dput parent) >>= fun _ => pure spliced).Covers mountLeasing
          (fun _ _ _ => True) held .altered := by
        intro other spliced held
        apply tamePart_covers (free_tame (copyLooked_free other parent))
        exact fun _ => ends spliced held
      rw [if_pos rfl, Program.covers_bind]
      apply (lookupBelow_covers part).weaken
      intro spliced held known le
      apply Program.Covers.mono le
      cases spliced with
      | error errno => exact ends (.error errno) held
      | null => exact copied dentry .null held
      | «alias» other => exact copied other (.alias other) held

/-- Every lower call of a revalidation is covered. -/
theorem trfsDRevalidate_leased {flags : BitVec 32} : MountLeased (trfsDRevalidate dentry flags) := by
  unfold MountLeased trfsDRevalidate
  by_cases quick : flags &&& LOOKUP_RCU ≠ 0
  · rw [if_pos quick]
    exact fun _ _ => trivial
  rw [if_neg quick]
  apply getPathPart_covers rfl
  intro path
  have enough : dentryTokens path.dentry ≤ 0 + pathTokens path :=
    (Multiset.le_add_right _ _).trans (Multiset.le_add_left _ _)
  apply vfsTame_covers (.opRevalidate path.dentry) trivial (.inl enough)
  intro defined
  cases defined with
  | true =>
      apply vfsTame_covers (.dRevalidate path.dentry flags) trivial (.inl enough)
      intro err
      apply putPathPart_covers (add_comm _ _)
      exact fun _ _ => trivial
  | false =>
      apply putPathPart_covers (add_comm _ _)
      exact fun _ _ => trivial

/-- Every lower call of a release of a dentry is covered. -/
theorem trfsDentryRelease_leased : MountLeased (trfsDentryRelease dentry) := by
  unfold MountLeased trfsDentryRelease
  apply putResetPath_covers
  intro held
  exact ⟨⟨needs_nothing rfl, fun _ => Multiset.zero_le held⟩, fun _ _ _ _ _ _ _ => trivial⟩

/-- The lower file of `ia_file` is lent by the private data of its file. -/
theorem lowerFileOf_covers {ia : Iattr (Option File)} {next : Option LowerFile → MountProg α}
    (intact : known.intact = true)
    (continues : ∀ lowerFile later, known ≤ later → fileTokens lowerFile = 0 ∨ fileTokens lowerFile ∈ later.lent →
      (next lowerFile).Covers mountLeasing post held later) :
    (kernel (lowerFileOf ia) >>= next).Covers mountLeasing post held known := by
  apply part_covers
  unfold lowerFileOf
  split
  · split
    · exact ⟨(Free.tame .oops trivial).permits, fun reply => reply.elim⟩
    · rename_i file _
      rw [← (upper (.lowerFile file)).bind_pure]
      apply lowerFile_covers
      intro lowerFile later le
      exact continues lowerFile later (Knowledge.le_lend.trans le) (.inr (le.2.1 (Knowledge.mem_lend intact)))
  · exact fun later le => continues none later le (.inl rfl)

/-- The check of the new size needs nothing. -/
theorem checkSize_covers {inode : Inode} {ia : Iattr (Option File)} {next : BitVec 32 → MountProg α}
    (continues : ∀ err, (next err).Covers mountLeasing post held known) :
    (checkSize inode ia >>= next).Covers mountLeasing post held known := by
  have ends : ∀ err later, known ≤ later → (next err).Covers mountLeasing post held later :=
    fun err later le => (continues err).mono le
  rw [Program.covers_bind]
  unfold checkSize
  split
  · apply vfsTame_covers (.inodeNewsizeOk inode ia.size) trivial (needs_nothing rfl)
    intro err
    by_cases failed : err ≠ 0
    · rw [if_pos failed]
      exact ends err
    · rw [if_neg failed]
      apply vfsTame_covers (.truncateSetsize inode ia.size) trivial (needs_nothing rfl)
      exact fun _ => ends 0
  · exact ends 0

/-- The lower inode is locked while the lower filesystem changes it. -/
theorem notifyLower_covers {lowerDentry : LowerDentry} {ia : Iattr (Option LowerFile)} {next : BitVec 32 → MountProg α}
    (enough : dentryTokens lowerDentry ≤ held) (pin : (lowerDentry, .null) ∈ known.pinned)
    (lent : fileTokens ia.file = 0 ∨ fileTokens ia.file ∈ known.lent)
    (continues : ∀ err later, known ≤ later → (next err).Covers mountLeasing post held later) :
    (notifyLower lowerDentry ia >>= next).Covers mountLeasing post held known := by
  rw [Program.covers_bind]
  unfold notifyLower
  apply part_covers
  rw [← (lowerDInode lowerDentry).bind_pure]
  apply readInode_covers enough pin
  intro inode above le
  apply part_covers
  rw [← (upper (.lock [inode])).bind_pure]
  apply lock_covers
  intro real last under
  have locked : dentryTokens lowerDentry ≤ held + {.lock [inode]} := enough.trans (Multiset.le_add_right _ _)
  have pinned := le.trans under
  have covered : mountLeasing.Covered (held + {.lock [inode]}) last (.vfs (.notifyChange lowerDentry ia)) := by
    rcases lent with nothing | lent
    · left
      change dentryTokens lowerDentry + fileTokens ia.file ≤ _
      rw [nothing, add_zero]
      exact locked
    · exact .inr ⟨_, pinned.2.1 lent, add_le_add_left locked _⟩
  apply vfsTame_covers (.notifyChange lowerDentry ia) trivial covered
  intro err
  apply part_covers
  rw [← (lowerDInode lowerDentry).bind_pure]
  apply readPinned_covers locked (pinned.2.2 List.mem_cons_self) (real inode List.mem_cons_self)
  intro above le
  apply part_covers
  rw [← (upper (.unlock [inode])).bind_pure]
  apply unlock_covers (add_comm _ _)
  intro last under beyond further
  exact continues err beyond (Knowledge.le_pin.trans (pinned.trans (le.trans (under.trans further))))

/-- Every lower call of setattr is covered. -/
theorem trfsSetattr_leased {ia : Iattr (Option File)} : MountLeased (trfsSetattr dentry ia) := by
  unfold MountLeased trfsSetattr
  have reads : (upper (.dInode dentry)).Calls Free := ⟨trivial, fun _ => trivial⟩
  apply tamePart_covers (free_tame reads)
  intro inode
  apply vfsTame_covers (.inodeChangeOk inode ia) trivial (needs_nothing rfl)
  intro err
  by_cases failed : err ≠ 0
  · rw [if_pos failed]
    exact fun _ _ => trivial
  rw [if_neg failed]
  apply getPathPart_covers rfl
  intro path
  have ends : ∀ (err : BitVec 32) known, (kernel (trfsPutLowerPath path) >>= fun _ => pure err).Covers mountLeasing
      (fun _ _ _ => True) (0 + pathTokens path) known := by
    intro err known
    apply putPathPart_covers (add_comm _ _)
    exact fun _ _ => trivial
  have looks : (upper (.lowerInode inode)).Calls Free := ⟨trivial, fun _ => trivial⟩
  apply tamePart_covers (free_tame looks)
  intro lowerInode
  apply lowerFileOf_covers rfl
  intro lowerFile found le lent
  apply checkSize_covers
  intro err
  apply covers_ite (ends err _)
  have enough : dentryTokens path.dentry ≤ 0 + pathTokens path :=
    (Multiset.le_add_right _ _).trans (Multiset.le_add_left _ _)
  apply notifyLower_covers enough (le.2.2 List.mem_cons_self) lent
  intro err later _
  apply covers_ite (ends err _)
  apply tamePart_covers (free_tame (fsstackCopy_free inode lowerInode _))
  exact fun _ => ends 0 _

/-- Every lower call of getattr is covered. -/
theorem trfsGetattr_leased : MountLeased (trfsGetattr dentry) := by
  unfold MountLeased trfsGetattr
  apply getPathPart_covers rfl
  intro path
  have enough : dentryTokens path.dentry ≤ 0 + pathTokens path :=
    (Multiset.le_add_right _ _).trans (Multiset.le_add_left _ _)
  have ends : ∀ (result : BitVec 32 × Option Kstat) known, (kernel (trfsPutLowerPath path) >>= fun _ =>
      pure result).Covers mountLeasing (fun _ _ _ => True) (0 + pathTokens path) known := by
    intro result known
    apply putPathPart_covers (add_comm _ _)
    exact fun _ _ => trivial
  apply vfsTame_covers (.vfsGetattr path) trivial (.inl (Multiset.le_add_left _ _))
  rintro ⟨err, lowerStat⟩
  change Program.Covers _ _ (ite (err ≠ 0) _ _) _ _
  apply covers_ite (ends (err, none) _)
  have reads : (upper (.dInode dentry)).Calls Free := ⟨trivial, fun _ => trivial⟩
  apply tamePart_covers (free_tame reads)
  intro inode
  have looks : (lowerDInode path.dentry).Calls
      (callLeasing.Tame (0 + pathTokens path) (Knowledge.start.pin path.dentry .null)) :=
    ⟨tame_of_held trivial enough, fun _ => trivial⟩
  apply tamePart_covers looks
  intro lowerInode
  apply tamePart_covers (free_tame (fsstackCopy_free inode lowerInode _))
  intro _
  apply tamePart_covers (free_tame reads)
  intro inode
  have shows : (upper (.attributes inode)).Calls Free := ⟨trivial, fun _ => trivial⟩
  apply tamePart_covers (free_tame shows)
  exact fun attributes => ends (err, some ⟨attributes, lowerStat.blocks⟩) _

/-- The file is lent by its private data while the lower filesystem writes it back. -/
theorem trfsFsync_leased {file : File} {start last : BitVec 64} {datasync : BitVec 32} :
    MountLeased (trfsFsync file start last datasync) := by
  unfold MountLeased trfsFsync
  apply vfsTame_covers (.genericFileFsync file start last datasync) trivial (needs_nothing rfl)
  intro err
  by_cases failed : err ≠ 0
  · rw [if_pos failed]
    exact fun _ _ => trivial
  rw [if_neg failed]
  apply part_covers
  rw [← (upper (.lowerFile file)).bind_pure]
  apply lowerFile_covers
  intro lowerFile later le
  apply Program.Covers.mono le
  apply getPathPart_covers rfl
  intro path
  cases lowerFile with
  | none => exact ⟨(Free.tame .oops trivial).permits, fun reply => reply.elim⟩
  | some lowerFile =>
      have lent : {.file lowerFile} ∈ ((Knowledge.start.lend (fileTokens (some lowerFile))).pin path.dentry .null).lent :=
        Knowledge.mem_lend rfl
      apply vfsTame_covers (.vfsFsyncRange lowerFile start last datasync) trivial (.of_lent lent le_rfl)
      intro err
      apply putPathPart_covers (add_comm _ _)
      exact fun _ _ => trivial

/-- A covered request stays covered when its result is dropped. -/
theorem MountLeased.discard {program : MountProg β} (leased : MountLeased program) :
    MountLeased (program >>= fun _ => pure ()) := by
  unfold MountLeased
  rw [Program.covers_bind]
  exact leased.weaken fun _ _ _ _ _ _ => trivial

/-- Every request uses lower dentries, paths and files only with references on them. -/
theorem VfsRequest.leased (request : VfsRequest) : MountLeased request.program := by
  have part : ∀ {program : Prog Outcome}, Leased program → MountLeased (kernel program >>= fun _ => pure ()) :=
    fun leased => MountLeased.discard (kernel_covers leased)
  cases request with
  | traced op => exact part op.leased
  | readIter iocb iter => exact part trfsReadIter_leased
  | writeIter iocb memory iter => exact part trfsWriteIter_leased
  | lookup dentry => exact trfsLookup_leased.discard
  | revalidate dentry flags => exact trfsDRevalidate_leased.discard
  | release dentry => exact trfsDentryRelease_leased
  | setattr dentry ia => exact trfsSetattr_leased.discard
  | getattr dentry => exact trfsGetattr_leased.discard
  | fsync file start last datasync => exact trfsFsync_leased.discard

end

end Trfs.Kernel
