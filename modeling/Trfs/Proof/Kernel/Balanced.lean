import Trfs.Proof.Kernel.OwnedRequests
import Trfs.Proof.Kernel.Records

namespace Trfs.Kernel
open Bytes Effect Trace

section
variable {L : Type} {env : VfsEnvironment L} {helpers : Helpers} {referenced : L → LowerDentry → Prop}
  {held rest : Multiset Token} {pinned : List (LowerDentry × LowerInode)} {holdings : Holdings} {state after : Mounted L}
  {progress : Option (Multiset Token)} {α β : Type} {dentry : Dentry}

/-- Interposition leaves the account and pins nothing. -/
theorem interpose_owns (pinning : VfsPinning env referenced) {path : LowerPath} {next : Spliced → MountProg α}
    {post : α → Mounted L → Option (Multiset Token) → Prop}
    (owns : Owns env.toEnvironment referenced held [] holdings state progress)
    (continues : ∀ spliced after progress, Owns env.toEnvironment referenced held [] holdings after progress →
      (next spliced).Ensures (handleMount env helpers) mountLedger.account post after progress) :
    (interpose dentry path >>= next).Ensures (handleMount env helpers) mountLedger.account post state progress := by
  rw [Program.ensures_bind]
  unfold interpose
  have reads : (lowerDInode path.dentry).Calls Neutral := ⟨trivial, fun _ => trivial⟩
  apply neutralPart_ensures pinning reads owns
  intro lowerInode state progress owns
  have looks : (upper .lowerSuper).Calls Neutral := ⟨trivial, fun _ => trivial⟩
  apply neutralPart_ensures pinning looks owns
  intro lowerSb state progress owns
  have super : (lower (.superBlock lowerInode)).Calls Neutral := ⟨trivial, fun _ => trivial⟩
  apply neutralPart_ensures pinning super owns
  intro crossed state progress owns
  by_cases other : crossed ≠ lowerSb
  · rw [if_pos other]
    exact continues _ state progress owns
  · rw [if_neg other]
    apply neutralPart_ensures pinning (trfsIget_neutral lowerInode) owns
    intro found state progress owns
    cases found with
    | error err => exact continues _ state progress owns
    | ok inode =>
        dsimp only
        rw [← (vfs (.dSpliceAlias inode dentry)).bind_pure]
        exact vfsLook_ensures pinning (.dSpliceAlias inode dentry) trivial owns continues

/-- The label `setup_lower` hands the reference on the dentry and a new one on the mount to the private data. -/
theorem setupLower_owns (pinning : VfsPinning env referenced) {lowerDentry : LowerDentry} {mnt : Nat}
    (owns : Owns env.toEnvironment referenced (held + dentryTokens lowerDentry) [] holdings state progress)
    (unset : holdings.lowerPath dentry.address = .unset) :
    (setupLower dentry lowerDentry mnt).Ensures (handleMount env helpers) mountLedger.account
      (fun _ after progress => ∃ path,
        Owns env.toEnvironment referenced held [] (holdings.setPath dentry.address path) after progress) state progress := by
  unfold setupLower
  refine vfsGain_ensures pinning (.mntget mnt) trivial rfl owns ?_
  intro _ state progress owns
  have whole : held + dentryTokens lowerDentry + vfsGains (.mntget mnt) () = held + pathTokens ⟨lowerDentry, mnt⟩ :=
    add_assoc _ _ _
  rw [whole] at owns
  apply setLowerPath_owns owns unset
  intro state owns
  exact ⟨_, owns⟩

/-- The lookup below leaves the dentry with a lower path, whose references it owns, or with none. -/
theorem lookupBelow_owns (pinning : VfsPinning env referenced) {parentPath : LowerPath}
    (owns : Owns env.toEnvironment referenced held [] holdings state progress)
    (unset : holdings.lowerPath dentry.address = .unset) :
    (lookupBelow dentry parentPath).Ensures (handleMount env helpers) mountLedger.account
      (fun _ after progress => ∃ path,
        Owns env.toEnvironment referenced held [] (holdings.setPath dentry.address path) after progress) state progress := by
  have unchanged : ∀ {after : Mounted L} {progress : Option (Multiset Token)},
      Owns env.toEnvironment referenced held [] holdings after progress → ∃ path,
        Owns env.toEnvironment referenced held [] (holdings.setPath dentry.address path) after progress := by
    intro after progress owns
    rw [← Holdings.setPath_self unset] at owns
    exact ⟨_, owns⟩
  unfold lookupBelow
  refine vfsLook_ensures pinning (.isRoot dentry) trivial owns ?_
  intro root state progress owns
  cases root with
  | true => exact unchanged owns
  | false =>
      refine vfsLook_ensures pinning (.dName dentry) trivial owns ?_
      intro name state progress owns
      refine vfsGain_ensures pinning (.vfsPathLookup parentPath.dentry parentPath.mnt name) trivial rfl owns ?_
      intro found state progress owns
      cases found with
      | ok path =>
          apply setLowerPath_owns owns unset
          intro state owns
          apply interpose_owns pinning owns
          intro spliced state progress owns
          cases spliced with
          | error errno =>
              apply putResetPath_owns pinning owns
              intro state progress owns
              rw [Holdings.setPath_setPath] at owns
              exact ⟨_, owns⟩
          | null => exact ⟨_, owns⟩
          | «alias» other => exact ⟨_, owns⟩
      | error errno =>
          have nothing : held + vfsGains (.vfsPathLookup parentPath.dentry parentPath.mnt name) (.error errno) = held :=
            add_zero held
          rw [nothing] at owns
          by_cases failed : errno.code ≠ ENOENT
          · change Program.Ensures _ _ _ (ite (errno.code ≠ ENOENT) _ _) _ _
            rw [if_pos failed]
            exact unchanged owns
          · change Program.Ensures _ _ _ (ite (errno.code ≠ ENOENT) _ _) _ _
            rw [if_neg failed]
            refine vfsGain_ensures pinning (.dLookup parentPath.dentry name) trivial rfl owns ?_
            intro lowerDentry state progress owns
            cases lowerDentry with
            | some lowerDentry => exact setupLower_owns pinning owns unset
            | none =>
                have nothing : held + vfsGains (.dLookup parentPath.dentry name) none = held := add_zero held
                rw [nothing] at owns
                refine vfsGain_ensures pinning (.dAlloc parentPath.dentry name) trivial rfl owns ?_
                intro lowerDentry state progress owns
                cases lowerDentry with
                | none =>
                    have nothing : held + vfsGains (.dAlloc parentPath.dentry name) none = held := add_zero held
                    rw [nothing] at owns
                    exact unchanged owns
                | some lowerDentry =>
                    refine vfsLook_ensures pinning (.dAdd lowerDentry) trivial owns ?_
                    exact fun _ state progress owns => setupLower_owns pinning owns unset

/-- Copying the attributes after a lookup is neutral. -/
theorem copyLooked_neutral (dentry parent : Dentry) : (copyLooked dentry parent).Calls Neutral := by
  refine ⟨trivial, fun inode => ?_⟩
  have own : (runIf (inode ≠ Inode.null) do
      let lowerInode ← upper (.lowerInode inode)
      fsstackCopyAttrTimes inode lowerInode).Calls Neutral :=
    runIf_neutral ⟨trivial, fun lowerInode => fsstackCopy_neutral inode lowerInode _⟩
  apply own.bind
  intro _
  exact ⟨trivial, fun dir => ⟨trivial, fun lowerDir => fsstackCopy_neutral dir lowerDir _⟩⟩

/-- A request that gives back what it took leaves every open file with its lower file. -/
def Returns (env : VfsEnvironment L) (referenced : L → LowerDentry → Prop) (after : Mounted L)
    (progress : Option (Multiset Token)) : Prop :=
  ∃ later : Holdings, later.Settled ∧ Owns env.toEnvironment referenced 0 [] later after progress

/-- A lookup returns with nothing held. -/
theorem trfsLookup_owns (pinning : VfsPinning env referenced) (fresh : dentry.address ∉ holdings.live)
    (settled : holdings.Settled) (owns : Owns env.toEnvironment referenced 0 [] holdings state progress) :
    (trfsLookup dentry).Ensures (handleMount env helpers) mountLedger.account (fun _ => Returns env referenced) state
      progress := by
  unfold trfsLookup
  refine vfsGain_ensures pinning (.dgetParent dentry) trivial rfl owns ?_
  intro parent state progress owns
  apply getPathPart_owns pinning owns
  intro path state progress owns
  -- The end of the lookup gives the path and the parent back, whatever became of the dentry.
  have ends : ∀ (later : Holdings) (spliced : Spliced) (state : Mounted L) (progress : Option (Multiset Token)),
      later.Settled → Owns env.toEnvironment referenced
        (0 + vfsGains (.dgetParent dentry) parent + pathTokens path) [] later state progress →
      (kernel (trfsPutLowerPath path) >>= fun _ => vfs (.dput parent) >>= fun _ => pure spliced).Ensures
        (handleMount env helpers) mountLedger.account (fun _ => Returns env referenced) state progress := by
    intro later spliced state progress settled owns
    have order : 0 + vfsGains (.dgetParent dentry) parent + pathTokens path =
        pathTokens path + (vfsGains (.dgetParent dentry) parent + 0) := by abel
    apply putPathPart_owns pinning owns order
    intro state progress owns
    refine vfs_ensures pinning (.dput parent) trivial owns rfl (fun _ member => (List.not_mem_nil member).elim) ?_
    intro _ state progress owns
    exact ⟨later, settled, owns⟩
  apply newDentry_owns owns fresh
  · intro state owns
    exact ends holdings _ state progress settled owns
  · intro state owns
    have unset : (holdings.addDentry dentry.address).lowerPath dentry.address = .unset := Function.update_self ..
    have settledLater : ∀ path, ((holdings.addDentry dentry.address).setPath dentry.address path).Settled :=
      fun _ => settled
    rw [if_pos rfl, Program.ensures_bind]
    apply Program.Ensures.mono _ (lookupBelow_owns pinning owns unset)
    rintro spliced state progress ⟨found, owns⟩
    have copied : ∀ other, (kernel (copyLooked other parent) >>= fun _ => kernel (trfsPutLowerPath path) >>= fun _ =>
        vfs (.dput parent) >>= fun _ => pure spliced).Ensures (handleMount env helpers) mountLedger.account
        (fun _ => Returns env referenced) state progress := by
      intro other
      apply neutralPart_ensures pinning (copyLooked_neutral other parent) owns
      exact fun _ state progress owns => ends _ spliced state progress (settledLater found) owns
    cases spliced with
    | error errno => exact ends _ (.error errno) state progress (settledLater found) owns
    | null => exact copied dentry
    | «alias» other => exact copied other

/-- A revalidation returns with nothing held. -/
theorem trfsDRevalidate_owns (pinning : VfsPinning env referenced) {flags : BitVec 32} (settled : holdings.Settled)
    (owns : Owns env.toEnvironment referenced 0 [] holdings state progress) :
    (trfsDRevalidate dentry flags).Ensures (handleMount env helpers) mountLedger.account (fun _ => Returns env referenced)
      state progress := by
  unfold trfsDRevalidate
  by_cases quick : flags &&& LOOKUP_RCU ≠ 0
  · rw [if_pos quick]
    exact ⟨holdings, settled, owns⟩
  rw [if_neg quick]
  apply getPathPart_owns pinning owns
  intro path state progress owns
  have ends : ∀ err state progress, Owns env.toEnvironment referenced (0 + pathTokens path) [(path.dentry, .null)]
      holdings state progress →
      (kernel (trfsPutLowerPath path) >>= fun _ => pure err).Ensures (handleMount env helpers) mountLedger.account
        (fun (_ : BitVec 32) => Returns env referenced) state progress := by
    intro err state progress owns
    apply putPathPart_owns pinning owns (add_comm _ _)
    exact fun state progress owns => ⟨holdings, settled, owns⟩
  refine vfsLook_ensures pinning (.opRevalidate path.dentry) trivial owns ?_
  intro defined state progress owns
  cases defined with
  | true =>
      refine vfsLook_ensures pinning (.dRevalidate path.dentry flags) trivial owns ?_
      exact fun err state progress owns => ends err state progress owns
  | false => exact ends 1 state progress owns

/-- The release of a dentry returns with nothing held. -/
theorem trfsDentryRelease_owns (pinning : VfsPinning env referenced) (settled : holdings.Settled)
    (owns : Owns env.toEnvironment referenced 0 [] holdings state progress) :
    (trfsDentryRelease dentry).Ensures (handleMount env helpers) mountLedger.account (fun _ => Returns env referenced)
      state progress := by
  unfold trfsDentryRelease
  apply putResetPath_owns pinning owns
  intro state progress owns
  apply freeDentry_owns owns (Function.update_self ..)
  intro state owns
  have settledLater : ((holdings.setPath dentry.address .unset).removeDentry dentry.address).Settled := settled
  exact ⟨_, settledLater, owns⟩

/-- Reading the lower file is neutral. -/
theorem lowerFileOf_neutral (ia : Iattr (Option File)) : (lowerFileOf ia).Calls Neutral := by
  unfold lowerFileOf
  split
  · split
    · exact ⟨trivial, nofun⟩
    · exact ⟨trivial, fun _ => trivial⟩
  · trivial

/-- The check of the new size leaves the account. -/
theorem checkSize_owns (pinning : VfsPinning env referenced) {inode : Inode} {ia : Iattr (Option File)}
    {next : BitVec 32 → MountProg α} {post : α → Mounted L → Option (Multiset Token) → Prop}
    (owns : Owns env.toEnvironment referenced held pinned holdings state progress)
    (continues : ∀ err after progress, Owns env.toEnvironment referenced held pinned holdings after progress →
      (next err).Ensures (handleMount env helpers) mountLedger.account post after progress) :
    (checkSize inode ia >>= next).Ensures (handleMount env helpers) mountLedger.account post state progress := by
  rw [Program.ensures_bind]
  unfold checkSize
  split
  · refine vfsLook_ensures pinning (.inodeNewsizeOk inode ia.size) trivial owns ?_
    intro err state progress owns
    by_cases failed : err ≠ 0
    · rw [if_pos failed]
      exact continues err state progress owns
    · rw [if_neg failed]
      refine vfsLook_ensures pinning (.truncateSetsize inode ia.size) trivial owns ?_
      exact fun _ state progress owns => continues 0 state progress owns
  · exact continues 0 state progress owns

/-- The lock around `notify_change` is that of the inode which the dentry shows before and after. -/
theorem notifyLower_owns (pinning : VfsPinning env referenced) {lowerDentry : LowerDentry} {ia : Iattr (Option LowerFile)}
    {next : BitVec 32 → MountProg α} {post : α → Mounted L → Option (Multiset Token) → Prop}
    (owns : Owns env.toEnvironment referenced held pinned holdings state progress) (pin : (lowerDentry, .null) ∈ pinned)
    (continues : ∀ err after progress, Owns env.toEnvironment referenced held [] holdings after progress →
      (next err).Ensures (handleMount env helpers) mountLedger.account post after progress) :
    (notifyLower lowerDentry ia >>= next).Ensures (handleMount env helpers) mountLedger.account post state progress := by
  rw [Program.ensures_bind]
  unfold notifyLower
  apply part_ensures
  rw [← (lowerDInode lowerDentry).bind_pure]
  apply readInode_owns pinning.toPinning owns pin
  intro inode state progress owns
  apply part_ensures
  rw [← (upper (.lock [inode])).bind_pure]
  apply lock_owns pinning.toPinning owns
  intro state progress there owns
  refine vfsLook_ensures pinning (.notifyChange lowerDentry ia) trivial owns ?_
  intro err state progress owns
  apply part_ensures
  rw [← (lowerDInode lowerDentry).bind_pure]
  apply readPinned_owns pinning.toPinning owns List.mem_cons_self (there inode List.mem_cons_self)
  intro state progress owns
  apply part_ensures
  rw [← (upper (.unlock [inode])).bind_pure]
  apply unlock_owns pinning.toPinning owns (add_comm _ _)
  intro state progress owns
  exact continues err state progress owns.forget

/-- Setattr returns with nothing held. -/
theorem trfsSetattr_owns (pinning : VfsPinning env referenced) {ia : Iattr (Option File)} (settled : holdings.Settled)
    (owns : Owns env.toEnvironment referenced 0 [] holdings state progress) :
    (trfsSetattr dentry ia).Ensures (handleMount env helpers) mountLedger.account (fun _ => Returns env referenced) state
      progress := by
  unfold trfsSetattr
  have reads : (upper (.dInode dentry)).Calls Neutral := ⟨trivial, fun _ => trivial⟩
  apply neutralPart_ensures pinning reads owns
  intro inode state progress owns
  refine vfsLook_ensures pinning (.inodeChangeOk inode ia) trivial owns ?_
  intro err state progress owns
  by_cases failed : err ≠ 0
  · rw [if_pos failed]
    exact ⟨holdings, settled, owns⟩
  rw [if_neg failed]
  apply getPathPart_owns pinning owns
  intro path state progress owns
  have ends : ∀ {pinned : List (LowerDentry × LowerInode)} (err : BitVec 32) {state progress},
      Owns env.toEnvironment referenced (0 + pathTokens path) pinned holdings state progress →
      (kernel (trfsPutLowerPath path) >>= fun _ => pure err).Ensures (handleMount env helpers) mountLedger.account
        (fun _ => Returns env referenced) state progress := by
    intro pinned err state progress owns
    apply putPathPart_owns pinning owns (add_comm _ _)
    exact fun state progress owns => ⟨holdings, settled, owns⟩
  have looks : (upper (.lowerInode inode)).Calls Neutral := ⟨trivial, fun _ => trivial⟩
  apply neutralPart_ensures pinning looks owns
  intro lowerInode state progress owns
  apply neutralPart_ensures pinning (lowerFileOf_neutral ia) owns
  intro lowerFile state progress owns
  apply checkSize_owns pinning owns
  intro err state progress owns
  by_cases failed : err ≠ 0
  · rw [if_pos failed]
    exact ends err owns
  rw [if_neg failed]
  apply notifyLower_owns pinning owns List.mem_cons_self
  intro err state progress owns
  by_cases failed : err ≠ 0
  · rw [if_pos failed]
    exact ends err owns
  rw [if_neg failed]
  apply neutralPart_ensures pinning (fsstackCopy_neutral inode lowerInode _) owns
  intro _ state progress owns
  exact ends 0 owns

/-- Getattr returns with nothing held. -/
theorem trfsGetattr_owns (pinning : VfsPinning env referenced) (settled : holdings.Settled)
    (owns : Owns env.toEnvironment referenced 0 [] holdings state progress) :
    (trfsGetattr dentry).Ensures (handleMount env helpers) mountLedger.account (fun _ => Returns env referenced) state
      progress := by
  unfold trfsGetattr
  apply getPathPart_owns pinning owns
  intro path state progress owns
  have ends : ∀ (result : BitVec 32 × Option Kstat) {state progress},
      Owns env.toEnvironment referenced (0 + pathTokens path) [(path.dentry, .null)] holdings state progress →
      (kernel (trfsPutLowerPath path) >>= fun _ => pure result).Ensures (handleMount env helpers) mountLedger.account
        (fun _ => Returns env referenced) state progress := by
    intro result state progress owns
    apply putPathPart_owns pinning owns (add_comm _ _)
    exact fun state progress owns => ⟨holdings, settled, owns⟩
  refine vfsLook_ensures pinning (.vfsGetattr path) trivial owns ?_
  rintro ⟨err, lowerStat⟩ state progress owns
  by_cases failed : err ≠ 0
  · change Program.Ensures _ _ _ (ite (err ≠ 0) _ _) _ _
    rw [if_pos failed]
    exact ends (err, none) owns
  · change Program.Ensures _ _ _ (ite (err ≠ 0) _ _) _ _
    rw [if_neg failed]
    have reads : (upper (.dInode dentry)).Calls Neutral := ⟨trivial, fun _ => trivial⟩
    apply neutralPart_ensures pinning reads owns
    intro inode state progress owns
    have looks : (lowerDInode path.dentry).Calls Neutral := ⟨trivial, fun _ => trivial⟩
    apply neutralPart_ensures pinning looks owns
    intro lowerInode state progress owns
    apply neutralPart_ensures pinning (fsstackCopy_neutral inode lowerInode _) owns
    intro _ state progress owns
    apply neutralPart_ensures pinning reads owns
    intro inode state progress owns
    have shows : (upper (.attributes inode)).Calls Neutral := ⟨trivial, fun _ => trivial⟩
    apply neutralPart_ensures pinning shows owns
    intro attributes state progress owns
    exact ends (err, some ⟨attributes, lowerStat.blocks⟩) owns

/-- Fsync returns with nothing held. -/
theorem trfsFsync_owns (pinning : VfsPinning env referenced) {file : File} {start last : BitVec 64}
    {datasync : BitVec 32} (settled : holdings.Settled)
    (owns : Owns env.toEnvironment referenced 0 [] holdings state progress) :
    (trfsFsync file start last datasync).Ensures (handleMount env helpers) mountLedger.account
      (fun _ => Returns env referenced) state progress := by
  unfold trfsFsync
  refine vfsLook_ensures pinning (.genericFileFsync file start last datasync) trivial owns ?_
  intro err state progress owns
  by_cases failed : err ≠ 0
  · rw [if_pos failed]
    exact ⟨holdings, settled, owns⟩
  rw [if_neg failed]
  have looks : (upper (.lowerFile file)).Calls Neutral := ⟨trivial, fun _ => trivial⟩
  apply neutralPart_ensures pinning looks owns
  intro lowerFile state progress owns
  apply getPathPart_owns pinning owns
  intro path state progress owns
  cases lowerFile with
  | none => exact fun reply => reply.elim
  | some lowerFile =>
      refine vfsLook_ensures pinning (.vfsFsyncRange lowerFile start last datasync) trivial owns ?_
      intro err state progress owns
      apply putPathPart_owns pinning owns (add_comm _ _)
      exact fun state progress owns => ⟨holdings, settled, owns⟩

/-- Every request gives back what it took, on each of its ways out. -/
theorem VfsRequest.owns (pinning : VfsPinning env referenced) (request : VfsRequest) (fresh : request.Fresh state)
    (settled : holdings.Settled) (owns : Owns env.toEnvironment referenced 0 [] holdings state progress) :
    request.program.Ensures (handleMount env helpers) mountLedger.account (fun _ => Returns env referenced) state
      progress := by
  have ends : ∀ {β : Type} {program : MountProg β}, program.Ensures (handleMount env helpers) mountLedger.account
      (fun _ => Returns env referenced) state progress →
      (program >>= fun _ => pure ()).Ensures (handleMount env helpers) mountLedger.account
        (fun (_ : Unit) => Returns env referenced) state progress := by
    intro β program ensures
    rw [Program.ensures_bind]
    exact ensures
  have stays : ∀ {program : Prog Outcome}, program.Ensures (handleOwned env.toEnvironment helpers) callLedger.account
      (fun _ after progress => Owns env.toEnvironment referenced 0 [] holdings after progress) state progress →
      (kernel program).Ensures (handleMount env helpers) mountLedger.account (fun _ => Returns env referenced) state
        progress :=
    fun ensures => kernel_ensures (ensures.mono fun _ _ _ owns => ⟨holdings, settled, owns⟩)
  cases request with
  | traced op =>
      have opens : ∀ inode file, op = .open inode file → file.address ∉ holdings.opened := by
        rintro inode file rfl
        rw [← owns.holdings]
        exact fresh
      exact ends (kernel_ensures (op.owns pinning.toPinning opens settled owns))
  | readIter iocb iter => exact ends (stays (trfsReadIter_owns pinning.toPinning owns))
  | writeIter iocb memory iter => exact ends (stays (trfsWriteIter_owns pinning.toPinning owns))
  | lookup dentry =>
      have absent : dentry.address ∉ holdings.live := by
        rw [← owns.holdings]
        exact fresh
      exact ends (trfsLookup_owns pinning absent settled owns)
  | revalidate dentry flags => exact ends (trfsDRevalidate_owns pinning settled owns)
  | release dentry => exact trfsDentryRelease_owns pinning settled owns
  | setattr dentry ia => exact ends (trfsSetattr_owns pinning settled owns)
  | getattr dentry => exact ends (trfsGetattr_owns pinning settled owns)
  | fsync file start last datasync => exact ends (trfsFsync_owns pinning settled owns)

/-- The tokens that may outlive a request. -/
def Token.Lasting : Token → Prop
  | .dentry _ | .mnt _ | .file _ => True
  | _ => False

/-- What the upper objects hold may outlast a request. -/
theorem Holdings.tokens_lasting (holdings : Holdings) : ∀ token ∈ holdings.tokens, token.Lasting := by
  intro token member
  rcases Multiset.mem_add.mp member with paths | files
  · obtain ⟨dentry, _, held⟩ := Multiset.mem_sum.mp paths
    rcases Multiset.mem_add.mp held with held | held
    · unfold dentryTokens at held
      split at held
      · exact absurd held (Multiset.notMem_zero token)
      · obtain rfl := Multiset.mem_singleton.mp held
        trivial
    · unfold mntTokens at held
      split at held
      · exact absurd held (Multiset.notMem_zero token)
      · obtain rfl := Multiset.mem_singleton.mp held
        trivial
  · obtain ⟨file, _, held⟩ := Multiset.mem_sum.mp files
    cases found : holdings.lowerFile file with
    | none =>
        rw [found] at held
        exact absurd held (Multiset.notMem_zero token)
    | some lowerFile =>
        rw [found] at held
        obtain rfl := Multiset.mem_singleton.mp held
        trivial

/-- Between two requests the account of all calls so far is what the dentries and the open files hold. -/
def Balanced (start : Multiset Token) (reached : Mounted L × List (Event MountCall.Reply)) : Prop :=
  mountLedger.account.after (some start) reached.2 = some reached.1.holdings.tokens ∧ reached.1.holdings.Settled

/-- A step of the mount keeps the balance. -/
theorem mountStep_balanced (pinning : VfsPinning env referenced) {start : Multiset Token}
    (reached : Mounted L × List (Event MountCall.Reply)) (action : MountAction L)
    (next : Mounted L × List (Event MountCall.Reply)) (balanced : Balanced start reached) (fresh : action.Fresh reached)
    (stepped : mountStep env helpers action reached = some next) : Balanced start next := by
  obtain ⟨account, settled⟩ := balanced
  obtain ⟨state, events⟩ := reached
  cases action with
  | request request =>
      obtain ⟨done, ran, rfl⟩ := Option.map_eq_some_iff.mp stepped
      have owns : Owns env.toEnvironment referenced 0 [] state.holdings state
          (mountLedger.account.after (some start) events) := by
        refine ⟨?_, rfl, fun _ member => (List.not_mem_nil member).elim⟩
        rw [zero_add]
        exact account
      obtain ⟨later, settled, owns⟩ := (request.owns pinning fresh settled owns).exec ran
      rw [← owns.holdings] at settled
      refine ⟨?_, settled⟩
      have whole := owns.account
      rw [zero_add, ← owns.holdings] at whole
      rw [Monitor.after_append]
      exact whole
  | outside change mask =>
      obtain rfl := Option.some.inj stepped
      exact ⟨account, settled⟩

/-- In every run nothing is released that is not held. After each request exactly the dentries with a lower path and
the open files hold references, one pair or one reference each, and no lock and no buffer is left. -/
theorem requests_balanced (pinning : VfsPinning env referenced) {actions : List (MountAction L)} {first : Mounted L}
    {last : Mounted L × List (Event MountCall.Reply)} (settled : first.holdings.Settled)
    (fresh : ObeyActions (mountStep env helpers) MountAction.Fresh actions (first, []))
    (ran : runActions (mountStep env helpers) actions (first, []) = some last) :
    mountLedger.account.after (some first.holdings.tokens) last.2 = some last.1.holdings.tokens ∧
      last.1.holdings.Settled ∧ ∀ token ∈ last.1.holdings.tokens, token.Lasting := by
  have start : Balanced first.holdings.tokens (first, []) := ⟨rfl, settled⟩
  obtain ⟨account, settled⟩ := runActions_keeps (mountStep_balanced pinning) start fresh ran
  exact ⟨account, settled, last.1.holdings.tokens_lasting⟩

end

/-- A VFS that answers every request with the same data. -/
def steadyVfs : (c : VfsCall) → c.Reply
  | .dgetParent _ => dentryA
  | .isRoot _ => false
  | .newDentryPrivateData _ | .opRevalidate _ => true
  | .dName _ => ⟨[0x62], by decide⟩
  | .takeLowerPath _ => .unset
  | .dSpliceAlias .. => .null
  | .vfsPathLookup .. => .ok ⟨⟨2⟩, 1⟩
  | .dLookup .. | .dAlloc .. => none
  | .dRevalidate .. => 1
  | .inodeChangeOk .. | .inodeNewsizeOk .. | .notifyChange .. | .genericFileFsync .. | .vfsFsyncRange .. => 0
  | .vfsGetattr _ => (0, ⟨⟨0, 0, 0, 0, 0, 0, 0, 0, 0, 0, 0, 0, 0⟩, 0⟩)
  | .dput _ | .setLowerPath .. | .freeDentryPrivateData _ | .dAdd _ | .mntget _ | .truncateSetsize .. => ()

def steadyMount : VfsEnvironment Unit := { steady 0 0 with vfs := fun c _ => (steadyVfs c, ()) }

/-- The mount whose lower tree never changes meets the hypotheses. -/
theorem steadyMount_pinning : VfsPinning steadyMount fun _ _ => True where
  dgetParent _ _ := trivial
  pathGet _ _ := trivial
  lower _ _ _ _ := fun _ => ⟨trivial, fun _ => rfl⟩
  iget5Locked _ _ _ := fun _ => ⟨trivial, fun _ => rfl⟩
  dSpliceAlias _ _ _ _ := fun _ => ⟨trivial, fun _ => rfl⟩
  kzalloc _ _ := fun _ => ⟨trivial, fun _ => rfl⟩
  vfs _ _ _ _ := fun _ => ⟨trivial, fun _ => rfl⟩

/-- The mount with its root and no open file. -/
def rootMount : Mounted Unit := ⟨freshMount, {1}, ∅⟩

/-- An open file, a new dentry with a directory, a change of its mode, another mask and the end of both. -/
def shortRun : List (MountAction Unit) :=
  [.request (.traced (.open ⟨1⟩ fileA)), .request (.lookup dentryB), .request (.traced (.mkdir ⟨1⟩ dentryB 0x1ed)),
    .request (.setattr dentryB ⟨ATTR_MODE, 0x1c0, 0, 0, 0, 0, 0, 0, none⟩), .outside id 0,
    .request (.traced (.release fileA)), .request (.release dentryB)]

/-- A short run of requests ends balanced. -/
theorem requests_balanced_shortRun : ∃ last, runActions (mountStep steadyMount reliable) shortRun (rootMount, []) =
      some last ∧ mountLedger.account.after (some rootMount.holdings.tokens) last.2 = some last.1.holdings.tokens ∧
        last.1.holdings.Settled ∧ ∀ token ∈ last.1.holdings.tokens, token.Lasting := by
  have finishes : (runActions (mountStep steadyMount reliable) shortRun (rootMount, [])).isSome := by decide +kernel
  obtain ⟨last, ran⟩ := Option.isSome_iff_exists.mp finishes
  have unused : (mountStep steadyMount reliable (.request (.traced (.open ⟨1⟩ fileA))) (rootMount, [])).map
      (fun reached => decide (dentryB.address ∈ reached.1.live)) = some false := by decide +kernel
  have fresh : ObeyActions (mountStep steadyMount reliable) MountAction.Fresh shortRun (rootMount, []) := by
    refine ⟨Finset.notMem_empty _, fun reached stepped => ⟨?_, ?_⟩⟩
    · rw [stepped] at unused
      exact of_decide_eq_false (Option.some.inj unused)
    · exact fun _ _ => ⟨trivial, fun _ _ => ⟨trivial, fun _ _ => ⟨trivial, fun _ _ => ⟨trivial, fun _ _ =>
        ⟨trivial, fun _ _ => trivial⟩⟩⟩⟩⟩
  have settled : rootMount.holdings.Settled := fun file member => absurd member (Finset.notMem_empty file)
  exact ⟨last, ran, requests_balanced steadyMount_pinning settled fresh ran⟩

end Trfs.Kernel
