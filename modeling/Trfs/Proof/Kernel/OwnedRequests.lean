import Trfs.Proof.Kernel.OwnedFiles

namespace Trfs.Kernel
open Bytes Effect Trace

def vfsGains : (c : VfsCall) → c.Reply → Multiset Token
  | .dgetParent _, parent => {.upper parent.address}
  | .vfsPathLookup .., .ok path => pathTokens path
  | .dLookup .., some dentry | .dAlloc .., some dentry => dentryTokens dentry
  | .mntget mnt, _ => mntTokens mnt
  | _, _ => 0

def vfsSpends : VfsCall → Multiset Token
  | .dput dentry => {.upper dentry.address}
  | _ => 0

def mountGains : (c : MountCall) → c.Reply → Multiset Token
  | .kernel c, reply => callGains c reply
  | .vfs c, reply => vfsGains c reply

def mountSpends : MountCall → Multiset Token
  | .kernel c => callSpends c
  | .vfs c => vfsSpends c

def mountLedger : Ledger MountCall.Reply Token := ⟨mountGains, mountSpends⟩

/-- The other calls of the VFS do not put lower dentries either. -/
structure VfsPinning {L : Type} (env : VfsEnvironment L) (referenced : L → LowerDentry → Prop) : Prop extends
    Pinning env.toEnvironment referenced where
  vfs : ∀ c dentry state, (∀ other, c ≠ .dput other) →
    Undisturbed env.toEnvironment referenced dentry state (env.vfs c state).2

/-- The calls of the VFS that leave the private data of dentries alone. -/
def VfsKeeps : VfsCall → Prop
  | .newDentryPrivateData _ | .setLowerPath .. | .takeLowerPath _ | .freeDentryPrivateData _ => False
  | _ => True

/-- Another lower path for one dentry. -/
def Holdings.setPath (holdings : Holdings) (dentry : Nat) (path : LowerPath) : Holdings :=
  { holdings with lowerPath := Function.update holdings.lowerPath dentry path }

/-- One more dentry, whose lower path is not set. -/
def Holdings.addDentry (holdings : Holdings) (dentry : Nat) : Holdings :=
  { holdings.setPath dentry .unset with live := insert dentry holdings.live }

def Holdings.removeDentry (holdings : Holdings) (dentry : Nat) : Holdings :=
  { holdings with live := holdings.live.erase dentry }

section
variable {holdings : Holdings} {dentry : Nat} {path : LowerPath}

/-- A stored path brings its tokens, the one it replaces leaves with its own. -/
theorem Holdings.tokens_setPath (member : dentry ∈ holdings.live) :
    pathTokens (holdings.lowerPath dentry) + (holdings.setPath dentry path).tokens = pathTokens path + holdings.tokens := by
  have exchanged : pathTokens (holdings.lowerPath dentry) +
      ∑ other ∈ holdings.live, pathTokens (Function.update holdings.lowerPath dentry path other) = _ :=
    sum_update_member member
  change pathTokens (holdings.lowerPath dentry) +
    (∑ other ∈ holdings.live, pathTokens (Function.update holdings.lowerPath dentry path other) + _) = _
  rw [← add_assoc, exchanged, add_assoc]
  rfl

/-- A new dentry holds nothing yet. -/
theorem Holdings.tokens_addDentry (absent : dentry ∉ holdings.live) :
    (holdings.addDentry dentry).tokens = holdings.tokens :=
  congrArg (· + ∑ file ∈ holdings.opened, fileTokens (holdings.lowerFile file)) (sum_insert_update absent rfl)

/-- A dentry without a path is removed with no token. -/
theorem Holdings.tokens_removeDentry (nothing : holdings.lowerPath dentry = .unset) :
    (holdings.removeDentry dentry).tokens = holdings.tokens := by
  have dentries : ∑ other ∈ holdings.live.erase dentry, pathTokens (holdings.lowerPath other) =
      ∑ other ∈ holdings.live, pathTokens (holdings.lowerPath other) := by
    apply Finset.sum_erase
    rw [nothing]
    rfl
  exact congrArg (· + ∑ file ∈ holdings.opened, fileTokens (holdings.lowerFile file)) dentries

/-- Storing the path that is there changes nothing. -/
theorem Holdings.setPath_self (same : holdings.lowerPath dentry = path) : holdings.setPath dentry path = holdings := by
  unfold setPath
  rw [← same, Function.update_eq_self]

/-- The later of two stored paths counts. -/
theorem Holdings.setPath_setPath (other : LowerPath) :
    (holdings.setPath dentry path).setPath dentry other = holdings.setPath dentry other := by
  simp [setPath]

end

section
variable {L : Type} {env : VfsEnvironment L} {helpers : Helpers} {referenced : L → LowerDentry → Prop}
  {held rest : Multiset Token} {pinned : List (LowerDentry × LowerInode)} {holdings : Holdings} {state after : Mounted L}
  {progress : Option (Multiset Token)} {α β : Type}

/-- What holds of a program of the other files holds of it as a part. -/
theorem kernel_ensures {program : Prog α} {post : α → Mounted L → Option (Multiset Token) → Prop}
    (ensures : program.Ensures (handleOwned env.toEnvironment helpers) callLedger.account post state progress) :
    (kernel program).Ensures (handleMount env helpers) mountLedger.account post state progress := by
  induction program generalizing state progress with
  | pure value => exact ensures
  | call c next ih => exact fun reply after answered => ih reply (ensures reply after answered)

/-- A kernel part of a request is judged by the ledger of the calls. -/
theorem part_ensures {program : Prog β} {next : β → MountProg α} {post : α → Mounted L → Option (Multiset Token) → Prop}
    (ensures : program.Ensures (handleOwned env.toEnvironment helpers) callLedger.account
      (fun value after progress => (next value).Ensures (handleMount env helpers) mountLedger.account post after progress)
      state progress) :
    (kernel program >>= next).Ensures (handleMount env helpers) mountLedger.account post state progress := by
  rw [Program.ensures_bind]
  exact kernel_ensures ensures

/-- A neutral part leaves the account. -/
theorem neutralPart_ensures (pinning : VfsPinning env referenced) {program : Prog β} {next : β → MountProg α}
    (calls : program.Calls Neutral) {post : α → Mounted L → Option (Multiset Token) → Prop}
    (owns : Owns env.toEnvironment referenced held pinned holdings state progress)
    (continues : ∀ value after progress, Owns env.toEnvironment referenced held pinned holdings after progress →
      (next value).Ensures (handleMount env helpers) mountLedger.account post after progress) :
    (kernel program >>= next).Ensures (handleMount env helpers) mountLedger.account post state progress := by
  apply part_ensures
  rw [← program.bind_pure]
  exact neutral_ensures pinning.toPinning calls owns continues

/-- A request that takes a lower path holds its references and pins its dentry. -/
theorem getPathPart_owns (pinning : VfsPinning env referenced) {dentry : Dentry} {next : LowerPath → MountProg α}
    {post : α → Mounted L → Option (Multiset Token) → Prop}
    (owns : Owns env.toEnvironment referenced held pinned holdings state progress)
    (continues : ∀ path after progress, Owns env.toEnvironment referenced (held + pathTokens path)
        ((path.dentry, .null) :: pinned) holdings after progress →
      (next path).Ensures (handleMount env helpers) mountLedger.account post after progress) :
    (kernel (trfsGetLowerPath dentry) >>= next).Ensures (handleMount env helpers) mountLedger.account post state
      progress := by
  apply part_ensures
  rw [← (trfsGetLowerPath dentry).bind_pure]
  exact getPath_owns pinning.toPinning owns continues

/-- A request that puts a lower path gives its references back. -/
theorem putPathPart_owns (pinning : VfsPinning env referenced) {path : LowerPath} {next : Unit → MountProg α}
    {post : α → Mounted L → Option (Multiset Token) → Prop}
    (owns : Owns env.toEnvironment referenced held pinned holdings state progress) (enough : held = pathTokens path + rest)
    (continues : ∀ after progress, Owns env.toEnvironment referenced rest [] holdings after progress →
      (next ()).Ensures (handleMount env helpers) mountLedger.account post after progress) :
    (kernel (trfsPutLowerPath path) >>= next).Ensures (handleMount env helpers) mountLedger.account post state
      progress := by
  apply part_ensures
  rw [← (trfsPutLowerPath path).bind_pure]
  exact putPath_owns pinning.toPinning owns enough continues

/-- A keeping call changes no holding, and only dput may disturb a lower dentry. -/
theorem handleMount_keeps (pinning : VfsPinning env referenced) {c : VfsCall} {reply : c.Reply} (keeps : VfsKeeps c)
    (answered : handleMount env helpers (.vfs c) state = some (reply, after)) :
    after.holdings = state.holdings ∧ ∀ dentry, (∀ other, c ≠ .dput other) →
      Undisturbed env.toEnvironment referenced dentry state.machine.visible.lower after.machine.visible.lower := by
  cases c with
  | dSpliceAlias inode dentry =>
      obtain ⟨_, rfl⟩ := Prod.mk.inj (Option.some.inj answered)
      have vfs := pinning.vfs (.dSpliceAlias inode dentry)
      split
      · exact ⟨rfl, fun dentry other => vfs dentry _ other⟩
      · exact ⟨rfl, fun dentry other => vfs dentry _ other⟩
  | newDentryPrivateData dentry => exact keeps.elim
  | setLowerPath dentry path => exact keeps.elim
  | takeLowerPath dentry => exact keeps.elim
  | freeDentryPrivateData dentry => exact keeps.elim
  | _ =>
      obtain ⟨_, rfl⟩ := Prod.mk.inj (Option.some.inj answered)
      exact ⟨rfl, fun dentry other => pinning.vfs _ dentry _ other⟩

/-- The rule for a call of the VFS: it needs what it takes and leaves what it gives. -/
theorem vfs_ensures (pinning : VfsPinning env referenced) (c : VfsCall) (keeps : VfsKeeps c)
    {later : List (LowerDentry × LowerInode)} {next : c.Reply → MountProg α}
    {post : α → Mounted L → Option (Multiset Token) → Prop}
    (owns : Owns env.toEnvironment referenced held pinned holdings state progress) (enough : held = vfsSpends c + rest)
    (stays : ∀ pair ∈ later, pair ∈ pinned ∧ ∀ other, c ≠ .dput other)
    (continues : ∀ reply after progress, Owns env.toEnvironment referenced (rest + vfsGains c reply) later holdings after
        progress →
      (next reply).Ensures (handleMount env helpers) mountLedger.account post after progress) :
    (vfs c >>= next).Ensures (handleMount env helpers) mountLedger.account post state progress := by
  intro reply after answered
  obtain ⟨same, undisturbed⟩ := handleMount_keeps pinning keeps answered
  apply continues reply after
  refine ⟨?_, same.trans owns.holdings, ?_⟩
  · have total : held + holdings.tokens = mountLedger.spends (.vfs c) + (rest + holdings.tokens) := by
      rw [enough, add_assoc]
      rfl
    have counted : mountLedger.account.next (some (held + holdings.tokens)) (.vfs c) reply = some _ :=
      mountLedger.account_next total
    rw [owns.account, counted, add_right_comm]
    rfl
  · intro pair member
    obtain ⟨before, other⟩ := stays pair member
    exact (undisturbed pair.1 other).pins (owns.pinned pair before)

/-- The calls of the VFS that neither take nor give anything. -/
def NeutralVfs : VfsCall → Prop
  | .dgetParent _ | .dput _ | .newDentryPrivateData _ | .setLowerPath .. | .takeLowerPath _ | .freeDentryPrivateData _
  | .vfsPathLookup .. | .dLookup .. | .dAlloc .. | .mntget _ => False
  | _ => True

/-- A neutral call keeps, spends nothing and gains nothing. -/
theorem NeutralVfs.keeps {c : VfsCall} (neutral : NeutralVfs c) :
    VfsKeeps c ∧ vfsSpends c = 0 ∧ (∀ reply, vfsGains c reply = 0) ∧ ∀ other, c ≠ .dput other := by
  cases c <;> first | exact neutral.elim | exact ⟨trivial, rfl, fun _ => rfl, fun _ => by simp⟩

/-- A neutral call of the VFS leaves the account and what is pinned. -/
theorem vfsLook_ensures (pinning : VfsPinning env referenced) (c : VfsCall) (neutral : NeutralVfs c)
    {next : c.Reply → MountProg α} {post : α → Mounted L → Option (Multiset Token) → Prop}
    (owns : Owns env.toEnvironment referenced held pinned holdings state progress)
    (continues : ∀ reply after progress, Owns env.toEnvironment referenced held pinned holdings after progress →
      (next reply).Ensures (handleMount env helpers) mountLedger.account post after progress) :
    (vfs c >>= next).Ensures (handleMount env helpers) mountLedger.account post state progress := by
  obtain ⟨keeps, spends, gains, other⟩ := neutral.keeps
  have enough : held = vfsSpends c + held := by rw [spends, zero_add]
  refine vfs_ensures pinning c keeps owns enough (fun pair member => ⟨member, other⟩) ?_
  intro reply after progress owns
  rw [gains, add_zero] at owns
  exact continues reply after progress owns

/-- A call of the VFS that only gives. The lookup relies on no dentry. -/
theorem vfsGain_ensures (pinning : VfsPinning env referenced) (c : VfsCall) (keeps : VfsKeeps c)
    (free : vfsSpends c = 0) {next : c.Reply → MountProg α} {post : α → Mounted L → Option (Multiset Token) → Prop}
    (owns : Owns env.toEnvironment referenced held pinned holdings state progress)
    (continues : ∀ reply after progress, Owns env.toEnvironment referenced (held + vfsGains c reply) [] holdings after
        progress →
      (next reply).Ensures (handleMount env helpers) mountLedger.account post after progress) :
    (vfs c >>= next).Ensures (handleMount env helpers) mountLedger.account post state progress := by
  have enough : held = vfsSpends c + held := by rw [free, zero_add]
  exact vfs_ensures pinning c keeps owns enough (fun _ member => (List.not_mem_nil member).elim) continues

/-- A task may forget what it has pinned. -/
theorem Owns.forget (owns : Owns env.toEnvironment referenced held pinned holdings state progress) :
    Owns env.toEnvironment referenced held [] holdings state progress :=
  ⟨owns.account, owns.holdings, fun _ member => (List.not_mem_nil member).elim⟩

/-- The rule for a call that changes the private data of a dentry. -/
theorem vfsShift_ensures (c : VfsCall) (free : vfsSpends c = 0) (gives : ∀ reply, vfsGains c reply = 0)
    {next : c.Reply → MountProg α} {post : α → Mounted L → Option (Multiset Token) → Prop}
    (owns : Owns env.toEnvironment referenced held pinned holdings state progress)
    (continues : ∀ reply after, handleMount env helpers (.vfs c) state = some (reply, after) →
      (next reply).Ensures (handleMount env helpers) mountLedger.account post after progress) :
    (vfs c >>= next).Ensures (handleMount env helpers) mountLedger.account post state progress := by
  intro reply after answered
  have counted : mountLedger.account.next (some (held + holdings.tokens)) (.vfs c) reply = some _ :=
    mountLedger.account_gain free
  have same : mountLedger.account.next progress (.vfs c) reply = progress := by
    have nothing : mountLedger.gains (.vfs c) reply = 0 := gives reply
    rw [owns.account, counted, nothing, add_zero]
  rw [same]
  exact continues reply after answered

/-- What is held moves, and the request relies on no dentry any more. -/
theorem Owns.shift {other : Multiset Token} {later : Holdings}
    (owns : Owns env.toEnvironment referenced held pinned holdings state progress) (same : after.holdings = later)
    (total : held + holdings.tokens = other + later.tokens) :
    Owns env.toEnvironment referenced other [] later after progress :=
  ⟨owns.account.trans (congrArg some total), same, fun _ member => (List.not_mem_nil member).elim⟩

/-- A new dentry is added to the holdings, or refused without a change. -/
theorem newDentry_owns {dentry : Dentry} {next : Bool → MountProg α}
    {post : α → Mounted L → Option (Multiset Token) → Prop}
    (owns : Owns env.toEnvironment referenced held pinned holdings state progress) (fresh : dentry.address ∉ holdings.live)
    (refused : ∀ after, Owns env.toEnvironment referenced held [] holdings after progress →
      (next false).Ensures (handleMount env helpers) mountLedger.account post after progress)
    (allocated : ∀ after, Owns env.toEnvironment referenced held [] (holdings.addDentry dentry.address) after progress →
      (next true).Ensures (handleMount env helpers) mountLedger.account post after progress) :
    (vfs (.newDentryPrivateData dentry) >>= next).Ensures (handleMount env helpers) mountLedger.account post state
      progress := by
  refine vfsShift_ensures (.newDentryPrivateData dentry) rfl (fun _ => rfl) owns ?_
  intro reply after answered
  have before := owns.holdings
  obtain ⟨same, rfl⟩ := Prod.mk.inj (Option.some.inj answered)
  cases reply with
  | false =>
      apply refused
      rw [same]
      exact owns.shift before rfl
  | true =>
      apply allocated
      rw [same]
      have total : held + (holdings.addDentry dentry.address).tokens = held + holdings.tokens := by
        rw [Holdings.tokens_addDentry fresh]
      refine owns.shift ?_ total.symm
      rw [← before]
      rfl

/-- The private data take over the references on the path. -/
theorem setLowerPath_owns {dentry : Dentry} {path : LowerPath} {next : Unit → MountProg α}
    {post : α → Mounted L → Option (Multiset Token) → Prop}
    (owns : Owns env.toEnvironment referenced (held + pathTokens path) pinned holdings state progress)
    (unset : holdings.lowerPath dentry.address = .unset)
    (continues : ∀ after, Owns env.toEnvironment referenced held [] (holdings.setPath dentry.address path) after progress →
      (next ()).Ensures (handleMount env helpers) mountLedger.account post after progress) :
    (vfs (.setLowerPath dentry path) >>= next).Ensures (handleMount env helpers) mountLedger.account post state
      progress := by
  refine vfsShift_ensures (.setLowerPath dentry path) rfl (fun _ => rfl) owns ?_
  intro reply after answered
  have before := owns.holdings
  simp only [handleMount] at answered
  split at answered
  · rename_i live
    obtain ⟨_, rfl⟩ := Prod.mk.inj (Option.some.inj answered)
    have member : dentry.address ∈ holdings.live := by
      rw [← before]
      exact live
    have exchanged : _ = pathTokens path + holdings.tokens := Holdings.tokens_setPath member
    rw [unset, pathTokens_unset, zero_add] at exchanged
    apply continues
    refine owns.shift ?_ (by rw [exchanged, add_assoc])
    rw [← before]
    rfl
  · cases answered

/-- The references on the path come back from the private data. -/
theorem takeLowerPath_owns {dentry : Dentry} {next : LowerPath → MountProg α}
    {post : α → Mounted L → Option (Multiset Token) → Prop}
    (owns : Owns env.toEnvironment referenced held pinned holdings state progress)
    (continues : ∀ after, Owns env.toEnvironment referenced (pathTokens (holdings.lowerPath dentry.address) + held) []
        (holdings.setPath dentry.address .unset) after progress →
      (next (holdings.lowerPath dentry.address)).Ensures (handleMount env helpers) mountLedger.account post after
        progress) :
    (vfs (.takeLowerPath dentry) >>= next).Ensures (handleMount env helpers) mountLedger.account post state progress := by
  refine vfsShift_ensures (.takeLowerPath dentry) rfl (fun _ => rfl) owns ?_
  intro reply after answered
  have before := owns.holdings
  simp only [handleMount] at answered
  split at answered
  · rename_i live
    obtain ⟨rfl, rfl⟩ := Prod.mk.inj (Option.some.inj answered)
    have member : dentry.address ∈ holdings.live := by
      rw [← before]
      exact live
    have exchanged : _ = pathTokens .unset + holdings.tokens := Holdings.tokens_setPath member
    rw [pathTokens_unset, zero_add] at exchanged
    have shown : state.lowerPath dentry.address = holdings.lowerPath dentry.address := by
      rw [← before]
      rfl
    rw [shown]
    apply continues
    refine owns.shift ?_ (by rw [← exchanged, add_left_comm, add_assoc])
    rw [← before]
    rfl
  · cases answered

/-- The private data of a dentry without a path is freed with no token. -/
theorem freeDentry_owns {dentry : Dentry} {next : Unit → MountProg α}
    {post : α → Mounted L → Option (Multiset Token) → Prop}
    (owns : Owns env.toEnvironment referenced held pinned holdings state progress)
    (unset : holdings.lowerPath dentry.address = .unset)
    (continues : ∀ after, Owns env.toEnvironment referenced held [] (holdings.removeDentry dentry.address) after progress →
      (next ()).Ensures (handleMount env helpers) mountLedger.account post after progress) :
    (vfs (.freeDentryPrivateData dentry) >>= next).Ensures (handleMount env helpers) mountLedger.account post state
      progress := by
  refine vfsShift_ensures (.freeDentryPrivateData dentry) rfl (fun _ => rfl) owns ?_
  intro reply after answered
  obtain ⟨_, rfl⟩ := Prod.mk.inj (Option.some.inj answered)
  have before := owns.holdings
  apply continues
  refine owns.shift ?_ (by rw [Holdings.tokens_removeDentry unset])
  rw [← before]
  rfl

/-- `trfs_put_reset_lower_path` gives the references of a dentry back. -/
theorem putResetPath_owns (pinning : VfsPinning env referenced) {dentry : Dentry} {next : Unit → MountProg α}
    {post : α → Mounted L → Option (Multiset Token) → Prop}
    (owns : Owns env.toEnvironment referenced held pinned holdings state progress)
    (continues : ∀ after progress,
      Owns env.toEnvironment referenced held [] (holdings.setPath dentry.address .unset) after progress →
      (next ()).Ensures (handleMount env helpers) mountLedger.account post after progress) :
    (trfsPutResetPath dentry >>= next).Ensures (handleMount env helpers) mountLedger.account post state progress := by
  rw [Program.ensures_bind]
  apply takeLowerPath_owns owns
  intro state owns
  apply kernel_ensures
  exact putPath_owns pinning.toPinning owns rfl continues

end

end Trfs.Kernel
