import Trfs.Proof.Kernel.Looking

namespace Trfs.Kernel
open Bytes Dentries Effect

/-- The calls of a lookup that leave the dentries, their inodes and their places as they are. -/
def VfsStill : VfsCall → Prop
  | .newDentryPrivateData _ | .setLowerPath .. | .takeLowerPath _ | .freeDentryPrivateData _ | .dSpliceAlias ..
  | .vfsPathLookup .. | .dAlloc .. => False
  | _ => True

section
variable {W : Type} {env : TreeEnvironment W} {helpers : Helpers} {state after : Mounted (Trees W)} {α β : Type}
  {post : α → Mounted (Trees W) → Unit → Prop}

/-- A still call of the VFS answers from the tree and keeps the picture. -/
theorem vfsStill_answered {c : VfsCall} (still : VfsStill c) {reply : c.Reply}
    (answered : handleTree env helpers (.vfs c) state = some (reply, after)) :
    reply = (treeVfs env c state.trees).1 ∧ after.picture = state.picture := by
  obtain ⟨reached, handled, rfl, _⟩ := handleTree_eq_some answered
  cases c
  case newDentryPrivateData | setLowerPath | takeLowerPath | freeDentryPrivateData | dSpliceAlias | vfsPathLookup |
    dAlloc => exact still.elim
  all_goals
    obtain ⟨rfl, rfl⟩ := Prod.mk.inj (Option.some.inj handled)
    exact ⟨rfl, rfl⟩

/-- A still call gives its answer and goes on from the same picture. -/
theorem vfsStill_ensures {c : VfsCall} {next : c.Reply → MountProg α} (still : VfsStill c)
    (continues : ∀ after, after.picture = state.picture →
      (next (treeVfs env c state.trees).1).Ensures (handleTree env helpers) blind post after ()) :
    (vfs c >>= next).Ensures (handleTree env helpers) blind post state () := by
  intro reply after answered
  obtain ⟨rfl, same⟩ := vfsStill_answered still answered
  exact continues after same

/-- A part from the other files runs on its own. -/
theorem kernelPart_ensures {program : Prog β} {next : β → MountProg α}
    (ensures : program.Ensures (treeCall env helpers) blind
      (fun value reached _ => (next value).Ensures (handleTree env helpers) blind post reached ()) state ()) :
    (kernel program >>= next).Ensures (handleTree env helpers) blind post state () := by
  rw [Program.ensures_bind]
  exact kernel_blind.mpr ensures

/-- A still program of a request keeps the picture. -/
theorem kernelStill_ensures {program : Prog β} {next : β → MountProg α} (still : program.Calls Still)
    (continues : ∀ value after, after.picture = state.picture →
      (next value).Ensures (handleTree env helpers) blind post after ()) :
    (kernel program >>= next).Ensures (handleTree env helpers) blind post state () := by
  apply kernelPart_ensures
  rw [← program.bind_pure]
  apply still_ensures still
  intro value after same
  exact continues value after same

/-- What the lookup of a name in a directory finds. -/
structure Finds (env : TreeEnvironment W) (before after : Picture) (dir : Nat) (name : CString) (path : LowerPath) :
    Prop where
  placed : after = before ∨ (∀ dentry ∈ before.live, before.below dentry ≠ path.dentry.address) ∧
    ∃ lowerInode, after = before.places path.dentry.address dir name lowerInode
  directory : env.isDirectory (after.lowerInode path.dentry.address) → ∀ dentry ∈ after.live,
    after.lowerInode (after.below dentry) = after.lowerInode path.dentry.address →
      after.below dentry = path.dentry.address
  child : after.lower.name path.dentry.address = name → after.lower.parent path.dentry.address = dir →
    path.dentry.address ≠ after.below env.root
  here : env.mountedOn dir name = some path ∧ after = before ∨
    after.lower.name path.dentry.address = name ∧ after.lower.parent path.dentry.address = dir

/-- A lower dentry that no live dentry refers to lies below none. -/
theorem below_ne (state : Mounted (Trees W)) {there : LowerDentry} (free : ¬ state.refersTo there) :
    ∀ dentry ∈ state.picture.live, state.picture.below dentry ≠ there.address := by
  intro dentry live same
  have dentries : (state.lowerPath dentry).dentry = there := congrArg LowerDentry.mk same
  exact free ⟨dentry, live, dentries⟩

/-- The dentries above a lower dentry that comes to its place. -/
theorem places_lowerInode {picture : Picture} {there dir : Nat} {name : CString} {lowerInode : LowerInode}
    (free : ∀ dentry ∈ picture.live, picture.below dentry ≠ there) :
    ∀ dentry ∈ picture.live, (picture.places there dir name lowerInode).lowerInode (picture.below dentry) =
      picture.lowerInode (picture.below dentry) :=
  fun dentry live => Function.update_of_ne (free dentry live) _ _

/-- What a lookup may find, in the pictures before and after it. -/
theorem mayFind_finds {dir : LowerDentry} {name : CString} {path : LowerPath}
    (may : mayFind env state after dir name path) (alike : env.spelled dir.address name = name)
    (sameLive : after.picture.live = state.picture.live)
    (paths : after.picture.lowerPath = state.picture.lowerPath)
    (placed : after.picture = state.picture ∨
      (∀ dentry ∈ state.picture.live, state.picture.below dentry ≠ path.dentry.address) ∧
        ∃ lowerInode, after.picture = state.picture.places path.dentry.address dir.address name lowerInode)
    (here : env.mountedOn dir.address name = some path ∧ after.picture = state.picture ∨
      after.trees.isNamed path.dentry dir name) :
    Finds env state.picture after.picture dir.address name path := by
  obtain ⟨_, directory, child, _⟩ := may
  refine ⟨placed, ?_, ?_, here⟩
  · intro isDirectory dentry live same
    rw [sameLive] at live
    have belows : after.picture.below dentry = state.picture.below dentry := by
      rw [Picture.below, paths, Picture.below]
    have before : after.picture.lowerInode (state.picture.below dentry) =
        state.picture.lowerInode (state.picture.below dentry) := by
      rcases placed with unchanged | ⟨free, lowerInode, changed⟩
      · rw [unchanged]
      · rw [changed]
        exact places_lowerInode free dentry live
    rw [belows, before] at same
    rw [belows]
    exact congrArg LowerDentry.address (directory isDirectory dentry live same)
  · intro named below same
    apply child ⟨named.trans alike.symm, below⟩
    rw [Picture.below, paths] at same
    exact congrArg LowerDentry.mk same

/-- A path that is found with nothing mounted on it is placed in the tree when it is new. -/
theorem settle_places {dir : LowerDentry} {mnt : Nat} {name : CString} {path : LowerPath}
    (fresh : env.mountedOn dir.address name = none ∧ ¬ state.refersTo path.dentry) :
    state.settle env (.vfs (.vfsPathLookup dir mnt name)) (.ok path) =
      state.setLower (state.trees.place path.dentry dir (env.spelled dir.address name)
        (env.newInode state.trees.world)) :=
  if_pos fresh

/-- Any other path leaves the state. -/
theorem settle_same {dir : LowerDentry} {mnt : Nat} {name : CString} {path : LowerPath}
    (known : ¬ (env.mountedOn dir.address name = none ∧ ¬ state.refersTo path.dentry)) :
    state.settle env (.vfs (.vfsPathLookup dir mnt name)) (.ok path) = state :=
  if_neg known

/-- A lower lookup finds a path as `Finds` says, or nothing. -/
theorem pathLookup_ensures {dir : LowerDentry} {mnt : Nat} {name : CString}
    {next : Except Errno LowerPath → MountProg α} (alike : env.spelled dir.address name = name)
    (found : ∀ path after, Finds env state.picture after.picture dir.address name path →
      (next (.ok path)).Ensures (handleTree env helpers) blind post after ())
    (missing : ∀ errno after, after.picture = state.picture →
      (next (.error errno)).Ensures (handleTree env helpers) blind post after ()) :
    (vfs (.vfsPathLookup dir mnt name) >>= next).Ensures (handleTree env helpers) blind post state () := by
  intro reply after answered
  obtain ⟨reached, handled, rfl, allowed⟩ := handleTree_eq_some answered
  obtain ⟨_, passed⟩ := Prod.mk.inj (Option.some.inj handled)
  cases reply with
  | error errno =>
      subst passed
      exact missing errno _ rfl
  | ok path =>
      have may := of_decide_eq_true allowed
      apply found path
      by_cases fresh : env.mountedOn dir.address name = none ∧ ¬ reached.refersTo path.dentry
      · rw [settle_places fresh, alike] at may ⊢
        subst passed
        apply mayFind_finds may alike rfl rfl
        · exact .inr ⟨below_ne state fresh.2, _, rfl⟩
        · exact .inr ⟨Function.update_self _ _ _, Function.update_self _ _ _⟩
      · rw [settle_same fresh] at may ⊢
        subst passed
        apply mayFind_finds may alike rfl rfl (.inl rfl)
        rcases may.2.2.2 with mounted | ⟨none, known⟩
        · exact .inl ⟨mounted, rfl⟩
        · have refers : state.refersTo path.dentry := by
            by_contra free
            exact fresh ⟨none, free⟩
          have named := (known refers).2
          rw [alike] at named
          exact .inr named

variable {dentry : Dentry}

/-- Private data are prepared or not there. -/
theorem newPrivateData_ensures {next : Bool → MountProg α}
    (allocated : ∀ after, after.picture = state.picture.prepares dentry.address →
      (next true).Ensures (handleTree env helpers) blind post after ())
    (failed : ∀ after, after.picture = state.picture →
      (next false).Ensures (handleTree env helpers) blind post after ()) :
    (vfs (.newDentryPrivateData dentry) >>= next).Ensures (handleTree env helpers) blind post state () := by
  intro reply after answered
  obtain ⟨reached, handled, rfl, _⟩ := handleTree_eq_some answered
  obtain ⟨given, passed⟩ := Prod.mk.inj (Option.some.inj handled)
  dsimp only at passed
  rw [given] at passed
  cases reply with
  | true =>
      rw [if_pos rfl] at passed
      subst passed
      exact allocated _ rfl
  | false =>
      rw [if_neg (by decide)] at passed
      subst passed
      exact failed _ rfl

/-- The lower path that is set is held. -/
theorem setLowerPath_ensures {path : LowerPath} {next : Unit → MountProg α}
    (continues : ∀ after, dentry.address ∈ state.picture.live →
      after.picture = state.picture.holds dentry.address path →
        (next ()).Ensures (handleTree env helpers) blind post after ()) :
    (vfs (.setLowerPath dentry path) >>= next).Ensures (handleTree env helpers) blind post state () := by
  intro reply after answered
  obtain ⟨reached, handled, rfl, _⟩ := handleTree_eq_some answered
  simp only [handleMount] at handled
  split at handled
  · rename_i live
    obtain ⟨_, rfl⟩ := Prod.mk.inj (Option.some.inj handled)
    exact continues _ live rfl
  · cases handled

/-- The lower path that is taken leaves none. -/
theorem takeLowerPath_ensures {next : LowerPath → MountProg α}
    (continues : ∀ path after, after.picture = state.picture.holds dentry.address .unset →
      (next path).Ensures (handleTree env helpers) blind post after ()) :
    (vfs (.takeLowerPath dentry) >>= next).Ensures (handleTree env helpers) blind post state () := by
  intro reply after answered
  obtain ⟨reached, handled, rfl, _⟩ := handleTree_eq_some answered
  simp only [handleMount] at handled
  split at handled
  · obtain ⟨_, rfl⟩ := Prod.mk.inj (Option.some.inj handled)
    exact continues _ _ rfl
  · cases handled

/-- A new lower dentry is one that nobody refers to. -/
theorem dAlloc_ensures {dir : LowerDentry} {name : CString} {next : Option LowerDentry → MountProg α}
    (allocated : ∀ there after, (∀ entry ∈ state.picture.live, state.picture.below entry ≠ there.address) →
      after.picture = state.picture.places there.address dir.address name .null →
        (next (some there)).Ensures (handleTree env helpers) blind post after ())
    (failed : ∀ after, after.picture = state.picture →
      (next none).Ensures (handleTree env helpers) blind post after ()) :
    (vfs (.dAlloc dir name) >>= next).Ensures (handleTree env helpers) blind post state () := by
  intro reply after answered
  obtain ⟨reached, handled, rfl, allowed⟩ := handleTree_eq_some answered
  obtain ⟨given, passed⟩ := Prod.mk.inj (Option.some.inj handled)
  simp only [treeEnv, treeVfs] at given passed
  rw [given] at passed
  cases reply with
  | none =>
      subst passed
      exact failed _ rfl
  | some there =>
      subst passed
      exact allocated there _ (below_ne state (of_decide_eq_true allowed)) rfl

/-- `d_lookup` finds the negative dentry of the name. -/
theorem dLookup_ensures {dir : LowerDentry} {name : CString} {next : Option LowerDentry → MountProg α}
    (alike : env.spelled dir.address name = name)
    (found : ∀ there after, after.picture = state.picture → there.address ≠ state.picture.below env.root →
      state.picture.lower.name there.address = name → state.picture.lower.parent there.address = dir.address →
      state.picture.lowerInode there.address = .null →
        (next (some there)).Ensures (handleTree env helpers) blind post after ())
    (missing : ∀ after, after.picture = state.picture →
      (next none).Ensures (handleTree env helpers) blind post after ()) :
    (vfs (.dLookup dir name) >>= next).Ensures (handleTree env helpers) blind post state () := by
  intro reply after answered
  obtain ⟨_, same⟩ := vfsStill_answered (c := .dLookup dir name) trivial answered
  obtain ⟨_, _, _, allowed⟩ := handleTree_eq_some answered
  cases reply with
  | none => exact missing after same
  | some there =>
      obtain ⟨notRoot, _, ⟨named, placed⟩, negative⟩ := of_decide_eq_true allowed
      have apart : there.address ≠ state.picture.below env.root := fun same => notRoot (congrArg LowerDentry.mk same)
      exact found there after same apart (named.trans alike) placed negative

/-- `d_splice_alias` gives the dentry the inode, moves the dentry of a directory to its place, or fails. -/
theorem spliceAlias_ensures {inode : Inode} {next : Spliced → MountProg α}
    (null : ∀ after, after.picture = state.picture.instantiates dentry.address inode →
      (next .null).Ensures (handleTree env helpers) blind post after ())
    (moved : ∀ other after, other.address ∈ state.picture.live → state.picture.inode other.address = inode →
      env.isDirectory (state.picture.owner inode) →
      after.picture = state.picture.aliases other.address dentry.address →
        (next (.alias other)).Ensures (handleTree env helpers) blind post after ())
    (failed : ∀ errno after, after.picture = state.picture →
      (next (.error errno)).Ensures (handleTree env helpers) blind post after ()) :
    (vfs (.dSpliceAlias inode dentry) >>= next).Ensures (handleTree env helpers) blind post state () := by
  intro reply after answered
  obtain ⟨reached, handled, rfl, allowed⟩ := handleTree_eq_some answered
  obtain ⟨given, passed⟩ := Prod.mk.inj (Option.some.inj handled)
  rw [given] at passed
  rcases reply with _ | other | errno
  · subst passed
    exact null _ rfl
  · subst passed
    obtain ⟨live, _, same, directory⟩ := of_decide_eq_true allowed
    exact moved other _ live same directory rfl
  · subst passed
    exact failed errno _ rfl

/-- The lower superblock is that of the picture. -/
theorem lowerSuper_ensures {next : Nat → Prog α} (continues : ∀ after, after.picture = state.picture →
      (next state.picture.lowerSb).Ensures (treeCall env helpers) blind post after ()) :
    (upper .lowerSuper >>= next).Ensures (treeCall env helpers) blind post state () := by
  intro reply after answered
  have same : after.picture = state.picture := still_answered (c := .upper .lowerSuper) trivial answered
  obtain ⟨owned, _⟩ := treeCall_eq_some answered
  obtain ⟨rfl, _⟩ := Prod.mk.inj (Option.some.inj owned)
  exact continues after same

end

end Trfs.Kernel
