import Trfs.Proof.Kernel.Balanced
import Trfs.Proof.Kernel.TreeLookup

namespace Trfs.Kernel
open Bytes Dentries Effect

section
variable {W : Type} {env : TreeEnvironment W} {helpers : Helpers} {mount next : TreeMount W}

/-- The trees of a mount correspond. -/
def TreeMount.settled (env : TreeEnvironment W) (mount : TreeMount W) : Prop :=
  Settled env.root mount.used mount.mounted.picture

/-- A lookup keeps the mount settled. -/
theorem lookup_settled {dentry : Dentry} {parent : Nat} {name : CString} (settled : mount.settled env)
    (promised : (TreeAction.lookup dentry parent name).promised env mount)
    (stays : (TreeAction.lookup dentry parent name).staysBelow env mount)
    (alike : (TreeAction.lookup dentry parent name).spelledAlike env mount)
    (stepped : treeStep env helpers (.lookup dentry parent name) mount = some next) : next.settled env := by
  obtain ⟨fresh, inside, positive, free⟩ := promised
  obtain ⟨done, ran, rfl⟩ := Option.map_eq_some_iff.mp stepped
  have unused : dentry.address ∉ mount.used := fun member => fresh (settled.corresponds.live _ member)
  have apart : parent ≠ dentry.address := by
    rintro rfl
    exact unused inside
  have looking := settled.looking unused inside positive free
  have before : StaysBelow env parent name mount.mounted.picture := ⟨stays, alike⟩
  have below : StaysBelow env parent name (mount.mounted.picture.allocates dentry.address parent name) :=
    before.elsewhere Picture.allocates_elsewhere apart
  have looked : (trfsLookup dentry).Ensures (handleTree env helpers) blind _
      (mount.mounted.allocate dentry.address parent name) () := trfsLookup_settles looking below
  exact looked.exec ran

/-- A target that a call left without an inode is forgotten. -/
theorem Midway.forget {target : Nat} (midway : Midway env.root mount.used target mount.mounted.picture)
    (different : target ≠ env.root) : (mount.forget env target).settled env := by
  unfold TreeMount.forget
  split
  · rename_i forgotten
    exact ⟨midway.corresponds.erase different forgotten.1 forgotten.2, midway.waiting⟩
  · rename_i kept
    refine ⟨midway.corresponds, midway.waiting.of_erase ?_⟩
    intro negative
    apply kept
    constructor
    · by_contra hashed
      exact (midway.corresponds.hashed target (Bool.eq_false_of_not_eq_true hashed)).2 negative
    · intro child member other same
      apply midway.corresponds.parents child member other
      rw [← negative, ← same]
      rfl

/-- A rename moves the lower dentry first, and `d_move` then moves the other one. -/
theorem trfsRename_midway (oldDir newDir : Inode) {oldDentry newDentry : Dentry} (settled : mount.settled env)
    (member : newDentry.address ∈ mount.used) (different : newDentry.address ≠ env.root)
    (renames : (TracedOp.rename oldDir oldDentry newDir newDentry).renamesOther env.root mount) :
    (trfsRename oldDir oldDentry newDir newDentry).Ensures (treeCall env helpers) blind (fun outcome after _ =>
      Midway env.root mount.used newDentry.address
        (after.finish (.rename oldDir oldDentry newDir newDentry) outcome.err).picture) mount.mounted () := by
  obtain ⟨first, oldRoot, has, other⟩ := renames
  have distinct := settled.corresponds.distinct settled.waiting first member has other
  apply Program.Ensures.mono _ (trfsRename_moves oldDir newDir distinct)
  intro outcome after _ moved
  by_cases succeeded : outcome.err = 0
  · rw [if_pos succeeded] at moved
    have renamed : (after.finish (.rename oldDir oldDentry newDir newDentry) outcome.err).picture =
        mount.mounted.picture.renames oldDentry.address newDentry.address := by
      rw [Mounted.finish, if_pos succeeded]
      change { after.picture with
        upper := after.picture.upper.move oldDentry.address newDentry.address
        unhashed := Function.update (Function.update after.picture.unhashed oldDentry.address false)
          newDentry.address true } = _
      rw [moved]
      rfl
    rw [renamed]
    have waiting : Waiting mount.used (mount.mounted.picture.renames oldDentry.address newDentry.address) :=
      settled.waiting
    exact ⟨settled.corresponds.renames first member oldRoot different has, waiting.erase⟩
  · rw [if_neg succeeded] at moved
    have unchanged : after.finish (.rename oldDir oldDentry newDir newDentry) outcome.err = after :=
      if_neg succeeded
    rw [unchanged, moved]
    exact ⟨settled.corresponds, settled.waiting.erase⟩

/-- A call makes, removes or replaces at most its target. -/
theorem call_midway {op : TracedOp} {target : Nat} (settled : mount.settled env) (member : target ∈ mount.used)
    (goal : op.target = some target) (different : target ≠ env.root) (renames : op.renamesOther env.root mount) :
    op.program.Ensures (treeCall env helpers) blind (fun outcome after _ =>
      Midway env.root mount.used target (after.finish op outcome.err).picture) mount.mounted () := by
  have midway : Midway env.root mount.used target mount.mounted.picture :=
    ⟨settled.corresponds, settled.waiting.erase⟩
  cases op with
  | create dir dentry mode wantExcl =>
      obtain rfl := Option.some.inj goal
      exact trfsCreate_midway dir mode wantExcl midway member
  | link oldDentry dir newDentry =>
      obtain rfl := Option.some.inj goal
      exact trfsLink_midway oldDentry dir midway member
  | unlink dir dentry => exact trfsUnlink_midway dir dentry midway
  | symlink dir dentry symname =>
      obtain rfl := Option.some.inj goal
      exact trfsSymlink_midway dir symname midway member
  | mkdir dir dentry mode =>
      obtain rfl := Option.some.inj goal
      exact trfsMkdir_midway dir mode midway member
  | rmdir dir dentry => exact trfsRmdir_midway dir dentry midway
  | mknod dir dentry mode dev =>
      obtain rfl := Option.some.inj goal
      exact trfsMknod_midway dir mode dev midway member
  | rename oldDir oldDentry newDir newDentry =>
      obtain rfl := Option.some.inj goal
      exact trfsRename_midway oldDir newDir settled member different renames
  | «open» => cases goal
  | read => cases goal
  | write => cases goal
  | release => cases goal

/-- An operation keeps the mount settled. -/
theorem call_settled {op : TracedOp} (settled : mount.settled env)
    (promised : (TreeAction.call op).promised env mount)
    (stepped : treeStep env helpers (.call op) mount = some next) : next.settled env := by
  obtain ⟨⟨target, member, goal, different⟩, renames⟩ := promised
  obtain ⟨done, ran, rfl⟩ := Option.map_eq_some_iff.mp stepped
  have called : (kernel op.program).Ensures (handleTree env helpers) blind _ mount.mounted () :=
    kernel_blind.mpr (call_midway settled member goal different renames)
  have midway := called.exec ran
  dsimp only
  rw [goal]
  exact Midway.forget midway different

/-- Pruning a dentry keeps the mount settled. -/
theorem prune_settled {dentry : Nat} (settled : mount.settled env)
    (promised : (TreeAction.prune dentry).promised env mount)
    (stepped : treeStep env helpers (.prune dentry) mount = some next) : next.settled env := by
  simp only [treeStep] at stepped
  split at stepped
  · rename_i childless
    obtain rfl := Option.some.inj stepped
    have dropped : Corresponds env.root mount.used (mount.mounted.picture.drops dentry) :=
      settled.corresponds.drops
    have waiting : Waiting mount.used (mount.mounted.picture.drops dentry) := settled.waiting
    exact ⟨dropped.erase promised (Function.update_self _ _ _) childless, waiting.erase⟩
  · obtain rfl := Option.some.inj stepped
    exact settled

/-- `d_release` of a dentry that is not in use. -/
theorem trfsDentryRelease_settles {dentry : Dentry} {used : Finset Nat} {state : Mounted (Trees W)}
    (settled : Settled env.root used state.picture) (unused : dentry.address ∉ used)
    (negative : state.picture.inode dentry.address = .null) (dropped : state.picture.unhashed dentry.address = true) :
    (trfsDentryRelease dentry).Ensures (handleTree env helpers) blind
      (fun _ after _ => Settled env.root used after.picture) state () := by
  have same := Elsewhere.refl negative dropped
  have released : Elsewhere dentry.address state.picture
      { state.picture.holds dentry.address .unset with live := state.picture.live.erase dentry.address } :=
    { same with
      live := fun other different => by simp [different]
      lowerPath := fun _ different => Function.update_of_ne different _ _ }
  change (trfsPutResetPath dentry >>= fun _ => vfs (.freeDentryPrivateData dentry)).Ensures _ _ _ _ _
  apply takeLowerPath_ensures
  intro path first one
  apply kernelStill_ensures (program_still (.lower (.pathPut path)) trivial)
  intro _ second two _ after freed
  obtain ⟨reached, handled, rfl, _⟩ := handleTree_eq_some freed
  obtain ⟨_, rfl⟩ := Prod.mk.inj (Option.some.inj handled)
  change Settled env.root used { second.picture with live := second.picture.live.erase dentry.address }
  rw [two, one]
  exact settled.elsewhere unused released

/-- Releasing a dentry keeps the mount settled. -/
theorem release_settled {dentry : Dentry} (settled : mount.settled env)
    (promised : (TreeAction.release dentry).promised env mount)
    (stepped : treeStep env helpers (.release dentry) mount = some next) : next.settled env := by
  obtain ⟨done, ran, rfl⟩ := Option.map_eq_some_iff.mp stepped
  have killed : Elsewhere dentry.address mount.mounted.picture (mount.mounted.kill dentry.address).picture :=
    Picture.kills_elsewhere
  have released : (trfsDentryRelease dentry).Ensures (handleTree env helpers) blind _
      (mount.mounted.kill dentry.address) () :=
    trfsDentryRelease_settles (settled.elsewhere promised killed) promised killed.negative killed.dropped
  exact released.exec ran

/-- Each action keeps the correspondence when the VFS keeps its promises and no lookup crosses a mount point. -/
theorem treeStep_settled (action : TreeAction) (settled : mount.settled env)
    (allowed : action.promised env mount ∧ action.staysBelow env mount ∧ action.spelledAlike env mount)
    (stepped : treeStep env helpers action mount = some next) : next.settled env := by
  cases action with
  | lookup dentry parent name => exact lookup_settled settled allowed.1 allowed.2.1 allowed.2.2 stepped
  | call op => exact call_settled settled allowed.1 stepped
  | prune dentry => exact prune_settled settled allowed.1 stepped
  | release dentry => exact release_settled settled allowed.1 stepped

/-- A fresh mount is settled. -/
theorem TreeMount.Fresh.settled (fresh : mount.Fresh env) : mount.settled env := by
  have root : ∀ dentry ∈ mount.mounted.picture.live, dentry = env.root := by
    intro dentry live
    change dentry ∈ mount.mounted.live at live
    rw [fresh.live] at live
    exact Finset.mem_singleton.mp live
  have used : ∀ dentry ∈ mount.used, dentry = env.root := by
    intro dentry member
    rw [fresh.used] at member
    exact Finset.mem_singleton.mp member
  have live : env.root ∈ mount.mounted.live := by
    rw [fresh.live]
    exact Finset.mem_singleton_self _
  have mirrors : Mirrors env.root mount.mounted.picture.upper mount.mounted.picture.lower
      mount.mounted.picture.below mount.used := by
    rw [fresh.used]
    exact Mirrors.start
  refine ⟨⟨?_, ?_, mirrors, ?_, ?_, ?_⟩, ?_⟩
  · intro dentry member
    rw [used dentry member]
    exact live
  · intro dentry hashed
    rw [fresh.hashed dentry hashed]
    exact ⟨mirrors.top, fresh.positive⟩
  · exact fun dentry member other => absurd (used dentry member) other
  · intro dentry live _
    rw [root dentry live]
    exact ⟨fresh.below, fresh.owner⟩
  · intro dentry live other also _ _ _
    rw [root dentry live, root other also]
  · intro dentry member negative
    rw [used dentry member] at negative
    exact absurd negative fresh.positive

/-- A settled mount corresponds. -/
theorem TreeMount.settled_corresponding (settled : mount.settled env) : mount.corresponding env := by
  intro dentry hashed different
  obtain ⟨member, has⟩ := settled.corresponds.hashed dentry hashed
  have live := settled.corresponds.live dentry member
  have mirrors := settled.corresponds.mirrors
  exact ⟨live, ⟨mirrors.name dentry member different, mirrors.parent dentry member different⟩,
    fun _ => (settled.corresponds.owners dentry live has).2⟩

/-- Every run that crosses no mount point and looks up names as the lower filesystem spells them reaches only states
where both trees correspond. -/
theorem run_corresponding {actions : List TreeAction} {first last : TreeMount W} (fresh : first.Fresh env)
    (obeys : ObeyActions (treeStep env helpers)
      (fun mount action => action.promised env mount ∧ action.staysBelow env mount ∧ action.spelledAlike env mount)
      actions first)
    (ran : runActions (treeStep env helpers) actions first = some last) : last.corresponding env := by
  have keeps := fun (before : TreeMount W) action (after : TreeMount W) (settled : before.settled env) allowed
      (stepped : treeStep env helpers action before = some after) => treeStep_settled action settled allowed stepped
  have settled : last.settled env := runActions_keeps keeps fresh.settled obeys ran
  exact TreeMount.settled_corresponding settled

end

/-- A VFS that finds no name below and allocates a lower dentry for it. -/
def emptyVfs : (c : VfsCall) → c.Reply
  | .vfsPathLookup .. => .error (errorOf ENOENT)
  | .dAlloc _ name => some ⟨10 + name.length⟩
  | c => steadyVfs c

/-- A lower filesystem that makes every file, and a directory 10 with nothing mounted on its names. -/
def emptyTree : TreeEnvironment Unit where
  toEnvironment :=
    { steady 0 0 with iget5Locked := fun inode _ => (some (⟨inode.address + 1⟩, true), ()) }
  vfs c _ := (emptyVfs c, ())
  newInode _ := ⟨100⟩
  isDirectory _ := false
  superBlock _ := 0
  mountedOn _ _ := none
  spelled _ name := name
  root := 1

def nameDraft : CString := ⟨ascii "draft", by decide⟩
def nameReport : CString := ⟨ascii "report", by decide⟩

/-- The root of the mount over the lower dentry 10. The file 2 is in another lower directory. -/
def rootOnly : TreeMount Unit where
  mounted :=
    { machine := mounted
        { lower :=
            { world := ()
              upper := ⟨fun _ => nameReport, id⟩
              lower := ⟨fun _ => nameReport, fun _ => 9⟩
              inode := fun address => if address = 10 ∨ address = 2 then ⟨address⟩ else .null
              deleted := fun _ => false }
          upper :=
            { freshMount.visible.upper with
              lowerInode := fun _ => ⟨10⟩
              inode := fun address => if address = 1 then ⟨1⟩ else .null
              unhashed := fun address => decide (address ≠ 1)
              lowerPath := fun _ => ⟨⟨10⟩, 0⟩ }
          lowerSb := 0 }
        dentryA.path
      live := {1}
      opened := ∅ }
  used := {1}

/-- The mount with the root alone is fresh. -/
theorem rootOnly_fresh (env : TreeEnvironment Unit) (root : env.root = 1) : rootOnly.Fresh env where
  used := by
    rw [root]
    rfl
  live := by
    rw [root]
    rfl
  hashed dentry hashed := by
    rw [root]
    exact not_not.mp (of_decide_eq_false hashed)
  positive := by
    rw [root]
    decide
  below := by
    rw [root]
    decide
  owner := by
    rw [root]
    rfl

/-- A file is made and renamed, and the name that is left is released. -/
def renameRun : List TreeAction :=
  [.lookup dentryB 1 nameDraft, .call (.create ⟨1⟩ dentryB 0x1a4 false), .lookup dentryAB 1 nameReport,
    .call (.rename ⟨1⟩ dentryB ⟨1⟩ dentryAB), .release dentryAB]

/-- The run with a rename ends corresponding. -/
theorem run_corresponding_renameRun : ∃ last,
    runActions (treeStep emptyTree reliable) renameRun rootOnly = some last ∧
    last.mounted.machine.visible.upper.unhashed dentryB.address = false ∧
    last.mounted.trees.upper.name dentryB.address = nameReport ∧ last.corresponding emptyTree := by
  have ends : (runActions (treeStep emptyTree reliable) renameRun rootOnly).map (fun last =>
      (last.mounted.machine.visible.upper.unhashed dentryB.address,
        last.mounted.trees.upper.name dentryB.address)) = some (false, nameReport) := by decide +kernel
  obtain ⟨last, ran, shows⟩ := Option.map_eq_some_iff.mp ends
  obtain ⟨hashed, named⟩ := Prod.mk.inj shows
  have obeys : ObeyActions (treeStep emptyTree reliable)
      (fun mount action => action.promised emptyTree mount ∧ action.staysBelow emptyTree mount ∧
        action.spelledAlike emptyTree mount) renameRun rootOnly := by decide +kernel
  exact ⟨last, ran, hashed, named, run_corresponding (rootOnly_fresh emptyTree rfl) obeys ran⟩

/-- A lookup that hashes a dentry over a lower one of another name ends where the trees do not correspond. -/
theorem lookup_apart {env : TreeEnvironment Unit} {below : CString} (root : env.root = 1) (other : below ≠ nameDraft)
    (ends : (runActions (treeStep env reliable) [.lookup dentryB 1 nameDraft] rootOnly).map (fun last =>
      (last.mounted.machine.visible.upper.unhashed 2, last.mounted.trees.upper.name 2,
        last.mounted.trees.lower.name (last.mounted.lowerPath 2).dentry.address)) = some (false, nameDraft, below)) :
    ∃ last, runActions (treeStep env reliable) [.lookup dentryB 1 nameDraft] rootOnly = some last ∧
      last.mounted.trees.upper.name 2 = nameDraft ∧
      last.mounted.trees.lower.name (last.mounted.lowerPath 2).dentry.address = below ∧ ¬ last.corresponding env := by
  obtain ⟨last, ran, shows⟩ := Option.map_eq_some_iff.mp ends
  obtain ⟨hashed, names⟩ := Prod.mk.inj shows
  obtain ⟨upper, lower⟩ := Prod.mk.inj names
  refine ⟨last, ran, upper, lower, ?_⟩
  intro corresponding
  have different : 2 ≠ env.root := by
    rw [root]
    decide
  obtain ⟨_, ⟨named, _⟩, _⟩ := corresponding 2 hashed different
  rw [upper, lower] at named
  exact other named

/-- The file 2 of the lower filesystem is mounted on every name in the lower directory. -/
def bindMount : TreeEnvironment Unit :=
  { emptyTree with
    vfs := fun c _ => (steadyVfs c, ())
    mountedOn := fun _ _ => some ⟨⟨2⟩, 1⟩ }

/-- Below a name with a bind mount on it the lookup takes the lower dentry of another name. -/
theorem bindMount_apart : ∃ last, rootOnly.Fresh bindMount ∧
    ObeyActions (treeStep bindMount reliable) (fun mount action => action.promised bindMount mount)
      [.lookup dentryB 1 nameDraft] rootOnly ∧
    runActions (treeStep bindMount reliable) [.lookup dentryB 1 nameDraft] rootOnly = some last ∧
    last.mounted.trees.upper.name 2 = nameDraft ∧
    last.mounted.trees.lower.name (last.mounted.lowerPath 2).dentry.address = nameReport ∧
    ¬ last.corresponding bindMount := by
  have ends : (runActions (treeStep bindMount reliable) [.lookup dentryB 1 nameDraft] rootOnly).map (fun last =>
      (last.mounted.machine.visible.upper.unhashed 2, last.mounted.trees.upper.name 2,
        last.mounted.trees.lower.name (last.mounted.lowerPath 2).dentry.address)) =
          some (false, nameDraft, nameReport) := by decide +kernel
  obtain ⟨last, ran⟩ := lookup_apart rfl (by decide +kernel) ends
  exact ⟨last, rootOnly_fresh bindMount rfl, by decide +kernel, ran⟩

/-- A lower filesystem that has every name in the same spelling. -/
def foldedNames : TreeEnvironment Unit :=
  { emptyTree with
    vfs := fun c _ => (steadyVfs c, ())
    spelled := fun _ _ => nameReport }

/-- Below a name that the lower filesystem spells otherwise the lookup takes the lower dentry of that spelling. -/
theorem foldedNames_apart : ∃ last,
    ObeyActions (treeStep foldedNames reliable) (fun mount action =>
      action.promised foldedNames mount ∧ action.staysBelow foldedNames mount) [.lookup dentryB 1 nameDraft] rootOnly ∧
    runActions (treeStep foldedNames reliable) [.lookup dentryB 1 nameDraft] rootOnly = some last ∧
    last.mounted.trees.upper.name 2 = nameDraft ∧
    last.mounted.trees.lower.name (last.mounted.lowerPath 2).dentry.address = nameReport ∧
    ¬ last.corresponding foldedNames := by
  have ends : (runActions (treeStep foldedNames reliable) [.lookup dentryB 1 nameDraft] rootOnly).map (fun last =>
      (last.mounted.machine.visible.upper.unhashed 2, last.mounted.trees.upper.name 2,
        last.mounted.trees.lower.name (last.mounted.lowerPath 2).dentry.address)) =
          some (false, nameDraft, nameReport) := by decide +kernel
  obtain ⟨last, ran⟩ := lookup_apart rfl (by decide +kernel) ends
  exact ⟨last, by decide +kernel, ran⟩

end Trfs.Kernel
