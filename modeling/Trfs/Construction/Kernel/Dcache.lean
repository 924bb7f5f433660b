/-
This file gives the calls their effect on the dentries of the mount and on those of the lower filesystem.
-/

import Trfs.Construction.Kernel.Mounted
import Trfs.Library.Dentries

namespace Trfs.Kernel
open Bytes Dentries Effect

/-- What the dentry caches cannot foresee: the answers to the calls and the inode that a lower name has or gets.
The directories, the superblocks, the mounts over the lower tree, the root of this mount and the spelling under which
the lower filesystem has a name in a directory stay as they are. One that folds case has a name under another one. -/
structure TreeEnvironment (W : Type) extends VfsEnvironment W where
  newInode : W → LowerInode
  isDirectory : LowerInode → Bool
  superBlock : LowerInode → Nat
  mountedOn : Nat → CString → Option LowerPath
  spelled : Nat → CString → CString
  root : Nat

/-- The dentries of the mount and of the lower filesystem by address. A deleted one is not found by its name. -/
structure Trees (W : Type) where
  world : W
  upper : Places Nat CString
  lower : Places Nat CString
  inode : Nat → LowerInode
  deleted : Nat → Bool

section
variable {W : Type}

def Trees.setInode (trees : Trees W) (dentry : LowerDentry) (inode : LowerInode) : Trees W :=
  { trees with inode := Function.update trees.inode dentry.address inode }

/-- A new dentry of the lower filesystem. -/
def Trees.place (trees : Trees W) (dentry dir : LowerDentry) (name : CString) (inode : LowerInode) : Trees W :=
  { trees.setInode dentry inode with
    lower := trees.lower.put dentry.address dir.address name
    deleted := Function.update trees.deleted dentry.address false }

/-- A dentry that others hold keeps its inode when its name is removed. -/
def Trees.delete (trees : Trees W) (dentry : LowerDentry) : Trees W :=
  { trees with deleted := Function.update trees.deleted dentry.address true }

/-- A rename of a file to another name of itself does nothing. -/
def Trees.rename (trees : Trees W) (old new : LowerDentry) : Trees W :=
  if trees.inode old.address = trees.inode new.address then trees
  else { trees.delete new with lower := trees.lower.move old.address new.address }

/-- What a call of the lower filesystem does to its dentries. A call that fails does nothing. -/
def Trees.afterLower (env : TreeEnvironment W) (trees : Trees W) : (c : LowerCall) → c.Reply → Trees W
  | .vfsCreate _ dentry _ _, err | .vfsSymlink _ dentry _, err | .vfsMkdir _ dentry _, err
  | .vfsMknod _ dentry _ _, err => if err = 0 then trees.setInode dentry (env.newInode trees.world) else trees
  | .vfsLink oldDentry _ newDentry, err =>
      if err = 0 then trees.setInode newDentry (trees.inode oldDentry.address) else trees
  | .vfsUnlink _ dentry, err | .vfsRmdir _ dentry, err => if err = 0 then trees.delete dentry else trees
  | .vfsRename _ oldDentry _ newDentry, err => if err = 0 then trees.rename oldDentry newDentry else trees
  | _, _ => trees

def treeLower (env : TreeEnvironment W) : (c : LowerCall) → Trees W → c.Reply × Trees W
  | .dInode dentry, trees => (trees.inode dentry.address, trees)
  | .dNegative dentry, trees => (decide (trees.inode dentry.address = .null), trees)
  | .dgetParent dentry, trees => (⟨trees.lower.parent dentry.address⟩, trees)
  | .superBlock inode, trees => (env.superBlock inode, trees)
  | c, trees =>
      let (reply, world) := env.lower c trees.world
      (reply, { trees with world := world }.afterLower env c reply)

/-- `d_alloc` makes a negative dentry. -/
def treeVfs (env : TreeEnvironment W) : (c : VfsCall) → Trees W → c.Reply × Trees W
  | .dgetParent dentry, trees =>
      let (reply, world) := env.vfs (.dgetParent dentry) trees.world
      ({ reply with address := trees.upper.parent dentry.address }, { trees with world := world })
  | .isRoot dentry, trees => (decide (trees.upper.parent dentry.address = dentry.address), trees)
  | .dName dentry, trees => (trees.upper.name dentry.address, trees)
  | .dAlloc dir name, trees =>
      let (reply, world) := env.vfs (.dAlloc dir name) trees.world
      let after := { trees with world := world }
      (reply, reply.elim after fun dentry => after.place dentry dir name .null)
  | c, trees =>
      let (reply, world) := env.vfs c trees.world
      (reply, { trees with world := world })

/-- The answers that depend on the dentries come from them. -/
def treeEnv (env : TreeEnvironment W) : VfsEnvironment (Trees W) where
  lower := treeLower env
  iget5Locked inode trees :=
    let (reply, world) := env.iget5Locked inode trees.world
    (reply, { trees with world := world })
  dSpliceAlias inode dentry trees :=
    let (reply, world) := env.dSpliceAlias inode dentry trees.world
    (reply, { trees with world := world })
  kzalloc trees :=
    let (reply, world) := env.kzalloc trees.world
    (reply, { trees with world := world })
  copyToUser address value trees :=
    let (reply, world) := env.copyToUser address value trees.world
    (reply, { trees with world := world })
  vfs := treeVfs env

def Mounted.trees (state : Mounted (Trees W)) : Trees W := state.machine.visible.lower

/-- A dentry of the mount holds the lower dentry. -/
def Mounted.refersTo (state : Mounted (Trees W)) (lowerDentry : LowerDentry) : Prop :=
  ∃ dentry ∈ state.live, (state.lowerPath dentry).dentry = lowerDentry

instance (state : Mounted (Trees W)) (lowerDentry : LowerDentry) : Decidable (state.refersTo lowerDentry) :=
  inferInstanceAs (Decidable (∃ dentry ∈ state.live, _))

/-- A lookup of a lower name may make a dentry for it. `d_splice_alias` moves the dentry that a directory has already
and hashes it. -/
def Mounted.settle (env : TreeEnvironment W) (state : Mounted (Trees W)) :
    (c : MountCall) → c.Reply → Mounted (Trees W)
  | .vfs (.vfsPathLookup dir _ name), .ok path =>
      if env.mountedOn dir.address name = none ∧ ¬ state.refersTo path.dentry then
        let spelling := env.spelled dir.address name
        state.setLower (state.trees.place path.dentry dir spelling (env.newInode state.trees.world))
      else state
  | .vfs (.dSpliceAlias _ dentry), .alias other =>
      let upper := state.machine.visible.upper
      let moved := state.setLower
        { state.trees with upper := state.trees.upper.move other.address dentry.address }
      moved.setUpper { upper with unhashed := Function.update upper.unhashed other.address false }
  | _, _ => state

/-- The dentry has this name in the directory. -/
def Trees.isNamed (trees : Trees W) (dentry dir : LowerDentry) (name : CString) : Prop :=
  trees.lower.name dentry.address = name ∧ trees.lower.parent dentry.address = dir.address

instance (trees : Trees W) (dentry dir : LowerDentry) (name : CString) : Decidable (trees.isNamed dentry dir name) :=
  inferInstanceAs (Decidable (_ ∧ _))

/-- A lookup of a name in a directory finds what is mounted there, or else the dentry that has the name in the spelling
of the lower filesystem. A directory has one dentry, and that of the lower root is in no directory below it. -/
def mayFind (env : TreeEnvironment W) (state after : Mounted (Trees W)) (dir : LowerDentry) (name : CString)
    (path : LowerPath) : Prop :=
  let inode := after.trees.inode path.dentry.address
  let spelling := env.spelled dir.address name
  inode ≠ .null ∧
    (env.isDirectory inode → ∀ dentry ∈ state.live,
      state.trees.inode (state.lowerPath dentry).dentry.address = inode →
        (state.lowerPath dentry).dentry = path.dentry) ∧
    (after.trees.isNamed path.dentry dir spelling → path.dentry ≠ (state.lowerPath env.root).dentry) ∧
    (env.mountedOn dir.address name = some path ∨ env.mountedOn dir.address name = none ∧
      (state.refersTo path.dentry →
        state.trees.deleted path.dentry.address = false ∧ state.trees.isNamed path.dentry dir spelling))

instance (env : TreeEnvironment W) (state after : Mounted (Trees W)) (dir : LowerDentry) (name : CString)
    (path : LowerPath) : Decidable (mayFind env state after dir name path) := inferInstanceAs (Decidable (_ ∧ _))

/-- `iget5_locked` finds the inode in the cache that has this lower inode, or it makes one that no dentry has. -/
def Mounted.mayGet (state : Mounted (Trees W)) (lowerInode : LowerInode) (inode : Inode) (new : Bool) : Prop :=
  let upper := state.machine.visible.upper
  inode ≠ .null ∧
    (∀ dentry ∈ state.live, upper.inode dentry ≠ .null → upper.lowerInode (upper.inode dentry) = lowerInode →
      upper.inode dentry = inode) ∧
    if new then ∀ dentry ∈ state.live, upper.inode dentry ≠ inode else upper.lowerInode inode = lowerInode

instance (state : Mounted (Trees W)) (lowerInode : LowerInode) (inode : Inode) (new : Bool) :
    Decidable (state.mayGet lowerInode inode new) := inferInstanceAs (Decidable (_ ∧ _))

/-- The answers that the kernel can give. A call on the null inode faults. -/
def lawful (env : TreeEnvironment W) (state after : Mounted (Trees W)) : (c : MountCall) → c.Reply → Bool
  | .kernel (.lower (.superBlock inode)), _ => inode ≠ .null
  | .kernel (.lower (.vfsCreate _ dentry _ _)), err | .kernel (.lower (.vfsSymlink _ dentry _)), err
  | .kernel (.lower (.vfsMkdir _ dentry _)), err | .kernel (.lower (.vfsMknod _ dentry _ _)), err =>
      err = 0 → state.trees.inode dentry.address = .null ∧ after.trees.inode dentry.address ≠ .null
  | .kernel (.lower (.vfsLink oldDentry _ newDentry)), err =>
      err = 0 → state.trees.inode newDentry.address = .null ∧ state.trees.inode oldDentry.address ≠ .null
  | .kernel (.upper (.iget5Locked lowerInode)), some (inode, new) => state.mayGet lowerInode inode new
  | .vfs (.vfsPathLookup dir _ name), .ok path => mayFind env state after dir name path
  | .vfs (.dLookup dir name), some dentry => dentry ≠ (state.lowerPath env.root).dentry ∧
      state.trees.deleted dentry.address = false ∧ state.trees.isNamed dentry dir (env.spelled dir.address name) ∧
      state.trees.inode dentry.address = .null
  | .vfs (.dAlloc ..), some dentry => ¬ state.refersTo dentry
  | .vfs (.dSpliceAlias inode dentry), .alias other =>
      other.address ∈ state.live ∧ other.address ≠ dentry.address ∧
        state.machine.visible.upper.inode other.address = inode ∧
        env.isDirectory (state.machine.visible.upper.lowerInode inode)
  | _, _ => true

def handleTree (env : TreeEnvironment W) (helpers : Helpers) : Handler MountCall.Reply (Mounted (Trees W)) :=
  fun c state => (handleMount (treeEnv env) helpers c state).bind fun (reply, after) =>
    if lawful env state (after.settle env c reply) c reply then some (reply, after.settle env c reply) else none

/-- The dentries that the VFS may hand to the filesystem are those in use. -/
structure TreeMount (W : Type) where
  mounted : Mounted (Trees W)
  used : Finset Nat

/-- `d_alloc` for a name that the VFS looks up. -/
def Mounted.allocate (state : Mounted (Trees W)) (dentry parent : Nat) (name : CString) : Mounted (Trees W) :=
  let upper := state.machine.visible.upper
  let state := state.setLower { state.trees with upper := state.trees.upper.put dentry parent name }
  state.setUpper { upper with
    inode := Function.update upper.inode dentry .null
    unhashed := Function.update upper.unhashed dentry true }

/-- `d_move` after a rename that succeeded. -/
def Mounted.finish (state : Mounted (Trees W)) (op : TracedOp) (err : BitVec 32) : Mounted (Trees W) :=
  match op with
  | .rename _ oldDentry _ newDentry =>
      if err = 0 then
        let upper := state.machine.visible.upper
        let trees := state.trees
        let hashed := Function.update upper.unhashed oldDentry.address false
        (state.setLower { trees with upper := trees.upper.move oldDentry.address newDentry.address }).setUpper
          { upper with unhashed := Function.update hashed newDentry.address true }
      else state
  | _ => state

/-- The dentry that a call makes, removes or replaces. -/
def TracedOp.target : TracedOp → Option Nat
  | .create _ dentry _ _ | .link _ _ dentry | .unlink _ dentry | .symlink _ dentry _ | .mkdir _ dentry _
  | .rmdir _ dentry | .mknod _ dentry _ _ | .rename _ _ _ dentry => some dentry.address
  | .open .. | .read .. | .write .. | .release .. => none

/-- Nothing in use is below the dentry. -/
def TreeMount.childless (env : TreeEnvironment W) (mount : TreeMount W) (dentry : Nat) : Prop :=
  ∀ child ∈ mount.used, child ≠ env.root → mount.mounted.trees.upper.parent child ≠ dentry

instance (env : TreeEnvironment W) (mount : TreeMount W) (dentry : Nat) : Decidable (mount.childless env dentry) :=
  inferInstanceAs (Decidable (∀ _ ∈ mount.used, _))

/-- The last reference to a dentry that is not hashed frees it when nothing below it is in use. -/
def TreeMount.forget (env : TreeEnvironment W) (mount : TreeMount W) (dentry : Nat) : TreeMount W :=
  if mount.mounted.machine.visible.upper.unhashed dentry ∧ mount.childless env dentry then
    { mount with used := mount.used.erase dentry }
  else mount

/-- `d_drop` for a dentry that the cache gives up. -/
def Mounted.drop (state : Mounted (Trees W)) (dentry : Nat) : Mounted (Trees W) :=
  let upper := state.machine.visible.upper
  state.setUpper { upper with unhashed := Function.update upper.unhashed dentry true }

/-- `__dentry_kill` takes the inode from a dentry before `d_release`. -/
def Mounted.kill (state : Mounted (Trees W)) (dentry : Nat) : Mounted (Trees W) :=
  let upper := state.machine.visible.upper
  state.setUpper { upper with
    inode := Function.update upper.inode dentry .null
    unhashed := Function.update upper.unhashed dentry true }

/-- The dentries that are in use after a lookup. -/
def Spliced.enters (spliced : Spliced) (dentry : Nat) (used : Finset Nat) : Finset Nat :=
  match spliced with
  | .null => insert dentry used
  | .alias other => insert other.address used
  | .error _ => used

inductive TreeAction where
  | lookup (dentry : Dentry) (parent : Nat) (name : CString)
  | call (op : TracedOp)
  | prune (dentry : Nat)
  | release (dentry : Dentry)

/-- One action of the VFS. A call that faults ends the run. -/
def treeStep (env : TreeEnvironment W) (helpers : Helpers) : TreeAction → TreeMount W → Option (TreeMount W)
  | .lookup dentry parent name, mount =>
      ((trfsLookup dentry).exec (handleTree env helpers) (mount.mounted.allocate dentry.address parent name)).map
        fun done => ⟨done.state, done.value.enters dentry.address mount.used⟩
  | .call op, mount =>
      ((kernel op.program).exec (handleTree env helpers) mount.mounted).map fun done =>
        let after : TreeMount W := ⟨done.state.finish op done.value.err, mount.used⟩
        op.target.elim after (after.forget env)
  | .prune dentry, mount =>
      if mount.childless env dentry then
        some ⟨mount.mounted.drop dentry, mount.used.erase dentry⟩
      else some mount
  | .release dentry, mount =>
      ((trfsDentryRelease dentry).exec (handleTree env helpers) (mount.mounted.kill dentry.address)).map fun done =>
        ⟨done.state, mount.used⟩

/-- A rename moves a file to the place of another one. -/
def TracedOp.renamesOther (root : Nat) (mount : TreeMount W) : TracedOp → Prop
  | .rename _ oldDentry _ newDentry =>
      let inode := mount.mounted.machine.visible.upper.inode
      oldDentry.address ∈ mount.used ∧ oldDentry.address ≠ root ∧ inode oldDentry.address ≠ .null ∧
        inode oldDentry.address ≠ inode newDentry.address
  | _ => True

/-- What the VFS promises the filesystem. It looks up a new dentry in a directory in use that has none of this name,
makes, removes and replaces dentries in use, and releases others. -/
def TreeAction.promised (env : TreeEnvironment W) (mount : TreeMount W) : TreeAction → Prop
  | .lookup dentry parent name =>
      let upper := mount.mounted.trees.upper
      dentry.address ∉ mount.mounted.live ∧ parent ∈ mount.used ∧
        mount.mounted.machine.visible.upper.inode parent ≠ .null ∧
        ∀ other ∈ mount.used, other ≠ env.root → upper.parent other = parent → upper.name other ≠ name
  | .call op => (∃ target ∈ mount.used, op.target = some target ∧ target ≠ env.root) ∧ op.renamesOther env.root mount
  | .prune dentry => dentry ≠ env.root
  | .release dentry => dentry.address ∉ mount.used

/-- The lookup does not cross a mount point within the lower filesystem, unless the same dentry is mounted there. -/
def TreeAction.staysBelow (env : TreeEnvironment W) (mount : TreeMount W) : TreeAction → Prop
  | .lookup _ parent name =>
      let dir := (mount.mounted.lowerPath parent).dentry
      ∀ path ∈ env.mountedOn dir.address name,
        env.superBlock (mount.mounted.trees.inode path.dentry.address) ≠ mount.mounted.machine.visible.lowerSb ∨
          mount.mounted.trees.isNamed path.dentry dir name
  | _ => True

/-- The lower filesystem has the name that is looked up byte for byte. -/
def TreeAction.spelledAlike (env : TreeEnvironment W) (mount : TreeMount W) : TreeAction → Prop
  | .lookup _ parent name => env.spelled (mount.mounted.lowerPath parent).dentry.address name = name
  | _ => True

instance (root : Nat) (mount : TreeMount W) : (op : TracedOp) → Decidable (op.renamesOther root mount)
  | .rename .. => inferInstanceAs (Decidable (_ ∧ _))
  | .create .. | .link .. | .unlink .. | .symlink .. | .mkdir .. | .rmdir .. | .mknod .. | .open .. | .read ..
  | .write .. | .release .. => isTrue trivial

instance (env : TreeEnvironment W) (mount : TreeMount W) :
    (action : TreeAction) → Decidable (action.promised env mount)
  | .lookup .. => inferInstanceAs (Decidable (_ ∧ _))
  | .call op => inferInstanceAs (Decidable (_ ∧ op.renamesOther env.root mount))
  | .prune _ => inferInstanceAs (Decidable (_ ≠ _))
  | .release _ => inferInstanceAs (Decidable (_ ∉ _))

instance (env : TreeEnvironment W) (mount : TreeMount W) :
    (action : TreeAction) → Decidable (action.staysBelow env mount)
  | .lookup .. => inferInstanceAs (Decidable (∀ _ ∈ _, _))
  | .call _ | .prune _ | .release _ => isTrue trivial

instance (env : TreeEnvironment W) (mount : TreeMount W) :
    (action : TreeAction) → Decidable (action.spelledAlike env mount)
  | .lookup .. => inferInstanceAs (Decidable (_ = _))
  | .call _ | .prune _ | .release _ => isTrue trivial

/-- The mount after `trfs_read_super`: its root stands for the lower root. -/
structure TreeMount.Fresh (env : TreeEnvironment W) (mount : TreeMount W) : Prop where
  used : mount.used = {env.root}
  live : mount.mounted.live = {env.root}
  hashed : ∀ dentry, mount.mounted.machine.visible.upper.unhashed dentry = false → dentry = env.root
  positive : mount.mounted.machine.visible.upper.inode env.root ≠ .null
  below : mount.mounted.trees.inode (mount.mounted.lowerPath env.root).dentry.address ≠ .null
  owner : mount.mounted.machine.visible.upper.lowerInode (mount.mounted.machine.visible.upper.inode env.root) =
    mount.mounted.trees.inode (mount.mounted.lowerPath env.root).dentry.address

/-- Every hashed dentry but the root has a lower path. Its lower dentry has the same name, is below the lower dentry
of its parent, and has the lower inode of its inode. -/
def TreeMount.corresponding (env : TreeEnvironment W) (mount : TreeMount W) : Prop :=
  let state := mount.mounted
  let upper := state.machine.visible.upper
  ∀ dentry, upper.unhashed dentry = false → dentry ≠ env.root → dentry ∈ state.live ∧
    state.trees.isNamed (state.lowerPath dentry).dentry (state.lowerPath (state.trees.upper.parent dentry)).dentry
      (state.trees.upper.name dentry) ∧
    (upper.inode dentry ≠ .null →
      upper.lowerInode (upper.inode dentry) = state.trees.inode (state.lowerPath dentry).dentry.address)

end

end Trfs.Kernel
