import Trfs.Proof.Kernel.ParentAttributes
import Trfs.Proof.Kernel.Records

namespace Trfs.Kernel
open Bytes Effect Trace

/-- The directories in which an operation changes entries, each with an entry. -/
def TracedOp.Child : TracedOp → Inode → Dentry → Prop
  | .create dir dentry .., parent, child | .unlink dir dentry, parent, child | .symlink dir dentry _, parent, child
  | .mkdir dir dentry _, parent, child | .rmdir dir dentry, parent, child | .mknod dir dentry .., parent, child
  | .link _ dir dentry, parent, child => dir = parent ∧ dentry = child
  | .rename oldDir oldDentry newDir newDentry, parent, child =>
      (oldDir = parent ∧ oldDentry = child) ∨ (newDir = parent ∧ newDentry = child)
  | _, _, _ => False

section
variable {L : Type} {env : Environment L} {helpers : Helpers} {shape : L → LowerShape} {op : TracedOp}
  {before : Machine L} {done : Done L}

/-- A directory in use with an entry: the lower entry is in the lower directory, and it is not that directory. -/
structure Parent (env : Environment L) (shape : L → LowerShape) (state : Machine L) (dir : Inode) (dentry : Dentry) :
    Prop where
  lower : (shape state.visible.lower).inode ((shape state.visible.lower).parent
    (state.visible.upper.lowerPath dentry.address).dentry) = state.visible.upper.lowerInode dir
  apart : ∀ lower, (shape lower).inode (state.visible.upper.lowerPath dentry.address).dentry ≠
    state.visible.upper.lowerInode dir
  fresh : Fresh env dir

/-- On return the directory has the size and the times of its own lower inode, and it took them from no other one. -/
structure ParentCoherent (shape : L → LowerShape) (before : Machine L) (dir : Inode) (done : Done L) : Prop where
  attributes : SameSizeTimes (done.state.visible.upper.attributes dir)
    ((shape done.state.visible.lower).attributes (before.visible.upper.lowerInode dir))
  copies : ∀ pair ∈ copiesOf done.events, pair.1 = dir → pair.2 = before.visible.upper.lowerInode dir

/-- The lower filesystem shows no inode at a new link, and its directory happens to be up to date already. -/
def TracedOp.LeavesNoInode (shape : L → LowerShape) (before : Machine L) (lower : L) : TracedOp → Prop
  | .link _ dir newDentry =>
      (shape lower).inode (before.visible.upper.lowerPath newDentry.address).dentry = LowerInode.null ∧
        SameSizeTimes (before.visible.upper.attributes dir)
          ((shape lower).attributes (before.visible.upper.lowerInode dir))
  | _ => False

def TracedOp.IsLink : TracedOp → Prop
  | .link .. => True
  | _ => False

/-- The start is steady. -/
theorem Steady.start (dir : Inode) : Steady shape dir (before.visible.upper.lowerInode dir)
    before.visible.upper.lowerPath (shape before.visible.lower) (before.visible.upper.attributes dir) before .start :=
  ⟨rfl, rfl, rfl, rfl, rfl, nofun⟩

/-- A refreshed directory is coherent after a success. -/
theorem Refreshed.coherent {dir : Inode} (refreshed : Refreshed shape dir (before.visible.upper.lowerInode dir)
    before.visible.upper.lowerPath done.value done.state (sourcing.after .start done.events))
    (succeeded : done.value.err = 0) : ParentCoherent shape before dir done := by
  obtain ⟨tree, now, same, steady⟩ := refreshed succeeded
  refine ⟨?_, steady.copies⟩
  rw [steady.attributes, steady.tree]
  exact same

/-- The operations other than `trfs_link` keep their directories coherent. -/
theorem TracedOp.coherent (shows : Shows env shape)
    (parents : ∀ dir dentry, op.Child dir dentry → Parent env shape before dir dentry)
    (ran : op.exec env helpers before = some done) (succeeded : done.value.err = 0) (other : ¬ op.IsLink)
    {dir : Inode} {dentry : Dentry} (child : op.Child dir dentry) : ParentCoherent shape before dir done := by
  have parent := parents dir dentry child
  apply Refreshed.coherent _ succeeded
  cases op with
  | create inode entry mode wantExcl =>
      obtain ⟨rfl, rfl⟩ := child
      exact (trfsCreate_ensures shows parent.fresh (.start _) parent.lower).exec ran
  | unlink inode entry =>
      obtain ⟨rfl, rfl⟩ := child
      exact (trfsUnlink_ensures shows (.start _)).exec ran
  | symlink inode entry symname =>
      obtain ⟨rfl, rfl⟩ := child
      exact (trfsSymlink_ensures shows parent.fresh (.start _) parent.lower).exec ran
  | mkdir inode entry mode =>
      obtain ⟨rfl, rfl⟩ := child
      exact (trfsMkdir_ensures shows parent.fresh (.start _) parent.lower).exec ran
  | rmdir inode entry =>
      obtain ⟨rfl, rfl⟩ := child
      exact (trfsRmdir_ensures shows (.start _) parent.lower).exec ran
  | mknod inode entry mode dev =>
      obtain ⟨rfl, rfl⟩ := child
      exact (trfsMknod_ensures shows parent.fresh (.start _) parent.lower).exec ran
  | rename oldDir oldDentry newDir newDentry =>
      have old : oldDir = dir → (shape before.visible.lower).inode ((shape before.visible.lower).parent
          (before.visible.upper.lowerPath oldDentry.address).dentry) = before.visible.upper.lowerInode dir :=
        fun here => (parents dir oldDentry (.inl ⟨here, rfl⟩)).lower
      have new : newDir = dir → (shape before.visible.lower).inode ((shape before.visible.lower).parent
          (before.visible.upper.lowerPath newDentry.address).dentry) = before.visible.upper.lowerInode dir :=
        fun here => (parents dir newDentry (.inr ⟨here, rfl⟩)).lower
      have among : oldDir = dir ∨ newDir = dir := child.imp And.left And.left
      exact (trfsRename_ensures shows (.start _) among old new).exec ran
  | link oldDentry dir newDentry => exact absurd trivial other
  | _ => exact child.elim

/-- `trfs_link` copies from the inode of the new name. -/
theorem trfsLink_coherent_iff (shows : Shows env shape) {oldDentry newDentry : Dentry} {dir : Inode}
    (parent : Parent env shape before dir newDentry)
    (ran : (TracedOp.link oldDentry dir newDentry).exec env helpers before = some done)
    (succeeded : done.value.err = 0) :
    ParentCoherent shape before dir done ↔
      (TracedOp.link oldDentry dir newDentry).LeavesNoInode shape before done.state.visible.lower := by
  have linked := (trfsLink_ensures shows parent.fresh (.start dir)).exec ran
  obtain ⟨tree, ⟨missing, steady⟩ | ⟨present, same, copied⟩⟩ := linked succeeded
  · change _ ↔ _ ∧ _
    rw [steady.tree]
    constructor
    · intro coherent
      have attributes := coherent.attributes
      rw [steady.attributes, steady.tree] at attributes
      exact ⟨missing, attributes⟩
    · intro settled
      refine ⟨?_, steady.copies⟩
      rw [steady.attributes, steady.tree]
      exact settled.2
  · constructor
    · intro coherent
      have own := coherent.copies _ copied rfl
      rw [← same] at own
      exact absurd own (parent.apart _)
    · intro settled
      have missing := settled.1
      rw [same] at missing
      exact absurd missing present

/-- After a call that succeeded every directory concerned is coherent, except after a link to a visible inode. -/
theorem parents_coherent_iff (shows : Shows env shape)
    (parents : ∀ dir dentry, op.Child dir dentry → Parent env shape before dir dentry)
    (ran : op.exec env helpers before = some done) (succeeded : done.value.err = 0) :
    (∀ dir dentry, op.Child dir dentry → ParentCoherent shape before dir done) ↔
      (op.IsLink → op.LeavesNoInode shape before done.state.visible.lower) := by
  constructor
  · intro coherent link
    cases op with
    | link oldDentry dir newDentry =>
        exact (trfsLink_coherent_iff shows (parents dir newDentry ⟨rfl, rfl⟩) ran succeeded).mp
          (coherent dir newDentry ⟨rfl, rfl⟩)
    | _ => exact link.elim
  · intro settled dir dentry child
    by_cases link : op.IsLink
    · cases op with
      | link oldDentry inode newDentry =>
          obtain ⟨rfl, rfl⟩ := child
          exact (trfsLink_coherent_iff shows (parents _ _ ⟨rfl, rfl⟩) ran succeeded).mpr (settled link)
      | _ => exact link.elim
    · exact op.coherent shows parents ran succeeded link child

end

/-- What the second name of a directory shows: nothing, a new directory or the file of the third name. -/
inductive SecondName where
  | free
  | directory
  | linked

def sized (size : BitVec 64) : Attributes := ⟨0, 0, 0, 0, 0, 0, 0, 0, 0, 0, 0, size, 0⟩

def SecondName.inode : SecondName → LowerInode
  | .free => .null
  | .directory => ⟨4⟩
  | .linked => ⟨3⟩

/-- A lower directory that grows with its second name. -/
def SecondName.shape (name : SecondName) : LowerShape where
  parent _ := ⟨1⟩
  inode dentry := if dentry.address = 1 then ⟨1⟩ else if dentry.address = 2 then name.inode else ⟨3⟩
  attributes inode := if inode.address = 1 then sized (if name.inode = .null then 4096 else 8192) else sized 1

def SecondName.lower : (c : LowerCall) → SecondName → c.Reply × SecondName
  | .dgetParent dentry, name => (name.shape.parent dentry, name)
  | .dInode dentry, name => (name.shape.inode dentry, name)
  | .dNegative dentry, name => (decide (name.shape.inode dentry = LowerInode.null), name)
  | .attributes inode, name => (name.shape.attributes inode, name)
  | .vfsMkdir .., _ => (0, .directory)
  | .vfsLink .., _ => (0, .linked)
  | c, name => (steadyLower 0 0 c, name)

def growing : Environment SecondName where
  lower := SecondName.lower
  iget5Locked _ name := (some (⟨7⟩, true), name)
  dSpliceAlias _ _ name := (0, name)
  kzalloc name := (true, name)
  copyToUser _ _ name := (0, name)

/-- The mount over this directory. The numbers of its objects are those of the lower ones. -/
def smallMount : Machine SecondName :=
  mounted
    { lower := .free
      upper :=
        { attributes := fun _ => sized 0
          lowerInode := fun inode => ⟨inode.address⟩
          inode := fun address => ⟨address⟩
          unhashed := fun _ => false
          lowerPath := fun address => ⟨⟨address⟩, 0⟩
          fileInfo := fun _ => false
          lowerFile := fun _ => none }
      lowerSb := 0 }
    freshMount.tfilePath

/-- The growing file system shows its shape. -/
theorem growing_shows : Shows growing SecondName.shape where
  parent _ _ := rfl
  inode _ _ := rfl
  negative _ _ := rfl
  attributes _ _ := rfl
  keeps c name quiet := by
    cases c <;> first | rfl | exact absurd trivial quiet
  directories c name dentry := by
    cases c <;> rfl
  iget5Locked _ _ := rfl
  dSpliceAlias _ _ _ := rfl

/-- The root of this mount is the directory of its second name. -/
theorem smallMount_parent : Parent growing SecondName.shape smallMount ⟨1⟩ dentryB where
  lower := rfl
  apart name := by cases name <;> decide
  fresh lowerInode name inode found := by
    obtain rfl := congrArg Prod.fst (Option.some.inj found)
    decide

/-- A mkdir leaves its parent coherent. -/
theorem parents_coherent_mkdir : ∃ done,
    (TracedOp.mkdir ⟨1⟩ dentryB 0).exec growing reliable smallMount = some done ∧ done.value.err = 0 ∧
    ((∀ dir dentry, (TracedOp.mkdir ⟨1⟩ dentryB 0).Child dir dentry →
        ParentCoherent SecondName.shape smallMount dir done) ↔
      ((TracedOp.mkdir ⟨1⟩ dentryB 0).IsLink →
        (TracedOp.mkdir ⟨1⟩ dentryB 0).LeavesNoInode SecondName.shape smallMount done.state.visible.lower)) := by
  have shows : ((TracedOp.mkdir ⟨1⟩ dentryB 0).exec growing reliable smallMount).map (fun done => done.value.err) =
      some 0 := by decide +kernel
  obtain ⟨done, ran, succeeded⟩ := Option.map_eq_some_iff.mp shows
  refine ⟨done, ran, succeeded, parents_coherent_iff growing_shows ?_ ran succeeded⟩
  rintro dir dentry ⟨rfl, rfl⟩
  exact smallMount_parent

/-- A link to a file of one byte gives the directory the size of that file. -/
theorem linked_not_coherent : Shows growing SecondName.shape ∧
    (∀ dir dentry, (TracedOp.link dentryAB ⟨1⟩ dentryB).Child dir dentry →
      Parent growing SecondName.shape smallMount dir dentry) ∧
    ∃ done, (TracedOp.link dentryAB ⟨1⟩ dentryB).exec growing reliable smallMount = some done ∧
      done.value.err = 0 ∧ (done.state.visible.upper.attributes ⟨1⟩).size = 1 ∧
      ¬ ParentCoherent SecondName.shape smallMount ⟨1⟩ done := by
  refine ⟨growing_shows, ?_, ?_⟩
  · rintro dir dentry ⟨rfl, rfl⟩
    exact smallMount_parent
  have shows : ((TracedOp.link dentryAB ⟨1⟩ dentryB).exec growing reliable smallMount).map
      (fun done => (done.value.err, (done.state.visible.upper.attributes ⟨1⟩).size,
        (done.state.visible.lower.shape.attributes ⟨1⟩).size)) = some (0, 1, 8192) := by decide +kernel
  obtain ⟨done, ran, seen⟩ := Option.map_eq_some_iff.mp shows
  obtain ⟨succeeded, sizes⟩ := Prod.mk.inj seen
  obtain ⟨upper, lower⟩ := Prod.mk.inj sizes
  refine ⟨done, ran, succeeded, upper, fun coherent => ?_⟩
  have same := coherent.attributes.1
  rw [upper] at same
  exact absurd (same.trans lower) (by decide)

end Trfs.Kernel
