import Trfs.Proof.Kernel.TreeCalls

namespace Trfs.Kernel
open Bytes Dentries Effect

/-- The trees correspond and no lower file waits for its dentry. -/
structure Settled (root : Nat) (used : Finset Nat) (picture : Picture) : Prop where
  corresponds : Corresponds root used picture
  waiting : Waiting used picture

/-- A lookup has a dentry that is not in use, for a name that the directory does not have. -/
structure Looking (root : Nat) (used : Finset Nat) (dentry parent : Nat) (name : CString) (picture : Picture) :
    Prop where
  settled : Settled root used picture
  unused : dentry ∉ used
  negative : picture.inode dentry = .null
  dropped : picture.unhashed dentry = true
  inside : parent ∈ used
  positive : picture.inode parent ≠ .null
  named : picture.upper.name dentry = name
  placed : picture.upper.parent dentry = parent
  free : ∀ other ∈ used, other ≠ root → picture.upper.parent other = parent → picture.upper.name other ≠ name

section
variable {root dentry parent there : Nat} {used : Finset Nat} {name : CString} {picture after : Picture}

/-- A dentry without inode that is not hashed. -/
def Picture.kills (picture : Picture) (dentry : Nat) : Picture :=
  { picture with
    inode := Function.update picture.inode dentry .null
    unhashed := Function.update picture.unhashed dentry true }

/-- The VFS allocates a dentry for a lookup. -/
def Picture.allocates (picture : Picture) (dentry parent : Nat) (name : CString) : Picture :=
  { picture.kills dentry with upper := picture.upper.put dentry parent name }

/-- Nothing changed at all. -/
theorem Elsewhere.refl (negative : picture.inode dentry = .null) (dropped : picture.unhashed dentry = true) :
    Elsewhere dentry picture picture where
  live _ _ := Iff.rfl
  lowerPath _ _ := rfl
  unhashed _ _ := rfl
  inode _ _ := rfl
  name _ _ := rfl
  parent _ _ := rfl
  owner := rfl
  lower := rfl
  lowerInode := rfl
  lowerSb := rfl
  negative := negative
  dropped := dropped

/-- A dentry that is released was not in use. -/
theorem Picture.kills_elsewhere : Elsewhere dentry picture (picture.kills dentry) where
  live _ _ := Iff.rfl
  lowerPath _ _ := rfl
  unhashed _ different := Function.update_of_ne different _ _
  inode _ different := Function.update_of_ne different _ _
  name _ _ := rfl
  parent _ _ := rfl
  owner := rfl
  lower := rfl
  lowerInode := rfl
  lowerSb := rfl
  negative := Function.update_self _ _ _
  dropped := Function.update_self _ _ _

/-- A new dentry is in use nowhere yet. -/
theorem Picture.allocates_elsewhere : Elsewhere dentry picture (picture.allocates dentry parent name) := by
  have killed : Elsewhere dentry picture (picture.kills dentry) := Picture.kills_elsewhere
  exact
    { killed with
      name := fun _ different => Function.update_of_ne different _ _
      parent := fun _ different => Function.update_of_ne different _ _ }

/-- A tree stays settled when only unused dentries change. -/
theorem Settled.elsewhere (settled : Settled root used picture) (unused : dentry ∉ used)
    (elsewhere : Elsewhere dentry picture after) : Settled root used after :=
  ⟨settled.corresponds.elsewhere unused elsewhere, settled.waiting.elsewhere unused elsewhere⟩

/-- A lookup begins with a new dentry under a name that is free. -/
theorem Settled.looking (settled : Settled root used picture) (unused : dentry ∉ used) (inside : parent ∈ used)
    (positive : picture.inode parent ≠ .null)
    (free : ∀ other ∈ used, other ≠ root → picture.upper.parent other = parent → picture.upper.name other ≠ name) :
    Looking root used dentry parent name (picture.allocates dentry parent name) := by
  have elsewhere : Elsewhere dentry picture (picture.allocates dentry parent name) := Picture.allocates_elsewhere
  have apart : ∀ other ∈ used, other ≠ dentry := by
    rintro other member rfl
    exact unused member
  refine ⟨settled.elsewhere unused elsewhere, unused, elsewhere.negative, elsewhere.dropped, inside, ?_, ?_, ?_, ?_⟩
  · rw [elsewhere.inode parent (apart parent inside)]
    exact positive
  · exact Function.update_self _ _ _
  · exact Function.update_self _ _ _
  · intro other member different
    rw [elsewhere.parent other (apart other member), elsewhere.name other (apart other member)]
    exact free other member different

/-- The dentry is not its own parent. -/
theorem Looking.apart (looking : Looking root used dentry parent name picture) : parent ≠ dentry := by
  rintro rfl
  exact looking.unused looking.inside

/-- The lookup does something to its dentry only. -/
theorem Looking.elsewhere (looking : Looking root used dentry parent name picture)
    (elsewhere : Elsewhere dentry picture after) (upper : after.upper = picture.upper) :
    Looking root used dentry parent name after := by
  refine ⟨looking.settled.elsewhere looking.unused elsewhere, looking.unused, elsewhere.negative, elsewhere.dropped,
    looking.inside, ?_, ?_, ?_, ?_⟩
  · rw [elsewhere.inode parent looking.apart]
    exact looking.positive
  · rw [upper]
    exact looking.named
  · rw [upper]
    exact looking.placed
  · rw [upper]
    exact looking.free

/-- A new lower dentry under that name changes nothing for the others. -/
theorem Looking.places (looking : Looking root used dentry parent name picture) {dir : Nat} {lowerInode : LowerInode}
    (free : ∀ entry ∈ picture.live, picture.below entry ≠ there) :
    Looking root used dentry parent name (picture.places there dir name lowerInode) :=
  { looking with settled :=
      ⟨looking.settled.corresponds.places free, looking.settled.waiting.places looking.settled.corresponds free⟩ }

/-- The lookup goes on after `trfs_iget`. -/
theorem Gets.looking {lowerInode : LowerInode} {result : Except (BitVec 32) Inode}
    (gets : Gets picture after lowerInode result) (looking : Looking root used dentry parent name picture) :
    Looking root used dentry parent name after := by
  rw [gets.same]
  exact { looking with settled := ⟨looking.settled.corresponds.reowned gets.kept, looking.settled.waiting⟩ }

/-- The lower dentry of the looked up one has its name and its place. -/
structure Stands (root dentry parent : Nat) (name : CString) (picture : Picture) : Prop where
  live : dentry ∈ picture.live
  named : picture.lower.name (picture.below dentry) = name
  placed : picture.lower.parent (picture.below dentry) = picture.below parent
  notRoot : picture.below dentry ≠ picture.below root

/-- No other dentry in use has the lower dentry that was found. -/
theorem Looking.alone (looking : Looking root used dentry parent name picture)
    (stands : Stands root dentry parent name picture) : ∀ other ∈ used, picture.below other ≠ picture.below dentry :=
  looking.settled.corresponds.mirrors.unused looking.inside looking.free stands.placed stands.named stands.notRoot

/-- So the new dentry joins the tree. -/
theorem Looking.joins (looking : Looking root used dentry parent name picture)
    (stands : Stands root dentry parent name picture) : Corresponds root (insert dentry used) picture := by
  apply looking.settled.corresponds.joins stands.live
  · rw [looking.placed]
    exact looking.inside
  · rw [looking.placed]
    exact looking.positive
  · rw [looking.named]
    exact stands.named
  · rw [looking.placed]
    exact stands.placed
  · exact looking.alone stands

/-- The dentry gets its lower path. -/
def Picture.holds (picture : Picture) (dentry : Nat) (path : LowerPath) : Picture :=
  { picture with lowerPath := Function.update picture.lowerPath dentry path }

/-- The dentry keeps the lower path that it is given. -/
theorem Looking.holds (looking : Looking root used dentry parent name picture) {path : LowerPath} :
    Looking root used dentry parent name (picture.holds dentry path) := by
  have same := Elsewhere.refl looking.negative looking.dropped
  have elsewhere : Elsewhere dentry picture (picture.holds dentry path) :=
    { same with lowerPath := fun _ different => Function.update_of_ne different _ _ }
  exact looking.elsewhere elsewhere rfl

/-- Its lower dentry is that of the path, -/
theorem Picture.holds_below {path : LowerPath} : (picture.holds dentry path).below dentry = path.dentry.address :=
  congrArg (fun path => path.dentry.address) (Function.update_self dentry path picture.lowerPath)

/-- and those of the others stay. -/
theorem Picture.holds_below_ne {path : LowerPath} {other : Nat} (different : other ≠ dentry) :
    (picture.holds dentry path).below other = picture.below other :=
  congrArg (fun path => path.dentry.address) (Function.update_of_ne different path picture.lowerPath)

/-- A lower dentry of the name, in the lower directory, is held by the looked up one. -/
theorem Looking.stands (looking : Looking root used dentry parent name picture) {path : LowerPath}
    (live : dentry ∈ picture.live) (named : picture.lower.name path.dentry.address = name)
    (placed : picture.lower.parent path.dentry.address = picture.below parent)
    (notRoot : path.dentry.address ≠ picture.below root) :
    Stands root dentry parent name (picture.holds dentry path) := by
  have apart : ∀ other ∈ used, other ≠ dentry := by
    rintro other member rfl
    exact looking.unused member
  constructor
  · exact live
  · rw [Picture.holds_below]
    exact named
  · rw [Picture.holds_below, Picture.holds_below_ne (apart parent looking.inside)]
    exact placed
  · rw [Picture.holds_below, Picture.holds_below_ne (apart root looking.settled.corresponds.mirrors.top)]
    exact notRoot

/-- A negative lower dentry gives a negative dentry in use. -/
theorem Looking.negatives (looking : Looking root used dentry parent name picture)
    (stands : Stands root dentry parent name picture) (negative : picture.lowerInode (picture.below dentry) = .null) :
    Settled root (insert dentry used) picture :=
  ⟨looking.joins stands, looking.settled.waiting.joins fun _ => negative⟩

/-- The lower dentry that was found stays in its place during `trfs_iget`. -/
theorem Gets.stands {lowerInode : LowerInode} {result : Except (BitVec 32) Inode}
    (gets : Gets picture after lowerInode result) (stands : Stands root dentry parent name picture) :
    Stands root dentry parent name after := by
  rw [gets.same]
  exact ⟨stands.live, stands.named, stands.placed, stands.notRoot⟩

/-- The looked up dentry comes into use with the inode for its lower one. -/
theorem Looking.instantiates {inode : Inode} (looking : Looking root used dentry parent name picture)
    (stands : Stands root dentry parent name picture)
    (gets : Gets picture after (picture.lowerInode (picture.below dentry)) (.ok inode))
    (present : picture.lowerInode (picture.below dentry) ≠ .null) :
    Settled root (insert dentry used) (after.instantiates dentry inode) := by
  have positive := gets.positive inode rfl
  refine ⟨gets.instantiates (looking.joins stands) (Finset.mem_insert_self _ _) present rfl, ?_⟩
  apply ((gets.looking looking).settled.waiting.instantiates positive).joins
  intro negative
  have same : (after.instantiates dentry inode).inode dentry = inode := Function.update_self _ _ _
  exact absurd (same.symm.trans negative) positive

/-- A dentry that the inode had already comes into use in its stead. -/
theorem Looking.aliases {other : Nat} (looking : Looking root used dentry parent name picture)
    (stands : Stands root dentry parent name picture) (live : other ∈ picture.live)
    (has : picture.inode other ≠ .null) (below : picture.below other = picture.below dentry) :
    Settled root (insert other used) (picture.aliases other dentry) := by
  have alone := looking.alone stands
  refine ⟨looking.settled.corresponds.aliases live looking.unused ?_ has ?_ ?_ ?_ ?_ ?_, ?_⟩
  · exact fun member => alone other member below
  · rw [looking.placed]
    exact looking.inside
  · rw [looking.placed]
    exact looking.positive
  · rw [below, looking.named]
    exact stands.named
  · rw [below, looking.placed]
    exact stands.placed
  · rw [below]
    exact alone
  · have waiting : Waiting used (picture.aliases other dentry) := looking.settled.waiting
    exact waiting.joins fun negative => absurd negative has

/-- A directory has no other lower dentry than this one. -/
def Single (isDirectory : LowerInode → Bool) (there : Nat) (picture : Picture) : Prop :=
  isDirectory (picture.lowerInode there) → ∀ entry ∈ picture.live,
    picture.lowerInode (picture.below entry) = picture.lowerInode there → picture.below entry = there

/-- Storing the path that a dentry has already keeps the aliasing condition. -/
theorem Single.holds {isDirectory : LowerInode → Bool} {path : LowerPath}
    (single : Single isDirectory path.dentry.address picture) :
    Single isDirectory path.dentry.address (picture.holds dentry path) := by
  intro directory entry live same
  by_cases here : entry = dentry
  · rw [here, Picture.holds_below]
  · rw [Picture.holds_below_ne here] at same ⊢
    exact single directory entry live same

/-- An inode taken from the cache leaves every lower dentry in place. -/
theorem Gets.sameBelow {lowerInode : LowerInode} {result : Except (BitVec 32) Inode}
    (gets : Gets picture after lowerInode result) (entry : Nat) : after.below entry = picture.below entry := by
  rw [gets.same, Picture.below, Picture.below]

/-- The dentry of a directory inode has the lower dentry that was found. -/
theorem Gets.below {isDirectory : LowerInode → Bool} {inode : Inode} {other : Nat}
    (gets : Gets picture after (picture.lowerInode there) (.ok inode)) (corresponds : Corresponds root used picture)
    (single : Single isDirectory there picture) (live : other ∈ after.live) (same : after.inode other = inode)
    (directory : isDirectory (after.owner inode)) : after.below other = there := by
  have owner := gets.owner inode rfl
  have positive := gets.positive inode rfl
  have lives : after.live = picture.live := by rw [gets.same]
  have inodes : after.inode = picture.inode := by rw [gets.same]
  have belows := gets.sameBelow other
  rw [lives] at live
  rw [inodes] at same
  have has : picture.inode other ≠ .null := by
    rw [same]
    exact positive
  obtain ⟨_, owned⟩ := corresponds.owners other live has
  have before : picture.owner inode = picture.lowerInode there := by
    rw [← owner, ← same]
    exact (gets.kept other live has).symm
  rw [owner] at directory
  rw [same, before] at owned
  rw [belows]
  exact single directory other live owned.symm

/-- The dentry gets private data without a lower path. -/
def Picture.prepares (picture : Picture) (dentry : Nat) : Picture :=
  { picture.holds dentry .unset with live := insert dentry picture.live }

/-- Preparing the private data of the looked-up dentry touches that dentry alone. -/
theorem Looking.prepares_elsewhere (looking : Looking root used dentry parent name picture) :
    Elsewhere dentry picture (picture.prepares dentry) := by
  have same := Elsewhere.refl looking.negative looking.dropped
  exact
    { same with
      live := fun other different => ⟨fun member => Finset.mem_of_mem_insert_of_ne member different,
        Finset.mem_insert_of_mem⟩
      lowerPath := fun _ different => Function.update_of_ne different _ _ }

/-- What an interposition leaves. After an error the dentry is still new. -/
def Interposed (root : Nat) (used : Finset Nat) (dentry parent : Nat) (name : CString) : Spliced → Picture → Prop
  | .error _, picture => Looking root used dentry parent name picture
  | spliced, picture => Settled root (spliced.enters dentry used) picture

/-- The lookup of a name keeps below the lower directory, which has the name in this spelling. -/
structure StaysBelow {W : Type} (env : TreeEnvironment W) (parent : Nat) (name : CString) (picture : Picture) :
    Prop where
  within : ∀ path, env.mountedOn (picture.below parent) name = some path →
    env.superBlock (picture.lowerInode path.dentry.address) ≠ picture.lowerSb ∨
      picture.lower.name path.dentry.address = name ∧
        picture.lower.parent path.dentry.address = picture.below parent
  alike : env.spelled (picture.below parent) name = name

/-- A change to one dentry leaves what stays below the other one. -/
theorem StaysBelow.elsewhere {W : Type} {env : TreeEnvironment W}
    (below : StaysBelow env parent name picture)
    (elsewhere : Elsewhere dentry picture after) (apart : parent ≠ dentry) : StaysBelow env parent name after := by
  constructor
  · rw [elsewhere.below apart, elsewhere.lower, elsewhere.lowerInode, elsewhere.lowerSb]
    exact below.within
  · rw [elsewhere.below apart]
    exact below.alike

end

end Trfs.Kernel
