import Trfs.Construction.Kernel.Dcache

namespace Trfs.Kernel
open Bytes Dentries Effect

/-- What matters of a mount for its dentries and those below. -/
structure Picture where
  live : Finset Nat
  lowerPath : Nat → LowerPath
  unhashed : Nat → Bool
  inode : Nat → Inode
  owner : Inode → LowerInode
  upper : Places Nat CString
  lower : Places Nat CString
  lowerInode : Nat → LowerInode
  lowerSb : Nat

/-- The lower dentry of a dentry. -/
def Picture.below (picture : Picture) (dentry : Nat) : Nat := (picture.lowerPath dentry).dentry.address

def Visible.picture {W : Type} (visible : Visible (Trees W)) (live : Finset Nat) : Picture where
  live := live
  lowerPath := visible.upper.lowerPath
  unhashed := visible.upper.unhashed
  inode := visible.upper.inode
  owner := visible.upper.lowerInode
  upper := visible.lower.upper
  lower := visible.lower.lower
  lowerInode := visible.lower.inode
  lowerSb := visible.lowerSb

def Mounted.picture {W : Type} (state : Mounted (Trees W)) : Picture := state.machine.visible.picture state.live

/-- The dentries in use mirror lower dentries. Those with an inode have the inode of their lower dentry. -/
structure Corresponds (root : Nat) (used : Finset Nat) (picture : Picture) : Prop where
  live : ∀ dentry ∈ used, dentry ∈ picture.live
  hashed : ∀ dentry, picture.unhashed dentry = false → dentry ∈ used ∧ picture.inode dentry ≠ .null
  mirrors : Mirrors root picture.upper picture.lower picture.below used
  parents : ∀ dentry ∈ used, dentry ≠ root → picture.inode (picture.upper.parent dentry) ≠ .null
  owners : ∀ dentry ∈ picture.live, picture.inode dentry ≠ .null →
    picture.lowerInode (picture.below dentry) ≠ .null ∧
      picture.owner (picture.inode dentry) = picture.lowerInode (picture.below dentry)
  unique : ∀ dentry ∈ picture.live, ∀ other ∈ picture.live, picture.inode dentry ≠ .null →
    picture.inode other ≠ .null → picture.owner (picture.inode dentry) = picture.owner (picture.inode other) →
      picture.inode dentry = picture.inode other

/-- A dentry in use without an inode has a lower dentry without one. -/
def Waiting (used : Finset Nat) (picture : Picture) : Prop :=
  ∀ dentry ∈ used, picture.inode dentry = .null → picture.lowerInode (picture.below dentry) = .null

section
variable {root : Nat} {used : Finset Nat} {picture : Picture} {dentry there : Nat} {inode : Inode}
  {lowerInode : LowerInode}

/-- A lower dentry gets its first inode. -/
def Picture.makes (picture : Picture) (there : Nat) (lowerInode : LowerInode) : Picture :=
  { picture with lowerInode := Function.update picture.lowerInode there lowerInode }

/-- An inode for a dentry that was negative keeps the correspondence. -/
theorem Corresponds.makes (corresponds : Corresponds root used picture)
    (negative : picture.lowerInode there = .null) :
    Corresponds root used (picture.makes there lowerInode) := by
  refine { corresponds with owners := ?_ }
  intro dentry live has
  obtain ⟨positive, owner⟩ := corresponds.owners dentry live has
  have apart : picture.below dentry ≠ there := by
    rintro rfl
    exact positive negative
  have same := Function.update_of_ne apart lowerInode picture.lowerInode
  exact ⟨fun null => positive (same.symm.trans null), owner.trans same.symm⟩

/-- All but the dentry whose lower object is made go on waiting. -/
theorem Waiting.makes (waiting : Waiting (used.erase dentry) picture) (corresponds : Corresponds root used picture)
    (member : dentry ∈ used) : Waiting (used.erase dentry) (picture.makes (picture.below dentry) lowerInode) := by
  intro other inside negative
  have different := Finset.ne_of_mem_erase inside
  have also := Finset.mem_of_mem_erase inside
  have apart : picture.below other ≠ picture.below dentry :=
    fun same => different (corresponds.mirrors.injective other also dentry member same)
  have same := Function.update_of_ne apart lowerInode picture.lowerInode
  exact same.trans (waiting other inside negative)

/-- The inodes that dentries have keep their lower inodes. -/
theorem Corresponds.reowned (corresponds : Corresponds root used picture) {owner : Inode → LowerInode}
    (kept : ∀ dentry ∈ picture.live, picture.inode dentry ≠ .null →
      owner (picture.inode dentry) = picture.owner (picture.inode dentry)) :
    Corresponds root used { picture with owner := owner } := by
  refine { corresponds with owners := ?_, unique := ?_ }
  · intro dentry live has
    obtain ⟨there, before⟩ := corresponds.owners dentry live has
    exact ⟨there, (kept dentry live has).trans before⟩
  · intro dentry live other also has hasToo same
    have before := (kept dentry live has).symm.trans (same.trans (kept other also hasToo))
    exact corresponds.unique dentry live other also has hasToo before

/-- A dentry gets its inode and is hashed. -/
def Picture.instantiates (picture : Picture) (dentry : Nat) (inode : Inode) : Picture :=
  { picture with
    inode := Function.update picture.inode dentry inode
    unhashed := Function.update picture.unhashed dentry false }

/-- Completing one dentry keeps the others positive. -/
theorem instantiates_inode (other : Nat) (has : picture.inode other ≠ .null) (positive : inode ≠ .null) :
    (picture.instantiates dentry inode).inode other ≠ .null := by
  change Function.update picture.inode dentry inode other ≠ .null
  rw [Function.update_apply]
  split
  · exact positive
  · exact has

/-- Completing a dentry with the inode of its lower one keeps the correspondence. -/
theorem Corresponds.instantiates (corresponds : Corresponds root used picture) (member : dentry ∈ used)
    (positive : inode ≠ .null) (has : picture.lowerInode (picture.below dentry) ≠ .null)
    (owner : picture.owner inode = picture.lowerInode (picture.below dentry))
    (only : ∀ other ∈ picture.live, picture.inode other ≠ .null →
      picture.owner (picture.inode other) = picture.lowerInode (picture.below dentry) → picture.inode other = inode) :
    Corresponds root used (picture.instantiates dentry inode) := by
  refine { corresponds with hashed := ?_, parents := ?_, owners := ?_, unique := ?_ }
  · intro other hashed
    unfold Picture.instantiates at hashed ⊢
    simp only [Function.update_apply] at hashed ⊢
    by_cases same : other = dentry
    · rw [if_pos same, same]
      exact ⟨member, positive⟩
    · rw [if_neg same] at hashed ⊢
      exact corresponds.hashed other hashed
  · intro other inside different
    exact instantiates_inode _ (corresponds.parents other inside different) positive
  · intro other live there
    unfold Picture.instantiates at there ⊢
    simp only [Function.update_apply] at there ⊢
    by_cases same : other = dentry
    · rw [if_pos same, same]
      exact ⟨has, owner⟩
    · rw [if_neg same] at there ⊢
      exact corresponds.owners other live there
  · intro first inFirst second inSecond hasFirst hasSecond
    unfold Picture.instantiates at hasFirst hasSecond ⊢
    simp only [Function.update_apply] at hasFirst hasSecond ⊢
    by_cases here : first = dentry
    · by_cases also : second = dentry
      · rw [if_pos here, if_pos also]
        exact fun _ => rfl
      · rw [if_neg also] at hasSecond
        rw [if_pos here, if_neg also, owner]
        exact fun same => (only second inSecond hasSecond same.symm).symm
    · rw [if_neg here] at hasFirst
      by_cases also : second = dentry
      · rw [if_neg here, if_pos also, owner]
        exact only first inFirst hasFirst
      · rw [if_neg also] at hasSecond
        rw [if_neg here, if_neg also]
        exact corresponds.unique first inFirst second inSecond hasFirst hasSecond

/-- Completing a dentry keeps the others waiting. -/
theorem Waiting.instantiates (waiting : Waiting used picture) (positive : inode ≠ .null) :
    Waiting used (picture.instantiates dentry inode) := by
  intro other inside negative
  have before : picture.inode other = .null := by
    by_contra has
    exact instantiates_inode other has positive negative
  exact waiting other inside before

/-- `d_drop` -/
def Picture.drops (picture : Picture) (dentry : Nat) : Picture :=
  { picture with unhashed := Function.update picture.unhashed dentry true }

/-- Dropping a dentry keeps the correspondence. -/
theorem Corresponds.drops (corresponds : Corresponds root used picture) :
    Corresponds root used (picture.drops dentry) := by
  refine { corresponds with hashed := ?_ }
  intro other hashed
  unfold Picture.drops at hashed
  simp only [Function.update_apply] at hashed
  split at hashed
  · cases hashed
  · exact corresponds.hashed other hashed

/-- A dentry that is not hashed and has nothing below it goes out of use. -/
theorem Corresponds.erase (corresponds : Corresponds root used picture) (other : dentry ≠ root)
    (unhashed : picture.unhashed dentry = true)
    (childless : ∀ child ∈ used, child ≠ root → picture.upper.parent child ≠ dentry) :
    Corresponds root (used.erase dentry) picture where
  live child member := corresponds.live child (Finset.mem_of_mem_erase member)
  hashed child hashed := by
    obtain ⟨member, has⟩ := corresponds.hashed child hashed
    have different : child ≠ dentry := by
      rintro rfl
      rw [unhashed] at hashed
      cases hashed
    exact ⟨Finset.mem_erase.mpr ⟨different, member⟩, has⟩
  mirrors := corresponds.mirrors.erase other childless
  parents child member := corresponds.parents child (Finset.mem_of_mem_erase member)
  owners := corresponds.owners
  unique := corresponds.unique

/-- A smaller set of dentries waits too. -/
theorem Waiting.erase (waiting : Waiting used picture) : Waiting (used.erase dentry) picture :=
  fun other member => waiting other (Finset.mem_of_mem_erase member)

/-- A dentry with an inode does not wait. -/
theorem Waiting.of_erase (waiting : Waiting (used.erase dentry) picture)
    (has : picture.inode dentry ≠ .null) : Waiting used picture := by
  intro other member negative
  have different : other ≠ dentry := by
    rintro rfl
    exact has negative
  exact waiting other (Finset.mem_erase.mpr ⟨different, member⟩) negative

/-- The pictures differ at one dentry only, which is negative and not hashed in the second one. -/
structure Elsewhere (dentry : Nat) (before after : Picture) : Prop where
  live : ∀ other, other ≠ dentry → (other ∈ after.live ↔ other ∈ before.live)
  lowerPath : ∀ other, other ≠ dentry → after.lowerPath other = before.lowerPath other
  unhashed : ∀ other, other ≠ dentry → after.unhashed other = before.unhashed other
  inode : ∀ other, other ≠ dentry → after.inode other = before.inode other
  name : ∀ other, other ≠ dentry → after.upper.name other = before.upper.name other
  parent : ∀ other, other ≠ dentry → after.upper.parent other = before.upper.parent other
  owner : after.owner = before.owner
  lower : after.lower = before.lower
  lowerInode : after.lowerInode = before.lowerInode
  lowerSb : after.lowerSb = before.lowerSb
  negative : after.inode dentry = .null
  dropped : after.unhashed dentry = true

variable {after : Picture}

/-- What lies below the other dentries stays. -/
theorem Elsewhere.below (elsewhere : Elsewhere dentry picture after) {other : Nat} (different : other ≠ dentry) :
    after.below other = picture.below other := by
  rw [Picture.below, elsewhere.lowerPath other different, Picture.below]

/-- What happens to a dentry that is not in use does not matter. -/
theorem Corresponds.elsewhere (corresponds : Corresponds root used picture) (unused : dentry ∉ used)
    (elsewhere : Elsewhere dentry picture after) : Corresponds root used after := by
  have apart : ∀ other ∈ used, other ≠ dentry := by
    rintro other inside rfl
    exact unused inside
  have settled : ∀ other, after.inode other ≠ .null → other ≠ dentry := by
    rintro other has rfl
    exact has elsewhere.negative
  constructor
  · intro other inside
    exact (elsewhere.live other (apart other inside)).mpr (corresponds.live other inside)
  · intro other hashed
    have different : other ≠ dentry := by
      rintro rfl
      rw [elsewhere.dropped] at hashed
      cases hashed
    rw [elsewhere.unhashed other different] at hashed
    rw [elsewhere.inode other different]
    exact corresponds.hashed other hashed
  · apply corresponds.mirrors.congr
    · intro other inside
      exact ⟨elsewhere.name other (apart other inside), elsewhere.parent other (apart other inside)⟩
    · intro other inside
      exact elsewhere.below (apart other inside)
    · intro other inside
      rw [elsewhere.lower]
      exact ⟨rfl, rfl⟩
  · intro other inside different
    have above := corresponds.mirrors.closed other inside different
    rw [elsewhere.parent other (apart other inside), elsewhere.inode _ (apart _ above)]
    exact corresponds.parents other inside different
  · intro other live has
    have different := settled other has
    rw [elsewhere.inode other different] at has
    rw [elsewhere.below different, elsewhere.inode other different, elsewhere.lowerInode, elsewhere.owner]
    exact corresponds.owners other ((elsewhere.live other different).mp live) has
  · intro first inFirst second inSecond hasFirst hasSecond
    have one := settled first hasFirst
    have two := settled second hasSecond
    rw [elsewhere.inode first one] at hasFirst ⊢
    rw [elsewhere.inode second two] at hasSecond ⊢
    rw [elsewhere.owner]
    exact corresponds.unique first ((elsewhere.live first one).mp inFirst) second
      ((elsewhere.live second two).mp inSecond) hasFirst hasSecond

/-- A change to an unused dentry keeps the used ones waiting. -/
theorem Waiting.elsewhere (waiting : Waiting used picture) (unused : dentry ∉ used)
    (elsewhere : Elsewhere dentry picture after) : Waiting used after := by
  intro other inside negative
  have different : other ≠ dentry := by
    rintro rfl
    exact unused inside
  rw [elsewhere.inode other different] at negative
  rw [elsewhere.below different, elsewhere.lowerInode]
  exact waiting other inside negative

/-- A lower dentry comes to its place. -/
def Picture.places (picture : Picture) (there dir : Nat) (name : CString) (lowerInode : LowerInode) : Picture :=
  { picture with
    lower := picture.lower.put there dir name
    lowerInode := Function.update picture.lowerInode there lowerInode }

variable {dir : Nat} {name : CString}

/-- A lower dentry that nobody refers to does not matter. -/
theorem Corresponds.places (corresponds : Corresponds root used picture)
    (free : ∀ dentry ∈ picture.live, picture.below dentry ≠ there) :
    Corresponds root used (picture.places there dir name lowerInode) := by
  refine { corresponds with mirrors := ?_, owners := ?_ }
  · apply corresponds.mirrors.congr
    · exact fun _ _ => ⟨rfl, rfl⟩
    · exact fun _ _ => rfl
    · intro other inside
      have apart := free other (corresponds.live other inside)
      exact ⟨Function.update_of_ne apart _ _, Function.update_of_ne apart _ _⟩
  · intro other live has
    obtain ⟨positive, owner⟩ := corresponds.owners other live has
    have same := Function.update_of_ne (free other live) lowerInode picture.lowerInode
    exact ⟨fun null => positive (same.symm.trans null), owner.trans same.symm⟩

/-- A new lower dentry keeps the used ones waiting. -/
theorem Waiting.places (waiting : Waiting used picture) (corresponds : Corresponds root used picture)
    (free : ∀ dentry ∈ picture.live, picture.below dentry ≠ there) :
    Waiting used (picture.places there dir name lowerInode) := by
  intro other inside negative
  have same := Function.update_of_ne (free other (corresponds.live other inside)) lowerInode picture.lowerInode
  exact same.trans (waiting other inside negative)

/-- A dentry comes into use at the place of its lower dentry. -/
theorem Corresponds.joins (corresponds : Corresponds root used picture) (live : dentry ∈ picture.live)
    (inside : picture.upper.parent dentry ∈ used) (positive : picture.inode (picture.upper.parent dentry) ≠ .null)
    (named : picture.lower.name (picture.below dentry) = picture.upper.name dentry)
    (placed : picture.lower.parent (picture.below dentry) = picture.below (picture.upper.parent dentry))
    (alone : ∀ other ∈ used, picture.below other ≠ picture.below dentry) :
    Corresponds root (insert dentry used) picture where
  live other member := by
    rcases Finset.mem_insert.mp member with rfl | member
    · exact live
    · exact corresponds.live other member
  hashed other hashed := by
    obtain ⟨member, has⟩ := corresponds.hashed other hashed
    exact ⟨Finset.mem_insert_of_mem member, has⟩
  mirrors := corresponds.mirrors.insert inside named placed fun other member same => absurd same (alone other member)
  parents other member different := by
    rcases Finset.mem_insert.mp member with rfl | member
    · exact positive
    · exact corresponds.parents other member different
  owners := corresponds.owners
  unique := corresponds.unique

/-- A dentry that is not in use moves to the place of another one and is hashed. -/
def Picture.aliases (picture : Picture) (other dentry : Nat) : Picture :=
  { picture with
    upper := picture.upper.move other dentry
    unhashed := Function.update picture.unhashed other false }

variable {other : Nat}

/-- A dentry that is spliced in for an unused one joins the used ones. -/
theorem Corresponds.aliases (corresponds : Corresponds root used picture) (live : other ∈ picture.live)
    (unused : dentry ∉ used) (free : other ∉ used) (has : picture.inode other ≠ .null)
    (inside : picture.upper.parent dentry ∈ used) (positive : picture.inode (picture.upper.parent dentry) ≠ .null)
    (named : picture.lower.name (picture.below other) = picture.upper.name dentry)
    (placed : picture.lower.parent (picture.below other) = picture.below (picture.upper.parent dentry))
    (alone : ∀ entry ∈ used, picture.below entry ≠ picture.below other) :
    Corresponds root (insert other used) (picture.aliases other dentry) := by
  have parents : ∀ entry ∈ used, (picture.upper.move other dentry).parent entry = picture.upper.parent entry := by
    intro entry member
    have one : entry ≠ other := fun same => free (same ▸ member)
    have two : entry ≠ dentry := fun same => unused (same ▸ member)
    exact (Function.update_of_ne one _ _).trans (Function.update_of_ne two _ _)
  have names : ∀ entry ∈ used, (picture.upper.move other dentry).name entry = picture.upper.name entry := by
    intro entry member
    have one : entry ≠ other := fun same => free (same ▸ member)
    exact Function.update_of_ne one _ _
  have moved : (picture.upper.move other dentry).parent other = picture.upper.parent dentry :=
    Function.update_self _ _ _
  have renamed : (picture.upper.move other dentry).name other = picture.upper.name dentry :=
    Function.update_self _ _ _
  have kept : Mirrors root (picture.upper.move other dentry) picture.lower picture.below used :=
    corresponds.mirrors.congr (fun entry member => ⟨names entry member, parents entry member⟩) (fun _ _ => rfl)
      fun _ _ => ⟨rfl, rfl⟩
  refine ⟨?_, ?_, ?_, ?_, corresponds.owners, corresponds.unique⟩
  · intro entry member
    rcases Finset.mem_insert.mp member with rfl | member
    · exact live
    · exact corresponds.live entry member
  · intro entry hashed
    by_cases same : entry = other
    · rw [same]
      exact ⟨Finset.mem_insert_self _ _, has⟩
    · have before : picture.unhashed entry = false := (Function.update_of_ne same _ _).symm.trans hashed
      obtain ⟨member, positive⟩ := corresponds.hashed entry before
      exact ⟨Finset.mem_insert_of_mem member, positive⟩
  · apply kept.insert
    · rw [moved]
      exact inside
    · exact named.trans renamed.symm
    · rw [moved]
      exact placed
    · exact fun entry member same => absurd same (alone entry member)
  · intro entry member different
    change picture.inode ((picture.upper.move other dentry).parent entry) ≠ .null
    rcases Finset.mem_insert.mp member with rfl | member
    · rw [moved]
      exact positive
    · rw [parents entry member]
      exact corresponds.parents entry member different

/-- A dentry that waits itself joins the used ones. -/
theorem Waiting.joins (waiting : Waiting used picture)
    (negative : picture.inode dentry = .null → picture.lowerInode (picture.below dentry) = .null) :
    Waiting (insert dentry used) picture := by
  intro other member none
  rcases Finset.mem_insert.mp member with rfl | member
  · exact negative none
  · exact waiting other member none

variable {old new : Nat}

/-- `d_move` in both trees after a rename. -/
def Picture.renames (picture : Picture) (old new : Nat) : Picture :=
  { picture with
    upper := picture.upper.move old new
    lower := picture.lower.move (picture.below old) (picture.below new)
    unhashed := Function.update (Function.update picture.unhashed old false) new true }

/-- A rename of both levels keeps the correspondence. -/
theorem Corresponds.renames (corresponds : Corresponds root used picture) (first : old ∈ used) (second : new ∈ used)
    (oldRoot : old ≠ root) (newRoot : new ≠ root) (has : picture.inode old ≠ .null) :
    Corresponds root used (picture.renames old new) := by
  refine { corresponds with
    hashed := ?_
    mirrors := corresponds.mirrors.move first second oldRoot newRoot
    parents := ?_ }
  · intro entry hashed
    change Function.update (Function.update picture.unhashed old false) new true entry = false at hashed
    simp only [Function.update_apply] at hashed
    split at hashed
    · cases hashed
    · by_cases same : entry = old
      · rw [same]
        exact ⟨first, has⟩
      · rw [if_neg same] at hashed
        exact corresponds.hashed entry hashed
  · intro entry member different
    change picture.inode (Function.update (Function.update picture.upper.parent new (picture.upper.parent old)) old
      (picture.upper.parent new) entry) ≠ .null
    simp only [Function.update_apply]
    split
    · exact corresponds.parents new second newRoot
    · split
      · exact corresponds.parents old first oldRoot
      · exact corresponds.parents entry member different

/-- A dentry and its lower dentry have different files below them than another one and its lower dentry. -/
theorem Corresponds.distinct (corresponds : Corresponds root used picture) (waiting : Waiting used picture)
    (first : old ∈ used) (second : new ∈ used) (has : picture.inode old ≠ .null)
    (different : picture.inode old ≠ picture.inode new) :
    picture.lowerInode (picture.below old) ≠ picture.lowerInode (picture.below new) := by
  obtain ⟨positive, owner⟩ := corresponds.owners old (corresponds.live old first) has
  intro same
  by_cases negative : picture.inode new = .null
  · exact positive (same.trans (waiting new second negative))
  · obtain ⟨_, also⟩ := corresponds.owners new (corresponds.live new second) negative
    exact different (corresponds.unique old (corresponds.live old first) new (corresponds.live new second) has
      negative (owner.trans (same.trans also.symm)))

end

end Trfs.Kernel
