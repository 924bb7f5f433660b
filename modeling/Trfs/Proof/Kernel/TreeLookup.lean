import Trfs.Proof.Kernel.LookupCalls
import Trfs.Proof.Kernel.TreeOperations

namespace Trfs.Kernel
open Bytes Dentries Effect

section
variable {W : Type} {env : TreeEnvironment W} {helpers : Helpers} {state : Mounted (Trees W)} {dentry : Dentry}
  {used : Finset Nat} {parent : Nat} {name : CString}

/-- `d_splice_alias` brings the looked up dentry into use, or the one that the directory has already. -/
theorem splice_settles {inode : Inode} {before : Picture}
    (looking : Looking env.root used dentry.address parent name before)
    (stands : Stands env.root dentry.address parent name before)
    (single : Single env.isDirectory (before.below dentry.address) before)
    (present : before.lowerInode (before.below dentry.address) ≠ .null)
    (gets : Gets before state.picture (before.lowerInode (before.below dentry.address)) (.ok inode)) :
    (vfs (.dSpliceAlias inode dentry)).Ensures (handleTree env helpers) blind (fun spliced after _ =>
      Interposed env.root used dentry.address parent name spliced after.picture) state () := by
  rw [← Program.bind_pure (vfs (.dSpliceAlias inode dentry))]
  apply spliceAlias_ensures
  · intro after spliced
    change Settled _ _ _
    rw [spliced]
    exact looking.instantiates stands gets present
  · intro other after live has directory spliced
    change Settled _ _ _
    rw [spliced]
    have positive : state.picture.inode other.address ≠ .null := by
      rw [has]
      exact gets.positive inode rfl
    have below := gets.below looking.settled.corresponds single live has directory
    rw [← gets.sameBelow] at below
    exact (gets.looking looking).aliases (gets.stands stands) live positive below
  · intro errno after failed
    change Looking _ _ _ _ _ _
    rw [failed]
    exact gets.looking looking

/-- Interposition over a lower dentry that stays in place settles the lookup. -/
theorem interpose_settles {path : LowerPath}
    (looking : Looking env.root used dentry.address parent name state.picture)
    (own : state.picture.below dentry.address = path.dentry.address)
    (single : Single env.isDirectory path.dentry.address state.picture)
    (stays : env.superBlock (state.picture.lowerInode path.dentry.address) ≠ state.picture.lowerSb ∨
      Stands env.root dentry.address parent name state.picture) :
    (interpose dentry path).Ensures (handleTree env helpers) blind (fun spliced after _ =>
      Interposed env.root used dentry.address parent name spliced after.picture) state () := by
  unfold interpose
  apply kernelPart_ensures
  rw [← (lowerDInode path.dentry).bind_pure]
  apply belowInode_ensures
  intro first one
  apply kernelPart_ensures
  rw [← (upper .lowerSuper).bind_pure]
  apply lowerSuper_ensures
  intro second two
  apply kernelPart_ensures
  rw [← (lower (.superBlock _)).bind_pure]
  apply superBlock_ensures
  intro third present three
  have same : third.picture = state.picture := three.trans (two.trans one)
  change (if env.superBlock _ ≠ _ then pure (.error _) else _ : MountProg Spliced).Ensures _ _ _ _ _
  rw [one]
  split
  · change Looking env.root used dentry.address parent name third.picture
    rw [same]
    exact looking
  · rename_i within
    apply kernelPart_ensures
    rw [← (trfsIget _).bind_pure]
    apply iget_ensures
    intro result fourth gets
    rw [← own] at single present
    rw [same, ← own] at gets
    cases result with
    | error err => exact gets.looking looking
    | ok inode => exact splice_settles looking (stays.resolve_left within) single present gets

/-- A negative lower dentry settles the lookup. -/
theorem setupLower_settles {there : LowerDentry} {mnt : Nat}
    (looking : Looking env.root used dentry.address parent name state.picture)
    (named : state.picture.lower.name there.address = name)
    (placed : state.picture.lower.parent there.address = state.picture.below parent)
    (notRoot : there.address ≠ state.picture.below env.root)
    (negative : state.picture.lowerInode there.address = .null) :
    (setupLower dentry there mnt).Ensures (handleTree env helpers) blind (fun spliced after _ =>
      Settled env.root (spliced.enters dentry.address used) after.picture) state () := by
  unfold setupLower
  apply vfsStill_ensures (c := .mntget mnt) trivial
  intro first one
  apply setLowerPath_ensures
  intro second live two
  rw [one] at live two
  change Settled env.root (insert dentry.address used) second.picture
  rw [two]
  apply looking.holds.negatives (looking.stands live named placed notRoot)
  rw [Picture.holds_below]
  exact negative

section
variable {before after : Picture} {path : LowerPath}

/-- What is found changes no lower path. -/
theorem Finds.lowerPath {dir : Nat} (finds : Finds env before after dir name path) :
    after.lowerPath = before.lowerPath := by
  rcases finds.placed with rfl | ⟨_, lowerInode, rfl⟩
  · rfl
  · rfl

/-- What is found stays below its parent, or the lower superblock differs. -/
theorem Finds.stays (finds : Finds env before after (before.below parent) name path)
    (below : StaysBelow env parent name before) :
    env.superBlock (after.lowerInode path.dentry.address) ≠ after.lowerSb ∨
      after.lower.name path.dentry.address = name ∧ after.lower.parent path.dentry.address = after.below parent := by
  have same : after.below parent = before.below parent := by
    rw [Picture.below, finds.lowerPath, Picture.below]
  rw [same]
  rcases finds.here with ⟨mounted, rfl⟩ | here
  · exact below.within path mounted
  · exact .inr here

/-- What is found keeps the conditions of a lookup. -/
theorem Finds.looking {dir : Nat} (finds : Finds env before after dir name path)
    (looking : Looking env.root used dentry.address parent name before) :
    Looking env.root used dentry.address parent name after := by
  rcases finds.placed with rfl | ⟨free, lowerInode, rfl⟩
  · exact looking
  · exact looking.places free

end

/-- An error takes the lower path from the dentry again. -/
theorem putReset_settles {errno : Errno}
    (looking : Looking env.root used dentry.address parent name state.picture) :
    (trfsPutResetPath dentry >>= fun _ => pure (Spliced.error errno)).Ensures (handleTree env helpers) blind
      (fun spliced after _ => Settled env.root (spliced.enters dentry.address used) after.picture) state () := by
  apply takeLowerPath_ensures
  intro path first one
  apply kernelStill_ensures (program_still (.lower (.pathPut path)) trivial)
  intro _ second two
  change Settled env.root used second.picture
  rw [two, one]
  exact looking.holds.settled

/-- A path that was found is held, and its inode comes to the dentry or the path goes again. -/
theorem found_settles {before : Picture} {path : LowerPath}
    (looking : Looking env.root used dentry.address parent name before) (below : StaysBelow env parent name before)
    (finds : Finds env before state.picture (before.below parent) name path) :
    (vfs (.setLowerPath dentry path) >>= fun _ => interpose dentry path >>= fun spliced =>
      match spliced with
      | .error errno => trfsPutResetPath dentry >>= fun _ => pure (Spliced.error errno)
      | spliced => pure spliced).Ensures (handleTree env helpers) blind (fun spliced after _ =>
        Settled env.root (spliced.enters dentry.address used) after.picture) state () := by
  apply setLowerPath_ensures
  intro first live one
  have found := finds.looking looking
  have stays : env.superBlock (first.picture.lowerInode path.dentry.address) ≠ first.picture.lowerSb ∨
      Stands env.root dentry.address parent name first.picture := by
    rw [one]
    rcases finds.stays below with crossed | ⟨named, placed⟩
    · exact .inl crossed
    · have sameDir : state.picture.below parent = before.below parent := by
        rw [Picture.below, finds.lowerPath, Picture.below]
      exact .inr (found.stands live named placed (finds.child named (placed.trans sameDir)))
  have holds : Looking env.root used dentry.address parent name first.picture := by
    rw [one]
    exact found.holds
  have single : Single env.isDirectory path.dentry.address first.picture := by
    rw [one]
    exact Single.holds finds.directory
  have held : first.picture.below dentry.address = path.dentry.address := by
    rw [one, Picture.holds_below]
  rw [Program.ensures_bind]
  apply Program.Ensures.mono _ (interpose_settles holds held single stays)
  rintro (_ | other | errno) second _ result
  · exact result
  · exact result
  · exact putReset_settles result

/-- `d_alloc` makes a negative lower dentry for a name that is not in the directory. -/
theorem alloc_settles {dirPath : LowerPath} {next : Option LowerDentry → MountProg Spliced}
    (looking : Looking env.root used dentry.address parent name state.picture)
    (own : dirPath.dentry.address = state.picture.below parent) (failed : next none = pure (.error (errorOf ENOMEM)))
    (made : ∀ there, next (some there) = vfs (.dAdd there) >>= fun _ => setupLower dentry there dirPath.mnt) :
    (vfs (.dAlloc dirPath.dentry name) >>= next).Ensures (handleTree env helpers) blind (fun spliced after _ =>
      Settled env.root (spliced.enters dentry.address used) after.picture) state () := by
  apply dAlloc_ensures
  · intro there first free one
    rw [made]
    apply vfsStill_ensures (c := .dAdd there) trivial
    intro second two
    rw [one] at two
    have places : Looking env.root used dentry.address parent name
        (state.picture.places there.address dirPath.dentry.address name .null) := looking.places free
    have corresponds := looking.settled.corresponds
    have notRoot : there.address ≠ state.picture.below env.root :=
      (free env.root (corresponds.live env.root corresponds.mirrors.top)).symm
    rw [← two] at places
    apply setupLower_settles places
    · rw [two]
      exact Function.update_self _ _ _
    · rw [two]
      exact (Function.update_self _ _ _).trans own
    · rw [two]
      exact notRoot
    · rw [two]
      exact Function.update_self _ _ _
  · intro first one
    rw [failed]
    change Settled env.root used first.picture
    rw [one]
    exact looking.settled

/-- The lookup below settles. -/
theorem lookupBelow_settles {dirPath : LowerPath}
    (looking : Looking env.root used dentry.address parent name state.picture)
    (own : dirPath.dentry.address = state.picture.below parent) (below : StaysBelow env parent name state.picture) :
    (lookupBelow dentry dirPath).Ensures (handleTree env helpers) blind (fun spliced after _ =>
      Settled env.root (spliced.enters dentry.address used) after.picture) state () := by
  unfold lookupBelow
  apply vfsStill_ensures (c := .isRoot dentry) trivial
  intro first one
  have inner : ¬ state.picture.upper.parent dentry.address = dentry.address := by
    rw [looking.placed]
    exact looking.apart
  change (if decide (state.picture.upper.parent dentry.address = dentry.address) then _ else _ :
    MountProg Spliced).Ensures _ _ _ _ _
  rw [decide_eq_false inner, if_neg (by decide)]
  apply vfsStill_ensures (c := .dName dentry) trivial
  intro second two
  have named : (treeVfs env (.dName dentry) first.trees).1 = name :=
    (congrArg (fun picture => picture.upper.name dentry.address) one).trans looking.named
  rw [named]
  rw [← two.trans one] at looking own below
  have alike : env.spelled dirPath.dentry.address name = name := by
    rw [own]
    exact below.alike
  apply pathLookup_ensures alike
  · intro path third finds
    rw [own] at finds
    exact found_settles looking below finds
  · intro errno third three
    rw [← three] at looking own
    change (if _ then pure (.error errno) else _ : MountProg Spliced).Ensures _ _ _ _ _
    split
    · exact looking.settled
    · apply dLookup_ensures alike
      · intro there fourth four notRoot named placed negative
        rw [← four] at looking notRoot named placed negative own
        exact setupLower_settles looking named (placed.trans own) notRoot negative
      · intro fourth four
        rw [← four] at looking own
        exact alloc_settles looking own rfl fun _ => rfl

/-- Copying the attributes after a lookup keeps the picture. -/
theorem copyLooked_still (dentry parent : Dentry) : (copyLooked dentry parent).Calls Still := by
  have times (inode : Inode) : (upper (.lowerInode inode) >>= fun lowerInode =>
      fsstackCopyAttrTimes inode lowerInode).Calls Still := ⟨trivial, fun _ => fsstackCopy_still _ _ _⟩
  have atime (dir : Inode) : (upper (.lowerInode dir) >>= fun lowerDir =>
      fsstackCopyAttrAtime dir lowerDir).Calls Still := ⟨trivial, fun _ => fsstackCopy_still _ _ _⟩
  exact ⟨trivial, fun inode => (runIf_still (times inode)).bind fun _ => ⟨trivial, atime⟩⟩

/-- The end of a lookup leaves the trees as they are. -/
theorem leaveLookup_settles {parentDentry : Dentry} {path : LowerPath} {spliced : Spliced}
    (settled : Settled env.root (spliced.enters dentry.address used) state.picture) :
    (kernel (trfsPutLowerPath path) >>= fun _ => vfs (.dput parentDentry) >>= fun _ => pure spliced).Ensures
      (handleTree env helpers) blind (fun spliced after _ =>
        Settled env.root (spliced.enters dentry.address used) after.picture) state () := by
  apply kernelStill_ensures (program_still (.lower (.pathPut _)) trivial)
  intro _ first one
  apply vfsStill_ensures (c := .dput _) trivial
  intro second two
  change Settled _ _ second.picture
  rw [two, one]
  exact settled

/-- A lookup that stays below the lower directory keeps the correspondence of the dentries in use. -/
theorem trfsLookup_settles (looking : Looking env.root used dentry.address parent name state.picture)
    (below : StaysBelow env parent name state.picture) :
    (trfsLookup dentry).Ensures (handleTree env helpers) blind (fun spliced after _ =>
      Settled env.root (spliced.enters dentry.address used) after.picture) state () := by
  unfold trfsLookup
  apply vfsStill_ensures (c := .dgetParent dentry) trivial
  intro first one
  apply kernelPart_ensures
  rw [← (trfsGetLowerPath _).bind_pure]
  apply lowerPath_ensures
  intro second two
  have same := two.trans one
  have above : (treeVfs env (.dgetParent dentry) state.trees).1.address = parent := looking.placed
  rw [one, above]
  rw [← same] at looking below
  apply newPrivateData_ensures
  · intro third three
    have elsewhere := looking.prepares_elsewhere
    rw [← three] at elsewhere
    have own : (state.picture.lowerPath parent).dentry.address = third.picture.below parent := by
      rw [elsewhere.below looking.apart, same]
      rfl
    have upper : third.picture.upper = second.picture.upper := by
      rw [three]
      rfl
    change (lookupBelow dentry _ >>= _).Ensures _ _ _ _ _
    rw [Program.ensures_bind]
    apply Program.Ensures.mono _ (lookupBelow_settles (looking.elsewhere elsewhere upper) own
      (below.elsewhere elsewhere looking.apart))
    rintro (_ | other | errno) fourth _ settled
    · apply kernelStill_ensures (copyLooked_still _ _)
      intro _ fifth five
      rw [← five] at settled
      exact leaveLookup_settles settled
    · apply kernelStill_ensures (copyLooked_still _ _)
      intro _ fifth five
      rw [← five] at settled
      exact leaveLookup_settles settled
    · exact leaveLookup_settles settled
  · intro third three
    have settled : Settled env.root ((Spliced.error (errorOf ENOMEM)).enters dentry.address used) third.picture := by
      rw [three]
      exact looking.settled
    exact leaveLookup_settles settled

end

end Trfs.Kernel
