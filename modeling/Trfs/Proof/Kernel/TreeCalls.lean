import Trfs.Library.Ensures
import Trfs.Proof.Kernel.Corresponding
import Trfs.Proof.Kernel.Hidden
import Trfs.Proof.Kernel.Operations

namespace Trfs.Kernel
open Bytes Dentries Effect

/-- The calls that leave the dentries, their inodes and their places as they are. -/
def Still : Call → Prop
  | .lower (.vfsCreate ..) | .lower (.vfsLink ..) | .lower (.vfsSymlink ..) | .lower (.vfsMkdir ..)
  | .lower (.vfsMknod ..) | .lower (.vfsRename ..) | .upper (.dDrop _) | .upper (.setLowerInode ..)
  | .upper (.dSpliceAlias ..) => False
  | _ => True

/-- A hidden call keeps the picture. -/
theorem Hidden.still (c : Call) (hidden : Hidden c) : Still c := by
  cases c with
  | upper c => cases c <;> first | exact hidden.elim | trivial
  | lower c => exact hidden.elim
  | _ => trivial

/-- Freeing a buffer keeps the picture. -/
theorem IsKfree.still (c : Call) (kfree : IsKfree c) : Still c := by
  cases c with
  | upper c => exact kfree.elim
  | lower c => exact kfree.elim
  | _ => trivial

section
variable {W : Type} {env : TreeEnvironment W} {helpers : Helpers} {state after : Mounted (Trees W)} {α β : Type}

/-- The calls of the other files on the dentries. -/
def treeCall (env : TreeEnvironment W) (helpers : Helpers) : Handler Call.Reply (Mounted (Trees W)) :=
  fun c => handleTree env helpers (.kernel c)

/-- An answered call of a request is the answer of the mount, settled, under the law of the lower tree. -/
theorem handleTree_eq_some {c : MountCall} {reply : c.Reply}
    (answered : handleTree env helpers c state = some (reply, after)) :
    ∃ reached, handleMount (treeEnv env) helpers c state = some (reply, reached) ∧
      after = reached.settle env c reply ∧ lawful env state after c reply = true := by
  obtain ⟨⟨given, reached⟩, handled, settled⟩ := Option.bind_eq_some_iff.mp answered
  dsimp only at settled
  by_cases allowed : lawful env state (reached.settle env c given) c given = true
  · rw [if_pos allowed] at settled
    obtain ⟨rfl, rfl⟩ := Prod.mk.inj (Option.some.inj settled)
    exact ⟨reached, handled, rfl, allowed⟩
  · rw [if_neg allowed] at settled
    cases settled

/-- An answered call of a program is the answer of the kernel under the law of the lower tree. -/
theorem treeCall_eq_some {c : Call} {reply : c.Reply}
    (answered : treeCall env helpers c state = some (reply, after)) :
    handleOwned (treeEnv env).toEnvironment helpers c state = some (reply, after) ∧
      lawful env state after (.kernel c) reply = true := by
  obtain ⟨reached, handled, rfl, allowed⟩ := handleTree_eq_some answered
  exact ⟨handled, allowed⟩

/-- The lower calls that make no name and move none keep the places and the inodes. -/
theorem treeLower_still (env : TreeEnvironment W) {c : LowerCall} (still : Still (.lower c)) (trees : Trees W) :
    (treeLower env c trees).2.upper = trees.upper ∧ (treeLower env c trees).2.lower = trees.lower ∧
      (treeLower env c trees).2.inode = trees.inode := by
  cases c with
  | vfsCreate => exact still.elim
  | vfsLink => exact still.elim
  | vfsSymlink => exact still.elim
  | vfsMkdir => exact still.elim
  | vfsMknod => exact still.elim
  | vfsRename => exact still.elim
  | vfsUnlink => simp only [treeLower, Trees.afterLower]; split <;> exact ⟨rfl, rfl, rfl⟩
  | vfsRmdir => simp only [treeLower, Trees.afterLower]; split <;> exact ⟨rfl, rfl, rfl⟩
  | _ => exact ⟨rfl, rfl, rfl⟩

/-- The lower state of a still call has the same places and inodes. -/
theorem picture_setLower (state : Mounted (Trees W)) {trees : Trees W} (upper : trees.upper = state.trees.upper)
    (lower : trees.lower = state.trees.lower) (inode : trees.inode = state.trees.inode) :
    (state.setLower trees).picture = state.picture := by
  change Picture.mk _ _ _ _ _ trees.upper trees.lower trees.inode _ = _
  rw [upper, lower, inode]
  rfl

/-- A still call of the upper level answers with the picture it found. -/
theorem answer_still {c : UpperCall} (still : Still (.upper c)) (visible : Visible (Trees W)) (live : Finset Nat) :
    (visible.answer (treeEnv env).toEnvironment c).2.picture live = visible.picture live := by
  cases c with
  | dDrop => exact still.elim
  | setLowerInode => exact still.elim
  | dSpliceAlias => exact still.elim
  | _ => rfl

/-- A call on the objects of the mount faults, or it changes them at most as its answer says. -/
theorem handleOwned_upper {c : UpperCall} {reply : c.Reply}
    (answered : handleOwned (treeEnv env).toEnvironment helpers (.upper c) state = some (reply, after)) :
    after.live = state.live ∧ (after = state ∨
      after.machine.visible = (state.machine.visible.answer (treeEnv env).toEnvironment c).2) := by
  cases c with
  | lock inodes =>
      simp only [handleOwned] at answered
      split at answered
      · cases answered
      · obtain ⟨_, rfl⟩ := Prod.mk.inj (Option.some.inj answered)
        exact ⟨rfl, .inl rfl⟩
  | lowerPath dentry =>
      simp only [handleOwned] at answered
      split at answered
      · obtain ⟨_, rfl⟩ := Prod.mk.inj (Option.some.inj answered)
        exact ⟨rfl, .inl rfl⟩
      · cases answered
  | lowerFile file =>
      simp only [handleOwned] at answered
      split at answered
      · obtain ⟨_, rfl⟩ := Prod.mk.inj (Option.some.inj answered)
        exact ⟨rfl, .inl rfl⟩
      · cases answered
  | setLowerFile file value =>
      simp only [handleOwned] at answered
      split at answered
      · obtain ⟨_, rfl⟩ := Prod.mk.inj (Option.some.inj answered)
        exact ⟨rfl, .inr rfl⟩
      · cases answered
  | _ =>
      obtain ⟨_, rfl⟩ := Prod.mk.inj (Option.some.inj answered)
      exact ⟨rfl, .inr rfl⟩

/-- A still call keeps the picture. -/
theorem still_answered {c : Call} (still : Still c) {reply : c.Reply}
    (answered : treeCall env helpers c state = some (reply, after)) : after.picture = state.picture := by
  obtain ⟨answered, _⟩ := treeCall_eq_some answered
  cases c with
  | lower c =>
      obtain ⟨_, rfl⟩ := Prod.mk.inj (Option.some.inj answered)
      obtain ⟨upper, lower, inode⟩ := treeLower_still env still state.trees
      exact picture_setLower state upper lower inode
  | upper c =>
      obtain ⟨live, rfl | visible⟩ := handleOwned_upper answered
      · rfl
      · rw [Mounted.picture, visible, live]
        exact answer_still still _ _
  | tracer c =>
      obtain ⟨_, rfl⟩ := Prod.mk.inj (Option.some.inj answered)
      have handled : handle (treeEnv env).toEnvironment helpers (.tracer c) state.machine =
          some ((state.machine.answer helpers c).1, (state.machine.answer helpers c).2) := rfl
      have same := handle_hidden (show Hidden (.tracer c) from trivial) handled
      exact congrArg (fun visible => Visible.picture visible state.live) same
  | setMask value =>
      obtain ⟨_, rfl⟩ := Prod.mk.inj (Option.some.inj answered)
      rfl
  | copyMaskToUser address =>
      obtain ⟨_, rfl⟩ := Prod.mk.inj (Option.some.inj answered)
      rfl
  | oops => exact Empty.elim reply

/-- This monitor does not look at the calls. -/
def blind {Call : Type} {Reply : Call → Type} : Monitor Reply Unit := ⟨fun _ _ => True, fun _ _ _ => ()⟩

/-- A program inside a request ensures what it ensures by itself. -/
theorem kernel_blind {program : Prog α} {post : α → Mounted (Trees W) → Unit → Prop} :
    (kernel program).Ensures (handleTree env helpers) blind post state () ↔
      program.Ensures (treeCall env helpers) blind post state () := by
  induction program generalizing state with
  | pure value => rfl
  | call c next ih =>
      change (∀ reply after, handleTree env helpers (.kernel c) state = some (reply, after) →
        (kernel (next reply)).Ensures (handleTree env helpers) blind post after ()) ↔ _
      simp only [ih]
      rfl

variable {post : α → Mounted (Trees W) → Unit → Prop}

/-- A program of still calls goes on from the same picture. -/
theorem still_ensures {program : Prog β} {next : β → Prog α} (still : program.Calls Still)
    (continues : ∀ value after, after.picture = state.picture →
      (next value).Ensures (treeCall env helpers) blind post after ()) :
    (program >>= next).Ensures (treeCall env helpers) blind post state () := by
  rw [Program.ensures_bind]
  have step : ∀ c (before : Mounted (Trees W)) (_ : Unit) reply after, Still c → before.picture = state.picture →
      treeCall env helpers c before = some (reply, after) → after.picture = state.picture :=
    fun c before _ reply after still same answered => (still_answered still answered).trans same
  exact still.ensures step rfl fun value reached _ same => continues value reached same

/-- After a still call the proof goes on with the same picture. -/
theorem stillCall_ensures {c : Call} {next : c.Reply → Prog α} (still : Still c)
    (continues : ∀ reply after, after.picture = state.picture →
      (next reply).Ensures (treeCall env helpers) blind post after ()) :
    (perform c >>= next).Ensures (treeCall env helpers) blind post state () :=
  still_ensures ⟨still, fun _ => trivial⟩ continues

/-- A lower path is read from the picture and leaves it. -/
theorem lowerPath_ensures {dentry : Dentry} {next : LowerPath → Prog α}
    (continues : ∀ after, after.picture = state.picture →
      (next (state.picture.lowerPath dentry.address)).Ensures (treeCall env helpers) blind post after ()) :
    (trfsGetLowerPath dentry >>= next).Ensures (treeCall env helpers) blind post state () := by
  intro path reached read
  have same : reached.picture = state.picture := still_answered (c := .upper (.lowerPath dentry)) trivial read
  obtain ⟨owned, _⟩ := treeCall_eq_some read
  simp only [handleOwned] at owned
  split at owned
  · obtain ⟨rfl, rfl⟩ := Prod.mk.inj (Option.some.inj owned)
    intro _ after got
    exact continues after (still_answered (c := .lower (.pathGet _)) trivial got)
  · cases owned

/-- The inode of a lower dentry is read from the picture and leaves it. -/
theorem belowInode_ensures {dentry : LowerDentry} {next : LowerInode → Prog α}
    (continues : ∀ after, after.picture = state.picture →
      (next (state.picture.lowerInode dentry.address)).Ensures (treeCall env helpers) blind post after ()) :
    (lowerDInode dentry >>= next).Ensures (treeCall env helpers) blind post state () := by
  intro inode after read
  have same : after.picture = state.picture := still_answered (c := .lower (.dInode dentry)) trivial read
  obtain ⟨owned, _⟩ := treeCall_eq_some read
  obtain ⟨rfl, _⟩ := Prod.mk.inj (Option.some.inj owned)
  exact continues after same

section
attribute [local simp] Program.Calls Still

/-- The members of a new inode are set without a change of the picture. -/
theorem initMembers_still (inode : Inode) (lowerInode : LowerInode) :
    (changeAttributes inode (fun old => { old with atime := 0, mtime := 0, ctime := 0 }) >>= fun _ =>
      fsstackCopyAttrAll inode lowerInode >>= fun _ => fsstackCopyInodeSize inode lowerInode >>= fun _ =>
      upper (.unlockNewInode inode)).Calls Still := by
  simp [changeAttributes, fsstackCopyAttrAll, fsstackCopyInodeSize, fsstackCopy]

end

/-- What `trfs_iget` does to the owners of the inodes, and the inode that it returns. -/
structure Gets (before after : Picture) (lowerInode : LowerInode) (result : Except (BitVec 32) Inode) : Prop where
  same : after = { before with owner := after.owner }
  kept : ∀ dentry ∈ before.live, before.inode dentry ≠ .null →
    after.owner (before.inode dentry) = before.owner (before.inode dentry)
  positive : ∀ inode, result = .ok inode → inode ≠ .null
  owner : ∀ inode, result = .ok inode → after.owner inode = lowerInode
  only : ∀ inode, result = .ok inode → ∀ dentry ∈ before.live, before.inode dentry ≠ .null →
    before.owner (before.inode dentry) = lowerInode → before.inode dentry = inode

/-- The inode cache changes the picture as `Gets` says. -/
theorem iget_ensures {lowerInode : LowerInode} {next : Except (BitVec 32) Inode → Prog α}
    (continues : ∀ result after, Gets state.picture after.picture lowerInode result →
      (next result).Ensures (treeCall env helpers) blind post after ()) :
    (trfsIget lowerInode >>= next).Ensures (treeCall env helpers) blind post state () := by
  intro found reached got
  have same : reached.picture = state.picture := still_answered (c := .upper (.iget5Locked lowerInode)) trivial got
  obtain ⟨_, allowed⟩ := treeCall_eq_some got
  have failed : ∀ err (after : Mounted (Trees W)), after.picture = state.picture →
      Gets state.picture after.picture lowerInode (.error err) := by
    intro err after unchanged
    rw [unchanged]
    refine ⟨rfl, fun _ _ _ => rfl, ?_, ?_, ?_⟩
    · intro _ same
      cases same
    · intro _ same
      cases same
    · intro _ same
      cases same
  cases found with
  | none =>
      intro _ after dropped
      exact continues _ after (failed _ after
        ((still_answered (c := .lower (.iput lowerInode)) trivial dropped).trans same))
  | some found =>
      obtain ⟨inode, new⟩ := found
      have may : state.mayGet lowerInode inode new := of_decide_eq_true allowed
      obtain ⟨positive, only, free⟩ := may
      cases new with
      | false =>
          apply continues _ reached
          rw [same]
          refine ⟨rfl, fun _ _ _ => rfl, ?_, ?_, ?_⟩
          · rintro _ ⟨⟩
            exact positive
          · rintro _ ⟨⟩
            exact free
          · rintro _ ⟨⟩
            exact only
      | true =>
          intro grabbed held igrab
          have unchanged := (still_answered (c := .lower (.igrab lowerInode)) trivial igrab).trans same
          cases grabbed with
          | false => exact continues _ held (failed _ held unchanged)
          | true =>
              intro _ owned set
              have owner : owned.picture = { state.picture with
                  owner := Function.update state.picture.owner inode lowerInode } := by
                obtain ⟨answered, _⟩ := treeCall_eq_some set
                obtain ⟨_, rfl⟩ := Prod.mk.inj (Option.some.inj answered)
                rw [← unchanged]
                rfl
              apply still_ensures (initMembers_still inode lowerInode)
              intro _ after members
              apply continues _ after
              rw [members, owner]
              refine ⟨rfl, ?_, ?_, ?_, ?_⟩
              · intro dentry live _
                exact Function.update_of_ne (free dentry live) _ _
              · rintro _ ⟨⟩
                exact positive
              · rintro _ ⟨⟩
                exact Function.update_self _ _ _
              · rintro _ ⟨⟩
                exact only

/-- The trees correspond, except that the target may have got a lower file. -/
structure Midway (root : Nat) (used : Finset Nat) (target : Nat) (picture : Picture) : Prop where
  corresponds : Corresponds root used picture
  waiting : Waiting (used.erase target) picture

variable {root target : Nat} {used : Finset Nat}

/-- A lower call with this result gives its negative dentry a file, or it fails. -/
structure MadeBelow (before after : Picture) (dentry : Nat) (err : BitVec 32) : Prop where
  failed : err ≠ 0 → after = before
  made : err = 0 → before.lowerInode dentry = .null ∧ ∃ lowerInode, after = before.makes dentry lowerInode

/-- A lower call that makes the target keeps the state midway. -/
theorem Midway.makes {before after : Picture} {err : BitVec 32} (midway : Midway root used target before)
    (member : target ∈ used) (makes : MadeBelow before after (before.below target) err) :
    Midway root used target after := by
  by_cases succeeded : err = 0
  · obtain ⟨negative, lowerInode, rfl⟩ := makes.made succeeded
    exact ⟨midway.corresponds.makes negative, midway.waiting.makes midway.corresponds member⟩
  · rw [makes.failed succeeded]
    exact midway

/-- A lower call that makes an object keeps every lower path. -/
theorem MadeBelow.lowerPath {before after : Picture} {dentry : Nat} {err : BitVec 32}
    (makes : MadeBelow before after dentry err) :
    after.lowerPath = before.lowerPath := by
  by_cases succeeded : err = 0
  · obtain ⟨_, lowerInode, rfl⟩ := makes.made succeeded
    rfl
  · rw [makes.failed succeeded]

/-- The dentry that a lower call makes a file for. -/
def LowerCall.makes : LowerCall → Option LowerDentry
  | .vfsCreate _ dentry _ _ | .vfsSymlink _ dentry _ | .vfsMkdir _ dentry _ | .vfsMknod _ dentry _ _
  | .vfsLink _ _ dentry => some dentry
  | _ => none

/-- A new inode in the lower tree, in the picture. -/
theorem picture_makes (state : Mounted (Trees W)) {world : W} {trees : Trees W} {dentry : LowerDentry}
    {err : BitVec 32} {inode : LowerInode}
    (done : trees = if err = 0 then { state.trees with world := world }.setInode dentry inode
      else { state.trees with world := world })
    (negative : err = 0 → state.trees.inode dentry.address = .null) :
    MadeBelow state.picture (state.setLower trees).picture dentry.address err := by
  constructor
  · intro failed
    rw [done, if_neg failed]
    rfl
  · intro succeeded
    refine ⟨negative succeeded, inode, ?_⟩
    rw [done, if_pos succeeded]
    rfl

/-- What a lower call that makes an object does to the picture. -/
theorem makes_answered {c : LowerCall} {dentry : LowerDentry} (makes : c.makes = some dentry) {reply : c.Reply}
    {err : BitVec 32} (result : c.result reply = some err)
    (answered : treeCall env helpers (.lower c) state = some (reply, after)) :
    MadeBelow state.picture after.picture dentry.address err := by
  obtain ⟨owned, allowed⟩ := treeCall_eq_some answered
  obtain ⟨rfl, rfl⟩ := Prod.mk.inj (Option.some.inj owned)
  cases c
  case vfsCreate | vfsSymlink | vfsMkdir | vfsMknod | vfsLink =>
    obtain rfl := Option.some.inj makes
    obtain rfl := Option.some.inj result
    exact picture_makes state rfl fun succeeded => (of_decide_eq_true allowed succeeded).1
  all_goals cases makes

/-- A lower call that makes a file goes on with its result. -/
theorem makes_ensures {c : LowerCall} {dentry : LowerDentry} (makes : c.makes = some dentry)
    {next : c.Reply → Prog α}
    (continues : ∀ reply err after, c.result reply = some err →
      MadeBelow state.picture after.picture dentry.address err → (next reply).Ensures (treeCall env helpers) blind post after ()) :
    (lower c >>= next).Ensures (treeCall env helpers) blind post state () := by
  intro reply after answered
  have result : ∃ err, c.result reply = some err := by
    cases c
    case vfsCreate | vfsSymlink | vfsMkdir | vfsMknod | vfsLink => exact ⟨_, rfl⟩
    all_goals cases makes
  obtain ⟨err, result⟩ := result
  exact continues reply err after result (makes_answered makes result answered)

/-- The superblock of a lower inode is read only where the inode is there. -/
theorem superBlock_ensures {lowerInode : LowerInode} {next : Nat → Prog α}
    (continues : ∀ after, lowerInode ≠ .null → after.picture = state.picture →
      (next (env.superBlock lowerInode)).Ensures (treeCall env helpers) blind post after ()) :
    (lower (.superBlock lowerInode) >>= next).Ensures (treeCall env helpers) blind post state () := by
  intro reply after answered
  have same : after.picture = state.picture := still_answered (c := .lower (.superBlock lowerInode)) trivial answered
  obtain ⟨owned, allowed⟩ := treeCall_eq_some answered
  obtain ⟨rfl, _⟩ := Prod.mk.inj (Option.some.inj owned)
  exact continues after (of_decide_eq_true allowed) same

/-- `d_splice_alias` gives the dentry the inode, or it fails. -/
theorem splice_ensures {inode : Inode} {dentry : Dentry} {next : BitVec 32 → Prog α}
    (continues : ∀ err after, after.picture = state.picture ∨
      after.picture = state.picture.instantiates dentry.address inode →
        (next err).Ensures (treeCall env helpers) blind post after ()) :
    (upper (.dSpliceAlias inode dentry) >>= next).Ensures (treeCall env helpers) blind post state () := by
  intro err after answered
  obtain ⟨owned, _⟩ := treeCall_eq_some answered
  obtain ⟨rfl, rfl⟩ := Prod.mk.inj (Option.some.inj owned)
  apply continues
  change Visible.picture (state.machine.visible.answer (treeEnv env).toEnvironment (.dSpliceAlias inode dentry)).2
    state.live = _ ∨ Visible.picture (state.machine.visible.answer (treeEnv env).toEnvironment
      (.dSpliceAlias inode dentry)).2 state.live = _
  simp only [Visible.answer]
  split
  · right
    rfl
  · left
    rfl

/-- The inode cache keeps the state midway. -/
theorem Gets.midway {before after : Picture} {lowerInode : LowerInode} {result : Except (BitVec 32) Inode}
    (gets : Gets before after lowerInode result) (midway : Midway root used target before) :
    Midway root used target after := by
  rw [gets.same]
  exact ⟨midway.corresponds.reowned gets.kept, midway.waiting⟩

/-- The inode found for the lower one completes the target. -/
theorem Gets.instantiates {before after : Picture} {lowerInode : LowerInode} {inode : Inode}
    (gets : Gets before after lowerInode (.ok inode)) (corresponds : Corresponds root used before)
    (member : target ∈ used) (present : lowerInode ≠ .null) (there : before.lowerInode (before.below target) = lowerInode) :
    Corresponds root used (after.instantiates target inode) := by
  have reowned : Corresponds root used after := by
    rw [gets.same]
    exact corresponds.reowned gets.kept
  have below : after.lowerInode (after.below target) = lowerInode := by
    rw [gets.same]
    exact there
  apply reowned.instantiates member (gets.positive inode rfl)
  · rw [below]
    exact present
  · rw [below]
    exact gets.owner inode rfl
  · intro other live has owner
    rw [below] at owner
    have inodes : after.inode = before.inode := by rw [gets.same]
    have lives : after.live = before.live := by rw [gets.same]
    rw [inodes] at has owner ⊢
    rw [lives] at live
    rw [gets.kept other live has] at owner
    exact gets.only inode rfl other live has owner

/-- `trfs_interpose` gives the target at most the inode for its lower dentry. -/
theorem interpose_ensures {dentry : Dentry} {path : LowerPath} {next : BitVec 32 → Prog α}
    (midway : Midway root used dentry.address state.picture) (member : dentry.address ∈ used)
    (own : path = state.picture.lowerPath dentry.address)
    (continues : ∀ err after, Midway root used dentry.address after.picture →
      (next err).Ensures (treeCall env helpers) blind post after ()) :
    (trfsInterpose dentry path >>= next).Ensures (treeCall env helpers) blind post state () := by
  subst own
  rw [Program.ensures_bind]
  unfold trfsInterpose
  apply belowInode_ensures
  intro first one
  apply stillCall_ensures (c := .upper .lowerSuper) trivial
  intro lowerSb second two
  apply superBlock_ensures
  intro third present three
  have same : third.picture = state.picture := three.trans (two.trans one)
  change (if env.superBlock _ ≠ lowerSb then pure EXDEV else _ : Prog (BitVec 32)).Ensures _ _ _ _ _
  split
  · apply continues
    rw [same]
    exact midway
  · apply iget_ensures
    intro result fourth gets
    rw [same] at gets
    have kept := gets.midway midway
    cases result with
    | error err => exact continues err fourth kept
    | ok inode =>
        change (upper (.dSpliceAlias inode dentry)).Ensures _ _ _ _ _
        rw [← Program.bind_pure (upper (.dSpliceAlias inode dentry))]
        apply splice_ensures
        intro err fifth spliced
        apply continues
        rcases spliced with unchanged | instantiated
        · rw [unchanged]
          exact kept
        · rw [instantiated]
          exact ⟨gets.instantiates midway.corresponds member present rfl,
            kept.waiting.instantiates (gets.positive inode rfl)⟩

end

end Trfs.Kernel
