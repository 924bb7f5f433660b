import Trfs.Library.Rerooting
import Trfs.Proof.Kernel.Header
import Trfs.Proof.Kernel.Hidden

namespace Trfs.Kernel
open Bytes Effect Trace FileTree

abbrev Name := List Byte

/-- The lower calls that do something to a name or to a file, with a result. -/
def LowerCall.Effective : LowerCall → Prop
  | .vfsCreate .. | .vfsLink .. | .vfsUnlink .. | .vfsSymlink .. | .vfsMkdir .. | .vfsRmdir .. | .vfsMknod ..
  | .vfsRename .. | .vfsRead .. | .vfsWrite .. | .dentryOpen .. => True
  | _ => False

/-- The operation that a lower call asks for when its dentries have these places. -/
def LowerCall.operation (place : LowerDentry → List Name) : LowerCall → Option (Operation Name (BitVec 16))
  | .vfsMkdir _ dentry mode => some (.mkdir (place dentry) mode)
  | .vfsRmdir _ dentry => some (.rmdir (place dentry))
  | .vfsUnlink _ dentry => some (.unlink (place dentry))
  | .vfsLink oldDentry _ newDentry => some (.link (place oldDentry) (place newDentry))
  | .vfsRename _ oldDentry _ newDentry => some (.rename (place oldDentry) (place newDentry))
  | _ => none

/-- The operation that a call of the mount asks for at the paths of its dentries. -/
def TracedOp.operation : TracedOp → Option (Operation Name (BitVec 16))
  | .mkdir _ dentry mode => some (.mkdir (components dentry.path) mode)
  | .rmdir _ dentry => some (.rmdir (components dentry.path))
  | .unlink _ dentry => some (.unlink (components dentry.path))
  | .link oldDentry _ newDentry => some (.link (components oldDentry.path) (components newDentry.path))
  | .rename _ oldDentry _ newDentry => some (.rename (components oldDentry.path) (components newDentry.path))
  | _ => none

def SecondPath.dentries : SecondPath → List Dentry
  | .dentry named => [named]
  | .symname _ | .absent => []

/-- The second path names a dentry or nothing. -/
@[simp] theorem SecondPath.mem_dentries {second : SecondPath} {named : Dentry} :
    named ∈ second.dentries ↔ second = .dentry named := by
  cases second <;> simp [SecondPath.dentries, eq_comm]

def TracedOp.dentries (op : TracedOp) : List Dentry := op.path1 :: op.path2.dentries

/-- A call that returns 0 has performed the operation. A call that fails, for whatever reason, has changed nothing. -/
def Performed {A K I : Type} [DecidableEq I] (policy : Policy A K (BitVec 16)) (operation : Operation Name (BitVec 16))
    (before after : Tree Name A K I) (err : BitVec 32) : Prop :=
  (err = 0 ∧ ∃ reached, before.apply policy operation = some reached ∧ after.entry = reached.entry) ∨
    (err ≠ 0 ∧ after.entry = before.entry)

/-- The lower filesystem is a tree with the semantics of POSIX, and each of its dentries has a place there. Only
the calls with a result change it, and a file that is removed is not renamed instead. -/
structure Posix {L A K I : Type} [DecidableEq I] (policy : Policy A K (BitVec 16)) (env : Environment L)
    (tree : L → Tree Name A K I) (place : L → LowerDentry → List Name) : Prop where
  performs : ∀ c operation state err, c.operation (place state) = some operation →
    c.result (env.lower c state).1 = some err →
      Performed policy operation (tree state) (tree (env.lower c state).2) err
  steady : ∀ c state, ¬ c.Effective →
    tree (env.lower c state).2 = tree state ∧ place (env.lower c state).2 = place state
  iget5Locked : ∀ inode state,
    tree (env.iget5Locked inode state).2 = tree state ∧ place (env.iget5Locked inode state).2 = place state
  dSpliceAlias : ∀ inode dentry state,
    tree (env.dSpliceAlias inode dentry state).2 = tree state ∧
      place (env.dSpliceAlias inode dentry state).2 = place state
  kzalloc : ∀ state, tree (env.kzalloc state).2 = tree state ∧ place (env.kzalloc state).2 = place state
  renamed : ∀ dentry state, (env.lower (.nfsRenamed dentry) state).1 = false

/-- The lower dentry of a dentry of the mount is at the same path. -/
def Placed {L : Type} (place : L → LowerDentry → List Name) (state : Machine L) (dentry : Dentry) : Prop :=
  place state.visible.lower (state.visible.upper.lowerPath dentry.address).dentry = components dentry.path

/-- What a call has learned about the lower paths of dentries, by their addresses. -/
abbrev Known := Nat → LowerPath → Prop

def Known.Has (known : Known) (dentry : Dentry) (lowerDentry : LowerDentry) : Prop :=
  ∃ path, known dentry.address path ∧ path.dentry = lowerDentry

/-- The lower call passes on the operation with the lower dentries of its own dentries. -/
def TracedOp.Names (op : TracedOp) (known : Known) (c : LowerCall) : Prop :=
  match op, c with
  | .mkdir _ dentry mode, .vfsMkdir _ lowerDentry lowerMode => known.Has dentry lowerDentry ∧ lowerMode = mode
  | .rmdir _ dentry, .vfsRmdir _ lowerDentry | .unlink _ dentry, .vfsUnlink _ lowerDentry =>
      known.Has dentry lowerDentry
  | .link oldDentry _ newDentry, .vfsLink lowerOld _ lowerNew
  | .rename _ oldDentry _ newDentry, .vfsRename _ lowerOld _ lowerNew =>
      known.Has oldDentry lowerOld ∧ known.Has newDentry lowerNew
  | _, _ => False

/-- A call may change the tree once, and then by its own operation. -/
def naming (op : TracedOp) : Monitor Call.Reply (Known × Answers) where
  permits progress
    | .lower c => c.Effective → progress.2.lower = none ∧ op.Names progress.1 c
    | .setMask _ | .copyMaskToUser _ => False
    | _ => True
  next progress c reply := (match c, reply with
    | .upper (.lowerPath dentry), reply => fun address path =>
        progress.1 address path ∨ (address = dentry.address ∧ path = reply)
    | _, _ => progress.1, progress.2.next c reply)

/-- The calls that do not touch the tree. -/
def Tame : Call → Prop
  | .lower c => ¬ c.Effective
  | .setMask _ | .copyMaskToUser _ => False
  | _ => True

section
variable {op : TracedOp} {α : Type} {progress : Known × Answers}

/-- A tame program names nothing wrong in any operation. -/
theorem tame_naming {program : Prog α} (tame : program.Calls Tame) (op : TracedOp) (progress : Known × Answers) :
    program.Meets (naming op) (fun _ _ => True) progress := by
  induction program generalizing progress with
  | pure value => trivial
  | call c next ih =>
      refine ⟨?_, fun reply => ih reply (tame.2 reply) _⟩
      cases c with
      | lower c => exact fun effective => absurd effective tame.1
      | setMask value => exact tame.1
      | copyMaskToUser address => exact tame.1
      | _ => trivial

/-- A quiet call names nothing, -/
theorem Quiet.tame (c : Call) (quiet : Quiet c) : Tame c := by
  cases c with
  | lower c => cases c <;> first | exact quiet.elim | exact id
  | setMask value => exact quiet
  | copyMaskToUser address => exact quiet
  | _ => trivial

/-- and neither does the tracing block. -/
theorem Hidden.tame (c : Call) (hidden : Hidden c) : Tame c := by
  cases c with
  | lower c => exact hidden.elim
  | setMask value => exact hidden
  | copyMaskToUser address => exact hidden
  | _ => trivial

attribute [local simp] Program.Calls Tame LowerCall.Effective

/-- `trfs_iget` names nothing. -/
theorem trfsIget_tame (lowerInode : LowerInode) : (trfsIget lowerInode).Calls Tame := by
  refine ⟨trivial, fun found => ?_⟩
  rcases found with _ | ⟨inode, fresh⟩
  · exact ⟨id, fun _ => trivial⟩
  · cases fresh with
    | false => trivial
    | true =>
        refine ⟨id, fun grabbed => ?_⟩
        cases grabbed with
        | false => trivial
        | true =>
            change (initInode inode lowerInode >>= fun _ => _).Calls Tame
            exact ((initInode_quiet inode lowerInode).mono Quiet.tame).bind fun _ => trivial

/-- `trfs_interpose` names nothing. -/
theorem trfsInterpose_tame (dentry : Dentry) (path : LowerPath) : (trfsInterpose dentry path).Calls Tame := by
  refine ⟨id, fun lowerInode => ⟨trivial, fun lowerSb => ⟨id, fun super => ?_⟩⟩⟩
  change Program.Calls Tame (ite (super ≠ lowerSb) _ _)
  split
  · trivial
  · change (trfsIget lowerInode >>= fun _ => _).Calls Tame
    apply (trfsIget_tame lowerInode).bind
    rintro (err | inode)
    · trivial
    · exact ⟨trivial, fun _ => trivial⟩

/-- The label `out` names nothing. -/
theorem out_tame {leave : Prog Unit} (quiet : leave.Calls Quiet) (err : BitVec 32) (buffers : TraceBuffers) :
    (buffers.out leave err).Calls Tame := by
  apply (quiet.mono Quiet.tame).bind
  intro _
  apply Program.Calls.bind
  · apply (freeInode_frees buffers).mono
    intro c frees
    cases c with
    | tracer c => trivial
    | _ => exact frees.elim
  · exact fun _ => trivial

/-- The tracing block never touches the tree. -/
theorem block_tame {block : TraceBlock} {next : TraceBuffers → Prog α} (flags : block.openFlags.Calls IsRead)
    (mode : block.permMode.Calls IsRead) (rest : ∀ buffers, (next buffers).Calls Tame) :
    (block.run >>= next).Calls Tame := ((run_hidden flags mode).mono Hidden.tame).bind rest

/-- A call that learns the lower path of a dentry knows it from then on. -/
def Known.learns (known : Known) (dentry : Dentry) (lowerPath : LowerPath) : Known := fun address path =>
  known address path ∨ (address = dentry.address ∧ path = lowerPath)

/-- The lower dentry that was learnt is known. -/
theorem Known.learns_has (known : Known) (dentry : Dentry) (path : LowerPath) :
    (known.learns dentry path).Has dentry path.dentry := ⟨path, .inr ⟨rfl, rfl⟩, rfl⟩

/-- What is known stays known. -/
theorem Known.Has.learns {known : Known} {dentry : Dentry} {lowerDentry : LowerDentry}
    (has : known.Has dentry lowerDentry) (other : Dentry) (path : LowerPath) :
    (known.learns other path).Has dentry lowerDentry := by
  obtain ⟨found, here, same⟩ := has
  exact ⟨found, .inl here, same⟩

variable {post : α → Known × Answers → Prop} {known : Known} {answers : Answers}

/-- The rule for taking the lower path. -/
theorem path_naming {dentry : Dentry} {next : LowerPath → Prog α}
    (rest : ∀ path, (next path).Meets (naming op) post (known.learns dentry path, answers)) :
    (trfsGetLowerPath dentry >>= next).Meets (naming op) post (known, answers) :=
  ⟨trivial, fun path => ⟨False.elim, fun _ => rest path⟩⟩

/-- The rule for locking the parent. -/
theorem parent_naming {dentry : LowerDentry} {next : LowerDentry → Prog α}
    (rest : ∀ parent, (next parent).Meets (naming op) post (known, answers)) :
    (lockParent dentry >>= next).Meets (naming op) post (known, answers) :=
  ⟨False.elim, fun parent => ⟨False.elim, fun _ => ⟨trivial, fun _ => rest parent⟩⟩⟩

/-- The rule for reading the inode of a lower dentry. -/
theorem inode_naming {dentry : LowerDentry} {next : LowerInode → Prog α}
    (rest : ∀ inode, (next inode).Meets (naming op) post (known, answers)) :
    (lowerDInode dentry >>= next).Meets (naming op) post (known, answers) := ⟨False.elim, rest⟩

/-- The one call that changes the tree. After it nothing does. -/
theorem effect_naming {c : LowerCall} {next : c.Reply → Prog α} (fresh : answers.lower = none)
    (names : op.Names known c) (rest : ∀ reply, (next reply).Calls Tame) :
    (lower c >>= next).Meets (naming op) (fun _ _ => True) (known, answers) :=
  ⟨fun _ => ⟨fresh, names⟩, fun reply => tame_naming (rest reply) op _⟩

/-- Quiet calls may come between. -/
theorem quiet_tame {β : Type} {program : Prog β} {next : β → Prog α} (quiet : program.Calls Quiet)
    (rest : ∀ value, (next value).Calls Tame) : (program >>= next).Calls Tame :=
  (quiet.mono Quiet.tame).bind rest

/-- The times of the lower directory and the size of a lower dentry's inode. -/
theorem copyParent_tame {dir : Inode} {lowerParent : LowerDentry} {rest : Prog α} (continued : rest.Calls Tame) :
    (upper (.lowerInode dir) >>= fun lowerDir => fsstackCopyAttrTimes dir lowerDir >>= fun _ =>
      lowerDInode lowerParent >>= fun parentInode => fsstackCopyInodeSize dir parentInode >>= fun _ =>
        rest).Calls Tame := by
  refine ⟨trivial, fun lowerDir => ?_⟩
  apply quiet_tame (fsstackCopy_quiet _ _ _)
  intro _
  apply quiet_tame (lowerDInode_quiet _)
  intro parentInode
  apply quiet_tame (fsstackCopy_quiet _ _ _)
  exact fun _ => continued

/-- At first nothing is known, and nothing is answered. -/
def NamesOwn (op : TracedOp) : Prop :=
  op.program.Meets (naming op) (fun _ _ => True) (fun _ _ => False, .none)

/-- `trfs_mkdir` makes the directory that its record names. -/
theorem trfsMkdir_naming (dir : Inode) (dentry : Dentry) (mode : BitVec 16) : NamesOwn (.mkdir dir dentry mode) := by
  show (trfsMkdir dir dentry mode).Meets _ _ _
  unfold trfsMkdir
  apply path_naming
  intro path
  apply parent_naming
  intro parent
  apply inode_naming
  intro inode
  apply effect_naming
  · rfl
  · exact ⟨Known.learns_has _ _ _, rfl⟩
  intro err
  split
  · exact out_tame (leaveParent_quiet _ _) _ _
  · apply block_tame
    · exact inodeMember_reads _ _
    · trivial
    intro buffers
    apply (trfsInterpose_tame _ _).bind
    intro err
    split
    · exact out_tame (leaveParent_quiet _ _) _ _
    · apply copyParent_tame
      refine ⟨trivial, fun lowerDir => ?_⟩
      apply quiet_tame (fsstackCopy_quiet _ _ _)
      exact fun _ => out_tame (leaveParent_quiet _ _) _ _

/-- `trfs_rmdir` removes the directory that its record names. -/
theorem trfsRmdir_naming (dir : Inode) (dentry : Dentry) : NamesOwn (.rmdir dir dentry) := by
  show (trfsRmdir dir dentry).Meets _ _ _
  unfold trfsRmdir
  apply path_naming
  intro path
  apply parent_naming
  intro lowerDir
  apply inode_naming
  intro inode
  apply effect_naming
  · rfl
  · exact Known.learns_has _ _ _
  intro err
  split
  · exact out_tame (leaveParent_quiet _ _) _ _
  · apply block_tame
    · exact inodeMember_reads _ _
    · exact inodeMember_reads _ _
    intro buffers
    refine ⟨trivial, fun _ => ?_⟩
    apply quiet_tame (clearNlink_quiet dentry)
    intro _
    apply quiet_tame (lowerDInode_quiet _)
    intro first
    apply quiet_tame (fsstackCopy_quiet _ _ _)
    intro _
    apply quiet_tame (lowerDInode_quiet _)
    intro second
    apply quiet_tame (fsstackCopy_quiet _ _ _)
    intro _
    apply quiet_tame (lowerDInode_quiet _)
    intro third
    apply quiet_tame (fsstackCopy_quiet _ _ _)
    exact fun _ => out_tame (leaveParent_quiet _ _) _ _

/-- `trfs_unlink` removes the name that its record has. -/
theorem trfsUnlink_naming (dir : Inode) (dentry : Dentry) : NamesOwn (.unlink dir dentry) := by
  show (trfsUnlink dir dentry).Meets _ _ _
  unfold trfsUnlink
  refine ⟨trivial, fun lowerDirInode => ?_⟩
  apply path_naming
  intro path
  refine ⟨False.elim, fun _ => ?_⟩
  apply parent_naming
  intro lowerDir
  apply effect_naming
  · rfl
  · exact Known.learns_has _ _ _
  intro err
  have silly : (sillyRenamed err path.dentry).Calls Tame := by
    unfold sillyRenamed
    split
    · refine ⟨id, fun renamed => ?_⟩
      cases renamed <;> trivial
    · trivial
  apply silly.bind
  intro err
  split
  · exact out_tame (leaveUnlink_quiet _ _ _) _ _
  · apply block_tame
    · trivial
    · trivial
    intro buffers
    apply quiet_tame (fsstackCopy_quiet _ _ _)
    intro _
    apply quiet_tame (fsstackCopy_quiet _ _ _)
    intro _
    refine ⟨trivial, fun inode => ⟨trivial, fun lowerInode => ?_⟩⟩
    apply quiet_tame (fsstackCopy_quiet _ _ _)
    intro _
    apply quiet_tame (inodeMember_quiet _ _)
    intro ctime
    refine ⟨trivial, fun inode => ?_⟩
    apply quiet_tame (changeAttributes_quiet _ _)
    intro _
    exact ⟨trivial, fun _ => out_tame (leaveUnlink_quiet _ _ _) _ _⟩

/-- `trfs_link` links the two names of its record. -/
theorem trfsLink_naming (oldDentry : Dentry) (dir : Inode) (newDentry : Dentry) :
    NamesOwn (.link oldDentry dir newDentry) := by
  show (trfsLink oldDentry dir newDentry).Meets _ _ _
  unfold trfsLink
  refine ⟨trivial, fun oldInode => ⟨trivial, fun attributes => ?_⟩⟩
  apply path_naming
  intro oldPath
  apply path_naming
  intro newPath
  apply parent_naming
  intro lowerDir
  apply inode_naming
  intro lowerDirInode
  apply effect_naming
  · rfl
  · exact ⟨(Known.learns_has _ _ _).learns _ _, Known.learns_has _ _ _⟩
  intro err
  have negative : (failedOrNegative err newPath.dentry).Calls Tame := by
    unfold failedOrNegative
    split
    · trivial
    · exact ⟨id, fun _ => trivial⟩
  apply negative.bind
  intro failed
  split
  · exact out_tame (leaveLink_quiet _ _ _) _ _
  · apply (trfsInterpose_tame _ _).bind
    intro err
    split
    · exact out_tame (leaveLink_quiet _ _ _) _ _
    · apply block_tame
      · trivial
      · trivial
      intro buffers
      apply quiet_tame (lowerDInode_quiet _)
      intro first
      apply quiet_tame (fsstackCopy_quiet _ _ _)
      intro _
      apply quiet_tame (lowerDInode_quiet _)
      intro second
      apply quiet_tame (fsstackCopy_quiet _ _ _)
      intro _
      refine ⟨trivial, fun oldInode => ⟨trivial, fun lowerOldInode => ?_⟩⟩
      apply quiet_tame (fsstackCopy_quiet _ _ _)
      intro _
      refine ⟨trivial, fun newInode => ?_⟩
      apply quiet_tame (changeAttributes_quiet _ _)
      exact fun _ => out_tame (leaveLink_quiet _ _ _) _ _

/-- `trfs_rename` renames between the two names of its record. -/
theorem trfsRename_naming (oldDir : Inode) (oldDentry : Dentry) (newDir : Inode) (newDentry : Dentry) :
    NamesOwn (.rename oldDir oldDentry newDir newDentry) := by
  show (trfsRename oldDir oldDentry newDir newDentry).Meets _ _ _
  unfold trfsRename
  apply path_naming
  intro oldPath
  apply path_naming
  intro newPath
  refine ⟨False.elim, fun lowerOldDir => ⟨False.elim, fun lowerNewDir => ?_⟩⟩
  refine ⟨False.elim, fun first => ⟨False.elim, fun second => ⟨trivial, fun _ => ⟨False.elim, fun trap => ?_⟩⟩⟩⟩
  have left := leaveRename_quiet ⟨oldPath, newPath, lowerOldDir, lowerNewDir⟩
  change Program.Meets _ _ (ite (trap = some oldPath.dentry) _ _) _
  split
  · exact tame_naming (out_tame left _ _) _ _
  · split
    · exact tame_naming (out_tame left _ _) _ _
    · apply inode_naming
      intro oldDirInode
      apply inode_naming
      intro newDirInode
      apply effect_naming
      · rfl
      · exact ⟨(Known.learns_has _ _ _).learns _ _, Known.learns_has _ _ _⟩
      intro err
      split
      · exact out_tame left _ _
      · apply block_tame
        · trivial
        · trivial
        intro buffers
        apply quiet_tame (copyDirectory_quiet _ _)
        intro _
        apply quiet_tame (runIf_quiet _ (copyDirectory_quiet _ _))
        exact fun _ => out_tame left _ _

/-- The five operations on names make one call that changes the tree, and make it at their own dentries. -/
theorem TracedOp.namesOwn {op : TracedOp} {operation : Operation Name (BitVec 16)}
    (structural : op.operation = some operation) : NamesOwn op := by
  cases op with
  | mkdir dir dentry mode => exact trfsMkdir_naming dir dentry mode
  | rmdir dir dentry => exact trfsRmdir_naming dir dentry
  | unlink dir dentry => exact trfsUnlink_naming dir dentry
  | link oldDentry dir newDentry => exact trfsLink_naming oldDentry dir newDentry
  | rename oldDir oldDentry newDir newDentry => exact trfsRename_naming oldDir oldDentry newDir newDentry
  | _ => cases structural

/-- A lower call that is no operation does not change the answer of the operation. -/
theorem next_quiet {c : LowerCall} (quiet : ¬ c.Effective) (answers : Answers) (reply : c.Reply) :
    (answers.nextLower c reply).lower = answers.lower := by
  cases c with
  | superBlock inode =>
      unfold Answers.nextLower
      dsimp only
      split <;> rfl
  | igrab inode =>
      unfold Answers.nextLower
      dsimp only
      split <;> rfl
  | _ => first | rfl | exact absurd trivial quiet

/-- A call on the mount does not change it either. -/
theorem next_upper (answers : Answers) (c : UpperCall) (reply : c.Reply) :
    (answers.nextUpper c reply).lower = answers.lower := by
  cases c with
  | iget5Locked inode => cases reply <;> rfl
  | _ => rfl

/-- The operation itself does. -/
theorem next_asked {place : LowerDentry → List Name} {c : LowerCall} {operation : Operation Name (BitVec 16)}
    (asked : c.operation place = some operation) (answers : Answers) (reply : c.Reply) :
    ∃ err, c.result reply = some err ∧ (answers.nextLower c reply).lower = some err := by
  cases c <;> first | exact ⟨_, rfl, rfl⟩ | cases asked

/-- A lower call with the dentries of an operation asks for this operation. -/
theorem TracedOp.Names.asks {place : LowerDentry → List Name} {c : LowerCall} (names : op.Names known c)
    (placed : ∀ dentry ∈ op.dentries, ∀ lowerDentry, known.Has dentry lowerDentry →
      place lowerDentry = components dentry.path) :
    ∃ operation, op.operation = some operation ∧ c.operation place = some operation := by
  unfold TracedOp.Names at names
  split at names
  · obtain ⟨has, rfl⟩ := names
    have here := placed _ List.mem_cons_self _ has
    exact ⟨_, rfl, by simp only [LowerCall.operation, here, TracedOp.path1]⟩
  · have here := placed _ List.mem_cons_self _ names
    exact ⟨_, rfl, by simp only [LowerCall.operation, here, TracedOp.path1]⟩
  · have here := placed _ List.mem_cons_self _ names
    exact ⟨_, rfl, by simp only [LowerCall.operation, here, TracedOp.path1]⟩
  · have old := placed _ List.mem_cons_self _ names.1
    have new := placed _ (List.mem_cons_of_mem _ List.mem_cons_self) _ names.2
    exact ⟨_, rfl, by simp only [LowerCall.operation, old, new, TracedOp.path1]⟩
  · have old := placed _ List.mem_cons_self _ names.1
    have new := placed _ (List.mem_cons_of_mem _ List.mem_cons_self) _ names.2
    exact ⟨_, rfl, by simp only [LowerCall.operation, old, new, TracedOp.path1]⟩
  · exact names.elim

end

section
variable {L A K I : Type} [DecidableEq I] {policy : Policy A K (BitVec 16)} {env : Environment L} {helpers : Helpers}
  {tree : L → Tree Name A K I} {place : L → LowerDentry → List Name} {op : TracedOp}

/-- What has become of the tree at a point of a call. -/
structure Treats (policy : Policy A K (BitVec 16)) (tree : L → Tree Name A K I) (place : L → LowerDentry → List Name)
    (op : TracedOp) (before state : Machine L) (progress : Known × Answers) : Prop where
  known : ∀ address path, progress.1 address path → before.visible.upper.lowerPath address = path
  paths : state.visible.upper.lowerPath = before.visible.upper.lowerPath
  waiting : progress.2.lower = none → tree state.visible.lower = tree before.visible.lower ∧
    place state.visible.lower = place before.visible.lower
  done : ∀ err, progress.2.lower = some err → ∃ operation, op.operation = some operation ∧
    Performed policy operation (tree before.visible.lower) (tree state.visible.lower) err

/-- A step that keeps the tree, the lower paths and the answer keeps what is known about them. -/
theorem Treats.keep {before state after : Machine L} {progress next : Known × Answers}
    (treats : Treats policy tree place op before state progress) (known : next.1 = progress.1)
    (answer : next.2.lower = progress.2.lower) (paths : after.visible.upper.lowerPath = state.visible.upper.lowerPath)
    (same : tree after.visible.lower = tree state.visible.lower ∧
      place after.visible.lower = place state.visible.lower) : Treats policy tree place op before after next where
  known address path learned := treats.known address path (known ▸ learned)
  paths := paths.trans treats.paths
  waiting early := by
    obtain ⟨trees, places⟩ := treats.waiting (answer ▸ early)
    exact ⟨same.1.trans trees, same.2.trans places⟩
  done err late := by
    rw [same.1]
    exact treats.done err (answer ▸ late)

/-- A step changes the tree only by the operation of the call, as its result says. -/
theorem Treats.step (posix : Posix policy env tree place) {before state after : Machine L} {progress : Known × Answers}
    (placed : ∀ dentry ∈ op.dentries, Placed place before dentry) (c : Call) (reply : c.Reply)
    (permitted : (naming op).permits progress c) (treats : Treats policy tree place op before state progress)
    (answered : handle env helpers c state = some (reply, after)) :
    Treats policy tree place op before after ((naming op).next progress c reply) := by
  cases c with
  | oops => exact nomatch answered
  | setMask value => exact permitted.elim
  | copyMaskToUser address => exact permitted.elim
  | tracer c =>
      have hidden : Hidden (.tracer c) := trivial
      have visible := handle_hidden hidden answered
      apply treats.keep rfl rfl
      · rw [visible]
      · rw [visible]
        exact ⟨rfl, rfl⟩
  | lower c =>
      obtain ⟨rfl, rfl⟩ := Prod.mk.inj (Option.some.inj answered)
      by_cases effective : c.Effective
      · obtain ⟨early, names⟩ := permitted effective
        obtain ⟨trees, places⟩ := treats.waiting early
        have located : ∀ dentry ∈ op.dentries, ∀ lowerDentry, progress.1.Has dentry lowerDentry →
            place state.visible.lower lowerDentry = components dentry.path := by
          rintro dentry member _ ⟨path, learned, rfl⟩
          rw [places, ← treats.known _ _ learned]
          exact placed dentry member
        obtain ⟨operation, own, asked⟩ := names.asks located
        obtain ⟨err, result, next⟩ := next_asked asked progress.2 (env.lower c state.visible.lower).1
        have performed := posix.performs c operation state.visible.lower err asked result
        rw [trees] at performed
        constructor
        · exact treats.known
        · exact treats.paths
        · intro none
          exact nomatch next.symm.trans none
        · intro other late
          obtain rfl := Option.some.inj (next.symm.trans late)
          exact ⟨operation, own, performed⟩
      · exact treats.keep rfl (next_quiet effective progress.2 _) rfl (posix.steady c _ effective)
  | upper c =>
      obtain ⟨rfl, rfl⟩ := Prod.mk.inj (Option.some.inj answered)
      cases c with
      | lowerPath dentry =>
          refine ⟨?_, treats.paths, treats.waiting, treats.done⟩
          rintro address path (learned | ⟨rfl, rfl⟩)
          · exact treats.known address path learned
          · exact (congrFun treats.paths dentry.address).symm
      | iget5Locked inode => exact treats.keep rfl (next_upper _ _ _) rfl (posix.iget5Locked inode _)
      | dSpliceAlias inode dentry =>
          refine treats.keep rfl rfl ?_ (posix.dSpliceAlias inode dentry _)
          simp only
          split <;> rfl
      | kzallocFileInfo file => exact treats.keep rfl rfl rfl (posix.kzalloc _)
      | _ => exact treats.keep rfl rfl rfl ⟨rfl, rfl⟩

/-- The monitor of the names keeps the answers. -/
theorem naming_answers (op : TracedOp) (progress : Known × Answers) (events : List (Event Call.Reply)) :
    ((naming op).after progress events).2 = observe.after progress.2 events := by
  induction events generalizing progress with
  | nil => rfl
  | cons event events ih =>
      rw [Monitor.after_cons, Monitor.after_cons, ih]
      rfl

/-- A call of the mount has performed its operation, or it has failed below and changed nothing. -/
theorem TracedOp.exec_performs (posix : Posix policy env tree place) {before : Machine L} {done : Done L}
    {operation : Operation Name (BitVec 16)} (structural : op.operation = some operation)
    (placed : ∀ dentry ∈ op.dentries, Placed place before dentry) (ran : op.exec env helpers before = some done) :
    ((answersOf done.events).lower = some 0 ∧ ∃ reached,
        (tree before.visible.lower).apply policy operation = some reached ∧
          (tree done.state.visible.lower).entry = reached.entry) ∨
      ((answersOf done.events).lower ≠ some 0 ∧
        (tree done.state.visible.lower).entry = (tree before.visible.lower).entry) := by
  have start : Treats policy tree place op before before ((fun _ _ => False), .none) :=
    ⟨fun _ _ => False.elim, rfl, fun _ => ⟨rfl, rfl⟩, nofun⟩
  have treats := (TracedOp.namesOwn structural).exec_relation
    (fun c state reply after progress permitted kept answered =>
      Treats.step posix placed c reply permitted kept answered) start ran
  have answers : ((naming op).after ((fun _ _ => False), .none) done.events).2 = answersOf done.events :=
    naming_answers op _ done.events
  cases lower : (answersOf done.events).lower with
  | none =>
      obtain ⟨same, _⟩ := treats.waiting (by rw [answers, lower])
      exact .inr ⟨nofun, congrArg Tree.entry same⟩
  | some err =>
      obtain ⟨other, own, performed⟩ := treats.done err (by rw [answers, lower])
      obtain rfl := Option.some.inj (own.symm.trans structural)
      rcases performed with ⟨rfl, reached⟩ | ⟨failed, same⟩
      · exact .inl ⟨rfl, reached⟩
      · exact .inr ⟨fun zero => failed (Option.some.inj zero), same⟩

/-- Where no lower dentry is renamed by NFS the answers never say so. -/
theorem renamed_next (posix : Posix policy env tree place) {state after : Machine L} {answers : Answers} (c : Call)
    (reply : c.Reply) (never : answers.renamed ≠ some true) (answered : handle env helpers c state = some (reply, after)) :
    (answers.next c reply).renamed ≠ some true := by
  cases c with
  | lower c =>
      obtain ⟨rfl, _⟩ := Prod.mk.inj (Option.some.inj answered)
      cases c with
      | nfsRenamed dentry =>
          show some (env.lower (.nfsRenamed dentry) state.visible.lower).1 ≠ some true
          rw [posix.renamed]
          nofun
      | superBlock inode =>
          simp only [Answers.next, Answers.nextLower]
          split <;> exact never
      | igrab inode =>
          simp only [Answers.next, Answers.nextLower]
          split <;> exact never
      | dentryOpen path flags =>
          simp only [Answers.next, Answers.nextLower]
          split <;> exact never
      | _ => exact never
  | upper c =>
      cases c with
      | iget5Locked inode => cases reply <;> exact never
      | _ => exact never
  | _ => exact never

/-- Where no file is renamed instead of removed, an unlink is recorded for its own result. -/
theorem never_renamed (posix : Posix policy env tree place) {before : Machine L} {done : Done L}
    {operation : Operation Name (BitVec 16)} (structural : op.operation = some operation)
    (ran : op.exec env helpers before = some done) : (answersOf done.events).renamed ≠ some true := by
  have step : ∀ c (state : Machine L) reply after (progress : Known × Answers), (naming op).permits progress c →
      progress.2.renamed ≠ some true → handle env helpers c state = some (reply, after) →
        ((naming op).next progress c reply).2.renamed ≠ some true :=
    fun c state reply after progress _ never answered => renamed_next posix c reply never answered
  have kept : ((naming op).after ((fun _ _ => False), .none) done.events).2.renamed ≠ some true :=
    (TracedOp.namesOwn structural).exec_relation step nofun ran
  rwa [naming_answers] at kept

end

end Trfs.Kernel
