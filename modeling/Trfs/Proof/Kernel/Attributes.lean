import Trfs.Library.Ensures
import Trfs.Proof.Kernel.Hidden
import Trfs.Proof.Kernel.Operations

namespace Trfs.Kernel
open Effect Trace

/-- What the lower tree looks like at one moment. -/
structure LowerShape where
  parent : LowerDentry → LowerDentry
  inode : LowerDentry → LowerInode
  attributes : LowerInode → Attributes

/-- The calls with which the lower filesystem changes its own objects. -/
def LowerCall.Changes : LowerCall → Prop
  | .vfsCreate .. | .vfsLink .. | .vfsUnlink .. | .vfsSymlink .. | .vfsMkdir .. | .vfsRmdir .. | .vfsMknod ..
  | .vfsRename .. | .vfsRead .. | .vfsWrite .. | .dentryOpen .. | .unlockedIoctl .. | .readIter .. | .writeIter .. => True
  | _ => False

/-- The shape of the lower tree as the environment shows it. A directory keeps its inode while dentries are in it. -/
structure Shows {L : Type} (env : Environment L) (shape : L → LowerShape) : Prop where
  parent : ∀ dentry state, (env.lower (.dgetParent dentry) state).1 = (shape state).parent dentry
  inode : ∀ dentry state, (env.lower (.dInode dentry) state).1 = (shape state).inode dentry
  negative : ∀ dentry state, (env.lower (.dNegative dentry) state).1 = decide ((shape state).inode dentry = LowerInode.null)
  attributes : ∀ inode state, (env.lower (.attributes inode) state).1 = (shape state).attributes inode
  keeps : ∀ c state, ¬ c.Changes → shape (env.lower c state).2 = shape state
  directories : ∀ c state dentry,
    (shape (env.lower c state).2).inode ((shape state).parent dentry) = (shape state).inode ((shape state).parent dentry)
  iget5Locked : ∀ inode state, shape (env.iget5Locked inode state).2 = shape state
  dSpliceAlias : ∀ inode dentry state, shape (env.dSpliceAlias inode dentry state).2 = shape state

def SameTimes (first second : Attributes) : Prop :=
  first.atime = second.atime ∧ first.mtime = second.mtime ∧ first.ctime = second.ctime

def SameSizeTimes (first second : Attributes) : Prop := first.size = second.size ∧ SameTimes first second

/-- The times or the size come from these attributes. -/
def Takes (value source : Attributes) : Prop :=
  (value.atime = source.atime ∧ value.mtime = source.mtime ∧ value.ctime = source.ctime) ∨ value.size = source.size

instance (value source : Attributes) : Decidable (Takes value source) := inferInstanceAs (Decidable (_ ∨ _))

/-- The lower inode that was read last, and which inode got its size or times from which lower inode. -/
structure Sources where
  source : Option (LowerInode × Attributes)
  copies : List (Inode × LowerInode)

def Sources.start : Sources := ⟨none, []⟩

/-- An inode is given new attributes. The copy is counted when they take the size or the times that were read. -/
def Sources.assign (progress : Sources) (dest : Inode) (value : Attributes) : Sources :=
  match progress.source with
  | none => progress
  | some (src, source) =>
      if Takes value source then ⟨none, progress.copies ++ [(dest, src)]⟩ else ⟨none, progress.copies⟩

def sourcing : Monitor Call.Reply Sources where
  permits _ _ := True
  next progress
    | .lower (.attributes src), reply => { progress with source := some (src, reply) }
    | .upper (.setAttributes dest value), _ => progress.assign dest value
    | _, _ => progress

/-- The lower inodes whose size or times a call copied, with the inodes that got them. -/
def copiesOf (events : List (Event Call.Reply)) : List (Inode × LowerInode) := (sourcing.after .start events).copies

section
variable {L : Type} {env : Environment L} {helpers : Helpers} {shape : L → LowerShape} {dir : Inode}
  {own : LowerInode} {paths : Nat → LowerPath} {tree : LowerShape} {now : Attributes} {state : Machine L}
  {progress : Sources} {α β : Type}

/-- The directory has these attributes over this lower tree, and it got size and times from its own lower inode only. -/
structure Steady (shape : L → LowerShape) (dir : Inode) (own : LowerInode) (paths : Nat → LowerPath)
    (tree : LowerShape) (now : Attributes) (state : Machine L) (progress : Sources) : Prop where
  lowerInode : state.visible.upper.lowerInode dir = own
  lowerPath : state.visible.upper.lowerPath = paths
  tree : shape state.visible.lower = tree
  attributes : state.visible.upper.attributes dir = now
  idle : progress.source = none
  copies : ∀ pair ∈ progress.copies, pair.1 = dir → pair.2 = own

/-- A calm call changes neither the lower tree nor an inode of the mount. -/
def Calm : Call → Prop
  | .lower (.attributes _) | .upper (.setAttributes ..) | .upper (.setLowerInode ..) | .upper (.iget5Locked _)
  | .upper (.kzallocFileInfo _) | .setMask _ | .copyMaskToUser _ => False
  | .lower c => ¬ c.Changes
  | _ => True

/-- A hidden call is calm. -/
theorem Hidden.calm (c : Call) (hidden : Hidden c) : Calm c := by
  cases c with
  | upper c => cases c <;> first | exact hidden.elim | trivial
  | tracer c => trivial
  | oops => trivial
  | _ => exact hidden.elim

/-- A calm call keeps the state steady. -/
theorem handle_calm (shows : Shows env shape) (c : Call) (state : Machine L) (progress : Sources) (reply : c.Reply)
    (after : Machine L) (calm : Calm c) (steady : Steady shape dir own paths tree now state progress)
    (answered : handle env helpers c state = some (reply, after)) :
    Steady shape dir own paths tree now after (sourcing.next progress c reply) := by
  obtain ⟨lowerInode, lowerPath, same, attributes, idle, copies⟩ := steady
  cases c with
  | lower c =>
      have still : sourcing.next progress (.lower c) reply = progress := by
        cases c <;> first | exact calm.elim | rfl
      have quiet : ¬ c.Changes := by
        cases c <;> exact calm.elim
      obtain ⟨rfl, rfl⟩ := Prod.mk.inj (Option.some.inj answered)
      rw [still]
      exact ⟨lowerInode, lowerPath, (shows.keeps c _ quiet).trans same, attributes, idle, copies⟩
  | upper c =>
      obtain ⟨rfl, rfl⟩ := Prod.mk.inj (Option.some.inj answered)
      cases c with
      | dSpliceAlias inode dentry =>
          have kept := (shows.dSpliceAlias inode dentry state.visible.lower).trans same
          refine ⟨?_, ?_, kept, ?_, idle, copies⟩
          · rw [← lowerInode]
            simp only
            split <;> rfl
          · rw [← lowerPath]
            simp only
            split <;> rfl
          · rw [← attributes]
            simp only
            split <;> rfl
      | _ => first | exact calm.elim | exact ⟨lowerInode, lowerPath, same, attributes, idle, copies⟩
  | tracer c =>
      have visible := handle_hidden (c := .tracer c) trivial answered
      have still : sourcing.next progress (.tracer c) reply = progress := rfl
      rw [still]
      exact ⟨visible ▸ lowerInode, visible ▸ lowerPath, visible ▸ same, visible ▸ attributes, idle, copies⟩
  | oops => exact Empty.elim reply
  | _ => exact calm.elim

/-- The rule for a part of a program that is calm. -/
theorem calm_ensures (shows : Shows env shape) {program : Prog β} {next : β → Prog α} (calls : program.Calls Calm)
    {post : α → Machine L → Sources → Prop} (steady : Steady shape dir own paths tree now state progress)
    (rest : ∀ value state progress, Steady shape dir own paths tree now state progress →
      (next value).Ensures (handle env helpers) sourcing post state progress) :
    (program >>= next).Ensures (handle env helpers) sourcing post state progress := by
  rw [Program.ensures_bind]
  exact calls.ensures (fun c state progress reply after calm steady answered =>
    handle_calm shows c state progress reply after calm steady answered) steady rest

/-- The rule for a read whose reply the tree determines. -/
theorem read_ensures (shows : Shows env shape) {c : Call} {next : c.Reply → Prog α}
    {post : α → Machine L → Sources → Prop} (calm : Calm c)
    (steady : Steady shape dir own paths tree now state progress) {holds : c.Reply → Prop}
    (replies : ∀ reply after, handle env helpers c state = some (reply, after) → holds reply)
    (rest : ∀ reply state progress, holds reply → Steady shape dir own paths tree now state progress →
      (next reply).Ensures (handle env helpers) sourcing post state progress) :
    (perform c >>= next).Ensures (handle env helpers) sourcing post state progress := by
  intro reply after answered
  exact rest reply after _ (replies reply after answered)
    (handle_calm shows c state progress reply after calm steady answered)

/-- The lower path of a dentry is the one it had. -/
theorem getPath_ensures (shows : Shows env shape) {dentry : Dentry} {next : LowerPath → Prog α}
    {post : α → Machine L → Sources → Prop} (steady : Steady shape dir own paths tree now state progress)
    (rest : ∀ state progress, Steady shape dir own paths tree now state progress →
      (next (paths dentry.address)).Ensures (handle env helpers) sourcing post state progress) :
    (trfsGetLowerPath dentry >>= next).Ensures (handle env helpers) sourcing post state progress := by
  have here : ∀ reply after, handle env helpers (.upper (.lowerPath dentry)) state = some (reply, after) →
      reply = paths dentry.address := by
    intro reply after answered
    rw [← (Prod.mk.inj (Option.some.inj answered)).1, ← steady.lowerPath]
  refine read_ensures shows trivial steady here ?_
  rintro path state progress rfl steady
  have gets : (lower (.pathGet (paths dentry.address))).Calls Calm := ⟨id, fun _ => trivial⟩
  exact calm_ensures shows gets steady fun _ state progress steady => rest state progress steady

/-- The inode of a lower dentry is that of the tree. -/
theorem dInode_ensures (shows : Shows env shape) {dentry : LowerDentry} {next : LowerInode → Prog α}
    {post : α → Machine L → Sources → Prop} (steady : Steady shape dir own paths tree now state progress)
    (rest : ∀ state progress, Steady shape dir own paths tree now state progress →
      (next (tree.inode dentry)).Ensures (handle env helpers) sourcing post state progress) :
    (lowerDInode dentry >>= next).Ensures (handle env helpers) sourcing post state progress := by
  have here : ∀ reply after, handle env helpers (.lower (.dInode dentry)) state = some (reply, after) →
      reply = tree.inode dentry := by
    intro reply after answered
    rw [← (Prod.mk.inj (Option.some.inj answered)).1, ← steady.tree]
    exact shows.inode dentry _
  refine read_ensures shows id steady here ?_
  rintro inode state progress rfl steady
  exact rest state progress steady

/-- The parent of a lower dentry is that of the tree. -/
theorem getParent_ensures (shows : Shows env shape) {dentry : LowerDentry} {next : LowerDentry → Prog α}
    {post : α → Machine L → Sources → Prop} (steady : Steady shape dir own paths tree now state progress)
    (rest : ∀ state progress, Steady shape dir own paths tree now state progress →
      (next (tree.parent dentry)).Ensures (handle env helpers) sourcing post state progress) :
    (lower (.dgetParent dentry) >>= next).Ensures (handle env helpers) sourcing post state progress := by
  have here : ∀ reply after, handle env helpers (.lower (.dgetParent dentry)) state = some (reply, after) →
      reply = tree.parent dentry := by
    intro reply after answered
    rw [← (Prod.mk.inj (Option.some.inj answered)).1, ← steady.tree]
    exact shows.parent dentry _
  refine read_ensures shows id steady here ?_
  rintro parent state progress rfl steady
  exact rest state progress steady

/-- The locked parent of a lower dentry is that of the tree. -/
theorem lockParent_ensures (shows : Shows env shape) {dentry : LowerDentry} {next : LowerDentry → Prog α}
    {post : α → Machine L → Sources → Prop} (steady : Steady shape dir own paths tree now state progress)
    (rest : ∀ state progress, Steady shape dir own paths tree now state progress →
      (next (tree.parent dentry)).Ensures (handle env helpers) sourcing post state progress) :
    (lockParent dentry >>= next).Ensures (handle env helpers) sourcing post state progress := by
  apply getParent_ensures shows steady
  intro state progress steady
  have locks : (lowerDInode (tree.parent dentry) >>= fun inode => upper (.lock [inode])).Calls Calm :=
    ⟨id, fun _ => ⟨trivial, fun _ => trivial⟩⟩
  change ((lowerDInode (tree.parent dentry) >>= fun inode => upper (.lock [inode])) >>=
    fun _ => next (tree.parent dentry)).Ensures _ _ _ _ _
  exact calm_ensures shows locks steady fun _ state progress steady => rest state progress steady

/-- The lower inode of the directory is its own one. -/
theorem lowerInode_ensures (shows : Shows env shape) {inode : Inode} {next : LowerInode → Prog α}
    {post : α → Machine L → Sources → Prop} (steady : Steady shape dir own paths tree now state progress)
    (rest : ∀ lowerInode state progress, (inode = dir → lowerInode = own) →
      Steady shape dir own paths tree now state progress →
      (next lowerInode).Ensures (handle env helpers) sourcing post state progress) :
    (upper (.lowerInode inode) >>= next).Ensures (handle env helpers) sourcing post state progress := by
  have here : ∀ reply after, handle env helpers (.upper (.lowerInode inode)) state = some (reply, after) →
      inode = dir → reply = own := by
    rintro reply after answered rfl
    rw [← (Prod.mk.inj (Option.some.inj answered)).1, ← steady.lowerInode]
  exact read_ensures shows trivial steady here rest

/-- A call of the lower filesystem leaves a tree whose directories have their inodes. -/
theorem change_ensures (shows : Shows env shape) {c : LowerCall} {next : c.Reply → Prog α} (changes : c.Changes)
    {post : α → Machine L → Sources → Prop} (steady : Steady shape dir own paths tree now state progress)
    (rest : ∀ reply state after progress, (∀ dentry, after.inode (tree.parent dentry) = tree.inode (tree.parent dentry)) →
      Steady shape dir own paths after now state progress →
      (next reply).Ensures (handle env helpers) sourcing post state progress) :
    (lower c >>= next).Ensures (handle env helpers) sourcing post state progress := by
  intro reply after answered
  obtain ⟨rfl, rfl⟩ := Prod.mk.inj (Option.some.inj answered)
  obtain ⟨lowerInode, lowerPath, same, attributes, idle, copies⟩ := steady
  have still : ∀ reply, sourcing.next progress (.lower c) reply = progress := by
    intro reply
    cases c <;> first | exact changes.elim | rfl
  rw [still]
  apply rest _ _ (shape (env.lower c state.visible.lower).2)
  · intro dentry
    rw [← same]
    exact shows.directories c _ dentry
  · exact ⟨lowerInode, lowerPath, rfl, attributes, idle, copies⟩

/-- The attributes of the directory after another inode, or the directory itself, was given new ones. -/
def given (dir inode : Inode) (now value : Attributes) : Attributes := if inode = dir then value else now

/-- An assignment adds at most a copy of the source that was read. -/
theorem Sources.assign_copies (progress : Sources) (dest : Inode) (value : Attributes) :
    ∀ pair ∈ (progress.assign dest value).copies, pair ∈ progress.copies ∨
      ∃ source, progress.source = some (pair.2, source) ∧ pair.1 = dest := by
  intro pair member
  unfold Sources.assign at member
  split at member
  · exact .inl member
  · rename_i src source read
    split at member
    · rcases List.mem_append.mp member with before | here
      · exact .inl before
      · obtain rfl := List.mem_singleton.mp here
        exact .inr ⟨source, read, rfl⟩
    · exact .inl member

/-- An assignment uses its source up. -/
theorem Sources.assign_source (progress : Sources) (dest : Inode) (value : Attributes) :
    (progress.assign dest value).source = none := by
  unfold Sources.assign
  split
  · assumption
  · split <;> rfl

/-- The state of the directory after an inode was given attributes. -/
theorem Steady.assign {after : Machine L} {dest : Inode} {value : Attributes} {reached : Sources}
    {reply : Call.Reply (.upper (.setAttributes dest value))}
    (steady : Steady shape dir own paths tree now state progress)
    (answered : handle env helpers (.upper (.setAttributes dest value)) state = some (reply, after))
    (copies : reached.copies = progress.copies)
    (reads : ∀ pair, reached.source = some pair → dest = dir → pair.1 = own) :
    Steady shape dir own paths tree (given dir dest now value) after (reached.assign dest value) := by
  obtain ⟨lowerInode, lowerPath, here, attributes, idle, before⟩ := steady
  obtain ⟨_, rfl⟩ := Prod.mk.inj (Option.some.inj answered)
  refine ⟨lowerInode, lowerPath, here, ?_, reached.assign_source dest value, ?_⟩
  · unfold given
    simp only [Visible.setUpper, Function.update_apply]
    by_cases dirs : dir = dest
    · rw [if_pos dirs, if_pos dirs.symm]
    · rw [if_neg dirs, if_neg fun other => dirs other.symm]
      exact attributes
  · intro pair member here
    rcases reached.assign_copies dest value pair member with old | ⟨source, read, dest⟩
    · exact before pair (copies ▸ old) here
    · exact reads _ read (dest.symm.trans here)

/-- A copy from a lower inode. Into the directory it must come from its own one. -/
theorem copy_ensures (shows : Shows env shape) {select : Attributes → Attributes → Attributes} {dest : Inode}
    {src : LowerInode} {next : Unit → Prog α} {post : α → Machine L → Sources → Prop}
    (steady : Steady shape dir own paths tree now state progress) (owns : dest = dir → src = own)
    (rest : ∀ state progress value, (dest = dir → value = select (tree.attributes own) now) →
      Steady shape dir own paths tree (given dir dest now value) state progress →
      (next ()).Ensures (handle env helpers) sourcing post state progress) :
    (fsstackCopy select dest src >>= next).Ensures (handle env helpers) sourcing post state progress := by
  intro read after answered old seen looked done last assigned
  obtain ⟨rfl, rfl⟩ := Prod.mk.inj (Option.some.inj answered)
  obtain ⟨rfl, rfl⟩ := Prod.mk.inj (Option.some.inj looked)
  have keeps := shows.keeps (.attributes src) state.visible.lower id
  have middle : Steady shape dir own paths tree now
      { state with visible := { state.visible with
        lower := (env.lower (.attributes src) state.visible.lower).2 } } progress :=
    { steady with tree := keeps.trans steady.tree }
  let source := (env.lower (.attributes src) state.visible.lower).1
  have reads : ∀ pair, some (src, source) = some pair → dest = dir → pair.1 = own := by
    intro pair same
    rw [← Option.some.inj same]
    exact owns
  have ended : Steady shape dir own paths tree _ last ({ progress with source := some (src, source) }.assign dest _) :=
    middle.assign assigned rfl reads
  refine rest _ _ (select source (state.visible.upper.attributes dest)) ?_ ended
  rintro rfl
  change select (env.lower (.attributes src) state.visible.lower).1 (state.visible.upper.attributes dest) = _
  rw [shows.attributes, owns rfl, steady.tree, steady.attributes]

/-- An update of an inode from its own members copies nothing. -/
theorem changeAttributes_ensures {inode : Inode} {change : Attributes → Attributes}
    {next : Unit → Prog α} {post : α → Machine L → Sources → Prop}
    (steady : Steady shape dir own paths tree now state progress)
    (rest : ∀ state progress value, (inode = dir → value = change now) →
      Steady shape dir own paths tree (given dir inode now value) state progress →
      (next ()).Ensures (handle env helpers) sourcing post state progress) :
    (changeAttributes inode change >>= next).Ensures (handle env helpers) sourcing post state progress := by
  intro old seen looked done last assigned
  obtain ⟨rfl, rfl⟩ := Prod.mk.inj (Option.some.inj looked)
  have reads : ∀ pair, progress.source = some pair → inode = dir → pair.1 = own := by
    intro pair same
    cases steady.idle.symm.trans same
  have ended : Steady shape dir own paths tree _ last (progress.assign inode _) := steady.assign assigned rfl reads
  refine rest _ _ (change (state.visible.upper.attributes inode)) ?_ ended
  rintro rfl
  rw [steady.attributes]

/-- The inode in question has the value it was given. -/
@[simp] theorem given_self {inode : Inode} {now value : Attributes} : given inode inode now value = value := if_pos rfl

/-- Every other inode keeps its value. -/
theorem given_other {inode : Inode} {now value : Attributes} (other : inode ≠ dir) :
    given dir inode now value = now := if_neg other

/-- What `trfs_iget` does to a new inode leaves the directory alone. -/
theorem initInode_ensures (shows : Shows env shape) {inode : Inode} {lowerInode : LowerInode} {next : Unit → Prog α}
    {post : α → Machine L → Sources → Prop} (other : inode ≠ dir)
    (steady : Steady shape dir own paths tree now state progress)
    (rest : ∀ state progress, Steady shape dir own paths tree now state progress →
      (next ()).Ensures (handle env helpers) sourcing post state progress) :
    (initInode inode lowerInode >>= next).Ensures (handle env helpers) sourcing post state progress := by
  intro _ after answered
  have kept : Steady shape dir own paths tree now after progress := by
    obtain ⟨_, rfl⟩ := Prod.mk.inj (Option.some.inj answered)
    have same := Function.update_of_ne other.symm lowerInode state.visible.upper.lowerInode
    exact { steady with lowerInode := same.trans steady.lowerInode }
  change (changeAttributes inode _ >>= fun _ => fsstackCopyAttrAll inode lowerInode >>= fun _ =>
    fsstackCopyInodeSize inode lowerInode >>= fun _ => upper (.unlockNewInode inode) >>= next).Ensures _ _ _ _ _
  apply changeAttributes_ensures kept
  intro state progress value _ steady
  rw [given_other other] at steady
  apply copy_ensures shows steady (fun same => absurd same other)
  intro state progress value _ steady
  rw [given_other other] at steady
  apply copy_ensures shows steady (fun same => absurd same other)
  intro state progress value _ steady
  rw [given_other other] at steady
  have unlocks : (upper (.unlockNewInode inode)).Calls Calm := ⟨trivial, fun _ => trivial⟩
  exact calm_ensures shows unlocks steady fun _ state progress steady => rest state progress steady

/-- A new inode is not the directory, which is in use. -/
def Fresh (env : Environment L) (dir : Inode) : Prop :=
  ∀ lowerInode state inode, (env.iget5Locked lowerInode state).1 = some (inode, true) → inode ≠ dir

/-- The inode cache keeps the state steady. -/
theorem trfsIget_ensures (shows : Shows env shape) (fresh : Fresh env dir) {lowerInode : LowerInode}
    (steady : Steady shape dir own paths tree now state progress) :
    (trfsIget lowerInode).Ensures (handle env helpers) sourcing
      (fun _ => Steady shape dir own paths tree now) state progress := by
  unfold trfsIget
  intro found after answered
  have here := (Prod.mk.inj (Option.some.inj answered)).1
  have kept : Steady shape dir own paths tree now after progress := by
    obtain ⟨_, rfl⟩ := Prod.mk.inj (Option.some.inj answered)
    exact { steady with tree := (shows.iget5Locked _ _).trans steady.tree }
  cases found with
  | none =>
      have puts : (lower (.iput lowerInode)).Calls Calm := ⟨id, fun _ => trivial⟩
      exact calm_ensures shows puts kept fun _ state progress steady => steady
  | some found =>
      obtain ⟨inode, new⟩ := found
      cases new with
      | false => exact kept
      | true =>
          have other := fresh _ _ inode here
          have grabs : (lower (.igrab lowerInode)).Calls Calm := ⟨id, fun _ => trivial⟩
          apply calm_ensures shows grabs kept
          intro grabbed state progress steady
          cases grabbed with
          | false => exact steady
          | true => exact initInode_ensures shows other steady fun state progress steady => steady

/-- Interposing a dentry leaves its directory alone. -/
theorem trfsInterpose_ensures (shows : Shows env shape) (fresh : Fresh env dir) {dentry : Dentry} {path : LowerPath}
    {next : BitVec 32 → Prog α} {post : α → Machine L → Sources → Prop}
    (steady : Steady shape dir own paths tree now state progress)
    (rest : ∀ err state progress, Steady shape dir own paths tree now state progress →
      (next err).Ensures (handle env helpers) sourcing post state progress) :
    (trfsInterpose dentry path >>= next).Ensures (handle env helpers) sourcing post state progress := by
  rw [Program.ensures_bind]
  apply Program.Ensures.mono rest
  unfold trfsInterpose
  apply dInode_ensures shows steady
  intro state progress steady
  have looks : (upper .lowerSuper).Calls Calm := ⟨trivial, fun _ => trivial⟩
  apply calm_ensures shows looks steady
  intro lowerSb state progress steady
  have super : (lower (.superBlock (tree.inode path.dentry))).Calls Calm := ⟨id, fun _ => trivial⟩
  apply calm_ensures shows super steady
  intro sb state progress steady
  by_cases crossed : sb ≠ lowerSb
  · rw [if_pos crossed]
    exact steady
  · rw [if_neg crossed, Program.ensures_bind]
    apply Program.Ensures.mono _ (trfsIget_ensures shows fresh steady)
    intro found state progress steady
    cases found with
    | error err => exact steady
    | ok inode =>
        have splices : (upper (.dSpliceAlias inode dentry)).Calls Calm := ⟨trivial, fun _ => trivial⟩
        exact splices.ensures (fun c state progress reply after calm steady answered =>
          handle_calm shows c state progress reply after calm steady answered) steady fun _ _ _ steady => steady

/-- The tracing block is calm. -/
theorem run_ensures (shows : Shows env shape) {block : TraceBlock} {next : TraceBuffers → Prog α}
    {post : α → Machine L → Sources → Prop} (steady : Steady shape dir own paths tree now state progress)
    (flags : block.openFlags.Calls IsRead) (mode : block.permMode.Calls IsRead)
    (rest : ∀ buffers state progress, Steady shape dir own paths tree now state progress →
      (next buffers).Ensures (handle env helpers) sourcing post state progress) :
    (block.run >>= next).Ensures (handle env helpers) sourcing post state progress :=
  calm_ensures shows ((run_hidden flags mode).mono Hidden.calm) steady rest

/-- Freeing a buffer is calm. -/
theorem IsKfree.calm (c : Call) (free : IsKfree c) : Calm c := by
  cases c with
  | tracer c => trivial
  | _ => exact free.elim

/-- The end of an operation is calm. -/
theorem out_ensures (shows : Shows env shape) {leave : Prog Unit} {err : BitVec 32} {buffers : TraceBuffers}
    {post : Outcome → Machine L → Sources → Prop} (leaves : leave.Calls Calm)
    (steady : Steady shape dir own paths tree now state progress)
    (rest : ∀ state progress, Steady shape dir own paths tree now state progress → post ⟨err, none⟩ state progress) :
    (buffers.out leave err).Ensures (handle env helpers) sourcing post state progress := by
  apply calm_ensures shows leaves steady
  intro _ state progress steady
  apply calm_ensures shows ((freeInode_frees buffers).mono IsKfree.calm) steady
  intro _ state progress steady
  exact rest state progress steady

end

end Trfs.Kernel
