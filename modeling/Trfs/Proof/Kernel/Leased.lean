import Trfs.Library.Leases
import Trfs.Proof.Kernel.MethodTable

namespace Trfs.Kernel
open Bytes Effect Trace

/-- The references and locks that a call of the lower filesystem relies on. A change of a directory needs its lock, but
`trfs_unlink` locks the directory that the lower dentry is in. -/
def LowerCall.needs : LowerCall → Multiset Token
  | .vfsCreate dir dentry .. | .vfsSymlink dir dentry _ | .vfsMkdir dir dentry _ | .vfsRmdir dir dentry
  | .vfsMknod dir dentry .. => {.lock [dir]} + dentryTokens dentry
  | .vfsLink oldDentry dir newDentry => {.lock [dir]} + (dentryTokens oldDentry + dentryTokens newDentry)
  | .vfsRename oldDir oldDentry newDir newDentry =>
      {.lock [oldDir, newDir]} + (dentryTokens oldDentry + dentryTokens newDentry)
  | .renameTrap first second => dentryTokens first + dentryTokens second
  | .vfsUnlink _ dentry | .dInode dentry | .dNegative dentry | .dgetParent dentry | .dget dentry | .nfsRenamed dentry =>
      dentryTokens dentry
  | .dentryOpen path _ | .pathGet path => pathTokens path
  | .vfsRead file .. | .vfsWrite file .. | .unlockedIoctl file .. | .hasReadIter file | .hasWriteIter file
  | .getFile file => {.file file}
  | .readIter iocb _ | .writeIter iocb .. => {.file iocb.filp}
  | _ => 0

def callNeeds : Call → Multiset Token
  | .lower c => c.needs
  | _ => 0

def VfsCall.needs : VfsCall → Multiset Token
  | .vfsPathLookup dir mnt _ => dentryTokens dir + mntTokens mnt
  | .dLookup dentry _ | .dAlloc dentry _ | .dAdd dentry | .opRevalidate dentry | .dRevalidate dentry _ =>
      dentryTokens dentry
  | .notifyChange dentry ia => dentryTokens dentry + fileTokens ia.file
  | .mntget mnt => mntTokens mnt
  | .vfsGetattr path => pathTokens path
  | .vfsFsyncRange file .. => {.file file}
  | _ => 0

/-- The tokens other than the memory and the open file of a tracer. -/
def Token.Lower : Token → Prop
  | .buffer _ | .traceFile _ => False
  | _ => True

instance : DecidablePred Token.Lower := fun token => by
  cases token <;> first | exact isTrue trivial | exact isFalse id

def leaseGains : (c : Call) → c.Reply → Multiset Token
  | .tracer _, _ => 0
  | c, reply => callGains c reply

def leaseSpends : Call → Multiset Token
  | .tracer _ => 0
  | c => callSpends c

/-- What a request knows: whether the private data of the mount are as it found them, what they lend to it, and the
inodes of the lower dentries that it holds. -/
structure Knowledge where
  intact : Bool
  lent : List (Multiset Token)
  pinned : List (LowerDentry × LowerInode)

instance : Preorder Knowledge where
  le first second := first.intact = second.intact ∧ first.lent ⊆ second.lent ∧ first.pinned ⊆ second.pinned
  le_refl known := ⟨rfl, List.Subset.refl _, List.Subset.refl _⟩
  le_trans _ _ _ le later :=
    ⟨le.1.trans later.1, List.Subset.trans le.2.1 later.2.1, List.Subset.trans le.2.2 later.2.2⟩

def Knowledge.start : Knowledge := ⟨true, [], []⟩

def Knowledge.lend (known : Knowledge) (part : Multiset Token) : Knowledge :=
  if known.intact then { known with lent := part :: known.lent } else known

def Knowledge.pin (known : Knowledge) (dentry : LowerDentry) (inode : LowerInode) : Knowledge :=
  { known with pinned := (dentry, inode) :: known.pinned }

def Knowledge.unpin (known : Knowledge) : Knowledge := { known with pinned := [] }

/-- After a new file nothing is lent any more. -/
def Knowledge.unlent (known : Knowledge) : Knowledge := { known with lent := [] }

/-- After any other change of the private data they may hold what the request has. -/
def Knowledge.altered : Knowledge := ⟨false, [], []⟩

/-- A dentry that is held shows the inode that it has shown before. -/
def Knowledge.shown (known : Knowledge) (dentry : LowerDentry) (inode : LowerInode) : Option Knowledge :=
  if ∃ pair ∈ known.pinned, pair.1 = dentry ∧ pair.2 ≠ .null ∧ pair.2 ≠ inode then none
  else if ∃ pair ∈ known.pinned, pair.1 = dentry then some (known.pin dentry inode)
  else some known

def callLearn (known : Knowledge) : (c : Call) → c.Reply → Option Knowledge
  | .upper (.lowerPath _), path => some (known.lend (pathTokens path))
  | .upper (.lowerFile _), lowerFile => some (known.lend (fileTokens lowerFile))
  | .upper (.lock inodes), _ => if LowerInode.null ∈ inodes then none else some known
  | .upper (.kzallocFileInfo _), _ => some known.unlent
  | .upper (.setLowerFile ..), _ | .upper (.kfreeFileInfo _), _ => some .altered
  | .lower (.pathGet path), _ => some (known.pin path.dentry .null)
  | .lower (.dgetParent _), dir => some (known.pin dir .null)
  | .lower (.dInode dentry), inode => known.shown dentry inode
  | .lower (.pathPut _), _ | .lower (.dput _), _ | .lower (.fput _), _ | .copyMaskToUser _, _ => some known.unpin
  | _, _ => some known

/-- The calls that change the private data of a dentry. -/
def VfsCall.Alters : VfsCall → Prop
  | .newDentryPrivateData _ | .setLowerPath .. | .takeLowerPath _ | .freeDentryPrivateData _ => True
  | _ => False

instance : DecidablePred VfsCall.Alters := fun c => by
  cases c <;> first | exact isTrue trivial | exact isFalse id

def vfsLearn (known : Knowledge) : VfsCall → Option Knowledge
  | .dput _ => some known.unpin
  | c => if c.Alters then some .altered else some known

/-- What was lent stays lent. -/
theorem Knowledge.lent_mono {known later : Knowledge} {part : Multiset Token} (le : known ≤ later)
    (lent : part ∈ known.lent) : part ∈ later.lent := le.2.1 lent

/-- To learn more does not change whether the private data are as before. -/
theorem Knowledge.intact_iff {known later : Knowledge} (le : known ≤ later) :
    known.intact = true ↔ later.intact = true := by rw [le.1]

def callLeasing : Leasing Call.Reply Token Knowledge where
  gains := leaseGains
  spends := leaseSpends
  needs := callNeeds
  intact known := known.intact = true
  intact_iff := Knowledge.intact_iff
  lent known part := part ∈ known.lent
  lent_mono := Knowledge.lent_mono
  learn := callLearn

def mountLeasing : Leasing MountCall.Reply Token Knowledge where
  gains c reply := match c, reply with
    | .kernel c, reply => leaseGains c reply
    | .vfs c, reply => vfsGains c reply
  spends c := match c with
    | .kernel c => leaseSpends c
    | .vfs c => vfsSpends c
  needs c := match c with
    | .kernel c => callNeeds c
    | .vfs c => c.needs
  intact known := known.intact = true
  intact_iff := Knowledge.intact_iff
  lent known part := part ∈ known.lent
  lent_mono := Knowledge.lent_mono
  learn known c reply := match c, reply with
    | .kernel c, reply => callLearn known c reply
    | .vfs c, _ => vfsLearn known c

section
variable {known later above : Knowledge} {dentry : LowerDentry} {inode : LowerInode} {part : Multiset Token}

/-- A pin adds to what is known, -/
theorem Knowledge.le_pin : known ≤ known.pin dentry inode :=
  ⟨rfl, List.Subset.refl _, List.subset_cons_self _ _⟩

/-- and so does what is lent. -/
theorem Knowledge.le_lend : known ≤ known.lend part := by
  unfold lend
  split
  · exact ⟨rfl, List.subset_cons_self _ _, List.Subset.refl _⟩
  · exact le_rfl

/-- Who knows more knows more after a pin, -/
theorem Knowledge.pin_mono (le : known ≤ later) : known.pin dentry inode ≤ later.pin dentry inode :=
  ⟨le.1, le.2.1, List.cons_subset_cons _ le.2.2⟩

/-- after forgetting the pins, -/
theorem Knowledge.unpin_mono (le : known ≤ later) : known.unpin ≤ later.unpin :=
  ⟨le.1, le.2.1, List.Subset.refl _⟩

/-- and after something was lent. -/
theorem Knowledge.lend_mono (le : known ≤ later) : known.lend part ≤ later.lend part := by
  unfold lend
  rw [← le.1]
  split
  · exact ⟨rfl, List.cons_subset_cons _ le.2.1, le.2.2⟩
  · exact le

/-- What the untouched private data lend is lent. -/
theorem Knowledge.mem_lend (intact : known.intact = true) : part ∈ (known.lend part).lent := by
  unfold lend
  rw [if_pos intact]
  exact List.mem_cons_self

/-- A read of an inode adds to what is known. -/
theorem Knowledge.le_shown (learnt : known.shown dentry inode = some later) : known ≤ later := by
  unfold shown at learnt
  split at learnt
  · cases learnt
  · split at learnt
    · obtain rfl := Option.some.inj learnt
      exact le_pin
    · obtain rfl := Option.some.inj learnt
      exact le_rfl

/-- The inode of a dentry that is held is known afterwards. -/
theorem Knowledge.shown_pinned (there : (dentry, .null) ∈ known.pinned) (learnt : known.shown dentry inode = some later) :
    known.pin dentry inode ≤ later := by
  unfold shown at learnt
  split at learnt
  · cases learnt
  · rw [if_pos ⟨_, there, rfl⟩] at learnt
    obtain rfl := Option.some.inj learnt
    exact le_rfl

/-- A pinned dentry shows its inode again. -/
theorem Knowledge.shown_same {first : LowerInode} (there : (dentry, first) ∈ known.pinned) (real : first ≠ .null)
    (learnt : known.shown dentry inode = some later) : inode = first := by
  unfold shown at learnt
  by_contra other
  rw [if_pos ⟨_, there, rfl, real, fun same => other same.symm⟩] at learnt
  cases learnt

end

/-- The calls that neither take nor give and need nothing. -/
def Free : Call → Prop
  | .tracer _ | .oops | .lower (.superBlock _) | .lower (.igrab _) | .lower (.iput _) | .lower (.attributes _) => True
  | .upper (.lock _) | .upper (.unlock _) | .upper (.setLowerFile ..) | .upper (.kzallocFileInfo _)
  | .upper (.kfreeFileInfo _) => False
  | .upper _ => True
  | _ => False

/-- The calls that neither take nor give. -/
def Bare : Call → Prop
  | .lower (.pathGet _) | .lower (.dget _) | .lower (.dgetParent _) | .lower (.getFile _) | .lower (.dentryOpen ..)
  | .lower (.pathPut _) | .lower (.dput _) | .lower (.fput _) | .setMask _ | .copyMaskToUser _ => False
  | .lower _ => True
  | c => Free c

/-- A bare call gives and takes no reference. -/
theorem Bare.leasing {c : Call} (bare : Bare c) : callLeasing.Idle c := by
  have same : ∀ {known later : Knowledge}, some known = some later → known ≤ later :=
    fun equal => (Option.some.inj equal).le
  cases c with
  | lower c =>
      cases c <;> first
        | exact bare.elim
        | exact ⟨rfl, fun _ => rfl, fun _ _ _ => same⟩
        | exact ⟨rfl, fun _ => rfl, fun _ _ _ => Knowledge.le_shown⟩
  | upper c =>
      cases c <;> first
        | exact bare.elim
        | exact ⟨rfl, fun _ => rfl, fun _ _ _ => same⟩
        | exact ⟨rfl, fun _ => rfl, fun known _ _ learnt => Knowledge.le_lend.trans (same learnt)⟩
  | tracer c => exact ⟨rfl, fun _ => rfl, fun _ _ _ => same⟩
  | oops => exact ⟨rfl, fun _ => rfl, fun _ _ _ => same⟩
  | _ => exact bare.elim

section
variable {held : Multiset Token} {known : Knowledge} {α : Type}

/-- A free call needs none either. -/
theorem Free.bare {c : Call} (free : Free c) : Bare c ∧ callNeeds c = 0 := by
  cases c with
  | lower c => cases c <;> first | exact free.elim | exact ⟨trivial, rfl⟩
  | upper c => exact ⟨free, rfl⟩
  | tracer c => exact ⟨free, rfl⟩
  | oops => exact ⟨trivial, rfl⟩
  | _ => exact free.elim

/-- So it is always covered. -/
theorem Free.tame (c : Call) (free : Free c) : callLeasing.Tame held known c := by
  obtain ⟨bare, nothing⟩ := free.bare
  refine ⟨bare.leasing, .inl ?_⟩
  change callNeeds c ≤ held
  rw [nothing]
  exact Multiset.zero_le held

/-- A bare call is covered when the request holds what it needs. -/
theorem tame_of_held {c : Call} (bare : Bare c) (enough : callNeeds c ≤ held) : callLeasing.Tame held known c :=
  ⟨bare.leasing, .inl enough⟩

/-- What a program of free calls does needs nothing. -/
theorem free_tame {program : Prog α} (calls : program.Calls Free) : program.Calls (callLeasing.Tame held known) :=
  calls.mono Free.tame

end

/-- The calls of the tracing block are free. -/
theorem Hidden.free (c : Call) (hidden : Hidden c) : Free c := by
  cases c with
  | upper c => cases c <;> first | exact trivial | exact hidden.elim
  | _ => first | exact trivial | exact hidden.elim

section
variable {held rest : Multiset Token} {known : Knowledge} {α : Type} {post : α → Multiset Token → Knowledge → Prop}

/-- A part of what is held is held. -/
theorem le_of_parts {part : Multiset Token} (whole : held = part + rest) : part ≤ held := by
  rw [whole]
  exact Multiset.le_add_right _ _

/-- The path of a dentry is lent by its private data until there is a reference on it. -/
theorem getPath_covers {dentry : Dentry} {next : LowerPath → Prog α} (intact : known.intact = true)
    (continues : ∀ path, (next path).Covers callLeasing post (held + pathTokens path) (known.pin path.dentry .null)) :
    (trfsGetLowerPath dentry >>= next).Covers callLeasing post held known := by
  change (upper (.lowerPath dentry) >>= fun path => lower (.pathGet path) >>= fun _ => next path).Covers _ _ _ _
  apply covers_perform (.inl (Multiset.zero_le held)) (zero_add held).symm
  intro path above later le learnt
  obtain rfl := Option.some.inj learnt
  have lent : pathTokens path ∈ (above.lend (pathTokens path)).lent := Knowledge.mem_lend (le.1 ▸ intact)
  apply covers_perform (.of_lent lent le_rfl) (zero_add _).symm
  intro _ beyond last under learnt
  obtain rfl := Option.some.inj learnt
  have total : held + leaseGains (.upper (.lowerPath dentry)) path + leaseGains (.lower (.pathGet path)) () =
      held + pathTokens path := congrArg (· + pathTokens path) (add_zero held)
  change (next path).Covers callLeasing post (held + leaseGains (.upper (.lowerPath dentry)) path +
    leaseGains (.lower (.pathGet path)) ()) _
  rw [total]
  exact (continues path).mono (Knowledge.pin_mono (le.trans (Knowledge.le_lend.trans under)))

/-- The lower file of an open file is lent by its private data. -/
theorem lowerFile_covers {file : File} {next : Option LowerFile → Prog α}
    (continues : ∀ lowerFile, (next lowerFile).Covers callLeasing post held (known.lend (fileTokens lowerFile))) :
    (upper (.lowerFile file) >>= next).Covers callLeasing post held known := by
  apply covers_perform (.inl (Multiset.zero_le held)) (zero_add held).symm
  intro lowerFile above later le learnt
  obtain rfl := Option.some.inj learnt
  change (next lowerFile).Covers callLeasing post (held + 0) _
  rw [add_zero]
  exact (continues lowerFile).mono (Knowledge.lend_mono le)

/-- The lower file of an open file is lent to the request. -/
theorem openLowerFile_covers {file : File} {next : LowerFile → Prog α}
    (continues : ∀ lowerFile, (next lowerFile).Covers callLeasing post held (known.lend {.file lowerFile})) :
    (openLowerFile file >>= next).Covers callLeasing post held known := by
  rw [Program.covers_bind]
  unfold openLowerFile
  apply lowerFile_covers
  intro lowerFile
  cases lowerFile with
  | none => exact ⟨(Free.tame .oops trivial).permits, fun reply => nomatch reply⟩
  | some lowerFile => exact fun later le => (continues lowerFile).mono le

/-- A dentry with its parent. -/
theorem dgetParent_covers {dentry : LowerDentry} {next : LowerDentry → Prog α} (enough : dentryTokens dentry ≤ held)
    (continues : ∀ dir, (next dir).Covers callLeasing post (held + dentryTokens dir) (known.pin dir .null)) :
    (lower (.dgetParent dentry) >>= next).Covers callLeasing post held known := by
  apply covers_perform (.inl enough) (zero_add held).symm
  intro dir above later le learnt
  obtain rfl := Option.some.inj learnt
  exact (continues dir).mono (Knowledge.pin_mono le)

/-- A second reference needs a first one. -/
theorem dget_covers {dentry : LowerDentry} {next : Unit → Prog α} (enough : dentryTokens dentry ≤ held)
    (continues : (next ()).Covers callLeasing post (held + dentryTokens dentry) known) :
    (lower (.dget dentry) >>= next).Covers callLeasing post held known := by
  apply covers_perform (.inl enough) (zero_add held).symm
  intro _ above later le learnt
  obtain rfl := Option.some.inj learnt
  exact continues.mono le

/-- A request that has pinned a dentry learns its inode. -/
theorem readInode_covers {dentry : LowerDentry} {next : LowerInode → Prog α} (enough : dentryTokens dentry ≤ held)
    (pin : (dentry, .null) ∈ known.pinned)
    (continues : ∀ inode, (next inode).Covers callLeasing post held (known.pin dentry inode)) :
    (lowerDInode dentry >>= next).Covers callLeasing post held known := by
  apply covers_perform (.inl enough) (zero_add held).symm
  intro inode above later le learnt
  change (next inode).Covers callLeasing post (held + 0) later
  rw [add_zero]
  exact (continues inode).mono ((Knowledge.pin_mono le).trans (Knowledge.shown_pinned (le.2.2 pin) learnt))

/-- A dentry that is held shows its inode again. -/
theorem readPinned_covers {dentry : LowerDentry} {inode : LowerInode} {next : LowerInode → Prog α}
    (enough : dentryTokens dentry ≤ held) (pin : (dentry, inode) ∈ known.pinned) (real : inode ≠ .null)
    (continues : (next inode).Covers callLeasing post held known) :
    (lowerDInode dentry >>= next).Covers callLeasing post held known := by
  apply covers_perform (.inl enough) (zero_add held).symm
  intro shown above later le learnt
  obtain rfl := Knowledge.shown_same (le.2.2 pin) real learnt
  change (next shown).Covers callLeasing post (held + 0) later
  rw [add_zero]
  exact continues.mono (le.trans (Knowledge.le_shown learnt))

/-- A lock is held from then on, and its inodes are not `NULL`. -/
theorem lock_covers {inodes : List LowerInode} {next : Unit → Prog α}
    (continues : (∀ inode ∈ inodes, inode ≠ .null) → (next ()).Covers callLeasing post (held + {.lock inodes}) known) :
    (upper (.lock inodes) >>= next).Covers callLeasing post held known := by
  apply covers_perform (.inl (Multiset.zero_le held)) (zero_add held).symm
  intro _ above later le learnt
  change (if LowerInode.null ∈ inodes then none else some above) = some later at learnt
  split at learnt
  · cases learnt
  · rename_i absent
    obtain rfl := Option.some.inj learnt
    apply (continues _).mono le
    rintro inode member rfl
    exact absent member

/-- Unlocking gives the lock back. -/
theorem unlock_covers {inodes : List LowerInode} {next : Unit → Prog α} (enough : held = {.lock inodes} + rest)
    (continues : (next ()).Covers callLeasing post rest known) :
    (upper (.unlock inodes) >>= next).Covers callLeasing post held known := by
  apply covers_perform (.inl (Multiset.zero_le held)) enough
  intro _ above later le learnt
  obtain rfl := Option.some.inj learnt
  change (next ()).Covers callLeasing post (rest + 0) _
  rw [add_zero]
  exact continues.mono le

/-- After a put the request relies on no dentry any more. -/
theorem putPath_covers {path : LowerPath} {next : Unit → Prog α} (enough : held = pathTokens path + rest)
    (continues : (next ()).Covers callLeasing post rest known.unpin) :
    (trfsPutLowerPath path >>= next).Covers callLeasing post held known := by
  apply covers_perform (.inl (Multiset.zero_le held)) enough
  intro _ above later le learnt
  obtain rfl := Option.some.inj learnt
  change (next ()).Covers callLeasing post (rest + 0) _
  rw [add_zero]
  exact continues.mono (Knowledge.unpin_mono le)

/-- Putting a dentry gives its reference back, and its pin is forgotten. -/
theorem dput_covers {dentry : LowerDentry} {next : Unit → Prog α} (enough : held = dentryTokens dentry + rest)
    (continues : (next ()).Covers callLeasing post rest known.unpin) :
    (lower (.dput dentry) >>= next).Covers callLeasing post held known := by
  apply covers_perform (.inl (Multiset.zero_le held)) enough
  intro _ above later le learnt
  obtain rfl := Option.some.inj learnt
  change (next ()).Covers callLeasing post (rest + 0) _
  rw [add_zero]
  exact continues.mono (Knowledge.unpin_mono le)

/-- `lock_parent` holds a reference on the parent and the lock of its inode. -/
theorem lockParent_covers {dentry : LowerDentry} {next : LowerDentry → Prog α} (enough : dentryTokens dentry ≤ held)
    (continues : ∀ dir inode, inode ≠ .null →
      (next dir).Covers callLeasing post (held + dentryTokens dir + {.lock [inode]}) (known.pin dir inode)) :
    (lockParent dentry >>= next).Covers callLeasing post held known := by
  change (lower (.dgetParent dentry) >>= fun dir => lowerDInode dir >>= fun inode =>
    upper (.lock [inode]) >>= fun _ => next dir).Covers _ _ _ _
  apply dgetParent_covers enough
  intro dir
  apply readInode_covers (Multiset.le_add_left _ _) List.mem_cons_self
  intro inode
  apply lock_covers
  intro real
  exact (continues dir inode (real inode List.mem_cons_self)).mono (Knowledge.pin_mono Knowledge.le_pin)

/-- `unlock_dir` gives back the lock that `lock_parent` took and the reference on the parent. -/
theorem unlockDir_covers {dir : LowerDentry} {inode : LowerInode} {next : Unit → Prog α}
    (pin : (dir, inode) ∈ known.pinned) (real : inode ≠ .null)
    (enough : held = {.lock [inode]} + (dentryTokens dir + rest))
    (continues : (next ()).Covers callLeasing post rest known.unpin) :
    (unlockDir dir >>= next).Covers callLeasing post held known := by
  change (lowerDInode dir >>= fun inode => upper (.unlock [inode]) >>= fun _ => lower (.dput dir) >>= next).Covers
    _ _ _ _
  have order : held = dentryTokens dir + ({.lock [inode]} + rest) := by rw [enough, add_left_comm]
  apply readPinned_covers (le_of_parts order) pin real
  apply unlock_covers enough
  exact dput_covers rfl continues

/-- The tracing block works on its own memory. -/
theorem run_covers {block : TraceBlock} {next : TraceBuffers → Prog α} (flags : block.openFlags.Calls IsRead)
    (mode : block.permMode.Calls IsRead)
    (continues : ∀ buffers, (next buffers).Covers callLeasing post held known) :
    (block.run >>= next).Covers callLeasing post held known :=
  (free_tame ((run_hidden flags mode).mono Hidden.free)).covers continues

end

end Trfs.Kernel
