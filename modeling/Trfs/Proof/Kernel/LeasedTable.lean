import Trfs.Proof.Kernel.LeasedRequests

namespace Trfs.Kernel.Methods
open Bytes Effect

def MethodCall.needs : MethodCall → Multiset Token
  | .readlink dentry .. | .vfsSetxattr dentry .. | .vfsGetxattr dentry .. | .vfsListxattr dentry ..
  | .vfsRemovexattr dentry _ => dentryTokens dentry
  | .vfsStatfs path => pathTokens path
  | .hasFileOps file | .hasFileMember file _ | .flush file _ | .fasync _ file _ | .compatIoctl file .. | .iterateDir file
  | .genericFileLlseek (.inr file) .. | .position (.inr file) | .setPosition (.inr file) _ => {.file file}
  | _ => 0

/-- The references and locks that a call relies on. -/
def TableCall.needs : TableCall → Multiset Token
  | .mount c => mountLeasing.needs c
  | .method c => c.needs

def tableLeasing : Leasing TableCall.Reply Token Knowledge where
  gains c reply := match c, reply with
    | .mount c, reply => mountLeasing.gains c reply
    | .method _, _ => 0
  spends c := match c with
    | .mount c => mountLeasing.spends c
    | .method _ => 0
  needs := TableCall.needs
  intact known := known.intact = true
  intact_iff := Knowledge.intact_iff
  lent known part := part ∈ known.lent
  lent_mono := Knowledge.lent_mono
  learn known c reply := match c, reply with
    | .mount c, reply => mountLeasing.learn known c reply
    | .method _, _ => some known

section
variable {held rest : Multiset Token} {known : Knowledge} {α β : Type} {post : α → Multiset Token → Knowledge → Prop}
  {dentry : Dentry} {path : LowerPath} {file : File}

/-- What is covered in the other files of the mount is covered as a part of the method table. -/
theorem mount_covers {program : MountProg α} (covers : program.Covers mountLeasing post held known) :
    (mount program).Covers tableLeasing post held known := by
  induction program generalizing held known with
  | pure value => exact covers
  | call c next ih => exact ⟨covers.1, fun reply above later le learnt => ih reply (covers.2 reply above later le learnt)⟩

/-- The rule for a part from the operations. -/
theorem own_covers {program : Prog β} {next : β → MethodProg α}
    (covers : program.Covers callLeasing (fun value held known => (next value).Covers tableLeasing post held known) held
      known) :
    (own program >>= next).Covers tableLeasing post held known := by
  rw [Program.covers_bind]
  exact mount_covers (kernel_covers covers)

/-- The rule for a part that neither takes nor gives a reference. -/
theorem tameOwn_covers {program : Prog β} {next : β → MethodProg α} (calls : program.Calls (callLeasing.Tame held known))
    (continues : ∀ value, (next value).Covers tableLeasing post held known) :
    (own program >>= next).Covers tableLeasing post held known := by
  apply own_covers
  exact calls.covers_last fun value _ le => (continues value).mono le

/-- Taking the lower path gives a reference on it. -/
theorem getPathOwn_covers {next : LowerPath → MethodProg α} (intact : known.intact = true)
    (continues : ∀ path, (next path).Covers tableLeasing post (held + pathTokens path) (known.pin path.dentry .null)) :
    (own (trfsGetLowerPath dentry) >>= next).Covers tableLeasing post held known := by
  apply own_covers
  rw [← (trfsGetLowerPath dentry).bind_pure]
  apply getPath_covers intact
  exact fun path _ le => (continues path).mono le

/-- Putting it needs this reference. -/
theorem putPathOwn_covers {next : Unit → MethodProg α} (enough : held = pathTokens path + rest)
    (continues : (next ()).Covers tableLeasing post rest known.unpin) :
    (own (trfsPutLowerPath path) >>= next).Covers tableLeasing post held known := by
  apply own_covers
  rw [← (trfsPutLowerPath path).bind_pure]
  apply putPath_covers enough
  exact fun _ le => continues.mono le

/-- The rule for a call of these methods. -/
theorem method_covers (c : MethodCall) {next : c.Reply → MethodProg α} (enough : tableLeasing.Covered held known (.method c))
    (continues : ∀ reply, (next reply).Covers tableLeasing post held known) :
    (method c >>= next).Covers tableLeasing post held known := by
  have same : ∀ {known later : Knowledge}, some known = some later → known ≤ later :=
    fun equal => (Option.some.inj equal).le
  have tame : (method c).Calls (tableLeasing.Tame held known) :=
    ⟨⟨⟨rfl, fun _ => rfl, fun _ _ _ => same⟩, enough⟩, fun _ => trivial⟩
  exact tame.covers continues

/-- A method that needs nothing may always be called. -/
theorem method_needless {c : MethodCall} (nothing : c.needs = 0) : tableLeasing.Covered held known (.method c) := by
  left
  change c.needs ≤ held
  rw [nothing]
  exact Multiset.zero_le held

/-- The test whether the lower inode has a method needs nothing. -/
theorem hasMember_covers {testsOps : Bool} {inode : LowerInode} {member : InodeMember} {next : Bool → MethodProg α}
    (continues : ∀ there, (next there).Covers tableLeasing post held known) :
    (hasMember testsOps inode member >>= next).Covers tableLeasing post held known := by
  have ends : ∀ there later, known ≤ later → (next there).Covers tableLeasing post held later :=
    fun there later le => (continues there).mono le
  have tests : ∀ ops : Bool, Program.Covers tableLeasing (fun there held known => (next there).Covers tableLeasing post held known)
      (if ops then method (.hasInodeMember inode member) else pure false) held known := by
    intro ops
    cases ops with
    | false => exact ends false
    | true =>
        rw [if_pos rfl, ← (method (.hasInodeMember inode member)).bind_pure]
        exact method_covers (.hasInodeMember inode member) (method_needless rfl) ends
  rw [Program.covers_bind]
  cases testsOps with
  | false => exact tests true
  | true => exact method_covers (.hasInodeOps inode) (method_needless rfl) tests

/-- A part that only asks for what is held, with nothing left to do. -/
theorem putPath_ends {value : α} :
    (own (trfsPutLowerPath path) >>= fun _ => pure value).Covers tableLeasing (fun _ _ _ => True)
      (0 + pathTokens path) known := by
  apply putPathOwn_covers (add_comm _ _)
  exact fun _ _ => trivial

/-- All calls of a request have what they need, from its first one on. -/
def TableLeased (program : MethodProg α) : Prop := program.Covers tableLeasing (fun _ _ _ => True) 0 .start

/-- The result of a method does not matter for its references. -/
theorem TableLeased.discard {program : MethodProg β} (leased : TableLeased program) : TableLeased (discard program) := by
  unfold TableLeased Methods.discard
  rw [Program.covers_bind]
  exact leased.weaken fun _ _ _ _ _ _ => trivial

/-- Each of the four xattr methods holds the lower path while it forwards the call. -/
theorem forwardXattr_leased {member : InodeMember} {testsOps : Bool} {missing : BitVec 32}
    {copy : Inode → LowerInode → Prog Unit} {forward : LowerDentry → MethodProg (BitVec 32)}
    (copies : ∀ inode lowerInode, (copy inode lowerInode).Calls Free)
    (forwards : ∀ lowerDentry held known, dentryTokens lowerDentry ≤ held →
      (forward lowerDentry).Calls (tableLeasing.Tame held known)) :
    TableLeased (forwardXattr member testsOps missing copy forward dentry) := by
  unfold TableLeased forwardXattr
  apply getPathOwn_covers rfl
  intro path
  have enough : dentryTokens path.dentry ≤ 0 + pathTokens path :=
    (Multiset.le_add_right _ _).trans (Multiset.le_add_left _ _)
  have reads : (lowerDInode path.dentry).Calls
      (callLeasing.Tame (0 + pathTokens path) (Knowledge.start.pin path.dentry .null)) :=
    ⟨tame_of_held trivial enough, fun _ => trivial⟩
  apply tameOwn_covers reads
  intro lowerInode
  apply hasMember_covers
  intro there
  cases there with
  | false => exact putPath_ends
  | true =>
      apply (forwards path.dentry _ _ enough).covers
      intro err
      apply covers_ite putPath_ends
      have shows : (upper (.dInode dentry)).Calls Free := ⟨trivial, fun _ => trivial⟩
      apply tameOwn_covers (free_tame shows)
      intro inode
      apply tameOwn_covers reads
      intro lowerInode
      apply tameOwn_covers (free_tame (copies inode lowerInode))
      exact fun _ => putPath_ends

/-- A covered method neither takes nor gives a reference. -/
theorem method_tame {c : MethodCall} (enough : tableLeasing.Covered held known (.method c)) :
    tableLeasing.Tame held known (.method c) :=
  ⟨⟨rfl, fun _ => rfl, fun _ _ _ learnt => (Option.some.inj learnt).le⟩, enough⟩

/-- A result that is cut to an `int` needs nothing more. -/
theorem intResult_tame {result : MethodProg (BitVec 64)} (calls : result.Calls (tableLeasing.Tame held known)) :
    (intResult result).Calls (tableLeasing.Tame held known) := calls.bind fun _ => trivial

/-- `trfs_readlink` puts the path that it took, on both ways. -/
theorem readlink_covers {buf : Pointer} {bufsiz : Nat} {locals : LowerPath} (intact : known.intact = true)
    {next : BitVec 32 × LowerPath → MethodProg α}
    (continues : ∀ done known, (next done).Covers tableLeasing post held known) :
    ((Kernel.trfsReadlink buf bufsiz).translate (linkCall dentry) locals >>= next).Covers tableLeasing post held
      known := by
  rw [Program.covers_bind, trfsReadlink_eq]
  apply getPathOwn_covers intact
  intro path
  have puts : ∀ (value : BitVec 32 × LowerPath) known, (own (trfsPutLowerPath path) >>= fun _ => pure value).Covers
      tableLeasing (fun done held known => (next done).Covers tableLeasing post held known) (held + pathTokens path)
      known := by
    intro value known
    apply putPathOwn_covers (add_comm _ _)
    exact fun later _ => continues value later
  have enough : dentryTokens path.dentry ≤ held + pathTokens path :=
    (Multiset.le_add_right _ _).trans (Multiset.le_add_left _ _)
  have reads : (lowerDInode path.dentry).Calls (callLeasing.Tame (held + pathTokens path) (known.pin path.dentry .null)) :=
    ⟨tame_of_held trivial enough, fun _ => trivial⟩
  apply tameOwn_covers reads
  intro lowerInode
  apply hasMember_covers
  intro there
  cases there with
  | false => exact puts _ _
  | true =>
      apply method_covers (.readlink path.dentry buf bufsiz) (.inl enough)
      intro err
      apply covers_ite (puts _ _)
      have shows : (upper (.dInode dentry)).Calls Free := ⟨trivial, fun _ => trivial⟩
      apply tameOwn_covers (free_tame shows)
      intro inode
      apply tameOwn_covers reads
      intro lowerInode
      apply tameOwn_covers (free_tame (fsstackCopy_free inode lowerInode _))
      exact fun _ => puts _ _

/-- So it holds what each of its calls needs. -/
theorem trfsReadlink_leased {buf : Pointer} {bufsiz : Nat} : TableLeased (trfsReadlink dentry buf bufsiz) := by
  unfold TableLeased
  rw [← (trfsReadlink dentry buf bufsiz).bind_pure]
  apply readlink_covers rfl
  exact fun _ _ _ _ => trivial

/-- What only allocates and frees memory needs no reference. -/
theorem memory_covers {program : LinkProg α} {locals : LowerPath} (memory : program.Calls MemoryCall) :
    (program.translate (linkCall dentry) locals).Covers tableLeasing (fun _ _ _ => True) held known := by
  induction program generalizing locals with
  | pure value => exact fun _ _ => trivial
  | call c next ih =>
      have part : (linkCall dentry c locals).Calls (tableLeasing.Tame held known) := by
        have calls := memory.1
        cases c <;> first | exact ⟨method_tame (method_needless rfl), fun _ => trivial⟩ | exact calls.elim
      exact part.covers fun done => ih done.1 (memory.2 done.1)

/-- `trfs_get_link` holds what each of its calls needs, with a dentry or without. -/
theorem trfsGetLink_leased {found : Option Dentry} : TableLeased (trfsGetLink found) := by
  cases found with
  | none => exact fun _ _ => trivial
  | some dentry =>
      apply method_covers (.memory (.kmalloc pageSize)) (method_needless rfl)
      intro buf
      change ((ite (buf = .null) _ _ : LinkProg Pointer).translate _ _).Covers _ _ _ _
      by_cases absent : buf = .null
      · rw [if_pos absent]
        exact fun _ _ => trivial
      · rw [if_neg absent, Program.translate_bind]
        apply readlink_covers rfl
        exact fun done known => memory_covers (getLink_rest_memory buf done.1)

/-- `trfs_statfs` holds the lower path for `vfs_statfs`. -/
theorem trfsStatfs_leased {magic : BitVec 64} : TableLeased (trfsStatfs magic dentry) := by
  unfold TableLeased trfsStatfs
  apply getPathOwn_covers rfl
  intro path
  apply method_covers (.vfsStatfs path) (.inl (Multiset.le_add_left _ _))
  exact fun _ => putPath_ends

/-- `trfs_permission` uses the lower inode of the mount. -/
theorem trfsPermission_leased {inode : Inode} {mask : BitVec 32} : TableLeased (trfsPermission inode mask) := by
  unfold TableLeased trfsPermission
  have looks : (upper (.lowerInode inode)).Calls Free := ⟨trivial, fun _ => trivial⟩
  apply tameOwn_covers (free_tame looks)
  intro lowerInode
  rw [← (method (.inodePermission lowerInode mask)).bind_pure]
  apply method_covers (.inodePermission lowerInode mask) (method_needless rfl)
  exact fun _ _ _ => trivial

/-- `trfs_umount_begin` uses the lower superblock of the mount. -/
theorem trfsUmountBegin_leased : TableLeased trfsUmountBegin := by
  unfold TableLeased trfsUmountBegin
  have looks : (upper .lowerSuper).Calls Free := ⟨trivial, fun _ => trivial⟩
  apply tameOwn_covers (free_tame looks)
  intro lowerSb
  by_cases absent : lowerSb = 0
  · rw [if_pos absent]
    exact fun _ _ => trivial
  · rw [if_neg absent]
    apply method_covers (.hasUmountBegin lowerSb) (method_needless rfl)
    intro there
    cases there with
    | false => exact fun _ _ => trivial
    | true =>
        have begins : (method (.umountBegin lowerSb)).Calls (tableLeasing.Tame 0 Knowledge.start) :=
          ⟨method_tame (method_needless rfl), fun _ => trivial⟩
        exact begins.covers_last fun _ _ _ => trivial

/-- A method on a file that asks for one of the members of `f_op`. -/
theorem hasFileMember_covers {lowerFile : LowerFile} {member : FileMember} {next : Bool → MethodProg α}
    (lent : {.file lowerFile} ∈ known.lent) (continues : ∀ there, (next there).Covers tableLeasing post held known) :
    (hasFileMember lowerFile member >>= next).Covers tableLeasing post held known := by
  have ends : ∀ there later, known ≤ later → (next there).Covers tableLeasing post held later :=
    fun there later le => (continues there).mono le
  rw [Program.covers_bind]
  unfold hasFileMember
  apply method_covers (.hasFileOps lowerFile) (.of_lent lent le_rfl)
  intro ops
  cases ops with
  | false => exact ends false
  | true =>
      rw [if_pos rfl, ← (method (.hasFileMember lowerFile member)).bind_pure]
      exact method_covers (.hasFileMember lowerFile member) (.of_lent lent le_rfl) ends

/-- Reading the lower file of an open file lends it to the request. -/
theorem lowerFileOwn_covers {next : Option LowerFile → MethodProg α}
    (continues : ∀ lowerFile, (next lowerFile).Covers tableLeasing post held (known.lend (fileTokens lowerFile))) :
    (own (upper (.lowerFile file)) >>= next).Covers tableLeasing post held known := by
  apply own_covers
  rw [← (upper (.lowerFile file)).bind_pure]
  apply lowerFile_covers
  exact fun lowerFile _ le => (continues lowerFile).mono le

/-- A request that goes on with a lower file has this file lent. -/
theorem openLowerFileOwn_covers {next : LowerFile → MethodProg α}
    (continues : ∀ lowerFile, (next lowerFile).Covers tableLeasing post held (known.lend {.file lowerFile})) :
    (own (openLowerFile file) >>= next).Covers tableLeasing post held known := by
  apply own_covers
  rw [← (openLowerFile file).bind_pure]
  apply openLowerFile_covers
  exact fun lowerFile _ le => (continues lowerFile).mono le

/-- `trfs_flush` uses the lower file that is lent. -/
theorem trfsFlush_leased {id : Nat} : TableLeased (trfsFlush file id) := by
  unfold TableLeased trfsFlush
  apply lowerFileOwn_covers
  intro lowerFile
  cases lowerFile with
  | none => exact fun _ _ => trivial
  | some lowerFile =>
      have lent : {.file lowerFile} ∈ (Knowledge.start.lend (fileTokens (some lowerFile))).lent := Knowledge.mem_lend rfl
      apply hasFileMember_covers lent
      intro there
      cases there with
      | false => exact fun _ _ => trivial
      | true =>
          apply method_covers (.filemapWriteAndWait file) (method_needless rfl)
          intro _
          rw [← (method (.flush lowerFile id)).bind_pure]
          apply method_covers (.flush lowerFile id) (.of_lent lent le_rfl)
          exact fun _ _ _ => trivial

/-- `trfs_fasync` uses the lower file that is lent. -/
theorem trfsFasync_leased {fd flag : BitVec 32} : TableLeased (trfsFasync fd file flag) := by
  unfold TableLeased trfsFasync
  apply openLowerFileOwn_covers
  intro lowerFile
  have lent : {.file lowerFile} ∈ (Knowledge.start.lend {.file lowerFile}).lent := Knowledge.mem_lend rfl
  apply hasFileMember_covers lent
  intro there
  cases there with
  | false => exact fun _ _ => trivial
  | true =>
      rw [if_pos rfl, ← (method (.fasync fd lowerFile flag)).bind_pure]
      apply method_covers (.fasync fd lowerFile flag) (.of_lent lent le_rfl)
      exact fun _ _ _ => trivial

/-- `trfs_compat_ioctl` uses the lower file that is lent. -/
theorem trfsCompatIoctl_leased {cmd : BitVec 32} {arg : BitVec 64} : TableLeased (trfsCompatIoctl file cmd arg) := by
  unfold TableLeased trfsCompatIoctl
  apply lowerFileOwn_covers
  intro lowerFile
  cases lowerFile with
  | none => exact fun _ _ => trivial
  | some lowerFile =>
      have lent : {.file lowerFile} ∈ (Knowledge.start.lend (fileTokens (some lowerFile))).lent := Knowledge.mem_lend rfl
      apply hasFileMember_covers lent
      intro there
      cases there with
      | false => exact fun _ _ => trivial
      | true =>
          rw [if_pos rfl, ← (method (.compatIoctl lowerFile cmd arg)).bind_pure]
          apply method_covers (.compatIoctl lowerFile cmd arg) (.of_lent lent le_rfl)
          exact fun _ _ _ => trivial

/-- The switch of the control requests leaves the private data alone. -/
theorem maskRequest_covers {cmd : BitVec 32} {arg : BitVec 64} {next : Unit → Prog α}
    {post : α → Multiset Token → Knowledge → Prop}
    (continues : ∀ later, later.intact = known.intact → (next ()).Covers callLeasing post held later) :
    (maskRequest cmd arg >>= next).Covers callLeasing post held known := by
  have ends : ∀ {later : Knowledge}, later.intact = known.intact → ∀ last, later ≤ last →
      (next ()).Covers callLeasing post held last :=
    fun same last le => continues last (le.1.symm.trans same)
  rw [Program.covers_bind]
  unfold maskRequest
  split
  · rw [← (perform (Call.setMask arg)).bind_pure]
    apply covers_perform (.inl (Multiset.zero_le held)) (zero_add held).symm
    intro _ above later le learnt
    obtain rfl := Option.some.inj learnt
    change Program.Covers callLeasing _ _ (held + 0) _
    rw [add_zero]
    exact ends le.1.symm
  · split
    · apply covers_perform (.inl (Multiset.zero_le held)) (zero_add held).symm
      intro _ above later le learnt
      obtain rfl := Option.some.inj learnt
      change Program.Covers callLeasing _ _ (held + 0) _
      rw [add_zero]
      exact ends le.1.symm
    · exact ends rfl

/-- `trfs_unlocked_ioctl` uses the lower file that is lent. -/
theorem trfsUnlockedIoctl_leased {fileInode : Inode} {cmd : BitVec 32} {arg : BitVec 64} :
    Leased (trfsUnlockedIoctl file fileInode cmd arg) := by
  unfold Leased trfsUnlockedIoctl
  apply maskRequest_covers
  intro later intact
  apply lowerFile_covers
  intro lowerFile
  cases lowerFile with
  | none => exact fun _ _ => trivial
  | some lowerFile =>
      have lent : {.file lowerFile} ∈ (later.lend (fileTokens (some lowerFile))).lent := Knowledge.mem_lend intact
      have asks : (lower (.unlockedIoctl lowerFile cmd arg)).Calls
          (callLeasing.Tame 0 (later.lend (fileTokens (some lowerFile)))) :=
        ⟨tame_of_lent trivial lent le_rfl, fun _ => trivial⟩
      apply asks.covers
      intro reply
      apply (free_tame (runIf_free (fsstackCopy_free fileInode lowerFile.inode _))).covers
      exact fun _ _ _ => trivial

/-- The variable `lower_file` holds a file that the private data lend. -/
def Loaded (lowerFile : Option LowerFile) (known : Knowledge) : Prop :=
  known.intact = true ∧ ∀ found, lowerFile = some found → {.file found} ∈ known.lent

/-- A lower file that was lent stays so. -/
theorem Loaded.mono {lowerFile : Option LowerFile} {known later : Knowledge} (le : known ≤ later)
    (loaded : Loaded lowerFile known) : Loaded lowerFile later :=
  ⟨(Knowledge.intact_iff le).mp loaded.1, fun found same => Knowledge.lent_mono le (loaded.2 found same)⟩

/-- The lower file is read once and used from then on. -/
theorem loadLower_covers {lowerFile : Option LowerFile} {next : LowerFile → MethodProg α} (loaded : Loaded lowerFile known)
    (continues : ∀ found later, Loaded (some found) later → {.file found} ∈ later.lent →
      (next found).Covers tableLeasing post held later) :
    (loadLower file lowerFile >>= next).Covers tableLeasing post held known := by
  cases lowerFile with
  | some found => exact continues found known loaded (loaded.2 found rfl)
  | none =>
      apply openLowerFileOwn_covers
      intro found
      have lent : {.file found} ∈ (known.lend {.file found}).lent := Knowledge.mem_lend loaded.1
      have more : known ≤ known.lend {.file found} := Knowledge.le_lend
      refine continues found _ ⟨(Knowledge.intact_iff more).mp loaded.1, ?_⟩ lent
      intro other same
      obtain rfl := Option.some.inj same
      exact lent

/-- The calls on a position use the lower file while it is lent. -/
theorem positionCall_covers (file : File) (c : PositionCall) (lowerFile : Option LowerFile) (known : Knowledge)
    (loaded : Loaded lowerFile known) : (positionCall file c lowerFile).Covers tableLeasing
      (fun done left known => left = 0 ∧ Loaded done.2 known) 0 known := by
  have ends : ∀ {β : Type} (value : β) {found : Option LowerFile} {known : Knowledge}, Loaded found known →
      (pure (value, found) : MethodProg (β × Option LowerFile)).Covers tableLeasing
        (fun done left known => left = 0 ∧ Loaded done.2 known) 0 known :=
    fun _ _ _ loaded _ le => ⟨rfl, loaded.mono le⟩
  cases c with
  | genericFileLlseek other offset whence =>
      cases other with
      | upper =>
          apply method_covers (.genericFileLlseek (.inl file) offset whence) (method_needless rfl)
          exact fun _ => ends _ loaded
      | lower =>
          apply loadLower_covers loaded
          intro found later loaded lent
          apply method_covers (.genericFileLlseek (.inr found) offset whence) (.of_lent lent le_rfl)
          exact fun _ => ends _ loaded
  | iterateDir =>
      apply loadLower_covers loaded
      intro found later loaded lent
      apply method_covers (.iterateDir found) (.of_lent lent le_rfl)
      exact fun _ => ends _ loaded
  | position other =>
      cases other with
      | upper =>
          apply method_covers (.position (.inl file)) (method_needless rfl)
          exact fun _ => ends _ loaded
      | lower =>
          apply loadLower_covers loaded
          intro found later loaded lent
          apply method_covers (.position (.inr found)) (.of_lent lent le_rfl)
          exact fun _ => ends _ loaded
  | setPosition other value =>
      cases other with
      | upper =>
          apply method_covers (.setPosition (.inl file) value) (method_needless rfl)
          exact fun _ => ends _ loaded
      | lower =>
          apply loadLower_covers loaded
          intro found later loaded lent
          apply method_covers (.setPosition (.inr found) value) (.of_lent lent le_rfl)
          exact fun _ => ends _ loaded
  | copyAttrAtime =>
      apply loadLower_covers loaded
      intro found later loaded lent
      have shows : (upper (.dInode file.dentry)).Calls Free := ⟨trivial, fun _ => trivial⟩
      apply tameOwn_covers (free_tame shows)
      intro inode
      apply tameOwn_covers (free_tame (fsstackCopy_free inode found.inode _))
      exact fun _ => ends _ loaded

/-- Every program over the positions of a file uses the lower file that is lent. -/
theorem position_leased (program : PositionProg α) : TableLeased (program.translate (positionCall file) none) := by
  have start : Loaded none Knowledge.start := ⟨rfl, fun _ impossible => by cases impossible⟩
  have covers := Program.translate_covers Loaded Loaded.mono (positionCall_covers file) program start
  exact covers.weaken fun _ _ _ _ => trivial

/-- Every request of the table uses lower dentries, paths and files only with references on them. -/
theorem Request.leased (request : Request) : TableLeased request.program := by
  cases request with
  | vfs request => exact mount_covers request.leased
  | readlink dentry buf bufsiz => exact trfsReadlink_leased.discard
  | getLink dentry => exact trfsGetLink_leased.discard
  | permission inode mask => exact trfsPermission_leased.discard
  | setxattr name value flags dentry =>
      apply TableLeased.discard
      apply forwardXattr_leased fun inode lowerInode => fsstackCopy_free inode lowerInode _
      exact fun lowerDentry held known enough => ⟨method_tame (.inl enough), fun _ => trivial⟩
  | getxattr name buffer size dentry =>
      apply TableLeased.discard
      apply forwardXattr_leased fun inode lowerInode => fsstackCopy_free inode lowerInode _
      exact fun lowerDentry held known enough => intResult_tame ⟨method_tame (.inl enough), fun _ => trivial⟩
  | listxattr buffer size dentry =>
      apply TableLeased.discard
      apply forwardXattr_leased fun inode lowerInode => fsstackCopy_free inode lowerInode _
      exact fun lowerDentry held known enough => intResult_tame ⟨method_tame (.inl enough), fun _ => trivial⟩
  | removexattr name dentry =>
      apply TableLeased.discard
      apply forwardXattr_leased fun inode lowerInode => fsstackCopy_free inode lowerInode _
      exact fun lowerDentry held known enough => ⟨method_tame (.inl enough), fun _ => trivial⟩
  | statfs magic dentry => exact trfsStatfs_leased.discard
  | remountFs flags => exact fun _ _ => trivial
  | umountBegin => exact trfsUmountBegin_leased
  | flush file id => exact trfsFlush_leased.discard
  | fasync fd file flag => exact trfsFasync_leased.discard
  | llseek file offset whence => exact (position_leased (Kernel.trfsFileLlseek offset whence)).discard
  | readdir file => exact (position_leased Kernel.trfsReaddir).discard
  | unlockedIoctl file fileInode cmd arg =>
      apply TableLeased.discard
      exact mount_covers (kernel_covers trfsUnlockedIoctl_leased)
  | compatIoctl file cmd arg => exact trfsCompatIoctl_leased.discard

end

end Trfs.Kernel.Methods
