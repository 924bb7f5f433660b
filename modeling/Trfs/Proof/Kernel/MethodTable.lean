import Trfs.Construction.Kernel.Methods
import Trfs.Proof.Kernel.Balanced

namespace Trfs.Kernel.Methods
open Bytes Effect

def tableGains : (c : TableCall) → c.Reply → Multiset Token
  | .mount c, reply => mountGains c reply
  | .method _, _ => 0

def tableSpends : TableCall → Multiset Token
  | .mount c => mountSpends c
  | .method _ => 0

def tableLedger : Ledger TableCall.Reply Token := ⟨tableGains, tableSpends⟩

/-- The calls of these methods do not put lower dentries. -/
structure MethodPinning {L : Type} (env : MethodEnvironment L) (referenced : L → LowerDentry → Prop) : Prop extends
    VfsPinning env.toVfsEnvironment referenced where
  method : ∀ c dentry state, Undisturbed env.toEnvironment referenced dentry state (env.method c state).2

/-- The calls that neither take nor give anything. -/
def NeutralTable : TableCall → Prop
  | .mount (.kernel c) => Neutral c
  | .mount (.vfs c) => NeutralVfs c
  | .method _ => True

/-- A part from the operations that takes and gives no reference does so in the table. -/
theorem own_neutral {α : Type} {program : Prog α} (calls : program.Calls Neutral) : (own program).Calls NeutralTable := by
  unfold own
  induction program with
  | pure value => trivial
  | call c next ih => exact ⟨calls.1, fun reply => ih reply (calls.2 reply)⟩

/-- The test whether the lower inode has a method takes and gives no reference. -/
theorem hasMember_neutral (testsOps : Bool) (inode : LowerInode) (member : InodeMember) :
    (hasMember testsOps inode member).Calls NeutralTable := by
  have tests : ∀ ops : Bool, (if ops then method (.hasInodeMember inode member) else pure false).Calls NeutralTable := by
    intro ops
    cases ops with
    | false => trivial
    | true => exact ⟨trivial, fun _ => trivial⟩
  cases testsOps with
  | false => exact tests true
  | true => exact ⟨trivial, fun ops => tests ops⟩

/-- Neither does the test for a method of the lower file. -/
theorem hasFileMember_neutral (lowerFile : LowerFile) (member : FileMember) :
    (hasFileMember lowerFile member).Calls NeutralTable := by
  refine ⟨trivial, fun ops => ?_⟩
  cases ops with
  | false => trivial
  | true => exact ⟨trivial, fun _ => trivial⟩

/-- Neither does reading the lower file. -/
theorem loadLower_neutral (file : File) (lowerFile : Option LowerFile) :
    (loadLower file lowerFile).Calls NeutralTable := by
  cases lowerFile with
  | none => exact own_neutral (openLowerFile_neutral file)
  | some lowerFile => trivial

/-- The calls on the positions of a file and its lower file take nothing. -/
theorem positionCall_neutral (file : File) (c : PositionCall) (lowerFile : Option LowerFile) :
    (positionCall file c lowerFile).Calls NeutralTable := by
  have loads := loadLower_neutral file lowerFile
  cases c with
  | genericFileLlseek other offset whence =>
      cases other with
      | upper => exact ⟨trivial, fun _ => trivial⟩
      | lower => exact loads.bind fun _ => ⟨trivial, fun _ => trivial⟩
  | iterateDir => exact loads.bind fun _ => ⟨trivial, fun _ => trivial⟩
  | position other =>
      cases other with
      | upper => exact ⟨trivial, fun _ => trivial⟩
      | lower => exact loads.bind fun _ => ⟨trivial, fun _ => trivial⟩
  | setPosition other value =>
      cases other with
      | upper => exact ⟨trivial, fun _ => trivial⟩
      | lower => exact loads.bind fun _ => ⟨trivial, fun _ => trivial⟩
  | copyAttrAtime =>
      apply loads.bind
      intro lowerFile
      refine ⟨trivial, fun inode => ?_⟩
      exact (own_neutral (fsstackCopy_neutral inode lowerFile.inode _)).bind fun _ => trivial

/-- `trfs_readlink` on the dentry, written out. -/
theorem trfsReadlink_eq (dentry : Dentry) (buf : Pointer) (bufsiz : Nat) (locals : LowerPath) :
    (Kernel.trfsReadlink buf bufsiz).translate (linkCall dentry) locals = (do
      let lowerPath ← own (trfsGetLowerPath dentry)
      let lowerInode ← own (lowerDInode lowerPath.dentry)
      let there ← hasMember true lowerInode .readlink
      if there then do
        let err ← method (.readlink lowerPath.dentry buf bufsiz)
        if err.toInt < 0 then do
          own (trfsPutLowerPath lowerPath)
          pure (err, lowerPath)
        else do
          let inode ← own (upper (.dInode dentry))
          let lowerInode ← own (lowerDInode lowerPath.dentry)
          own (fsstackCopyAttrAtime inode lowerInode)
          own (trfsPutLowerPath lowerPath)
          pure (err, lowerPath)
      else do
        own (trfsPutLowerPath lowerPath)
        pure (EINVAL, lowerPath)) := by
  simp only [Kernel.trfsReadlink, link, perform_bind, Program.translate, linkCall, Program.bind_assoc,
    Program.pure_eq, Program.pure_bind]
  congr 1
  funext lowerPath
  congr 1
  funext lowerInode
  congr 1
  funext there
  cases there with
  | false => simp [Program.translate, linkCall, Program.bind_assoc]
  | true =>
      simp only [if_true, Program.translate, linkCall, perform_bind, Program.pure_eq, Program.call_bind,
        Program.pure_bind]
      congr 1
      funext err
      split <;> simp [Program.translate, linkCall, Program.bind_assoc]

/-- The memory calls of `trfs_get_link` stay as they are. -/
def MemoryCall : LinkCall → Prop
  | .kmalloc _ | .kfree _ | .storeByte .. | .setDelayedCall _ | .delayedCall => True
  | _ => False

/-- Of the calls of the symbolic links those on memory take and give none. -/
theorem linkCall_neutral {c : LinkCall} (dentry : Dentry) (memory : MemoryCall c) (locals : LowerPath) :
    (linkCall dentry c locals).Calls NeutralTable := by
  cases c <;> first | exact ⟨trivial, fun _ => trivial⟩ | exact memory.elim

/-- So a program that only uses memory takes and gives none. -/
theorem memory_neutral {α : Type} {program : LinkProg α} (dentry : Dentry) (memory : program.Calls MemoryCall)
    (locals : LowerPath) : (program.translate (linkCall dentry) locals).Calls NeutralTable := by
  induction program generalizing locals with
  | pure value => trivial
  | call c next ih =>
      exact (linkCall_neutral dentry memory.1 locals).bind fun done => ih done.1 (memory.2 done.1) done.2

/-- The end of `trfs_get_link`. -/
theorem getLink_rest_memory (buf : Pointer) (err : BitVec 32) :
    (if err.toInt < 0 then do
      link (.kfree buf)
      let buf := .errPtr err
      link (.setDelayedCall buf)
      pure buf
    else do
      link (.storeByte buf err 0)
      link (.setDelayedCall buf)
      pure buf : LinkProg Pointer).Calls MemoryCall := by
  split <;> exact ⟨trivial, fun _ => ⟨trivial, fun _ => trivial⟩⟩

section
variable {L : Type} {env : MethodEnvironment L} {helpers : Helpers} {referenced : L → LowerDentry → Prop}
  {held rest : Multiset Token} {pinned : List (LowerDentry × LowerInode)} {holdings : Holdings} {state after : Mounted L}
  {progress : Option (Multiset Token)} {α β : Type} {dentry : Dentry}

/-- What holds of a request of the other files holds of it in the table. -/
theorem mount_ensures {program : MountProg α} {post : α → Mounted L → Option (Multiset Token) → Prop}
    (ensures : program.Ensures (handleMount env.toVfsEnvironment helpers) mountLedger.account post state progress) :
    (mount program).Ensures (handleTable env helpers) tableLedger.account post state progress := by
  induction program generalizing state progress with
  | pure value => exact ensures
  | call c next ih => exact fun reply after answered => ih reply (ensures reply after answered)

/-- The rule for a part from the operations. -/
theorem own_ensures {program : Prog β} {next : β → MethodProg α}
    {post : α → Mounted L → Option (Multiset Token) → Prop}
    (ensures : program.Ensures (handleOwned env.toEnvironment helpers) callLedger.account
      (fun value after progress => (next value).Ensures (handleTable env helpers) tableLedger.account post after progress)
      state progress) :
    (own program >>= next).Ensures (handleTable env helpers) tableLedger.account post state progress := by
  rw [Program.ensures_bind]
  exact mount_ensures (kernel_ensures ensures)

/-- Taking the lower path gives a reference that pins its inode. -/
theorem getPathOwn_owns (pinning : MethodPinning env referenced) {next : LowerPath → MethodProg α}
    {post : α → Mounted L → Option (Multiset Token) → Prop}
    (owns : Owns env.toEnvironment referenced held pinned holdings state progress)
    (continues : ∀ path after progress, Owns env.toEnvironment referenced (held + pathTokens path)
        ((path.dentry, .null) :: pinned) holdings after progress →
      (next path).Ensures (handleTable env helpers) tableLedger.account post after progress) :
    (own (trfsGetLowerPath dentry) >>= next).Ensures (handleTable env helpers) tableLedger.account post state
      progress := by
  apply own_ensures
  rw [← (trfsGetLowerPath dentry).bind_pure]
  exact getPath_owns pinning.toPinning owns continues

/-- Putting it takes this reference back. -/
theorem putPathOwn_owns (pinning : MethodPinning env referenced) {path : LowerPath} {next : Unit → MethodProg α}
    {post : α → Mounted L → Option (Multiset Token) → Prop}
    (owns : Owns env.toEnvironment referenced held pinned holdings state progress) (enough : held = pathTokens path + rest)
    (continues : ∀ after progress, Owns env.toEnvironment referenced rest [] holdings after progress →
      (next ()).Ensures (handleTable env helpers) tableLedger.account post after progress) :
    (own (trfsPutLowerPath path) >>= next).Ensures (handleTable env helpers) tableLedger.account post state progress := by
  apply own_ensures
  rw [← (trfsPutLowerPath path).bind_pure]
  exact putPath_owns pinning.toPinning owns enough continues

/-- A method of the lower filesystem leaves the references as they are. -/
theorem method_ensures (pinning : MethodPinning env referenced) (c : MethodCall) {next : c.Reply → MethodProg α}
    {post : α → Mounted L → Option (Multiset Token) → Prop}
    (owns : Owns env.toEnvironment referenced held pinned holdings state progress)
    (continues : ∀ reply after progress, Owns env.toEnvironment referenced held pinned holdings after progress →
      (next reply).Ensures (handleTable env helpers) tableLedger.account post after progress) :
    (method c >>= next).Ensures (handleTable env helpers) tableLedger.account post state progress := by
  intro reply after answered
  obtain ⟨_, rfl⟩ := Prod.mk.inj (Option.some.inj answered)
  have counted : tableLedger.account.next (some (held + holdings.tokens)) (.method c) reply = some _ :=
    tableLedger.account_gain rfl
  apply continues
  refine ⟨?_, owns.holdings, fun pair member => (pinning.method c pair.1 _).pins (owns.pinned pair member)⟩
  rw [owns.account, counted]
  exact congrArg some (add_zero _)

/-- The rule for a part that takes nothing and gives nothing. -/
theorem neutralTable_ensures (pinning : MethodPinning env referenced) {program : MethodProg β} {next : β → MethodProg α}
    (calls : program.Calls NeutralTable) {post : α → Mounted L → Option (Multiset Token) → Prop}
    (owns : Owns env.toEnvironment referenced held pinned holdings state progress)
    (continues : ∀ value after progress, Owns env.toEnvironment referenced held pinned holdings after progress →
      (next value).Ensures (handleTable env helpers) tableLedger.account post after progress) :
    (program >>= next).Ensures (handleTable env helpers) tableLedger.account post state progress := by
  induction program generalizing state progress with
  | pure value => exact continues value state progress owns
  | call c inner ih =>
      cases c with
      | method c => exact method_ensures pinning c owns fun reply _ _ owns => ih reply (calls.2 reply) owns
      | mount c =>
          cases c with
          | kernel c =>
              have part : (perform c >>= Program.pure).Ensures (handleOwned env.toEnvironment helpers) callLedger.account
                  (fun reply after progress => (inner reply >>= next).Ensures (handleTable env helpers)
                    tableLedger.account post after progress) state progress := by
                apply look_ensures pinning.toPinning c calls.1 owns
                exact fun reply _ _ _ owns => ih reply (calls.2 reply) owns
              exact mount_ensures (kernel_ensures part)
          | vfs c =>
              have part : (vfs c >>= Program.pure).Ensures (handleMount env.toVfsEnvironment helpers) mountLedger.account
                  (fun reply after progress => (inner reply >>= next).Ensures (handleTable env helpers)
                    tableLedger.account post after progress) state progress := by
                apply vfsLook_ensures pinning.toVfsPinning c calls.1 owns
                exact fun reply _ _ owns => ih reply (calls.2 reply) owns
              exact mount_ensures part

/-- A method that gives everything back leaves what the mount holds. -/
def Keeping (env : MethodEnvironment L) (referenced : L → LowerDentry → Prop) (holdings : Holdings) (after : Mounted L)
    (progress : Option (Multiset Token)) : Prop :=
  Owns env.toEnvironment referenced 0 [] holdings after progress

/-- A method that takes and gives no reference keeps the mount balanced. -/
theorem neutral_keeping (pinning : MethodPinning env referenced) {program : MethodProg α}
    (calls : program.Calls NeutralTable) (owns : Owns env.toEnvironment referenced 0 [] holdings state progress) :
    program.Ensures (handleTable env helpers) tableLedger.account (fun _ => Keeping env referenced holdings) state
      progress := by
  rw [← program.bind_pure]
  exact neutralTable_ensures pinning calls owns fun _ _ _ owns => owns

/-- All ways out of these methods put the lower path. -/
theorem putPath_keeping (pinning : MethodPinning env referenced) {path : LowerPath} {value : α}
    (owns : Owns env.toEnvironment referenced (0 + pathTokens path) pinned holdings state progress) :
    (own (trfsPutLowerPath path) >>= fun _ => pure value).Ensures (handleTable env helpers) tableLedger.account
      (fun _ => Keeping env referenced holdings) state progress := by
  apply putPathOwn_owns pinning owns (add_comm _ _)
  exact fun _ _ owns => owns

/-- The four xattr methods put the path that they take. -/
theorem forwardXattr_keeping (pinning : MethodPinning env referenced) {member : InodeMember} {testsOps : Bool}
    {missing : BitVec 32} {copy : Inode → LowerInode → Prog Unit} {forward : LowerDentry → MethodProg (BitVec 32)}
    (copies : ∀ inode lowerInode, (copy inode lowerInode).Calls Neutral)
    (forwards : ∀ lowerDentry, (forward lowerDentry).Calls NeutralTable)
    (owns : Owns env.toEnvironment referenced 0 [] holdings state progress) :
    (forwardXattr member testsOps missing copy forward dentry).Ensures (handleTable env helpers) tableLedger.account
      (fun _ => Keeping env referenced holdings) state progress := by
  unfold forwardXattr
  apply getPathOwn_owns pinning owns
  intro path state progress owns
  have reads : (own (lowerDInode path.dentry)).Calls NeutralTable := ⟨trivial, fun _ => trivial⟩
  apply neutralTable_ensures pinning reads owns
  intro lowerInode state progress owns
  apply neutralTable_ensures pinning (hasMember_neutral testsOps lowerInode member) owns
  intro there state progress owns
  cases there with
  | false => exact putPath_keeping pinning owns
  | true =>
      apply neutralTable_ensures pinning (forwards path.dentry) owns
      intro err state progress owns
      by_cases failed : err ≠ 0
      · rw [if_pos failed]
        exact putPath_keeping pinning owns
      · rw [if_neg failed]
        have shows : (own (upper (.dInode dentry))).Calls NeutralTable := ⟨trivial, fun _ => trivial⟩
        apply neutralTable_ensures pinning shows owns
        intro inode state progress owns
        apply neutralTable_ensures pinning reads owns
        intro lowerInode state progress owns
        apply neutralTable_ensures pinning (own_neutral (copies inode lowerInode)) owns
        intro _ state progress owns
        exact putPath_keeping pinning owns

/-- A result that is cut to an `int` takes and gives none. -/
theorem intResult_neutral {result : MethodProg (BitVec 64)} (calls : result.Calls NeutralTable) :
    (intResult result).Calls NeutralTable := calls.bind fun _ => trivial

/-- `trfs_readlink` puts the path that it took, on both ways. -/
theorem readlink_owns (pinning : MethodPinning env referenced) {buf : Pointer} {bufsiz : Nat} {locals : LowerPath}
    {next : BitVec 32 × LowerPath → MethodProg α} {post : α → Mounted L → Option (Multiset Token) → Prop}
    (owns : Owns env.toEnvironment referenced 0 [] holdings state progress)
    (continues : ∀ done after progress, Owns env.toEnvironment referenced 0 [] holdings after progress →
      (next done).Ensures (handleTable env helpers) tableLedger.account post after progress) :
    ((Kernel.trfsReadlink buf bufsiz).translate (linkCall dentry) locals >>= next).Ensures (handleTable env helpers)
      tableLedger.account post state progress := by
  have puts : ∀ {pinned : List (LowerDentry × LowerInode)} {path : LowerPath} {value : BitVec 32 × LowerPath}
      {state : Mounted L} {progress : Option (Multiset Token)},
      Owns env.toEnvironment referenced (0 + pathTokens path) pinned holdings state progress →
      (own (trfsPutLowerPath path) >>= fun _ => pure value).Ensures (handleTable env helpers) tableLedger.account
        (fun done after progress => (next done).Ensures (handleTable env helpers) tableLedger.account post after progress)
        state progress := by
    intro pinned path value state progress owns
    apply putPathOwn_owns pinning owns (add_comm _ _)
    exact fun after progress owns => continues value after progress owns
  rw [Program.ensures_bind, trfsReadlink_eq]
  apply getPathOwn_owns pinning owns
  intro path state progress owns
  have reads : (own (lowerDInode path.dentry)).Calls NeutralTable := ⟨trivial, fun _ => trivial⟩
  apply neutralTable_ensures pinning reads owns
  intro lowerInode state progress owns
  apply neutralTable_ensures pinning (hasMember_neutral true lowerInode .readlink) owns
  intro there state progress owns
  cases there with
  | false => exact puts owns
  | true =>
      apply method_ensures pinning (.readlink path.dentry buf bufsiz) owns
      intro err state progress owns
      by_cases failed : err.toInt < 0
      · rw [if_pos failed]
        exact puts owns
      · rw [if_neg failed]
        have shows : (own (upper (.dInode dentry))).Calls NeutralTable := ⟨trivial, fun _ => trivial⟩
        apply neutralTable_ensures pinning shows owns
        intro inode state progress owns
        apply neutralTable_ensures pinning reads owns
        intro lowerInode state progress owns
        apply neutralTable_ensures pinning (own_neutral (fsstackCopy_neutral inode lowerInode _)) owns
        intro _ state progress owns
        exact puts owns

/-- So it keeps the mount balanced. -/
theorem trfsReadlink_keeping (pinning : MethodPinning env referenced) {buf : Pointer} {bufsiz : Nat}
    (owns : Owns env.toEnvironment referenced 0 [] holdings state progress) :
    (trfsReadlink dentry buf bufsiz).Ensures (handleTable env helpers) tableLedger.account
      (fun _ => Keeping env referenced holdings) state progress := by
  rw [← (trfsReadlink dentry buf bufsiz).bind_pure]
  exact readlink_owns pinning owns fun _ _ _ owns => owns

/-- `trfs_get_link` keeps the mount balanced, with a dentry or without. -/
theorem trfsGetLink_keeping (pinning : MethodPinning env referenced) {found : Option Dentry}
    (owns : Owns env.toEnvironment referenced 0 [] holdings state progress) :
    (trfsGetLink found).Ensures (handleTable env helpers) tableLedger.account
      (fun _ => Keeping env referenced holdings) state progress := by
  cases found with
  | none => exact owns
  | some dentry =>
      apply method_ensures pinning (.memory (.kmalloc pageSize)) owns
      intro buf state progress owns
      change Program.Ensures _ _ _ ((ite (buf = .null) _ _ : LinkProg Pointer).translate _ _) _ _
      by_cases absent : buf = .null
      · rw [if_pos absent]
        exact owns
      · rw [if_neg absent, Program.translate_bind]
        apply readlink_owns pinning owns
        intro done state progress owns
        exact neutral_keeping pinning (memory_neutral dentry (getLink_rest_memory buf done.1) done.2) owns

/-- `trfs_statfs` puts the path that it takes. -/
theorem trfsStatfs_keeping (pinning : MethodPinning env referenced) {magic : BitVec 64}
    (owns : Owns env.toEnvironment referenced 0 [] holdings state progress) :
    (trfsStatfs magic dentry).Ensures (handleTable env helpers) tableLedger.account
      (fun _ => Keeping env referenced holdings) state progress := by
  unfold trfsStatfs
  apply getPathOwn_owns pinning owns
  intro path state progress owns
  apply method_ensures pinning (.vfsStatfs path) owns
  intro reply state progress owns
  exact putPath_keeping pinning owns

/-- `trfs_permission` takes and gives no reference. -/
theorem trfsPermission_neutral (inode : Inode) (mask : BitVec 32) : (trfsPermission inode mask).Calls NeutralTable :=
  ⟨trivial, fun _ => ⟨trivial, fun _ => trivial⟩⟩

/-- `trfs_umount_begin` takes and gives none. -/
theorem trfsUmountBegin_neutral : trfsUmountBegin.Calls NeutralTable := by
  refine ⟨trivial, fun lowerSb => ?_⟩
  change Program.Calls NeutralTable (ite (lowerSb = 0) _ _)
  split
  · trivial
  · refine ⟨trivial, fun there => ?_⟩
    cases there with
    | false => trivial
    | true => exact ⟨trivial, fun _ => trivial⟩

/-- `trfs_flush` takes and gives none. -/
theorem trfsFlush_neutral (file : File) (id : Nat) : (trfsFlush file id).Calls NeutralTable := by
  refine ⟨trivial, fun lowerFile => ?_⟩
  cases lowerFile with
  | none => trivial
  | some lowerFile =>
      apply (hasFileMember_neutral lowerFile .flush).bind
      intro there
      cases there with
      | false => trivial
      | true => exact ⟨trivial, fun _ => ⟨trivial, fun _ => trivial⟩⟩

/-- `trfs_fasync` takes and gives none. -/
theorem trfsFasync_neutral (fd : BitVec 32) (file : File) (flag : BitVec 32) :
    (trfsFasync fd file flag).Calls NeutralTable := by
  apply (own_neutral (openLowerFile_neutral file)).bind
  intro lowerFile
  apply (hasFileMember_neutral lowerFile .fasync).bind
  intro there
  cases there with
  | false => trivial
  | true => exact ⟨trivial, fun _ => trivial⟩

/-- `trfs_compat_ioctl` takes and gives none. -/
theorem trfsCompatIoctl_neutral (file : File) (cmd : BitVec 32) (arg : BitVec 64) :
    (trfsCompatIoctl file cmd arg).Calls NeutralTable := by
  refine ⟨trivial, fun lowerFile => ?_⟩
  cases lowerFile with
  | none => trivial
  | some lowerFile =>
      apply (hasFileMember_neutral lowerFile .compatIoctl).bind
      intro there
      cases there with
      | false => trivial
      | true => exact ⟨trivial, fun _ => trivial⟩

/-- The switch of the control requests touches neither references nor private data. -/
theorem maskRequest_owns {cmd : BitVec 32} {arg : BitVec 64} {next : Unit → Prog α}
    {post : α → Mounted L → Option (Multiset Token) → Prop}
    (owns : Owns env.toEnvironment referenced held [] holdings state progress)
    (continues : ∀ after progress, Owns env.toEnvironment referenced held [] holdings after progress →
      (next ()).Ensures (handleOwned env.toEnvironment helpers) callLedger.account post after progress) :
    (maskRequest cmd arg >>= next).Ensures (handleOwned env.toEnvironment helpers) callLedger.account post state
      progress := by
  rw [Program.ensures_bind]
  have same : ∀ c reply, callSpends c = 0 → callGains c reply = 0 →
      callLedger.account.next progress c reply = progress := by
    intro c reply free nothing
    have counted : callLedger.account.next (some (held + holdings.tokens)) c reply = some _ :=
      callLedger.account_gain free
    have gains : callLedger.gains c reply = 0 := nothing
    rw [owns.account, counted, gains, add_zero]
  unfold maskRequest
  split
  · intro reply after answered
    obtain ⟨_, rfl⟩ := Prod.mk.inj (Option.some.inj answered)
    rw [same (.setMask arg) reply rfl rfl]
    exact continues _ _ ⟨owns.account, owns.holdings, by simp⟩
  · split
    · intro reply after answered
      obtain ⟨_, rfl⟩ := Prod.mk.inj (Option.some.inj answered)
      rw [same (.copyMaskToUser arg) reply rfl rfl]
      exact continues _ _ ⟨owns.account, owns.holdings, by simp⟩
    · exact continues _ _ owns

/-- `trfs_unlocked_ioctl` takes and gives none, whatever the lower handler answers. -/
theorem trfsUnlockedIoctl_owns (pinning : MethodPinning env referenced) {file : File} {fileInode : Inode}
    {cmd : BitVec 32} {arg : BitVec 64} (owns : Owns env.toEnvironment referenced 0 [] holdings state progress) :
    (trfsUnlockedIoctl file fileInode cmd arg).Ensures (handleOwned env.toEnvironment helpers) callLedger.account
      (fun _ => Keeping env referenced holdings) state progress := by
  unfold trfsUnlockedIoctl
  apply maskRequest_owns owns
  intro state progress owns
  have looks : (upper (.lowerFile file)).Calls Neutral := ⟨trivial, fun _ => trivial⟩
  apply neutral_ensures pinning.toPinning looks owns
  intro lowerFile state progress owns
  cases lowerFile with
  | none => exact owns
  | some lowerFile =>
      have asks : (lower (.unlockedIoctl lowerFile cmd arg)).Calls Neutral := ⟨trivial, fun _ => trivial⟩
      apply neutral_ensures pinning.toPinning asks owns
      intro reply state progress owns
      apply neutral_ensures pinning.toPinning (runIf_neutral (fsstackCopy_neutral fileInode lowerFile.inode _)) owns
      exact fun _ state progress owns => owns

/-- Every request of the table gives back what it took, on each of its ways out. -/
theorem Request.owns (pinning : MethodPinning env referenced) (request : Request) (fresh : request.Fresh state)
    (settled : holdings.Settled) (owns : Owns env.toEnvironment referenced 0 [] holdings state progress) :
    request.program.Ensures (handleTable env helpers) tableLedger.account
      (fun _ => Returns env.toVfsEnvironment referenced) state progress := by
  have ends : ∀ {β : Type} {program : MethodProg β}, program.Ensures (handleTable env helpers) tableLedger.account
      (fun _ => Keeping env referenced holdings) state progress →
      (discard program).Ensures (handleTable env helpers) tableLedger.account
        (fun _ => Returns env.toVfsEnvironment referenced) state progress := by
    intro β program ensures
    unfold discard
    rw [Program.ensures_bind]
    exact ensures.mono fun _ _ _ owns => ⟨holdings, settled, owns⟩
  have lasts : ∀ {β : Type} {program : MethodProg β}, program.Calls NeutralTable →
      (discard program).Ensures (handleTable env helpers) tableLedger.account
        (fun _ => Returns env.toVfsEnvironment referenced) state progress :=
    fun calls => ends (neutral_keeping pinning calls owns)
  cases request with
  | vfs request => exact mount_ensures (request.owns pinning.toVfsPinning fresh settled owns)
  | readlink dentry buf bufsiz => exact ends (trfsReadlink_keeping pinning owns)
  | getLink dentry => exact ends (trfsGetLink_keeping pinning owns)
  | permission inode mask => exact lasts (trfsPermission_neutral inode mask)
  | setxattr name value flags dentry =>
      exact ends (forwardXattr_keeping pinning (fun inode lowerInode => fsstackCopy_neutral inode lowerInode _)
        (fun _ => ⟨trivial, fun _ => trivial⟩) owns)
  | getxattr name buffer size dentry =>
      exact ends (forwardXattr_keeping pinning (fun inode lowerInode => fsstackCopy_neutral inode lowerInode _)
        (fun _ => intResult_neutral ⟨trivial, fun _ => trivial⟩) owns)
  | listxattr buffer size dentry =>
      exact ends (forwardXattr_keeping pinning (fun inode lowerInode => fsstackCopy_neutral inode lowerInode _)
        (fun _ => intResult_neutral ⟨trivial, fun _ => trivial⟩) owns)
  | removexattr name dentry =>
      exact ends (forwardXattr_keeping pinning (fun inode lowerInode => fsstackCopy_neutral inode lowerInode _)
        (fun _ => ⟨trivial, fun _ => trivial⟩) owns)
  | statfs magic dentry => exact ends (trfsStatfs_keeping pinning owns)
  | remountFs flags => exact lasts trivial
  | umountBegin =>
      apply Program.Ensures.mono _ (neutral_keeping pinning trfsUmountBegin_neutral owns)
      exact fun _ _ _ owns => ⟨holdings, settled, owns⟩
  | flush file id => exact lasts (trfsFlush_neutral file id)
  | fasync fd file flag => exact lasts (trfsFasync_neutral fd file flag)
  | llseek file offset whence => exact lasts (Program.translate_calls (positionCall_neutral file) _ _)
  | readdir file => exact lasts (Program.translate_calls (positionCall_neutral file) _ _)
  | unlockedIoctl file fileInode cmd arg =>
      exact ends (mount_ensures (kernel_ensures (trfsUnlockedIoctl_owns pinning owns)))
  | compatIoctl file cmd arg => exact lasts (trfsCompatIoctl_neutral file cmd arg)

/-- Between two requests the account of all calls so far is what the dentries and the open files hold. -/
def Balanced (start : Multiset Token) (reached : Mounted L × List (Event TableCall.Reply)) : Prop :=
  tableLedger.account.after (some start) reached.2 = some reached.1.holdings.tokens ∧ reached.1.holdings.Settled

/-- One step of a run keeps the account. -/
theorem tableStep_balanced (pinning : MethodPinning env referenced) {start : Multiset Token}
    (reached : Mounted L × List (Event TableCall.Reply)) (action : TableAction L)
    (next : Mounted L × List (Event TableCall.Reply)) (balanced : Balanced start reached) (fresh : action.Fresh reached)
    (stepped : tableStep env helpers action reached = some next) : Balanced start next := by
  obtain ⟨account, settled⟩ := balanced
  obtain ⟨state, events⟩ := reached
  cases action with
  | request request =>
      obtain ⟨done, ran, rfl⟩ := Option.map_eq_some_iff.mp stepped
      have owns : Owns env.toEnvironment referenced 0 [] state.holdings state
          (tableLedger.account.after (some start) events) := by
        refine ⟨?_, rfl, fun _ member => (List.not_mem_nil member).elim⟩
        rw [zero_add]
        exact account
      obtain ⟨later, settled, owns⟩ := (request.owns pinning fresh settled owns).exec ran
      rw [← owns.holdings] at settled
      refine ⟨?_, settled⟩
      have whole := owns.account
      rw [zero_add, ← owns.holdings] at whole
      rw [Monitor.after_append]
      exact whole
  | outside change mask =>
      obtain rfl := Option.some.inj stepped
      exact ⟨account, settled⟩

end

section
variable {L : Type} (state : Mounted L)

instance vfsFreshDecidable : (request : VfsRequest) → Decidable (request.Fresh state)
  | .lookup dentry => inferInstanceAs (Decidable (dentry.address ∉ state.live))
  | .traced (.open _ file) => inferInstanceAs (Decidable (file.address ∉ state.opened))
  | .traced (.read ..) | .traced (.write ..) | .traced (.release _) | .traced (.create ..) | .traced (.link ..)
  | .traced (.unlink ..) | .traced (.symlink ..) | .traced (.mkdir ..) | .traced (.rmdir ..) | .traced (.mknod ..)
  | .traced (.rename ..) | .readIter .. | .writeIter .. | .revalidate .. | .release _ | .setattr .. | .getattr _
  | .fsync .. => isTrue trivial

instance freshDecidable : (made : Request) → Decidable (made.Fresh state)
  | .vfs request => vfsFreshDecidable state request
  | .readlink .. | .getLink _ | .permission .. | .setxattr .. | .getxattr .. | .listxattr .. | .removexattr ..
  | .statfs .. | .remountFs _ | .umountBegin | .flush .. | .fasync .. | .llseek .. | .readdir _ | .unlockedIoctl ..
  | .compatIoctl .. => isTrue trivial

instance actionFreshDecidable (reached : Mounted L × List (Event TableCall.Reply)) :
    (action : TableAction L) → Decidable (action.Fresh reached)
  | .request made => freshDecidable reached.1 made
  | .outside .. => isTrue trivial

end

/-- A kernel that has every method and answers every call of them with success. -/
def steadyMethod : (c : MethodCall) → c.Reply
  | .memory (.kmalloc _) => .block 0
  | .memory .lowerHasReadlink | .hasInodeOps _ | .hasInodeMember .. | .hasUmountBegin _ | .hasFileOps _
  | .hasFileMember .. => true
  | .memory (.lowerReadlink ..) | .readlink .. => 1
  | .memory .delayedCall => none
  | .memory (.kfree _) | .memory (.storeByte ..) | .memory .getLowerPath | .memory .putLowerPath
  | .memory .copyAttrAtime | .memory (.setDelayedCall _) | .umountBegin _ | .filemapWriteAndWait _ | .setPosition .. => ()
  | .vfsSetxattr .. | .vfsRemovexattr .. | .inodePermission .. | .flush .. | .fasync .. | .iterateDir _
  | .vfsGetxattr .. | .vfsListxattr .. | .compatIoctl .. | .genericFileLlseek .. | .position _ => 0
  | .vfsStatfs _ => (0, ⟨0, 0, 0, 0, 0, 0, 0, 0, 0, 0, 0⟩)

def steadyTable : MethodEnvironment Unit := { steadyMount with method := fun c _ => (steadyMethod c, ()) }

/-- A lower filesystem in which nothing changes pins its inodes. -/
theorem steadyTable_pinning : MethodPinning steadyTable fun _ _ => True where
  toVfsPinning := steadyMount_pinning
  method _ _ _ := fun _ => ⟨trivial, fun _ => rfl⟩

/-- A link is read on the way to a new file, and the open file passes through most of its methods. -/
def tableRun : List (TableAction Unit) :=
  [.request (.getLink (some dentryA)), .request (.vfs (.traced (.open ⟨1⟩ fileA))), .request (.vfs (.lookup dentryB)),
    .request (.setxattr ⟨[0x61], by decide⟩ [1] 0 dentryB), .request (.statfs 1 dentryB), .request (.readdir fileA),
    .request (.llseek fileA 0 0), .request (.unlockedIoctl fileA ⟨1⟩ ALL 1), .outside id 0, .request (.flush fileA 1),
    .request (.vfs (.traced (.release fileA))), .request (.vfs (.release dentryB)), .request .umountBegin]

/-- This run completes. -/
theorem tableRun_finishes : (runActions (tableStep steadyTable reliable) tableRun (rootMount, [])).isSome := by
  decide +kernel

/-- Its lookups and opens are of new dentries and files. -/
theorem tableRun_fresh : ObeyActions (tableStep steadyTable reliable) TableAction.Fresh tableRun (rootMount, []) := by
  decide +kernel

/-- A mount with its root only has no open file. -/
theorem rootMount_settled : rootMount.holdings.Settled := fun file member => absurd member (Finset.notMem_empty file)

end Trfs.Kernel.Methods
