import Trfs.Construction.Kernel.Mounted
import Trfs.Library.Ensures
import Trfs.Library.Ledger
import Trfs.Proof.Kernel.Hidden

namespace Trfs.Kernel
open Bytes Effect Trace

/-- What the filesystem can hold: references, locks, the memory of a trace record and the open trace file. -/
inductive Token where
  | dentry (dentry : LowerDentry)
  | mnt (mnt : Nat)
  | file (file : LowerFile)
  | lock (inodes : List LowerInode)
  | buffer (address : Nat)
  | traceFile (file : TraceFile)
  | upper (address : Nat)
deriving DecidableEq

/-- `NULL` holds nothing. -/
def dentryTokens (dentry : LowerDentry) : Multiset Token := if dentry.address = 0 then 0 else {.dentry dentry}

def mntTokens (mnt : Nat) : Multiset Token := if mnt = 0 then 0 else {.mnt mnt}

/-- The pair of references on a path. -/
def pathTokens (path : LowerPath) : Multiset Token := dentryTokens path.dentry + mntTokens path.mnt

def fileTokens : Option LowerFile → Multiset Token
  | none => 0
  | some file => {.file file}

/-- An unset path holds nothing. -/
@[simp] theorem pathTokens_unset : pathTokens .unset = 0 := rfl

def callGains : (c : Call) → c.Reply → Multiset Token
  | .lower (.pathGet path), _ => pathTokens path
  | .lower (.dget dentry), _ => dentryTokens dentry
  | .lower (.dgetParent _), dentry => dentryTokens dentry
  | .lower (.getFile file), _ => {.file file}
  | .lower (.dentryOpen ..), .ok file => {.file file}
  | .upper (.lock inodes), _ => {.lock inodes}
  | .tracer (.kmalloc _), some block => {.buffer block.address}
  | .tracer (.filpOpen ..), .ok file => {.traceFile file}
  | _, _ => 0

def callSpends : Call → Multiset Token
  | .lower (.pathPut path) => pathTokens path
  | .lower (.dput dentry) => dentryTokens dentry
  | .lower (.fput file) => {.file file}
  | .upper (.unlock inodes) => {.lock inodes}
  | .tracer (.kfree address) => {.buffer address}
  | .tracer (.filpClose file) => {.traceFile file}
  | _ => 0

def callLedger : Ledger Call.Reply Token := ⟨callGains, callSpends⟩

/-- What the dentries and the open files of a mount hold. -/
structure Holdings where
  live : Finset Nat
  opened : Finset Nat
  lowerPath : Nat → LowerPath
  lowerFile : Nat → Option LowerFile

/-- One pair of references for each dentry whose lower path is set, and one reference for each open file. -/
def Holdings.tokens (holdings : Holdings) : Multiset Token :=
  ∑ dentry ∈ holdings.live, pathTokens (holdings.lowerPath dentry) +
    ∑ file ∈ holdings.opened, fileTokens (holdings.lowerFile file)

def Mounted.holdings {L : Type} (state : Mounted L) : Holdings :=
  ⟨state.live, state.opened, state.lowerPath, state.lowerFile⟩

/-- The calls that put a reference on this dentry. -/
def LowerCall.Puts (dentry : LowerDentry) : LowerCall → Prop
  | .dput other => other = dentry
  | .pathPut path => path.dentry = dentry
  | _ => False

/-- A dentry with a reference on it stays so, and it keeps its inode. -/
def Undisturbed {L : Type} (env : Environment L) (referenced : L → LowerDentry → Prop) (dentry : LowerDentry)
    (state after : L) : Prop :=
  referenced state dentry → referenced after dentry ∧ ((env.lower (.dInode dentry) state).1 ≠ .null →
    (env.lower (.dInode dentry) after).1 = (env.lower (.dInode dentry) state).1)

/-- References are taken on dentries, and until one is put nothing takes the inode of the dentry away. -/
structure Pinning {L : Type} (env : Environment L) (referenced : L → LowerDentry → Prop) : Prop where
  dgetParent : ∀ dentry state,
    referenced (env.lower (.dgetParent dentry) state).2 (env.lower (.dgetParent dentry) state).1
  pathGet : ∀ path state, referenced (env.lower (.pathGet path) state).2 path.dentry
  lower : ∀ c dentry state, ¬ c.Puts dentry → Undisturbed env referenced dentry state (env.lower c state).2
  iget5Locked : ∀ lowerInode dentry state, Undisturbed env referenced dentry state (env.iget5Locked lowerInode state).2
  dSpliceAlias : ∀ upper other dentry state,
    Undisturbed env referenced dentry state (env.dSpliceAlias upper other state).2
  kzalloc : ∀ dentry state, Undisturbed env referenced dentry state (env.kzalloc state).2

/-- There is a reference on the dentry, and if the inode is one, then it is that of the dentry. -/
def Pins {L : Type} (env : Environment L) (referenced : L → LowerDentry → Prop) (state : L)
    (pair : LowerDentry × LowerInode) : Prop :=
  referenced state pair.1 ∧ (pair.2 ≠ .null → (env.lower (.dInode pair.1) state).1 = pair.2)

section
variable {L : Type} {env : Environment L} {helpers : Helpers} {referenced : L → LowerDentry → Prop}
  {held rest : Multiset Token} {pinned : List (LowerDentry × LowerInode)} {holdings : Holdings} {state after : Mounted L}
  {progress : Option (Multiset Token)} {α β : Type}

/-- A pinned dentry stays pinned while it is undisturbed. -/
theorem Undisturbed.pins {before later : L} {pair : LowerDentry × LowerInode}
    (undisturbed : Undisturbed env referenced pair.1 before later) (pins : Pins env referenced before pair) :
    Pins env referenced later pair := by
  obtain ⟨stays, shows⟩ := undisturbed pins.1
  refine ⟨stays, fun there => ?_⟩
  have seen := pins.2 there
  rw [shows (seen.symm ▸ there), seen]

/-- In the middle of a request: the tokens of the request itself and those of the mount, and the dentries that it relies on. -/
structure Owns (env : Environment L) (referenced : L → LowerDentry → Prop) (held : Multiset Token)
    (pinned : List (LowerDentry × LowerInode)) (holdings : Holdings) (state : Mounted L)
    (progress : Option (Multiset Token)) : Prop where
  account : progress = some (held + holdings.tokens)
  holdings : state.holdings = holdings
  pinned : ∀ pair ∈ pinned, Pins env referenced state.machine.visible.lower pair

/-- The calls that leave the holdings of the mount as they are. -/
def Keeps : Call → Prop
  | .upper (.setLowerFile ..) | .upper (.kzallocFileInfo _) | .upper (.kfreeFileInfo _) | .setMask _
  | .copyMaskToUser _ => False
  | _ => True

def CallPuts (dentry : LowerDentry) : Call → Prop
  | .lower c => c.Puts dentry
  | _ => False

/-- A keeping call changes no holding and disturbs only what it puts. -/
theorem handleOwned_keeps (pinning : Pinning env referenced) {c : Call} {reply : c.Reply} (keeps : Keeps c)
    (answered : handleOwned env helpers c state = some (reply, after)) :
    after.holdings = state.holdings ∧ ∀ dentry, ¬ CallPuts dentry c →
      Undisturbed env referenced dentry state.machine.visible.lower after.machine.visible.lower := by
  have still : ∀ lower dentry, Undisturbed env referenced dentry lower lower := fun _ _ there => ⟨there, fun _ => rfl⟩
  cases c with
  | lower c =>
      obtain ⟨_, rfl⟩ := Prod.mk.inj (Option.some.inj answered)
      exact ⟨rfl, fun dentry other => pinning.lower c dentry _ other⟩
  | upper c =>
      cases c with
      | lock inodes =>
          simp only [handleOwned] at answered
          split at answered
          · cases answered
          · obtain ⟨_, rfl⟩ := Prod.mk.inj (Option.some.inj answered)
            exact ⟨rfl, fun dentry _ => still _ dentry⟩
      | lowerPath dentry =>
          simp only [handleOwned] at answered
          split at answered
          · obtain ⟨_, rfl⟩ := Prod.mk.inj (Option.some.inj answered)
            exact ⟨rfl, fun dentry _ => still _ dentry⟩
          · cases answered
      | lowerFile file =>
          simp only [handleOwned] at answered
          split at answered
          · obtain ⟨_, rfl⟩ := Prod.mk.inj (Option.some.inj answered)
            exact ⟨rfl, fun dentry _ => still _ dentry⟩
          · cases answered
      | dSpliceAlias inode dentry =>
          obtain ⟨_, rfl⟩ := Prod.mk.inj (Option.some.inj answered)
          refine ⟨?_, fun other _ => pinning.dSpliceAlias inode dentry other _⟩
          unfold Mounted.holdings Mounted.setMachine Mounted.lowerPath Mounted.lowerFile
          simp only
          split <;> rfl
      | iget5Locked lowerInode =>
          obtain ⟨_, rfl⟩ := Prod.mk.inj (Option.some.inj answered)
          exact ⟨rfl, fun dentry _ => pinning.iget5Locked lowerInode dentry _⟩
      | setLowerFile file value => exact keeps.elim
      | kzallocFileInfo file => exact keeps.elim
      | kfreeFileInfo file => exact keeps.elim
      | _ =>
          obtain ⟨_, rfl⟩ := Prod.mk.inj (Option.some.inj answered)
          exact ⟨rfl, fun dentry _ => still _ dentry⟩
  | tracer c =>
      obtain ⟨_, rfl⟩ := Prod.mk.inj (Option.some.inj answered)
      have traced : handle env helpers (.tracer c) state.machine = some (state.machine.answer helpers c) := rfl
      have visible := handle_hidden (c := .tracer c) trivial traced
      unfold Mounted.holdings Mounted.setMachine Mounted.lowerPath Mounted.lowerFile
      dsimp only
      rw [visible]
      exact ⟨rfl, fun dentry _ => still _ dentry⟩
  | oops => exact Empty.elim reply
  | _ => exact keeps.elim

/-- The rule for a call: it needs the tokens that it takes and leaves those that it gives. -/
theorem call_ensures (pinning : Pinning env referenced) (c : Call) (keeps : Keeps c)
    {later : List (LowerDentry × LowerInode)} {next : c.Reply → Prog α}
    {post : α → Mounted L → Option (Multiset Token) → Prop}
    (owns : Owns env referenced held pinned holdings state progress)
    (enough : held = callSpends c + rest) (pinned_later : ∀ pair ∈ later, pair ∈ pinned ∧ ¬ CallPuts pair.1 c)
    (continues : ∀ reply after progress, handleOwned env helpers c state = some (reply, after) →
      Owns env referenced (rest + callGains c reply) later holdings after progress →
      (next reply).Ensures (handleOwned env helpers) callLedger.account post after progress) :
    (perform c >>= next).Ensures (handleOwned env helpers) callLedger.account post state progress := by
  intro reply after answered
  obtain ⟨same, undisturbed⟩ := handleOwned_keeps pinning keeps answered
  apply continues reply after _ answered
  refine ⟨?_, same.trans owns.holdings, ?_⟩
  · have total : held + holdings.tokens = callLedger.spends c + (rest + holdings.tokens) := by
      rw [enough, add_assoc]
      rfl
    have counted : callLedger.account.next (some (held + holdings.tokens)) c reply = some _ := callLedger.account_next total
    rw [owns.account, counted, add_right_comm]
    rfl
  · intro pair member
    obtain ⟨before, stays⟩ := pinned_later pair member
    exact (undisturbed pair.1 stays).pins (owns.pinned pair before)

/-- The calls that neither take nor give anything. -/
def Neutral : Call → Prop
  | .lower (.pathGet _) | .lower (.dget _) | .lower (.dgetParent _) | .lower (.getFile _) | .lower (.dentryOpen ..)
  | .lower (.pathPut _) | .lower (.dput _) | .lower (.fput _) | .upper (.lock _) | .upper (.unlock _)
  | .upper (.setLowerFile ..) | .upper (.kzallocFileInfo _) | .upper (.kfreeFileInfo _) | .tracer (.kmalloc _)
  | .tracer (.filpOpen ..) | .tracer (.kfree _) | .tracer (.filpClose _) | .setMask _ | .copyMaskToUser _ => False
  | _ => True

/-- A neutral call keeps, spends nothing, gains nothing and puts nothing. -/
theorem Neutral.keeps {c : Call} (neutral : Neutral c) :
    Keeps c ∧ callSpends c = 0 ∧ (∀ reply, callGains c reply = 0) ∧ ∀ dentry, ¬ CallPuts dentry c := by
  cases c with
  | lower c => cases c <;> first | exact neutral.elim | exact ⟨trivial, rfl, fun _ => rfl, fun _ => id⟩
  | upper c => cases c <;> first | exact neutral.elim | exact ⟨trivial, rfl, fun _ => rfl, fun _ => id⟩
  | tracer c => cases c <;> first | exact neutral.elim | exact ⟨trivial, rfl, fun _ => rfl, fun _ => id⟩
  | oops => exact ⟨trivial, rfl, fun _ => rfl, fun _ => id⟩
  | _ => exact neutral.elim

/-- The rule for a call that neither takes nor gives anything. -/
theorem look_ensures (pinning : Pinning env referenced) (c : Call) (neutral : Neutral c) {next : c.Reply → Prog α}
    {post : α → Mounted L → Option (Multiset Token) → Prop}
    (owns : Owns env referenced held pinned holdings state progress)
    (continues : ∀ reply after progress, handleOwned env helpers c state = some (reply, after) →
      Owns env referenced held pinned holdings after progress →
      (next reply).Ensures (handleOwned env helpers) callLedger.account post after progress) :
    (perform c >>= next).Ensures (handleOwned env helpers) callLedger.account post state progress := by
  obtain ⟨keeps, spends, gains, puts⟩ := neutral.keeps
  have enough : held = callSpends c + held := by rw [spends, zero_add]
  refine call_ensures pinning c keeps owns enough (fun pair member => ⟨member, puts pair.1⟩) ?_
  intro reply after progress answered owns
  rw [gains, add_zero] at owns
  exact continues reply after progress answered owns

/-- A neutral program leaves the account. -/
theorem neutral_ensures (pinning : Pinning env referenced) {program : Prog β} {next : β → Prog α}
    (calls : program.Calls Neutral) {post : α → Mounted L → Option (Multiset Token) → Prop}
    (owns : Owns env referenced held pinned holdings state progress)
    (continues : ∀ value after progress, Owns env referenced held pinned holdings after progress →
      (next value).Ensures (handleOwned env helpers) callLedger.account post after progress) :
    (program >>= next).Ensures (handleOwned env helpers) callLedger.account post state progress := by
  induction program generalizing state progress with
  | pure value => exact continues value state progress owns
  | call c inner ih =>
      apply look_ensures pinning c calls.1 owns
      exact fun reply after progress _ owns => ih reply (calls.2 reply) owns

/-- The rule for a call that only gives. -/
theorem gain_ensures (pinning : Pinning env referenced) (c : Call) (keeps : Keeps c) (free : callSpends c = 0)
    (stays : ∀ dentry, ¬ CallPuts dentry c) {next : c.Reply → Prog α}
    {post : α → Mounted L → Option (Multiset Token) → Prop}
    (owns : Owns env referenced held pinned holdings state progress)
    (continues : ∀ reply after progress, handleOwned env helpers c state = some (reply, after) →
      Owns env referenced (held + callGains c reply) pinned holdings after progress →
      (next reply).Ensures (handleOwned env helpers) callLedger.account post after progress) :
    (perform c >>= next).Ensures (handleOwned env helpers) callLedger.account post state progress := by
  have enough : held = callSpends c + held := by rw [free, zero_add]
  exact call_ensures pinning c keeps owns enough (fun pair member => ⟨member, stays pair.1⟩) continues

/-- The rule for a call that only takes. -/
theorem spend_ensures (pinning : Pinning env referenced) (c : Call) (keeps : Keeps c)
    (gives : ∀ reply, callGains c reply = 0) {later : List (LowerDentry × LowerInode)} {next : c.Reply → Prog α}
    {post : α → Mounted L → Option (Multiset Token) → Prop}
    (owns : Owns env referenced held pinned holdings state progress)
    (enough : held = callSpends c + rest) (pinned_later : ∀ pair ∈ later, pair ∈ pinned ∧ ¬ CallPuts pair.1 c)
    (continues : ∀ reply after progress, Owns env referenced rest later holdings after progress →
      (next reply).Ensures (handleOwned env helpers) callLedger.account post after progress) :
    (perform c >>= next).Ensures (handleOwned env helpers) callLedger.account post state progress := by
  refine call_ensures pinning c keeps owns enough pinned_later ?_
  intro reply after progress _ owns
  rw [gives, add_zero] at owns
  exact continues reply after progress owns

/-- After a put the request relies on no dentry any more. -/
theorem put_ensures (pinning : Pinning env referenced) (c : Call) (keeps : Keeps c)
    (gives : ∀ reply, callGains c reply = 0) {next : c.Reply → Prog α}
    {post : α → Mounted L → Option (Multiset Token) → Prop}
    (owns : Owns env referenced held pinned holdings state progress)
    (enough : held = callSpends c + rest)
    (continues : ∀ reply after progress, Owns env referenced rest [] holdings after progress →
      (next reply).Ensures (handleOwned env helpers) callLedger.account post after progress) :
    (perform c >>= next).Ensures (handleOwned env helpers) callLedger.account post state progress :=
  spend_ensures pinning c keeps gives owns enough (fun _ member => (List.not_mem_nil member).elim) continues

/-- A dentry with a new reference. -/
theorem Owns.pin {dentry : LowerDentry} (owns : Owns env referenced held pinned holdings state progress)
    (there : referenced state.machine.visible.lower dentry) :
    Owns env referenced held ((dentry, .null) :: pinned) holdings state progress := by
  refine { owns with pinned := ?_ }
  intro pair member
  rcases List.mem_cons.mp member with rfl | before
  · exact ⟨there, fun there => absurd rfl there⟩
  · exact owns.pinned pair before

/-- A lower path that is taken is held, and its dentry is pinned. -/
theorem getPath_owns (pinning : Pinning env referenced) {dentry : Dentry} {next : LowerPath → Prog α}
    {post : α → Mounted L → Option (Multiset Token) → Prop}
    (owns : Owns env referenced held pinned holdings state progress)
    (continues : ∀ path after progress,
      Owns env referenced (held + pathTokens path) ((path.dentry, .null) :: pinned) holdings after progress →
      (next path).Ensures (handleOwned env helpers) callLedger.account post after progress) :
    (trfsGetLowerPath dentry >>= next).Ensures (handleOwned env helpers) callLedger.account post state progress := by
  have reads : (upper (.lowerPath dentry)).Calls Neutral := ⟨trivial, fun _ => trivial⟩
  change (upper (.lowerPath dentry) >>= fun path => lower (.pathGet path) >>= fun _ => next path).Ensures _ _ _ _ _
  apply neutral_ensures pinning reads owns
  intro path after progress owns
  refine gain_ensures pinning (.lower (.pathGet path)) trivial rfl (fun _ => id) owns ?_
  intro _ last progress answered owns
  obtain ⟨_, rfl⟩ := Prod.mk.inj (Option.some.inj answered)
  exact continues path _ progress (owns.pin (pinning.pathGet path _))

/-- A lower path that is put was held. -/
theorem putPath_owns (pinning : Pinning env referenced) {path : LowerPath} {next : Unit → Prog α}
    {post : α → Mounted L → Option (Multiset Token) → Prop}
    (owns : Owns env referenced held pinned holdings state progress)
    (enough : held = pathTokens path + rest)
    (continues : ∀ after progress, Owns env referenced rest [] holdings after progress →
      (next ()).Ensures (handleOwned env helpers) callLedger.account post after progress) :
    (trfsPutLowerPath path >>= next).Ensures (handleOwned env helpers) callLedger.account post state progress := by
  refine put_ensures pinning (.lower (.pathPut path)) trivial (fun _ => rfl) owns enough ?_
  exact fun _ after progress owns => continues after progress owns

/-- A lower dentry that is put was held. -/
theorem dput_owns (pinning : Pinning env referenced) {dentry : LowerDentry} {next : Unit → Prog α}
    {post : α → Mounted L → Option (Multiset Token) → Prop}
    (owns : Owns env referenced held pinned holdings state progress)
    (enough : held = dentryTokens dentry + rest)
    (continues : ∀ after progress, Owns env referenced rest [] holdings after progress →
      (next ()).Ensures (handleOwned env helpers) callLedger.account post after progress) :
    (lower (.dput dentry) >>= next).Ensures (handleOwned env helpers) callLedger.account post state progress := by
  refine put_ensures pinning (.lower (.dput dentry)) trivial (fun _ => rfl) owns enough ?_
  exact fun _ after progress owns => continues after progress owns

/-- A parent that is taken is held and pinned. -/
theorem dgetParent_owns (pinning : Pinning env referenced) {dentry : LowerDentry} {next : LowerDentry → Prog α}
    {post : α → Mounted L → Option (Multiset Token) → Prop}
    (owns : Owns env referenced held pinned holdings state progress)
    (continues : ∀ dir after progress,
      Owns env referenced (held + dentryTokens dir) ((dir, .null) :: pinned) holdings after progress →
      (next dir).Ensures (handleOwned env helpers) callLedger.account post after progress) :
    (lower (.dgetParent dentry) >>= next).Ensures (handleOwned env helpers) callLedger.account post state progress := by
  refine gain_ensures pinning (.lower (.dgetParent dentry)) trivial rfl (fun _ => id) owns ?_
  intro dir last progress answered owns
  obtain ⟨rfl, rfl⟩ := Prod.mk.inj (Option.some.inj answered)
  exact continues _ _ progress (owns.pin (pinning.dgetParent dentry _))

/-- A dentry with a reference on it is pinned to the inode that was read from it. -/
theorem readInode_owns (pinning : Pinning env referenced) {dentry : LowerDentry} {next : LowerInode → Prog α}
    {post : α → Mounted L → Option (Multiset Token) → Prop}
    (owns : Owns env referenced held pinned holdings state progress)
    (pin : (dentry, .null) ∈ pinned)
    (continues : ∀ inode after progress, Owns env referenced held ((dentry, inode) :: pinned) holdings after progress →
      (next inode).Ensures (handleOwned env helpers) callLedger.account post after progress) :
    (lowerDInode dentry >>= next).Ensures (handleOwned env helpers) callLedger.account post state progress := by
  have there := (owns.pinned _ pin).1
  refine look_ensures pinning (.lower (.dInode dentry)) trivial owns ?_
  intro inode after progress answered owns
  apply continues
  refine { owns with pinned := ?_ }
  obtain ⟨rfl, rfl⟩ := Prod.mk.inj (Option.some.inj answered)
  obtain ⟨stays, shows⟩ := pinning.lower (.dInode dentry) dentry state.machine.visible.lower id there
  intro pair member
  rcases List.mem_cons.mp member with rfl | before
  · exact ⟨stays, shows⟩
  · exact owns.pinned pair before

/-- A pinned dentry shows its inode again. -/
theorem readPinned_owns (pinning : Pinning env referenced) {dentry : LowerDentry} {inode : LowerInode}
    {next : LowerInode → Prog α} {post : α → Mounted L → Option (Multiset Token) → Prop}
    (owns : Owns env referenced held pinned holdings state progress) (pin : (dentry, inode) ∈ pinned)
    (there : inode ≠ .null)
    (continues : ∀ after progress, Owns env referenced held pinned holdings after progress →
      (next inode).Ensures (handleOwned env helpers) callLedger.account post after progress) :
    (lowerDInode dentry >>= next).Ensures (handleOwned env helpers) callLedger.account post state progress := by
  refine look_ensures pinning (.lower (.dInode dentry)) trivial owns ?_
  intro read after progress answered later
  have same := (owns.pinned _ pin).2 there
  obtain rfl : inode = read := same.symm.trans (Prod.mk.inj (Option.some.inj answered)).1
  exact continues after progress later

/-- The locked inodes are there, since the lock did not fault. -/
theorem lock_owns (pinning : Pinning env referenced) {inodes : List LowerInode} {next : Unit → Prog α}
    {post : α → Mounted L → Option (Multiset Token) → Prop}
    (owns : Owns env referenced held pinned holdings state progress)
    (continues : ∀ after progress, (∀ inode ∈ inodes, inode ≠ .null) →
      Owns env referenced (held + {.lock inodes}) pinned holdings after progress →
      (next ()).Ensures (handleOwned env helpers) callLedger.account post after progress) :
    (upper (.lock inodes) >>= next).Ensures (handleOwned env helpers) callLedger.account post state progress := by
  refine gain_ensures pinning (.upper (.lock inodes)) trivial rfl (fun _ => id) owns ?_
  intro _ after progress answered owns
  apply continues after progress _ owns
  simp only [handleOwned] at answered
  split at answered
  · cases answered
  · rename_i absent
    rintro inode member rfl
    exact absent member

/-- The locks that are released were held. -/
theorem unlock_owns (pinning : Pinning env referenced) {inodes : List LowerInode} {next : Unit → Prog α}
    {post : α → Mounted L → Option (Multiset Token) → Prop}
    (owns : Owns env referenced held pinned holdings state progress)
    (enough : held = {.lock inodes} + rest)
    (continues : ∀ after progress, Owns env referenced rest pinned holdings after progress →
      (next ()).Ensures (handleOwned env helpers) callLedger.account post after progress) :
    (upper (.unlock inodes) >>= next).Ensures (handleOwned env helpers) callLedger.account post state progress := by
  have stays : ∀ pair ∈ pinned, pair ∈ pinned ∧ ¬ CallPuts pair.1 (.upper (.unlock inodes)) :=
    fun _ member => ⟨member, id⟩
  refine spend_ensures pinning (.upper (.unlock inodes)) trivial (fun _ => rfl) owns enough stays ?_
  exact fun _ after progress owns => continues after progress owns

/-- `lock_parent` holds a reference on the parent and the lock of its inode. -/
theorem lockParent_owns (pinning : Pinning env referenced) {dentry : LowerDentry} {next : LowerDentry → Prog α}
    {post : α → Mounted L → Option (Multiset Token) → Prop}
    (owns : Owns env referenced held pinned holdings state progress)
    (continues : ∀ dir inode after progress, inode ≠ .null →
      Owns env referenced (held + dentryTokens dir + {.lock [inode]}) [(dir, inode)] holdings after progress →
      (next dir).Ensures (handleOwned env helpers) callLedger.account post after progress) :
    (lockParent dentry >>= next).Ensures (handleOwned env helpers) callLedger.account post state progress := by
  change (lower (.dgetParent dentry) >>= fun dir => lowerDInode dir >>= fun inode =>
    upper (.lock [inode]) >>= fun _ => next dir).Ensures _ _ _ _ _
  apply dgetParent_owns pinning owns
  intro dir after progress owns
  apply readInode_owns pinning owns List.mem_cons_self
  intro inode after progress owns
  apply lock_owns pinning owns
  intro after progress there owns
  refine continues dir inode after progress (there inode List.mem_cons_self) { owns with pinned := ?_ }
  intro pair member
  obtain rfl := List.mem_singleton.mp member
  exact owns.pinned _ List.mem_cons_self

/-- `unlock_dir` gives both back. It reads the inode of the parent again. -/
theorem unlockDir_owns (pinning : Pinning env referenced) {dir : LowerDentry} {inode : LowerInode} {next : Unit → Prog α}
    {post : α → Mounted L → Option (Multiset Token) → Prop}
    (owns : Owns env referenced held pinned holdings state progress)
    (pin : (dir, inode) ∈ pinned) (there : inode ≠ .null)
    (enough : held = {.lock [inode]} + (dentryTokens dir + rest))
    (continues : ∀ after progress, Owns env referenced rest [] holdings after progress →
      (next ()).Ensures (handleOwned env helpers) callLedger.account post after progress) :
    (unlockDir dir >>= next).Ensures (handleOwned env helpers) callLedger.account post state progress := by
  change (lowerDInode dir >>= fun inode => upper (.unlock [inode]) >>= fun _ => lower (.dput dir) >>= next).Ensures
    _ _ _ _ _
  apply readPinned_owns pinning owns pin there
  intro after progress owns
  apply unlock_owns pinning owns enough
  intro after progress owns
  exact dput_owns pinning owns rfl continues

end

end Trfs.Kernel
