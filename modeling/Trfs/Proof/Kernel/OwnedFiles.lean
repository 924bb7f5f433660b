import Trfs.Proof.Kernel.OwnedOperations

namespace Trfs.Kernel
open Bytes Effect Trace

/-- Another lower file for one file. -/
def Holdings.setFile (holdings : Holdings) (file : Nat) (value : Option LowerFile) : Holdings :=
  { holdings with lowerFile := Function.update holdings.lowerFile file value }

/-- One more file, without a lower file. -/
def Holdings.openFile (holdings : Holdings) (file : Nat) : Holdings :=
  { holdings.setFile file none with opened := insert file holdings.opened }

def Holdings.closeFile (holdings : Holdings) (file : Nat) : Holdings :=
  { holdings with opened := holdings.opened.erase file }

/-- Every open file has a lower file. -/
def Holdings.Settled (holdings : Holdings) : Prop := ∀ file ∈ holdings.opened, holdings.lowerFile file ≠ none

def Holdings.SettledBut (holdings : Holdings) (file : Nat) : Prop :=
  ∀ other ∈ holdings.opened, other ≠ file → holdings.lowerFile other ≠ none

section
variable {holdings : Holdings} {file : Nat} {value : Option LowerFile}

/-- Setting a file that is not open adds no token. -/
theorem Holdings.tokens_setFile_absent (absent : file ∉ holdings.opened) :
    (holdings.setFile file value).tokens = holdings.tokens :=
  congrArg (∑ dentry ∈ holdings.live, pathTokens (holdings.lowerPath dentry) + ·) (sum_update_absent absent)

/-- Opening a file adds no token yet. -/
theorem Holdings.tokens_openFile (absent : file ∉ holdings.opened) : (holdings.openFile file).tokens = holdings.tokens :=
  congrArg (∑ dentry ∈ holdings.live, pathTokens (holdings.lowerPath dentry) + ·) (sum_insert_update absent rfl)

/-- The reference on the old lower file is replaced by that on the new one. -/
theorem Holdings.tokens_setFile (member : file ∈ holdings.opened) :
    fileTokens (holdings.lowerFile file) + (holdings.setFile file value).tokens = fileTokens value + holdings.tokens := by
  have exchanged : fileTokens (holdings.lowerFile file) +
      ∑ other ∈ holdings.opened, fileTokens (Function.update holdings.lowerFile file value other) = _ :=
    sum_update_member member
  change fileTokens (holdings.lowerFile file) + (∑ dentry ∈ holdings.live, pathTokens (holdings.lowerPath dentry) +
    ∑ other ∈ holdings.opened, fileTokens (Function.update holdings.lowerFile file value other)) = _
  rw [add_left_comm, exchanged, add_left_comm]
  rfl

/-- Closing a file without a lower one drops no token. -/
theorem Holdings.tokens_closeFile (nothing : holdings.lowerFile file = none) :
    (holdings.closeFile file).tokens = holdings.tokens := by
  have files : ∑ other ∈ holdings.opened.erase file, fileTokens (holdings.lowerFile other) =
      ∑ other ∈ holdings.opened, fileTokens (holdings.lowerFile other) := by
    apply Finset.sum_erase
    rw [nothing]
    rfl
  exact congrArg (∑ dentry ∈ holdings.live, pathTokens (holdings.lowerPath dentry) + ·) files

/-- A refused open leaves the holdings settled. -/
theorem Holdings.Settled.refused (settled : holdings.Settled) (absent : file ∉ holdings.opened) :
    (holdings.setFile file value).Settled := by
  intro other member
  have different : other ≠ file := fun same => absent (same ▸ member)
  unfold Holdings.setFile
  simp only [Function.update_of_ne different]
  exact settled other member

/-- While a file is opened, all others are settled. -/
theorem Holdings.Settled.openFile (settled : holdings.Settled) : (holdings.openFile file).SettledBut file := by
  intro other member different
  have before : other ∈ holdings.opened := Finset.mem_of_mem_insert_of_ne member different
  simp only [Holdings.openFile, setFile, Function.update_of_ne different]
  exact settled other before

/-- Setting the file in question keeps the others settled. -/
theorem Holdings.SettledBut.setFile (settled : holdings.SettledBut file) : (holdings.setFile file value).SettledBut file := by
  intro other member different
  simp only [Holdings.setFile, Function.update_of_ne different]
  exact settled other member different

/-- Closing the file in question settles the holdings. -/
theorem Holdings.SettledBut.closeFile (settled : holdings.SettledBut file) : (holdings.closeFile file).Settled :=
  fun other member => settled other (Finset.mem_of_mem_erase member) (Finset.ne_of_mem_erase member)

/-- Once the file has its lower one, the holdings are settled. -/
theorem Holdings.SettledBut.opened (settled : holdings.SettledBut file) (lowerFile : LowerFile) :
    (holdings.setFile file (some lowerFile)).Settled := by
  intro other member
  by_cases same : other = file
  · rw [same]
    simp [Holdings.setFile]
  · exact settled.setFile other member same

end

section
variable {L : Type} {env : Environment L} {helpers : Helpers} {referenced : L → LowerDentry → Prop}
  {held rest : Multiset Token} {pinned : List (LowerDentry × LowerInode)} {holdings : Holdings} {state after : Mounted L}
  {progress : Option (Multiset Token)} {α β : Type} {file : File}

/-- The rule for a call that changes what the mount holds. -/
theorem shift_ensures (c : Call) (free : callSpends c = 0) (gives : ∀ reply, callGains c reply = 0)
    {next : c.Reply → Prog α} {post : α → Mounted L → Option (Multiset Token) → Prop}
    (owns : Owns env referenced held pinned holdings state progress)
    (continues : ∀ reply after, handleOwned env helpers c state = some (reply, after) →
      (next reply).Ensures (handleOwned env helpers) callLedger.account post after progress) :
    (perform c >>= next).Ensures (handleOwned env helpers) callLedger.account post state progress := by
  intro reply after answered
  have counted : callLedger.account.next (some (held + holdings.tokens)) c reply = some _ :=
    callLedger.account_gain free
  have same : callLedger.account.next progress c reply = progress := by
    have nothing : callLedger.gains c reply = 0 := gives reply
    rw [owns.account, counted, nothing, add_zero]
  rw [same]
  exact continues reply after answered

/-- What is held moves between the request and the mount. -/
theorem Owns.moves {other : Multiset Token} {later : Holdings}
    (owns : Owns env referenced held pinned holdings state progress) (same : after.holdings = later)
    (total : held + holdings.tokens = other + later.tokens)
    (undisturbed : ∀ dentry, Undisturbed env referenced dentry state.machine.visible.lower after.machine.visible.lower) :
    Owns env referenced other pinned later after progress :=
  ⟨owns.account.trans (congrArg some total), same,
    fun pair member => (undisturbed pair.1).pins (owns.pinned pair member)⟩

/-- A lower state is undisturbed towards itself. -/
theorem Undisturbed.rfl {dentry : LowerDentry} {lower : L} : Undisturbed env referenced dentry lower lower :=
  fun there => ⟨there, fun _ => Eq.refl _⟩

/-- The information of a new file, if there is memory for it. -/
theorem kzallocFileInfo_owns (pinning : Pinning env referenced) {next : Bool → Prog α}
    {post : α → Mounted L → Option (Multiset Token) → Prop}
    (owns : Owns env referenced held pinned holdings state progress) (fresh : file.address ∉ holdings.opened)
    (refused : ∀ after, Owns env referenced held pinned (holdings.setFile file.address none) after progress →
      (next false).Ensures (handleOwned env helpers) callLedger.account post after progress)
    (allocated : ∀ after, Owns env referenced held pinned (holdings.openFile file.address) after progress →
      (next true).Ensures (handleOwned env helpers) callLedger.account post after progress) :
    (upper (.kzallocFileInfo file) >>= next).Ensures (handleOwned env helpers) callLedger.account post state progress := by
  refine shift_ensures (.upper (.kzallocFileInfo file)) rfl (fun _ => rfl) owns ?_
  intro reply after answered
  obtain ⟨same, rfl⟩ := Prod.mk.inj (Option.some.inj answered)
  have undisturbed := fun dentry => pinning.kzalloc dentry state.machine.visible.lower
  have before := owns.holdings
  cases reply with
  | false =>
      apply refused
      have total : held + (holdings.setFile file.address none).tokens = held + holdings.tokens := by
        rw [Holdings.tokens_setFile_absent fresh]
      refine owns.moves ?_ total.symm undisturbed
      rw [← before]
      change Holdings.mk _ (ite (_ = true) _ _) _ _ = _
      rw [if_neg (by rw [same]; decide)]
      rfl
  | true =>
      apply allocated
      have total := congrArg (held + ·) (Holdings.tokens_openFile fresh)
      refine owns.moves ?_ total.symm undisturbed
      rw [← before]
      change Holdings.mk _ (ite (_ = true) _ _) _ _ = _
      rw [if_pos same]
      rfl

/-- The file information points to a lower file, or to another one. The request has its reference. -/
theorem setLowerFile_owns {value : Option LowerFile} {next : Unit → Prog α}
    {post : α → Mounted L → Option (Multiset Token) → Prop}
    (owns : Owns env referenced (fileTokens value + rest) pinned holdings state progress)
    (continues : ∀ after, file.address ∈ holdings.opened →
      Owns env referenced (fileTokens (holdings.lowerFile file.address) + rest) pinned
        (holdings.setFile file.address value) after progress →
      (next ()).Ensures (handleOwned env helpers) callLedger.account post after progress) :
    (upper (.setLowerFile file value) >>= next).Ensures (handleOwned env helpers) callLedger.account post state
      progress := by
  refine shift_ensures (.upper (.setLowerFile file value)) rfl (fun _ => rfl) owns ?_
  intro reply after answered
  have before := owns.holdings
  simp only [handleOwned] at answered
  split at answered
  · rename_i opened
    obtain ⟨_, rfl⟩ := Prod.mk.inj (Option.some.inj answered)
    have member : file.address ∈ holdings.opened := by
      rw [← before]
      exact opened
    have total : fileTokens value + rest + holdings.tokens =
        fileTokens (holdings.lowerFile file.address) + rest + (holdings.setFile file.address value).tokens := by
      rw [add_right_comm, ← Holdings.tokens_setFile member, add_right_comm]
    apply continues _ member
    refine owns.moves ?_ total fun dentry => .rfl
    rw [← before]
    rfl
  · cases answered

/-- Freeing the private data of a file without a lower one spends nothing. -/
theorem kfreeFileInfo_owns {next : Unit → Prog α} {post : α → Mounted L → Option (Multiset Token) → Prop}
    (owns : Owns env referenced held pinned holdings state progress)
    (nothing : holdings.lowerFile file.address = none)
    (continues : ∀ after, Owns env referenced held pinned (holdings.closeFile file.address) after progress →
      (next ()).Ensures (handleOwned env helpers) callLedger.account post after progress) :
    (upper (.kfreeFileInfo file) >>= next).Ensures (handleOwned env helpers) callLedger.account post state
      progress := by
  refine shift_ensures (.upper (.kfreeFileInfo file)) rfl (fun _ => rfl) owns ?_
  intro reply after answered
  obtain ⟨_, rfl⟩ := Prod.mk.inj (Option.some.inj answered)
  have before := owns.holdings
  have total := congrArg (held + ·) (Holdings.tokens_closeFile nothing)
  apply continues
  refine owns.moves ?_ total.symm fun dentry => .rfl
  rw [← before]
  rfl

/-- The lower file of a file that is open. -/
theorem lowerFile_owns (pinning : Pinning env referenced) {next : Option LowerFile → Prog α}
    {post : α → Mounted L → Option (Multiset Token) → Prop}
    (owns : Owns env referenced held pinned holdings state progress)
    (continues : ∀ after progress, file.address ∈ holdings.opened → Owns env referenced held pinned holdings after progress →
      (next (holdings.lowerFile file.address)).Ensures (handleOwned env helpers) callLedger.account post after progress) :
    (upper (.lowerFile file) >>= next).Ensures (handleOwned env helpers) callLedger.account post state progress := by
  have before := owns.holdings
  refine look_ensures pinning (.upper (.lowerFile file)) trivial owns ?_
  intro lowerFile after progress answered owns
  simp only [handleOwned] at answered
  split at answered
  · rename_i opened
    obtain ⟨rfl, rfl⟩ := Prod.mk.inj (Option.some.inj answered)
    rw [← before] at continues owns
    exact continues _ _ opened owns
  · cases answered

/-- The file gives up its lower file. -/
theorem dropLowerFile_owns (pinning : Pinning env referenced) {next : Unit → Prog α}
    {post : α → Mounted L → Option (Multiset Token) → Prop}
    (owns : Owns env referenced held pinned holdings state progress)
    (continues : ∀ after progress, Owns env referenced held [] (holdings.setFile file.address none) after progress →
      (next ()).Ensures (handleOwned env helpers) callLedger.account post after progress) :
    (dropLowerFile file >>= next).Ensures (handleOwned env helpers) callLedger.account post state progress := by
  rw [Program.ensures_bind]
  unfold dropLowerFile
  apply lowerFile_owns pinning owns
  intro state progress _ owns
  have forgets : Owns env referenced held [] holdings state progress := ⟨owns.account, owns.holdings, by simp⟩
  cases found : holdings.lowerFile file.address with
  | none =>
      have same : holdings.setFile file.address none = holdings := by
        unfold Holdings.setFile
        rw [← found, Function.update_eq_self]
      rw [← same] at forgets
      exact continues state progress forgets
  | some lowerFile =>
      have nothing : fileTokens none + held = held := zero_add held
      rw [← nothing] at owns
      apply setLowerFile_owns owns
      intro state _ owns
      rw [found] at owns
      refine put_ensures pinning (.lower (.fput lowerFile)) trivial (fun _ => rfl) owns rfl ?_
      exact fun _ state progress owns => continues state progress owns

/-- An open below leaves an error or the lower file of the file. -/
theorem openLower_owns (pinning : Pinning env referenced) {next : BitVec 32 → Prog α}
    {post : α → Mounted L → Option (Multiset Token) → Prop}
    (owns : Owns env referenced 0 [] holdings state progress)
    (failed : ∀ err after progress, err ≠ 0 → Owns env referenced 0 [] (holdings.setFile file.address none) after progress →
      (next err).Ensures (handleOwned env helpers) callLedger.account post after progress)
    (opened : ∀ lowerFile after progress,
      Owns env referenced (fileTokens (holdings.lowerFile file.address)) [] (holdings.setFile file.address (some lowerFile))
        after progress →
      (next 0).Ensures (handleOwned env helpers) callLedger.account post after progress) :
    (openLower file >>= next).Ensures (handleOwned env helpers) callLedger.account post state progress := by
  rw [Program.ensures_bind]
  unfold openLower
  apply getPath_owns pinning owns
  intro path state progress owns
  refine gain_ensures pinning (.lower (.dentryOpen path file.flags)) trivial rfl (fun _ => id) owns ?_
  intro reply state progress _ owns
  have order : 0 + pathTokens path + callGains (.lower (.dentryOpen path file.flags)) reply =
      pathTokens path + (callGains (.lower (.dentryOpen path file.flags)) reply + 0) := by abel
  apply putPath_owns pinning owns order
  intro state progress owns
  cases reply with
  | error errno =>
      apply dropLowerFile_owns pinning owns
      intro state progress owns
      apply failed errno.code state progress _ owns
      intro success
      have negative := errno.isErr.2
      rw [success] at negative
      exact absurd negative (by decide)
  | ok lowerFile =>
      apply setLowerFile_owns owns
      intro state _ owns
      rw [add_zero] at owns
      exact opened lowerFile state progress owns

/-- After a successful open only the attributes are copied. -/
theorem settleOpen_neutral (inode : Inode) (file : File) : (settleOpen inode file 0).Calls Neutral :=
  ⟨trivial, fun source => fsstackCopy_neutral inode source _⟩

/-- After an open that succeeded the file has a lower file, and after one that failed there is no open file. -/
theorem trfsOpen_owns (pinning : Pinning env referenced) {inode : Inode} (fresh : file.address ∉ holdings.opened)
    (settled : holdings.Settled) (owns : Owns env referenced 0 [] holdings state progress) :
    (trfsOpen inode file).Ensures (handleOwned env helpers) callLedger.account
      (fun _ after progress => ∃ later : Holdings, later.Settled ∧ Owns env referenced 0 [] later after progress) state
      progress := by
  unfold trfsOpen
  have looks : (upper (.dUnhashed file.dentry)).Calls Neutral := ⟨trivial, fun _ => trivial⟩
  apply neutral_ensures pinning looks owns
  intro unhashed state progress owns
  cases unhashed with
  | true => exact ⟨holdings, settled, owns⟩
  | false =>
      apply kzallocFileInfo_owns pinning owns fresh
      · intro state owns
        exact ⟨_, settled.refused fresh, owns⟩
      intro state owns
      have empty : (holdings.openFile file.address).lowerFile file.address = none := Function.update_self ..
      apply openLower_owns pinning owns
      · intro err state progress failed owns
        apply run_owns pinning owns (by trivial) (by exact ⟨trivial, fun _ => ⟨trivial, fun _ => trivial⟩⟩)
        intro buffers state progress owns
        have frees : settleOpen inode file err = upper (.kfreeFileInfo file) := if_pos failed
        rw [frees]
        apply kfreeFileInfo_owns owns (Function.update_self ..)
        intro state owns
        rw [add_comm] at owns
        apply Program.Ensures.mono _ (returnFile_owns pinning owns)
        intro _ state progress owns
        exact ⟨_, settled.openFile.setFile.closeFile, owns⟩
      · intro lowerFile state progress owns
        rw [empty] at owns
        apply run_owns pinning owns (by trivial) (by exact ⟨trivial, fun _ => ⟨trivial, fun _ => trivial⟩⟩)
        intro buffers state progress owns
        apply neutral_ensures pinning (settleOpen_neutral inode file) owns
        intro _ state progress owns
        rw [add_comm] at owns
        apply Program.Ensures.mono _ (returnFile_owns pinning owns)
        intro _ state progress owns
        exact ⟨_, settled.openFile.opened lowerFile, owns⟩

/-- The release of a file gives its reference back and owes nothing. -/
theorem trfsFileRelease_owns (pinning : Pinning env referenced) (settled : holdings.Settled)
    (owns : Owns env referenced 0 [] holdings state progress) :
    (trfsFileRelease file).Ensures (handleOwned env helpers) callLedger.account
      (fun _ after progress => ∃ later : Holdings, later.Settled ∧ Owns env referenced 0 [] later after progress) state
      progress := by
  unfold trfsFileRelease
  apply dropLowerFile_owns pinning owns
  intro state progress owns
  apply run_owns pinning owns (by trivial) (by trivial)
  intro buffers state progress owns
  apply kfreeFileInfo_owns owns (Function.update_self ..)
  intro state owns
  rw [add_comm] at owns
  apply Program.Ensures.mono _ (returnFile_owns pinning owns)
  intro _ state progress owns
  have others : holdings.SettledBut file.address := fun other member _ => settled other member
  exact ⟨_, others.setFile.closeFile, owns⟩

/-- A read ends with the account it began with. -/
theorem trfsRead_owns (pinning : Pinning env referenced) {buf : Nat} {count ppos : BitVec 64}
    (owns : Owns env referenced 0 [] holdings state progress) :
    (trfsRead file buf count ppos).Ensures (handleOwned env helpers) callLedger.account
      (fun _ after progress => Owns env referenced 0 [] holdings after progress) state progress := by
  unfold trfsRead
  apply neutral_ensures pinning (openLowerFile_neutral file) owns
  intro lowerFile state progress owns
  have reads : (lower (.vfsRead lowerFile buf count ppos)).Calls Neutral := ⟨trivial, fun _ => trivial⟩
  apply neutral_ensures pinning reads owns
  intro io state progress owns
  have copies : (runIf (0 ≤ (io.result.setWidth 32).toInt) do
      let inode ← upper (.dInode file.dentry)
      fsstackCopyAttrAtime inode lowerFile.inode).Calls Neutral :=
    runIf_neutral ⟨trivial, fun inode => fsstackCopy_neutral inode lowerFile.inode _⟩
  apply neutral_ensures pinning copies owns
  intro _ state progress owns
  apply run_owns pinning owns (by exact ⟨trivial, fun _ => ⟨trivial, fun _ => trivial⟩⟩)
    (by exact ⟨trivial, fun _ => ⟨trivial, fun _ => trivial⟩⟩)
  intro buffers state progress owns
  rw [add_comm] at owns
  exact returnFile_owns pinning owns

/-- The copies after a write. -/
theorem copyWritten_neutral (dentry : Dentry) (lowerInode : LowerInode) :
    (do
      let inode ← upper (.dInode dentry)
      fsstackCopyInodeSize inode lowerInode
      let inode ← upper (.dInode dentry)
      fsstackCopyAttrTimes inode lowerInode : Prog Unit).Calls Neutral := by
  refine ⟨trivial, fun inode => ?_⟩
  apply (fsstackCopy_neutral inode lowerInode _).bind
  intro _
  exact ⟨trivial, fun inode => fsstackCopy_neutral inode lowerInode _⟩

/-- A write ends with the account it began with. -/
theorem trfsWrite_owns (pinning : Pinning env referenced) {buf : UserMemory} {count ppos : BitVec 64}
    (owns : Owns env referenced 0 [] holdings state progress) :
    (trfsWrite file buf count ppos).Ensures (handleOwned env helpers) callLedger.account
      (fun _ after progress => Owns env referenced 0 [] holdings after progress) state progress := by
  unfold trfsWrite
  apply neutral_ensures pinning (openLowerFile_neutral file) owns
  intro lowerFile state progress owns
  have writes : (lower (.vfsWrite lowerFile buf count ppos)).Calls Neutral := ⟨trivial, fun _ => trivial⟩
  apply neutral_ensures pinning writes owns
  intro io state progress owns
  apply run_owns pinning owns (by exact ⟨trivial, fun _ => ⟨trivial, fun _ => trivial⟩⟩)
    (by exact ⟨trivial, fun _ => ⟨trivial, fun _ => trivial⟩⟩)
  intro buffers state progress owns
  apply neutral_ensures pinning (runIf_neutral (copyWritten_neutral file.dentry lowerFile.inode)) owns
  intro _ state progress owns
  rw [add_comm] at owns
  exact returnFile_owns pinning owns

/-- An iterator call holds a second reference on the lower file while it runs. -/
theorem heldFile_owns (pinning : Pinning env referenced) {lowerFile : LowerFile} {program : Prog β} {next : β → Prog α}
    (calls : program.Calls Neutral) {post : α → Mounted L → Option (Multiset Token) → Prop}
    (owns : Owns env referenced 0 [] holdings state progress)
    (continues : ∀ value after progress, Owns env referenced 0 [] holdings after progress →
      (next value).Ensures (handleOwned env helpers) callLedger.account post after progress) :
    (do
      lower (.getFile lowerFile)
      let value ← program
      lower (.fput lowerFile)
      next value).Ensures (handleOwned env helpers) callLedger.account post state progress := by
  refine gain_ensures pinning (.lower (.getFile lowerFile)) trivial rfl (fun _ => id) owns ?_
  intro _ state progress _ owns
  apply neutral_ensures pinning calls owns
  intro value state progress owns
  refine put_ensures pinning (.lower (.fput lowerFile)) trivial (fun _ => rfl) owns (add_comm _ _) ?_
  exact fun _ state progress owns => continues value state progress owns

/-- A read_iter ends with the account it began with. -/
theorem trfsReadIter_owns (pinning : Pinning env referenced) {iocb : Kiocb File} {iter : List Segment}
    (owns : Owns env referenced 0 [] holdings state progress) :
    (trfsReadIter iocb iter).Ensures (handleOwned env helpers) callLedger.account
      (fun _ after progress => Owns env referenced 0 [] holdings after progress) state progress := by
  unfold trfsReadIter
  apply neutral_ensures pinning (openLowerFile_neutral iocb.filp) owns
  intro lowerFile state progress owns
  have defines : (lower (.hasReadIter lowerFile)).Calls Neutral := ⟨trivial, fun _ => trivial⟩
  apply neutral_ensures pinning defines owns
  intro defined state progress owns
  cases defined with
  | false => exact owns
  | true =>
      have reads : (lower (.readIter { iocb with filp := lowerFile } iter)).Calls Neutral := ⟨trivial, fun _ => trivial⟩
      apply heldFile_owns pinning reads owns
      intro io state progress owns
      have copies : (runIf (0 ≤ (io.result.setWidth 32).toInt ∨ io.result.setWidth 32 = EIOCBQUEUED) do
          let inode ← upper (.dInode iocb.filp.dentry)
          fsstackCopyAttrAtime inode lowerFile.inode).Calls Neutral :=
        runIf_neutral ⟨trivial, fun inode => fsstackCopy_neutral inode lowerFile.inode _⟩
      exact neutral_ensures pinning copies owns fun _ _ _ owns => owns

/-- A write_iter ends with the account it began with. -/
theorem trfsWriteIter_owns (pinning : Pinning env referenced) {iocb : Kiocb File} {memory : UserMemory}
    {iter : List Segment} (owns : Owns env referenced 0 [] holdings state progress) :
    (trfsWriteIter iocb memory iter).Ensures (handleOwned env helpers) callLedger.account
      (fun _ after progress => Owns env referenced 0 [] holdings after progress) state progress := by
  unfold trfsWriteIter
  apply neutral_ensures pinning (openLowerFile_neutral iocb.filp) owns
  intro lowerFile state progress owns
  have defines : (lower (.hasWriteIter lowerFile)).Calls Neutral := ⟨trivial, fun _ => trivial⟩
  apply neutral_ensures pinning defines owns
  intro defined state progress owns
  cases defined with
  | false => exact owns
  | true =>
      have writes : (lower (.writeIter { iocb with filp := lowerFile } memory iter)).Calls Neutral :=
        ⟨trivial, fun _ => trivial⟩
      apply heldFile_owns pinning writes owns
      intro io state progress owns
      have copies := copyWritten_neutral iocb.filp.dentry lowerFile.inode
      exact neutral_ensures pinning (runIf_neutral copies) owns fun _ _ _ owns => owns

/-- A traced operation gives back what it took, and each open file has its lower file. -/
theorem TracedOp.owns (pinning : Pinning env referenced) (op : TracedOp)
    (fresh : ∀ inode file, op = .open inode file → file.address ∉ holdings.opened) (settled : holdings.Settled)
    (owns : Owns env referenced 0 [] holdings state progress) :
    op.program.Ensures (handleOwned env helpers) callLedger.account
      (fun _ after progress => ∃ later : Holdings, later.Settled ∧ Owns env referenced 0 [] later after progress) state
      progress := by
  have stays : ∀ {program : Prog Outcome}, program.Ensures (handleOwned env helpers) callLedger.account
      (fun _ after progress => Owns env referenced 0 [] holdings after progress) state progress →
      program.Ensures (handleOwned env helpers) callLedger.account
        (fun _ after progress => ∃ later : Holdings, later.Settled ∧ Owns env referenced 0 [] later after progress) state
        progress :=
    fun ensures => ensures.mono fun _ _ _ owns => ⟨holdings, settled, owns⟩
  cases op with
  | «open» inode file => exact trfsOpen_owns pinning (fresh inode file rfl) settled owns
  | read file buf count ppos => exact stays (trfsRead_owns pinning owns)
  | write file buf count ppos => exact stays (trfsWrite_owns pinning owns)
  | release file => exact trfsFileRelease_owns pinning settled owns
  | create dir dentry mode wantExcl => exact stays (trfsCreate_owns pinning owns)
  | link oldDentry dir newDentry => exact stays (trfsLink_owns pinning owns)
  | unlink dir dentry => exact stays (trfsUnlink_owns pinning owns)
  | symlink dir dentry symname => exact stays (trfsSymlink_owns pinning owns)
  | mkdir dir dentry mode => exact stays (trfsMkdir_owns pinning owns)
  | rmdir dir dentry => exact stays (trfsRmdir_owns pinning owns)
  | mknod dir dentry mode dev => exact stays (trfsMknod_owns pinning owns)
  | rename oldDir oldDentry newDir newDentry => exact stays (trfsRename_owns pinning owns)

end

end Trfs.Kernel
