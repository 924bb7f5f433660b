import Trfs.Proof.Kernel.Transparent

namespace Trfs.Kernel
open Bytes Effect Trace

/-- The addresses of a segment in their order. -/
def Segment.addresses (segment : Segment) : List Nat :=
  (List.range segment.len.toNat).map fun index => segment.base + index

/-- A direction with the buffer of the plain path and, for a write, the memory of the segments. -/
inductive Transfer where
  | read (buf : Nat)
  | write (buf memory : UserMemory)

def Transfer.kind : Transfer → CallKind
  | .read _ => .read
  | .write .. => .write

/-- The transfer through `trfs_read` or `trfs_write`. -/
def Transfer.plain (transfer : Transfer) (file : File) (count pos : BitVec 64) : TracedOp :=
  match transfer with
  | .read buf => .read file buf count pos
  | .write buf _ => .write file buf count pos

/-- The transfer through `trfs_read_iter` or `trfs_write_iter`. -/
def Transfer.iter (transfer : Transfer) (file : File) (pos : BitVec 64) (segments : List Segment) :
    Prog Outcome :=
  match transfer with
  | .read _ => trfsReadIter ⟨file, pos⟩ segments
  | .write _ memory => trfsWriteIter ⟨file, pos⟩ memory segments

/-- The segments split the data buffer. -/
def Transfer.Splits (transfer : Transfer) (count : BitVec 64) (segments : List Segment) : Prop :=
  match transfer with
  | .read buf => segments.flatMap Segment.addresses = (List.range count.toNat).map fun index => buf + index
  | .write buf memory => (segments.flatMap Segment.addresses).map memory = (List.range count.toNat).map buf

section
variable {L : Type}

/-- The lower call of the plain path. -/
def Transfer.plainMoved (transfer : Transfer) (env : Environment L) (count pos : BitVec 64) (lowerFile : LowerFile)
    (before : L) : IoReply × L :=
  match transfer with
  | .read buf => env.lower (.vfsRead lowerFile buf count pos) before
  | .write buf _ => env.lower (.vfsWrite lowerFile buf count pos) before

/-- Whether the lower file has the iterator method. -/
def Transfer.has (transfer : Transfer) (env : Environment L) (lowerFile : LowerFile) (before : L) : Bool :=
  match transfer with
  | .read _ => (env.lower (.hasReadIter lowerFile) before).1
  | .write .. => (env.lower (.hasWriteIter lowerFile) before).1

/-- The lower call of the iterator path, between `get_file` and `fput`. -/
def Transfer.moved (transfer : Transfer) (env : Environment L) (pos : BitVec 64) (segments : List Segment)
    (lowerFile : LowerFile) (before : L) : IoReply × L :=
  match transfer with
  | .read _ => env.lower (.readIter ⟨lowerFile, pos⟩ segments) (env.lower (.getFile lowerFile) before).2
  | .write _ memory => env.lower (.writeIter ⟨lowerFile, pos⟩ memory segments) (env.lower (.getFile lowerFile) before).2

/-- The lower filesystem after that call. -/
def Transfer.settled (transfer : Transfer) (env : Environment L) (pos : BitVec 64) (segments : List Segment)
    (lowerFile : LowerFile) (before : L) : L :=
  (env.lower (.fput lowerFile) (transfer.moved env pos segments lowerFile before).2).2

/-- The reply of an iterator call and of the plain call for the same bytes. A plain call waits for its
request. An iterator call may return before its request is carried out. -/
structure Alike (plain iter : IoReply × L) (last : L) : Prop where
  waits : plain.1.result.setWidth 32 ≠ EIOCBQUEUED
  result : iter.1.result.setWidth 32 ≠ EIOCBQUEUED → iter.1.result = plain.1.result
  state : iter.1.result.setWidth 32 ≠ EIOCBQUEUED → last = plain.2

/-- Where a lower file has both paths, the same bytes move in the same way on both. To look at the methods of a file or
at the members of an inode changes nothing. -/
structure Environment.MovesAlike (env : Environment L) : Prop where
  readMethod : ∀ file state, (env.lower (.hasReadIter file) state).2 = state
  writeMethod : ∀ file state, (env.lower (.hasWriteIter file) state).2 = state
  attributes : ∀ inode state, (env.lower (.attributes inode) state).2 = state
  moves : ∀ (transfer : Transfer) file count pos segments state, transfer.Splits count segments →
    transfer.has env file state = true →
    Alike (transfer.plainMoved env count pos file state) (transfer.moved env pos segments file state)
      (transfer.settled env pos segments file state)

/-- The members of the inode of the mount after the copies of a transfer. -/
def Transfer.refresh (transfer : Transfer) (source old : Attributes) : Attributes :=
  match transfer with
  | .read _ => { old with atime := source.atime }
  | .write .. =>
      { old with
        size := source.size, blocks := source.blocks, atime := source.atime, mtime := source.mtime
        ctime := source.ctime }

/-- The result of the plain path, or the error. -/
def Transfer.plainErr (transfer : Transfer) (env : Environment L) (count pos : BitVec 64) (lowerFile : LowerFile)
    (before : L) : BitVec 32 :=
  (transfer.plainMoved env count pos lowerFile before).1.result.setWidth 32

/-- The result of the iterator path, or the error. -/
def Transfer.iterErr (transfer : Transfer) (env : Environment L) (pos : BitVec 64) (segments : List Segment)
    (lowerFile : LowerFile) (before : L) : BitVec 32 :=
  (transfer.moved env pos segments lowerFile before).1.result.setWidth 32

/-- The inode of the mount has the members already that a copy would give it. -/
def Transfer.UpToDate (transfer : Transfer) (env : Environment L) (file : File) (lowerFile : LowerFile) (below : L)
    (state : Machine L) : Prop :=
  transfer.refresh (env.lower (.attributes lowerFile.inode) below).1
      (state.visible.upper.attributes (state.visible.upper.inode file.dentry.address)) =
    state.visible.upper.attributes (state.visible.upper.inode file.dentry.address)

/-- The iterator method has carried its request out when it returns. A request that was queued is followed by the
copies, even if it fails. -/
structure Transfer.Complete (transfer : Transfer) (env : Environment L) (file : File) (count pos : BitVec 64)
    (segments : List Segment) (lowerFile : LowerFile) (state : Machine L) : Prop where
  lower : transfer.settled env pos segments lowerFile state.visible.lower =
    (transfer.plainMoved env count pos lowerFile state.visible.lower).2
  inode : transfer.iterErr env pos segments lowerFile state.visible.lower = EIOCBQUEUED →
    ¬ 0 ≤ (transfer.plainErr env count pos lowerFile state.visible.lower).toInt →
      transfer.UpToDate env file lowerFile
        (transfer.plainMoved env count pos lowerFile state.visible.lower).2 state

/-- The plain transfer moves nothing, and the inode of the mount is up to date. -/
structure Transfer.Vain (transfer : Transfer) (env : Environment L) (file : File) (count pos : BitVec 64)
    (lowerFile : LowerFile) (state : Machine L) : Prop where
  lower : (transfer.plainMoved env count pos lowerFile state.visible.lower).2 = state.visible.lower
  inode : 0 ≤ (transfer.plainErr env count pos lowerFile state.visible.lower).toInt →
    transfer.UpToDate env file lowerFile state.visible.lower state

/-- With the iterator method the request is complete. Without it nothing happens, and the plain transfer is one that
does nothing. -/
def Transfer.Carried (transfer : Transfer) (env : Environment L) (file : File) (count pos : BitVec 64)
    (segments : List Segment) (state : Machine L) : Prop :=
  ∀ lowerFile, state.visible.upper.lowerFile file.address = some lowerFile →
    if transfer.has env lowerFile state.visible.lower then
      transfer.Complete env file count pos segments lowerFile state
    else transfer.Vain env file count pos lowerFile state

/-- Two calls left the same lower filesystem, the same inodes of the mount and the same trace. -/
structure SameEffect (first second : Machine L) : Prop where
  visible : first.visible = second.visible
  trace : first.traceFile = second.traceFile

/-- The copies into the inode of the mount after a successful transfer. -/
def Transfer.update (transfer : Transfer) (file : File) (lowerFile : LowerFile) : Prog Unit :=
  match transfer with
  | .read _ => do
      let inode ← upper (.dInode file.dentry)
      fsstackCopyAttrAtime inode lowerFile.inode
  | .write .. => do
      let inode ← upper (.dInode file.dentry)
      fsstackCopyInodeSize inode lowerFile.inode
      let inode ← upper (.dInode file.dentry)
      fsstackCopyAttrTimes inode lowerFile.inode

/-- The state after a call of the lower filesystem. -/
def Machine.withLower (state : Machine L) (after : L) : Machine L :=
  { state with visible := { state.visible with lower := after } }

end

section
variable {L α : Type} {env : Environment L} {helpers : Helpers} {state : Machine L}

/-- Both paths copy attributes on the same results, unless a queued request fails. -/
theorem Alike.updates {plain iter : IoReply × L} {last : L} (alike : Alike plain iter last)
    (fine : iter.1.result.setWidth 32 = EIOCBQUEUED → 0 ≤ (plain.1.result.setWidth 32 : BitVec 32).toInt) :
    (0 ≤ (iter.1.result.setWidth 32 : BitVec 32).toInt ∨ iter.1.result.setWidth 32 = EIOCBQUEUED) ↔
      0 ≤ (plain.1.result.setWidth 32 : BitVec 32).toInt := by
  by_cases queued : iter.1.result.setWidth 32 = EIOCBQUEUED
  · exact iff_of_true (.inr queued) (fine queued)
  · rw [alike.result queued]
    exact or_iff_left alike.waits

/-- A program of plain calls leaves the tracer's part of the state alone. -/
theorem plain_keeps {program : Prog α} (calls : program.Calls Plain)
    {done : Execution Call.Reply (Machine L) α} (ran : program.exec (handle env helpers) state = some done) :
    done.state = { state with visible := done.state.visible } := by
  have kept : ∀ c (before : Machine L) reply after, Plain c →
      before = { state with visible := before.visible } → handle env helpers c before = some (reply, after) →
      after = { state with visible := after.visible } := by
    intro c before reply after plain same answered
    cases c with
    | lower c =>
        obtain ⟨_, rfl⟩ := Prod.mk.inj (Option.some.inj answered)
        rw [same]
    | upper c =>
        obtain ⟨_, rfl⟩ := Prod.mk.inj (Option.some.inj answered)
        rw [same]
    | _ => exact plain.elim
  exact calls.exec_keeps kept rfl ran

/-- A tracing block whose bit is clear only reads the mask. -/
theorem run_clear {kind : CallKind} {block : TraceBlock} {done : Execution Call.Reply (Machine L) TraceBuffers}
    (ran : block.run.exec (handle env helpers) state = some done) (own : block.kind = kind)
    (clear : ¬ bitSet state.mask kind) : done = ⟨.null, state, [⟨Call.tracer .mask, state.mask⟩]⟩ := by
  have step : block.run.exec (handle env helpers) state =
      ((if bitSet state.mask block.kind then block.body else pure .null).exec (handle env helpers) state).map
        fun rest => { rest with events := ⟨Call.tracer .mask, state.mask⟩ :: rest.events } := rfl
  rw [step, own, if_neg clear] at ran
  exact (Option.some.inj ran).symm

/-- The lower file of an open file is there. -/
theorem openLowerFile_exec {file : File} {done : Execution Call.Reply (Machine L) LowerFile}
    (ran : (openLowerFile file).exec (handle env helpers) state = some done) :
    state.visible.upper.lowerFile file.address = some done.value ∧ done.state = state := by
  simp only [openLowerFile, perform_bind] at ran
  obtain ⟨reply, after, rest, answered, continued, value, last, _⟩ := Program.exec_call_eq_some ran
  obtain ⟨found, rfl⟩ := Prod.mk.inj (Option.some.inj answered)
  cases reply with
  | none => exact nomatch continued
  | some lowerFile =>
      obtain rfl := Option.some.inj continued
      exact ⟨found.trans (congrArg some value.symm), last⟩

/-- The update after a transfer is plain. -/
theorem update_plain (transfer : Transfer) (file : File) (lowerFile : LowerFile) :
    (transfer.update file lowerFile).Calls Plain := by
  cases transfer <;> simp [Transfer.update, Program.Calls, Plain, fsstackCopyAttrAtime, fsstackCopyInodeSize,
    fsstackCopyAttrTimes, fsstackCopy]

/-- A plain action under a condition is plain. -/
theorem runIf_plain {condition : Prop} [Decidable condition] {action : Prog Unit}
    (calls : action.Calls Plain) : (runIf condition action).Calls Plain := by
  unfold runIf
  split
  · exact calls
  · trivial

/-- The end of a plain transfer whose bit is clear leaves the state as it is. -/
theorem skipped_exec {kind : CallKind} {block : TraceBlock} {outcome : Outcome} {done : Done L}
    (ran : (block.run >>= TraceBuffers.returnFile outcome).exec (handle env helpers) state = some done)
    (own : block.kind = kind) (clear : ¬ bitSet state.mask kind) : done.state = state := by
  obtain ⟨skipped, end1, ranBlock, ran, _, last, _⟩ := Program.exec_bind_eq_some ran
  obtain rfl := run_clear ranBlock own clear
  obtain rfl := Option.some.inj ran
  exact last

/-- The state after the lower call of a transfer and the copies that follow it. -/
def Settles (env : Environment L) (helpers : Helpers) (state : Machine L) (transfer : Transfer) (file : File)
    (lowerFile : LowerFile) (updates : Prop) [Decidable updates] (moved : L) (last : Machine L) : Prop :=
  ∃ copied, (runIf updates (transfer.update file lowerFile)).exec (handle env helpers)
    (state.withLower moved) = some copied ∧ last = copied.state

/-- An untraced plain read moves the bytes and then copies the access time. -/
theorem trfsRead_clear {file : File} {buf : Nat} {count pos : BitVec 64} {done : Done L}
    (clear : ¬ bitSet state.mask .read)
    (ran : (trfsRead file buf count pos).exec (handle env helpers) state = some done) :
    ∃ lowerFile, state.visible.upper.lowerFile file.address = some lowerFile ∧
      Settles env helpers state (.read buf) file lowerFile
        (0 ≤ ((env.lower (.vfsRead lowerFile buf count pos) state.visible.lower).1.result.setWidth 32 :
          BitVec 32).toInt)
        (env.lower (.vfsRead lowerFile buf count pos) state.visible.lower).2 done.state := by
  simp only [trfsRead, lower, perform_bind] at ran
  obtain ⟨opened, rest, ranOpen, ran, _, last, _⟩ := Program.exec_bind_eq_some ran
  obtain ⟨found, same⟩ := openLowerFile_exec ranOpen
  rw [same] at ran
  obtain ⟨io, moved, more, answered, ran, _, last', _⟩ := Program.exec_call_eq_some ran
  obtain ⟨rfl, rfl⟩ := Prod.mk.inj (Option.some.inj answered)
  obtain ⟨copied, end1, ranCopy, ran, _, last'', _⟩ := Program.exec_bind_eq_some ran
  have kept := plain_keeps (runIf_plain (update_plain (.read buf) file opened.value)) ranCopy
  have still : ¬ bitSet copied.state.mask .read := by rw [kept]; exact clear
  exact ⟨opened.value, found, copied, ranCopy,
    last.trans (last'.trans (last''.trans (skipped_exec ran rfl still)))⟩

/-- An untraced plain write moves the bytes and then copies the size and the times. -/
theorem trfsWrite_clear {file : File} {buf : UserMemory} (memory : UserMemory) {count pos : BitVec 64}
    {done : Done L}
    (clear : ¬ bitSet state.mask .write)
    (ran : (trfsWrite file buf count pos).exec (handle env helpers) state = some done) :
    ∃ lowerFile, state.visible.upper.lowerFile file.address = some lowerFile ∧
      Settles env helpers state (.write buf memory) file lowerFile
        (0 ≤ ((env.lower (.vfsWrite lowerFile buf count pos) state.visible.lower).1.result.setWidth 32 :
          BitVec 32).toInt)
        (env.lower (.vfsWrite lowerFile buf count pos) state.visible.lower).2 done.state := by
  simp only [trfsWrite, lower, perform_bind] at ran
  obtain ⟨opened, rest, ranOpen, ran, _, last, _⟩ := Program.exec_bind_eq_some ran
  obtain ⟨found, same⟩ := openLowerFile_exec ranOpen
  rw [same] at ran
  obtain ⟨io, moved, more, answered, ran, _, last', _⟩ := Program.exec_call_eq_some ran
  obtain ⟨rfl, rfl⟩ := Prod.mk.inj (Option.some.inj answered)
  obtain ⟨block, end1, ranBlock, ran, _, lastBlock, _⟩ := Program.exec_bind_eq_some ran
  obtain rfl := run_clear ranBlock rfl clear
  obtain ⟨copied, end2, ranCopy, ran, _, lastCopy, _⟩ := Program.exec_bind_eq_some ran
  obtain rfl := Option.some.inj ran
  exact ⟨opened.value, found, copied, ranCopy, last.trans (last'.trans (lastBlock.trans lastCopy))⟩

/-- Whether the lower file has the iterator path. -/
def Transfer.defined (transfer : Transfer) (lowerFile : LowerFile) : Prog Bool :=
  match transfer with
  | .read _ => lower (.hasReadIter lowerFile)
  | .write .. => lower (.hasWriteIter lowerFile)

/-- The lower iterator call. -/
def Transfer.move (transfer : Transfer) (pos : BitVec 64) (segments : List Segment) (lowerFile : LowerFile) :
    Prog IoReply :=
  match transfer with
  | .read _ => lower (.readIter ⟨lowerFile, pos⟩ segments)
  | .write _ memory => lower (.writeIter ⟨lowerFile, pos⟩ memory segments)

/-- What both iterator methods do. -/
theorem Transfer.iter_eq (transfer : Transfer) (file : File) (pos : BitVec 64) (segments : List Segment) :
    transfer.iter file pos segments = (do
      let lowerFile ← openLowerFile file
      let defined ← transfer.defined lowerFile
      if !defined then pure ⟨EINVAL, some pos⟩
      else do
        lower (.getFile lowerFile)
        let io ← transfer.move pos segments lowerFile
        lower (.fput lowerFile)
        let err : BitVec 32 := io.result.setWidth 32
        runIf (0 ≤ err.toInt ∨ err = EIOCBQUEUED) (transfer.update file lowerFile)
        pure ⟨err, some io.position⟩) := by
  cases transfer <;> rfl

/-- To ask for the method changes nothing. -/
theorem Transfer.defined_exec (transfer : Transfer) {lowerFile : LowerFile} (alike : env.MovesAlike)
    {done : Execution Call.Reply (Machine L) Bool}
    (ran : (transfer.defined lowerFile).exec (handle env helpers) state = some done) :
    done.value = transfer.has env lowerFile state.visible.lower ∧ done.state = state := by
  cases transfer with
  | read buf =>
      obtain rfl := Option.some.inj ran
      simp only [Transfer.has, alike.readMethod, and_self]
  | write buf memory =>
      obtain rfl := Option.some.inj ran
      simp only [Transfer.has, alike.writeMethod, and_self]

/-- The lower call between `get_file` and `fput`. -/
theorem Transfer.move_exec (transfer : Transfer) {pos : BitVec 64} {segments : List Segment} {lowerFile : LowerFile}
    {done : Execution Call.Reply (Machine L) IoReply}
    (ran : (transfer.move pos segments lowerFile).exec (handle env helpers)
      (state.withLower (env.lower (.getFile lowerFile) state.visible.lower).2) = some done) :
    done.value = (transfer.moved env pos segments lowerFile state.visible.lower).1 ∧
      done.state = state.withLower (transfer.moved env pos segments lowerFile state.visible.lower).2 := by
  cases transfer <;> obtain rfl := Option.some.inj ran <;> exact ⟨rfl, rfl⟩

/-- An iterator transfer holds the lower file while the bytes move and then makes its copies. Without the lower method
it does nothing. -/
theorem Transfer.iter_exec (transfer : Transfer) {file : File} {pos : BitVec 64} {segments : List Segment}
    {done : Done L} (alike : env.MovesAlike)
    (ran : (transfer.iter file pos segments).exec (handle env helpers) state = some done) :
    ∃ lowerFile, state.visible.upper.lowerFile file.address = some lowerFile ∧
      if transfer.has env lowerFile state.visible.lower then
        Settles env helpers state transfer file lowerFile
          (0 ≤ ((transfer.moved env pos segments lowerFile state.visible.lower).1.result.setWidth 32 : BitVec 32).toInt ∨
            (transfer.moved env pos segments lowerFile state.visible.lower).1.result.setWidth 32 = EIOCBQUEUED)
          (transfer.settled env pos segments lowerFile state.visible.lower) done.state
      else done.state = state := by
  rw [Transfer.iter_eq] at ran
  simp only [lower, perform_bind] at ran
  obtain ⟨opened, rest, ranOpen, ran, _, last, _⟩ := Program.exec_bind_eq_some ran
  obtain ⟨found, same⟩ := openLowerFile_exec ranOpen
  rw [same] at ran
  obtain ⟨defined, more, ranDefined, ran, _, last', _⟩ := Program.exec_bind_eq_some ran
  obtain ⟨asked, same'⟩ := transfer.defined_exec alike ranDefined
  rw [same'] at ran
  refine ⟨opened.value, found, ?_⟩
  rw [← asked]
  generalize defined.value = has at ran
  cases has with
  | false =>
      obtain rfl := Option.some.inj ran
      exact last.trans last'
  | true =>
      obtain ⟨_, held, end1, answered, ran, _, last1, _⟩ := Program.exec_call_eq_some ran
      obtain ⟨_, rfl⟩ := Prod.mk.inj (Option.some.inj answered)
      obtain ⟨io, end2, ranMove, ran, _, last2, _⟩ := Program.exec_bind_eq_some ran
      obtain ⟨value, moved⟩ := transfer.move_exec ranMove
      rw [value, moved] at ran
      obtain ⟨_, put, end3, answered, ran, _, last3, _⟩ := Program.exec_call_eq_some ran
      obtain ⟨_, rfl⟩ := Prod.mk.inj (Option.some.inj answered)
      obtain ⟨copied, end4, ranCopy, ran, _, last4, _⟩ := Program.exec_bind_eq_some ran
      obtain rfl := Option.some.inj ran
      refine ⟨copied, ranCopy, ?_⟩
      rw [last, last', last1, last2, last3, last4]

section
variable {transfer : Transfer} {file : File} {lowerFile : LowerFile} {updates updates' : Prop}
  [Decidable updates] [Decidable updates'] {moved moved' : L} {last last' : Machine L}

/-- The same bytes and the same copies give the same state. -/
theorem Settles.unique (first : Settles env helpers state transfer file lowerFile updates moved last)
    (second : Settles env helpers state transfer file lowerFile updates' moved' last')
    (same : moved' = moved) (also : updates' ↔ updates) : last = last' := by
  obtain ⟨copied, ran, rfl⟩ := first
  obtain ⟨copied', ran', rfl⟩ := second
  have action : runIf updates' (transfer.update file lowerFile) = runIf updates (transfer.update file lowerFile) := by
    simp only [runIf, also]
  rw [action, same] at ran'
  rw [Option.some.inj (ran.symm.trans ran')]

/-- The copies leave the tracer's part of the state alone. -/
theorem Settles.untraced (settles : Settles env helpers state transfer file lowerFile updates moved last) :
    last = { state with visible := last.visible } := by
  obtain ⟨copied, ran, rfl⟩ := settles
  rw [plain_keeps (runIf_plain (update_plain transfer file lowerFile)) ran]
  rfl

/-- The copies read the lower inode and set the inode of the mount. -/
theorem update_exec (alike : env.MovesAlike) {done : Execution Call.Reply (Machine L) Unit}
    (ran : (transfer.update file lowerFile).exec (handle env helpers) state = some done) :
    done.state.visible = state.visible.setUpper
      { state.visible.upper with
        attributes := Function.update state.visible.upper.attributes
          (state.visible.upper.inode file.dentry.address)
          (transfer.refresh (env.lower (.attributes lowerFile.inode) state.visible.lower).1
            (state.visible.upper.attributes (state.visible.upper.inode file.dentry.address))) } := by
  cases transfer with
  | read buf =>
      obtain rfl := Option.some.inj ran
      simp only [alike.attributes, Transfer.refresh, Visible.setUpper]
  | write buf memory =>
      obtain rfl := Option.some.inj ran
      simp only [alike.attributes, Transfer.refresh, Visible.setUpper, Function.update_self, Function.update_idem]

/-- The lower filesystem is as the lower call left it. -/
theorem Settles.lower (alike : env.MovesAlike)
    (settles : Settles env helpers state transfer file lowerFile updates moved last) : last.visible.lower = moved := by
  obtain ⟨copied, ran, rfl⟩ := settles
  unfold runIf at ran
  split at ran
  · rw [update_exec alike ran]
    rfl
  · obtain rfl := Option.some.inj ran
    rfl

/-- Without its copies a transfer leaves what the lower call left. -/
theorem Settles.skipped (settles : Settles env helpers state transfer file lowerFile updates moved last)
    (without : ¬ updates) : last = state.withLower moved := by
  obtain ⟨copied, ran, rfl⟩ := settles
  rw [runIf, if_neg without] at ran
  exact (congrArg Execution.state (Option.some.inj ran)).symm

/-- A transfer leaves just another lower filesystem when it moves to that one and copies what is already there. -/
theorem Settles.visible_iff (alike : env.MovesAlike) (target : L)
    (settles : Settles env helpers state transfer file lowerFile updates moved last) :
    last.visible = (state.withLower target).visible ↔
      moved = target ∧ (updates → transfer.UpToDate env file lowerFile target state) := by
  have lower := settles.lower alike
  by_cases made : updates
  · obtain ⟨copied, ran, rfl⟩ := settles
    rw [runIf, if_pos made] at ran
    have copies := update_exec alike ran
    constructor
    · intro same
      have here : moved = target := lower.symm.trans (congrArg Visible.lower same)
      rw [same, here] at copies
      refine ⟨here, fun _ => ?_⟩
      have own := congrFun (congrArg (fun visible => visible.upper.attributes) copies)
        (state.visible.upper.inode file.dentry.address)
      exact (own.trans (Function.update_self ..)).symm
    · rintro ⟨rfl, current⟩
      rw [copies]
      have stays : transfer.refresh (env.lower (.attributes lowerFile.inode) moved).1
          (state.visible.upper.attributes (state.visible.upper.inode file.dentry.address)) =
        state.visible.upper.attributes (state.visible.upper.inode file.dentry.address) := current made
      simp only [Machine.withLower, stays, Function.update_eq_self]
      rfl
  · rw [settles.skipped made]
    constructor
    · exact fun same => ⟨congrArg Visible.lower same, fun updates => absurd updates made⟩
    · rintro ⟨rfl, _⟩
      rfl

end

/-- A traced plain transfer leaves a record. -/
theorem Transfer.plain_appends {transfer : Transfer} {file : File} {count pos : BitVec 64} {done : Done L}
    (full : helpers.WriteFully) (bit : bitSet state.mask transfer.kind)
    (ran : (transfer.plain file count pos).exec env helpers state = some done) :
    done.state.traceFile ≠ state.traceFile := by
  have kind : (transfer.plain file count pos).kind = transfer.kind := by cases transfer <;> rfl
  have reaches : (transfer.plain file count pos).Reaches (answersOf done.events) := by
    cases transfer <;> trivial
  rw [← kind] at bit
  rcases (TracedOp.exec_effect ran).2.appends full with ⟨unrecorded, _⟩ | ⟨_, _, _, image, _, appends⟩
  · exact absurd ⟨reaches, bit⟩ unrecorded
  · intro same
    have length := congrArg List.length (appends.bytes.symm.trans same)
    have size := appends.image
    simp only [Record.bytes, List.length_append, sizeofTraceDs] at length size
    omega

/-- An iterator transfer leaves no record. -/
theorem Transfer.iter_untraced {transfer : Transfer} {file : File} {pos : BitVec 64} {segments : List Segment}
    {done : Done L} (alike : env.MovesAlike)
    (ran : (transfer.iter file pos segments).exec (handle env helpers) state = some done) :
    done.state = { state with visible := done.state.visible } := by
  obtain ⟨lowerFile, _, ends⟩ := transfer.iter_exec alike ran
  split at ends
  · exact ends.untraced
  · rw [ends]

/-- With a clear bit a plain transfer moves the bytes and then makes its copies. -/
theorem Transfer.plain_clear (transfer : Transfer) {file : File} {count pos : BitVec 64} {done : Done L}
    (clear : ¬ bitSet state.mask transfer.kind)
    (ran : (transfer.plain file count pos).exec env helpers state = some done) :
    ∃ lowerFile, state.visible.upper.lowerFile file.address = some lowerFile ∧
      Settles env helpers state transfer file lowerFile
        (0 ≤ ((transfer.plainMoved env count pos lowerFile state.visible.lower).1.result.setWidth 32 : BitVec 32).toInt)
        (transfer.plainMoved env count pos lowerFile state.visible.lower).2 done.state := by
  cases transfer with
  | read buf => exact trfsRead_clear clear ran
  | write buf memory => exact trfsWrite_clear memory clear ran

/-- Without a trace two states with the same visible part have the same effect. -/
theorem sameEffect_untraced {first second : Machine L} (untraced : first = { state with visible := first.visible })
    (untraced' : second = { state with visible := second.visible }) :
    SameEffect first second ↔ first.visible = second.visible := by
  constructor
  · exact fun same => same.visible
  · intro same
    refine ⟨same, ?_⟩
    rw [untraced, untraced']

/-- Where the lower file has the iterator method, both paths have the same effect exactly when its request is complete. -/
theorem Transfer.same_complete {transfer : Transfer} {file : File} {count pos : BitVec 64}
    {segments : List Segment} {lowerFile : LowerFile} {plain iter : Machine L} (alike : env.MovesAlike)
    (moves : Alike (transfer.plainMoved env count pos lowerFile state.visible.lower)
      (transfer.moved env pos segments lowerFile state.visible.lower)
      (transfer.settled env pos segments lowerFile state.visible.lower))
    (first : Settles env helpers state transfer file lowerFile
      (0 ≤ (transfer.plainErr env count pos lowerFile state.visible.lower).toInt)
      (transfer.plainMoved env count pos lowerFile state.visible.lower).2 plain)
    (second : Settles env helpers state transfer file lowerFile
      (0 ≤ (transfer.iterErr env pos segments lowerFile state.visible.lower).toInt ∨
        transfer.iterErr env pos segments lowerFile state.visible.lower = EIOCBQUEUED)
      (transfer.settled env pos segments lowerFile state.visible.lower) iter) :
    plain.visible = iter.visible ↔ transfer.Complete env file count pos segments lowerFile state := by
  by_cases fine : transfer.iterErr env pos segments lowerFile state.visible.lower = EIOCBQUEUED →
      0 ≤ (transfer.plainErr env count pos lowerFile state.visible.lower).toInt
  · constructor
    · intro same
      refine ⟨?_, fun queued fails => absurd (fine queued) fails⟩
      rw [← second.lower alike, ← first.lower alike, same]
    · intro complete
      rw [first.unique second complete.lower (moves.updates fine)]
  · -- the queued request fails, and only the iterator path makes its copies
    obtain ⟨queued, fails⟩ := Classical.not_imp.mp fine
    rw [first.skipped fails, eq_comm, second.visible_iff alike]
    constructor
    · exact fun same => ⟨same.1, fun _ _ => same.2 (.inr queued)⟩
    · exact fun complete => ⟨complete.lower, fun _ => complete.inode queued fails⟩

/-- With a clear bit both paths have the same effect exactly when the iterator path does what the plain one does. -/
theorem Transfer.same_clear {transfer : Transfer} {file : File} {count pos : BitVec 64}
    {segments : List Segment} {plain iter : Done L} (alike : env.MovesAlike)
    (splits : transfer.Splits count segments) (clear : ¬ bitSet state.mask transfer.kind)
    (ranPlain : (transfer.plain file count pos).exec env helpers state = some plain)
    (ranIter : (transfer.iter file pos segments).exec (handle env helpers) state = some iter) :
    SameEffect plain.state iter.state ↔ transfer.Carried env file count pos segments state := by
  obtain ⟨lowerFile, found, first⟩ := transfer.plain_clear clear ranPlain
  obtain ⟨other, found', second⟩ := transfer.iter_exec alike ranIter
  obtain rfl := Option.some.inj (found.symm.trans found')
  have own : transfer.Carried env file count pos segments state ↔
      if transfer.has env lowerFile state.visible.lower then
        transfer.Complete env file count pos segments lowerFile state
      else transfer.Vain env file count pos lowerFile state := by
    constructor
    · exact fun carried => carried lowerFile found
    · intro carried given found'
      obtain rfl := Option.some.inj (found.symm.trans found')
      exact carried
  rw [own, sameEffect_untraced first.untraced (iter_untraced alike ranIter)]
  cases has : transfer.has env lowerFile state.visible.lower with
  | true =>
      rw [if_pos has] at second
      rw [if_pos rfl]
      exact Transfer.same_complete alike
        (alike.moves transfer lowerFile count pos segments state.visible.lower splits has) first second
  | false =>
      rw [if_neg (by rw [has]; decide)] at second
      rw [if_neg (by decide), second]
      have vain := first.visible_iff alike state.visible.lower
      exact vain.trans ⟨fun vain => ⟨vain.1, vain.2⟩, fun vain => ⟨vain.lower, vain.inode⟩⟩

end

/-- A result of two bytes is no queued request. -/
theorem two_waits : (BitVec.setWidth 32 (2 : BitVec 64)) ≠ EIOCBQUEUED := by decide

/-- The steady filesystem moves two bytes on both paths. -/
theorem steady_movesAlike : (steady 0 2).MovesAlike where
  readMethod _ _ := rfl
  writeMethod _ _ := rfl
  attributes _ _ := rfl
  moves transfer _ _ _ _ _ _ _ := by
    cases transfer <;> exact ⟨two_waits, fun _ => rfl, fun _ => rfl⟩

/-- Two segments of one byte each. -/
def twoSegments : List Segment := [⟨0, 1⟩, ⟨1, 1⟩]

/-- The write of the two segments is complete when it returns. -/
theorem complete_write {lowerFile : LowerFile} {state : Machine Unit} :
    (Transfer.write (fun _ => 0x78) fun _ => 0x78).Complete (steady 0 2) fileA 2 0 twoSegments lowerFile state where
  lower := rfl
  inode queued := absurd queued two_waits

end Trfs.Kernel
