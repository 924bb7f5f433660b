import Trfs.Construction.Kernel.Run
import Trfs.Proof.Kernel.Naming
import Trfs.Proof.Replay.Confined

namespace Trfs.Replay
open Bytes Effect Trace Kernel FileTree

/-- The operation that a system call asks for. The umask is 0. -/
def SystemCall.operation : SystemCall → Option (Operation Name (BitVec 16))
  | .mkdir path mode => some (.mkdir (components path) (mode.setWidth 16))
  | .rmdir path => some (.rmdir (components path))
  | .unlink path => some (.unlink (components path))
  | .link oldpath (some newpath) => some (.link (components oldpath) (components newpath))
  | .rename oldpath (some newpath) => some (.rename (components oldpath) (components newpath))
  | _ => none

/-- The path is no longer than `PATH_MAX` permits, and no name in it is `.` or `..`. -/
structure Direct (path : CString) : Prop where
  short : path.length < 4096
  names : ∀ name ∈ components path, name ≠ ascii "." ∧ name ≠ ascii ".."

/-- The system of the replay: an operation that can succeed on its tree does, and output does not change the tree. -/
structure PosixCalls {σ A K J : Type} [DecidableEq J] (policy : Policy A K (BitVec 16))
    (handler : Handler SystemCall.Reply σ) (view : σ → Tree Name A K J) : Prop where
  prints : ∀ text state, handler (.printf text) state = some ((), state)
  succeeds : ∀ c operation state reached, c.operation = some operation → (∀ path ∈ c.names, Direct path) →
    (view state).apply policy operation = some reached →
      ∃ reply after, handler c state = some (reply, after) ∧ c.errval reply = 0 ∧ (view after).entry = reached.entry

/-- One of the five calls on names with its bit set, at the real paths of its dentries. -/
structure Proper {L : Type} (env : Environment L) (helpers : Helpers) (place : L → LowerDentry → List Name)
    (report : Report L) : Prop where
  ran : report.op.exec env helpers report.before = some report.done
  structural : report.op.operation ≠ none
  bit : bitSet report.before.mask report.op.kind
  placed : ∀ dentry ∈ report.op.dentries, Placed place report.before dentry
  rooted : ∀ dentry ∈ report.op.dentries, Rooted dentry.path
  names : ∀ dentry ∈ report.op.dentries, ∀ name ∈ components dentry.path, name ≠ ascii "." ∧ name ≠ ascii ".."

/-- A link that succeeds below leaves its new dentry positive and gets past `trfs_interpose`. -/
def Interposed {L : Type} (report : Report L) : Prop :=
  report.op.kind = .link → (answersOf report.done.events).lower = some 0 →
    (answersOf report.done.events).negative = some false ∧ (answersOf report.done.events).interposed = some 0

/-- Nobody changes the tree between the calls. -/
def OnlyCalls {L A K I : Type} (tree : L → Tree Name A K I) (start : Tree Name A K I) : List (Report L) → Prop
  | [] => True
  | report :: rest => (tree report.before.visible.lower).entry = start.entry ∧
      OnlyCalls tree (tree report.done.state.visible.lower) rest

def traced {L : Type} (report : Report L) : Bool :=
  decide (report.done.state.traceFile.length ≠ report.before.traceFile.length)

/-- The record of a call, with the real paths of its dentries. -/
def RealRecord {L : Type} (report : Report L) (args : ReplayArgs) : Prop :=
  ∃ record, AppendsRecord report.op report.before report.done.state record ∧ args.tracer = record.header ∧
    args.path1 = report.op.path1.path ∧ ∀ dentry, report.op.path2 = .dentry dentry → args.path2 = some dentry.path

/-- The replay of a record makes one call, which returns 0 as the original did, and leaves a copy of the tree that the
original left. -/
structure Mirrors {L σ A K I J : Type} (policy : Policy A K (BitVec 16)) (tree : L → Tree Name A K I)
    (view : σ → Tree Name A K J) (renumber : I → J) (report : Report L) (replayed : Replayed σ) : Prop where
  returns : ∃ c reply, replayed.done.events.filter isSystem = [⟨c, reply⟩] ∧ c.errval reply = 0
  agrees : replayed.done.value.2 = true
  copy : Embeds policy (components replayPath) renumber (tree report.done.state.visible.lower)
    (view replayed.done.state)

section
variable {L σ A K I J : Type} [DecidableEq I] [DecidableEq J] {policy : Policy A K (BitVec 16)} {env : Environment L}
  {helpers : Helpers} {tree : L → Tree Name A K I} {place : L → LowerDentry → List Name}
  {handler : Handler SystemCall.Reply σ} {view : σ → Tree Name A K J} {renumber : I → J} {report : Report L}
  {args : ReplayArgs} {fd : BitVec 32} {state : σ}

/-- A proper call gets to its tracing block exactly when it succeeds below. -/
theorem Proper.reaches_iff (posix : Posix policy env tree place) (proper : Proper env helpers place report)
    (interposed : Interposed report) :
    report.op.Reaches (answersOf report.done.events) ↔ (answersOf report.done.events).lower = some 0 := by
  obtain ⟨ran, structural, _, _, _, _⟩ := proper
  obtain ⟨operation, own⟩ := Option.ne_none_iff_exists'.mp structural
  have never := never_renamed posix own ran
  obtain ⟨op, before, done⟩ := report
  cases op with
  | mkdir dir dentry mode => exact Iff.rfl
  | rmdir dir dentry => exact Iff.rfl
  | rename oldDir oldDentry newDir newDentry => exact Iff.rfl
  | unlink dir dentry => exact or_iff_left fun busy => never busy.2
  | link oldDentry dir newDentry => exact ⟨fun reaches => reaches.1, fun succeeded => ⟨succeeded, interposed rfl succeeded⟩⟩
  | _ => cases own

/-- A call is traced exactly when it has performed its operation. Otherwise it has changed nothing. -/
theorem Proper.performs (full : helpers.WriteFully) (posix : Posix policy env tree place)
    (proper : Proper env helpers place report) (interposed : Interposed report) :
    (traced report = true ∧ ∃ operation reached, report.op.operation = some operation ∧
        (tree report.before.visible.lower).apply policy operation = some reached ∧
          (tree report.done.state.visible.lower).entry = reached.entry) ∨
      (traced report = false ∧
        (tree report.done.state.visible.lower).entry = (tree report.before.visible.lower).entry) := by
  obtain ⟨operation, own⟩ := Option.ne_none_iff_exists'.mp proper.structural
  have reaches := proper.reaches_iff posix interposed
  have performs := TracedOp.exec_performs posix own proper.placed proper.ran
  rcases (TracedOp.exec_effect proper.ran).2.appends full with ⟨silent, same⟩ | ⟨here, _, _, image, _, appends⟩
  · have length : report.done.state.traceFile = report.before.traceFile := by rw [same]
    have quiet : traced report = false := by simp [traced, length]
    rcases performs with ⟨succeeded, _⟩ | ⟨_, unchanged⟩
    · exact absurd ⟨reaches.mpr succeeded, proper.bit⟩ silent
    · exact .inr ⟨quiet, unchanged⟩
  · have grown : traced report = true := by
      have length := congrArg List.length appends.bytes
      have size := appends.image
      simp only [Record.bytes, List.length_append, sizeofTraceDs] at length size
      apply decide_eq_true
      omega
    rcases performs with ⟨_, reached, applied, entries⟩ | ⟨failed, _⟩
    · exact .inl ⟨grown, operation, reached, own, applied, entries⟩
    · exact absurd (reaches.mp here) failed

/-- The components of a full path are those of the replay directory, then those of the path. -/
theorem components_fullPath {path : CString} (rooted : Rooted path) :
    components (fullPath path) = components replayPath ++ components path := components_append rooted

/-- The full path of a short plain path leads straight to its object. -/
theorem fullPath_direct {path : CString} (rooted : Rooted path) (short : path.length < pathBufferSize)
    (names : ∀ name ∈ components path, name ≠ ascii "." ∧ name ≠ ascii "..") : Direct (fullPath path) where
  short := by
    have length : (fullPath path).length = 15 + path.length := by
      simp only [fullPath, CString.append, CString.length, List.length_append]
      rfl
    simp only [pathBufferSize] at short
    omega
  names name member := by
    rw [components_fullPath rooted] at member
    rcases List.mem_append.mp member with front | back
    · have plain : ∀ name ∈ components replayPath, name ≠ ascii "." ∧ name ≠ ascii ".." := by decide +kernel
      exact plain name front
    · exact names name back

/-- The record of a proper call holds 0, and its paths fit into the buffer. -/
theorem Proper.record (full : helpers.WriteFully) (proper : Proper env helpers place report) {record : Record}
    (appends : AppendsRecord report.op report.before report.done.state record) :
    record.header.err = 0 ∧ ∀ dentry ∈ report.op.dentries, dentry.path.length < pathBufferSize := by
  obtain ⟨fits, _⟩ := TracedOp.grown_record full proper.ran appends.grows
  obtain ⟨_, _, flags, mode, view⟩ := appends.of_exec full proper.ran
  have recorded : record.header.err = report.op.recordedErr (answersOf report.done.events) := congrArg TraceDs.err view
  obtain ⟨operation, own⟩ := Option.ne_none_iff_exists'.mp proper.structural
  constructor
  · rw [recorded]
    revert own
    generalize report.op = op
    intro own
    cases op <;> first | rfl | cases own
  · intro dentry member
    rcases List.mem_cons.mp member with rfl | second
    · exact fits.1
    · exact fits.2 dentry (SecondPath.mem_dentries.mp second)

/-- The record of an operation carries its kind. -/
theorem RealRecord.kind (real : RealRecord report args) : args.kind = some report.op.kind := by
  obtain ⟨record, appends, tracer, _⟩ := real
  rw [ReplayArgs.kind, tracer, appends.recordType, CallKind.ofRecordType_recordType]

/-- The first path that the replay uses. -/
theorem RealRecord.first (full : helpers.WriteFully) (proper : Proper env helpers place report)
    (real : RealRecord report args) :
    components (fullPath args.path1) = components replayPath ++ components report.op.path1.path ∧
      Direct (fullPath args.path1) := by
  obtain ⟨record, appends, _, path1, _⟩ := real
  obtain ⟨_, short⟩ := proper.record full appends
  have here : report.op.path1 ∈ report.op.dentries := List.mem_cons_self
  rw [path1]
  exact ⟨components_fullPath (proper.rooted _ here),
    fullPath_direct (proper.rooted _ here) (short _ here) (proper.names _ here)⟩

/-- The second path that the replay uses, when the call has two dentries. -/
theorem RealRecord.second (full : helpers.WriteFully) (proper : Proper env helpers place report)
    (real : RealRecord report args) (dentry : Dentry) (two : report.op.path2 = .dentry dentry) :
    args.path2 = some dentry.path ∧
      components (fullPath dentry.path) = components replayPath ++ components dentry.path ∧
        Direct (fullPath dentry.path) := by
  obtain ⟨record, appends, _, _, path2⟩ := real
  obtain ⟨_, short⟩ := proper.record full appends
  have here : dentry ∈ report.op.dentries := List.mem_cons_of_mem _ (SecondPath.mem_dentries.mpr two)
  exact ⟨path2 dentry two, components_fullPath (proper.rooted _ here),
    fullPath_direct (proper.rooted _ here) (short _ here) (proper.names _ here)⟩

/-- The mode of a mkdir comes back from its record. -/
theorem RealRecord.mode {dir : Inode} {dentry : Dentry} {mode : BitVec 16} {before : Machine L} {done : Done L}
    (full : helpers.WriteFully) (ran : (TracedOp.mkdir dir dentry mode).exec env helpers before = some done)
    (real : RealRecord ⟨.mkdir dir dentry mode, before, done⟩ args) :
    (args.tracer.permissionMode.setWidth 32).setWidth 16 = mode := by
  obtain ⟨record, appends, tracer, _⟩ := real
  have recorded : record.header.permissionMode = mode :=
    (appends.marked full (fun _ => trivial) (trfsMkdir_heading dir dentry mode) ran).2
  rw [tracer, recorded]
  ext index
  simp

/-- The replay asks for the operation of the call at the same path below the replay directory. -/
theorem RealRecord.request (full : helpers.WriteFully) (proper : Proper env helpers place report)
    (real : RealRecord report args) (fd : BitVec 32) {operation : Operation Name (BitVec 16)}
    (own : report.op.operation = some operation) :
    ∃ c, args.request fd = some c ∧ c.operation = some (operation.under (components replayPath)) ∧
      ∀ path ∈ c.names, Direct path := by
  have kind := real.kind
  have ran := proper.ran
  obtain ⟨first, direct⟩ := real.first full proper
  have one : ∀ path ∈ [fullPath args.path1], Direct path := List.forall_mem_singleton.mpr direct
  have second := real.second full proper
  obtain ⟨op, before, done⟩ := report
  cases op with
  | mkdir dir dentry mode =>
      obtain rfl := Option.some.inj own
      have asked : args.request fd = some (.mkdir (fullPath args.path1) (args.tracer.permissionMode.setWidth 32)) := by
        simp only [ReplayArgs.request, kind, TracedOp.kind]
      refine ⟨_, asked, ?_, one⟩
      simp only [SystemCall.operation, first, real.mode full ran]
      rfl
  | rmdir dir dentry =>
      obtain rfl := Option.some.inj own
      have asked : args.request fd = some (.rmdir (fullPath args.path1)) := by
        simp only [ReplayArgs.request, kind, TracedOp.kind]
      refine ⟨_, asked, ?_, one⟩
      simp only [SystemCall.operation, first]
      rfl
  | unlink dir dentry =>
      obtain rfl := Option.some.inj own
      have asked : args.request fd = some (.unlink (fullPath args.path1)) := by
        simp only [ReplayArgs.request, kind, TracedOp.kind]
      refine ⟨_, asked, ?_, one⟩
      simp only [SystemCall.operation, first]
      rfl
  | link oldDentry dir newDentry =>
      obtain rfl := Option.some.inj own
      obtain ⟨present, last, straight⟩ := second newDentry rfl
      have asked : args.request fd = some (.link (fullPath args.path1) (some (fullPath newDentry.path))) := by
        simp only [ReplayArgs.request, kind, TracedOp.kind, present, Option.map_some]
      refine ⟨_, asked, ?_, List.forall_mem_cons.mpr ⟨direct, List.forall_mem_singleton.mpr straight⟩⟩
      simp only [SystemCall.operation, first, last]
      rfl
  | rename oldDir oldDentry newDir newDentry =>
      obtain rfl := Option.some.inj own
      obtain ⟨present, last, straight⟩ := second newDentry rfl
      have asked : args.request fd = some (.rename (fullPath args.path1) (some (fullPath newDentry.path))) := by
        simp only [ReplayArgs.request, kind, TracedOp.kind, present, Option.map_some]
      refine ⟨_, asked, ?_, List.forall_mem_cons.mpr ⟨direct, List.forall_mem_singleton.mpr straight⟩⟩
      simp only [SystemCall.operation, first, last]
      rfl
  | _ => cases own

/-- An open changes no name. -/
theorem operation_notOpen {op : TracedOp} (structural : op.operation ≠ none) : op.kind ≠ .open := by
  cases op <;> first | exact absurd rfl structural | nofun

/-- The replay of the record of a proper call on a copy of its tree. -/
theorem Proper.mirrors (full : helpers.WriteFully) (proper : Proper env helpers place report)
    (calls : PosixCalls policy handler view) (distinct : Function.Injective renumber) (real : RealRecord report args)
    (copy : Embeds policy (components replayPath) renumber (tree report.before.visible.lower) (view state))
    {operation : Operation Name (BitVec 16)} {reached : Tree Name A K I} (own : report.op.operation = some operation)
    (applied : (tree report.before.visible.lower).apply policy operation = some reached)
    (entries : (tree report.done.state.visible.lower).entry = reached.entry) (fd : BitVec 32) :
    ∃ done, (replayRecord fd args).exec handler state = some done ∧ done.value.1 = fd ∧
      Mirrors policy tree view renumber report ⟨args, fd, state, done⟩ := by
  obtain ⟨c, request, asked, direct⟩ := real.request full proper fd own
  obtain ⟨last, copied, embeds⟩ := apply_carries copy distinct operation reached applied
  obtain ⟨reply, after, answered, zero, outer⟩ := calls.succeeds c _ state last asked direct copied
  obtain ⟨done, ran, final, value⟩ := replayRecord_exec request calls.prints answered
  have notOpen : args.kind ≠ some .open := by
    rw [real.kind]
    exact fun same => operation_notOpen proper.structural (Option.some.inj same)
  obtain ⟨record, appends, tracer, _⟩ := real
  have err : args.tracer.err = 0 := by
    rw [tracer]
    exact (proper.record full appends).1
  have outcome : ∀ errval, args.outcome fd errval = (fd, decide (args.tracer.err = errval)) := by
    intro errval
    rw [ReplayArgs.outcome, if_neg notOpen]
  have success : done.value = (fd, true) := by
    rw [value, outcome, err, zero, decide_eq_true rfl]
  refine ⟨done, ran, by rw [success], ?_, by rw [success], ?_⟩
  · cases replayRecord_replays ran with
    | silent kind => simp [ReplayArgs.request, kind] at request
    | call other reply requested events same =>
        rw [outcome, err, success] at same
        exact ⟨other, reply, events, (of_decide_eq_true (Prod.mk.inj same).2.symm).symm⟩
  · show Embeds policy _ renumber _ (view done.state)
    rw [final]
    exact embeds.congr entries outer

/-- Each replayed record mirrors its call, whatever sequence of the five calls on names was made, when every link that
succeeds below gets past its interposition. -/
theorem structural_simulates (full : helpers.WriteFully) (posix : Posix policy env tree place)
    (calls : PosixCalls policy handler view) (distinct : Function.Injective renumber) {start : Tree Name A K I}
    {reports : List (Report L)} {trace : List ReplayArgs}
    (copy : Embeds policy (components replayPath) renumber start (view state))
    (proper : ∀ report ∈ reports, Proper env helpers place report) (only : OnlyCalls tree start reports)
    (interposed : ∀ report ∈ reports, Interposed report)
    (records : List.Forall₂ RealRecord (reports.filter traced) trace) :
    ∃ replayed, replayRun handler trace fd state = some replayed ∧
      List.Forall₂ (Mirrors policy tree view renumber) (reports.filter traced) replayed := by
  induction reports generalizing start trace fd state with
  | nil =>
      cases records
      exact ⟨[], rfl, .nil⟩
  | cons report reports ih =>
      obtain ⟨here, rest⟩ := List.forall_mem_cons.mp proper
      obtain ⟨past, others⟩ := List.forall_mem_cons.mp interposed
      obtain ⟨untouched, only⟩ := only
      have before : Embeds policy (components replayPath) renumber (tree report.before.visible.lower) (view state) :=
        copy.congr untouched rfl
      rcases here.performs full posix past with ⟨grown, operation, reached, own, applied, entries⟩ | ⟨silent, unchanged⟩
      · rw [List.filter_cons_of_pos grown] at records ⊢
        cases records with
        | cons real records =>
            rename_i args trace
            obtain ⟨done, ran, same, mirrors⟩ := here.mirrors full calls distinct real before own applied entries fd
            have next : ∃ replayed, replayRun handler trace fd done.state = some replayed ∧
                List.Forall₂ (Mirrors policy tree view renumber) (reports.filter traced) replayed :=
              ih mirrors.copy rest only others records
            obtain ⟨replayed, continued, following⟩ := next
            refine ⟨⟨args, fd, state, done⟩ :: replayed, ?_, .cons mirrors following⟩
            simp only [replayRun, ran, Option.bind_some, same, continued, Option.map_some]
      · have skipped : ¬ traced report = true := by simp [silent]
        rw [List.filter_cons_of_neg skipped] at records ⊢
        exact ih (before.congr unchanged rfl) rest only others records

/-- A proper call that grew the trace file has a record. -/
theorem Proper.realRecord (full : helpers.WriteFully) (proper : Proper env helpers place report)
    (grown : traced report = true) : ∃ args, RealRecord report args := by
  have longer : report.done.state.traceFile ≠ report.before.traceFile := by
    intro same
    exact of_decide_eq_true grown (congrArg List.length same)
  obtain ⟨record, appends⟩ := TracedOp.grown_appends full proper.ran longer
  let path2 : Option CString := report.op.path2.dentries.head?.map Dentry.path
  refine ⟨⟨record.header, report.op.path1.path, path2, none⟩, record, appends, rfl, rfl, fun dentry two => ?_⟩
  simp [path2, two, SecondPath.dentries]

end

/-- Everybody may do everything. -/
def freely : Policy Unit Unit (BitVec 16) where
  search _ := true
  make _ := true
  attributes _ _ := ()
  remove _ _ := true
  link _ _ := true
  move _ _ _ _ _ := true

abbrev PlainTree := Tree Name Unit Unit Nat

/-- The directories on the way to the given one, and nothing else. -/
def chain (directory : List Name) : PlainTree where
  entry path := if path <+: directory then some (.directory ()) else none
  support := directory.inits
  complete path present := by
    rw [List.mem_inits]
    by_contra outside
    exact present (if_neg outside)
  root := ⟨(), if_pos (List.nil_prefix)⟩
  closed path _ present := by
    refine ⟨(), if_pos ?_⟩
    by_contra outside
    exact present (if_neg fun inside => outside ((List.dropLast_prefix path).trans inside))
  shared first second id one other _ _ := rfl

/-- The last directory of a chain is a copy of the empty tree. -/
theorem chain_embeds (directory : List Name) : Embeds freely directory id (chain []) (chain directory) where
  reachable depth _ := by
    have inside : directory.take depth <+: directory := List.take_prefix depth directory
    simp [Tree.searchable, chain, inside, freely]
  inside path := by
    have below : directory ++ path <+: directory ↔ path = [] := by
      conv_lhs => rw [← List.append_nil directory, List.append_assoc, List.prefix_append_right_inj]
      simp
    simp only [chain, below, List.prefix_nil]
    split <;> rfl

/-- The tree and the result of a call. -/
def treeCall (tree : PlainTree) (operation : Operation Name (BitVec 16)) : BitVec 32 × PlainTree :=
  match tree.apply freely operation with
  | some reached => (0, reached)
  | none => (ENOENT, tree)

/-- The same directories with the file `a` in the last one. -/
def fileIn (directory : List Name) : PlainTree where
  entry path :=
    if path <+: directory then some (.directory ())
    else if path = directory ++ [ascii "a"] then some (.object 0 ()) else none
  support := (directory ++ [ascii "a"]) :: directory.inits
  complete path present := by
    rw [List.mem_cons, List.mem_inits]
    by_contra outside
    obtain ⟨other, apart⟩ := not_or.mp outside
    exact present ((if_neg apart).trans (if_neg other))
  root := ⟨(), if_pos List.nil_prefix⟩
  closed path _ present := by
    refine ⟨(), if_pos ?_⟩
    by_contra outside
    by_cases last : path = directory ++ [ascii "a"]
    · exact outside (by rw [last, List.dropLast_concat])
    · have apart : ¬ path <+: directory := fun inside => outside ((List.dropLast_prefix path).trans inside)
      exact present ((if_neg apart).trans (if_neg last))
  shared _ _ _ _ _ _ _ := rfl

/-- The last directory is a copy of the tree with one file. -/
theorem fileIn_embeds (directory : List Name) : Embeds freely directory id (fileIn []) (fileIn directory) where
  reachable depth _ := by
    have inside : directory.take depth <+: directory := List.take_prefix depth directory
    simp [Tree.searchable, fileIn, inside, freely]
  inside path := by
    have below : directory ++ path <+: directory ↔ path = [] := by
      conv_lhs => rw [← List.append_nil directory, List.append_assoc, List.prefix_append_right_inj]
      simp
    simp only [fileIn, below, List.prefix_nil, List.append_cancel_left_eq, List.nil_append]
    split
    · rfl
    · split <;> rfl

/-- The lower dentries 1 and 2 are `/a` and `/b`. -/
def placeOf (dentry : LowerDentry) : List Name := if dentry.address = 1 then [ascii "a"] else [ascii "b"]

def treeEnvironment : Environment PlainTree where
  lower c tree := match c with
    | .vfsMkdir _ dentry mode => treeCall tree (.mkdir (placeOf dentry) mode)
    | .vfsRmdir _ dentry => treeCall tree (.rmdir (placeOf dentry))
    | .vfsUnlink _ dentry => treeCall tree (.unlink (placeOf dentry))
    | .vfsLink oldDentry _ newDentry => treeCall tree (.link (placeOf oldDentry) (placeOf newDentry))
    | .vfsRename _ oldDentry _ newDentry => treeCall tree (.rename (placeOf oldDentry) (placeOf newDentry))
    | c => (steadyLower 0 0 c, tree)
  iget5Locked _ tree := (some (⟨2⟩, false), tree)
  dSpliceAlias _ _ tree := (0, tree)
  kzalloc tree := (true, tree)
  copyToUser _ _ tree := (0, tree)

/-- A call of the plain tree performs its operation. -/
theorem treeCall_performed (tree : PlainTree) (operation : Operation Name (BitVec 16)) :
    Performed freely operation tree (treeCall tree operation).2 (treeCall tree operation).1 := by
  unfold treeCall
  cases applied : tree.apply freely operation with
  | none =>
      have refused : ENOENT ≠ 0 := by decide
      exact .inr ⟨refused, rfl⟩
  | some reached => exact .inl ⟨rfl, reached, applied, rfl⟩

/-- The plain tree is a lower file system that behaves as POSIX says. -/
theorem treeEnvironment_posix : Posix freely treeEnvironment id fun _ => placeOf where
  performs c operation tree err asked result := by
    cases c <;> cases asked <;> cases result <;> exact treeCall_performed tree _
  steady c tree quiet := by
    cases c <;> first | exact ⟨rfl, rfl⟩ | exact absurd trivial quiet
  iget5Locked _ _ := ⟨rfl, rfl⟩
  dSpliceAlias _ _ _ := ⟨rfl, rfl⟩
  kzalloc _ := ⟨rfl, rfl⟩
  renamed _ _ := rfl

/-- The C library returns -1 for a failure. -/
def treeReply (tree : PlainTree) (operation : Operation Name (BitVec 16)) : BitVec 32 × PlainTree :=
  match tree.apply freely operation with
  | some reached => (0, reached)
  | none => (-1, tree)

def treeSystem : Handler SystemCall.Reply PlainTree
  | .printf _, tree => some ((), tree)
  | .read .., tree | .write .., tree => some (0, tree)
  | .mkdir path mode, tree => some (treeReply tree (.mkdir (components path) (mode.setWidth 16)))
  | .rmdir path, tree => some (treeReply tree (.rmdir (components path)))
  | .unlink path, tree => some (treeReply tree (.unlink (components path)))
  | .link oldpath (some newpath), tree => some (treeReply tree (.link (components oldpath) (components newpath)))
  | .rename oldpath (some newpath), tree => some (treeReply tree (.rename (components oldpath) (components newpath)))
  | .open .., tree | .close _, tree | .link _ none, tree | .symlink .., tree | .mknod .., tree | .rename _ none, tree =>
      some (-1, tree)
  | .fault, _ => none

/-- An operation that applies returns 0. -/
theorem treeReply_succeeds {tree reached : PlainTree} {operation : Operation Name (BitVec 16)}
    (applied : tree.apply freely operation = some reached) : treeReply tree operation = (0, reached) := by
  rw [treeReply, applied]

/-- The plain tree answers system calls as POSIX says. -/
theorem treeSystem_posix : PosixCalls freely treeSystem id where
  prints _ _ := rfl
  succeeds c operation tree reached asked _ applied := by
    have result := treeReply_succeeds applied
    unfold SystemCall.operation at asked
    split at asked <;> cases asked <;> exact ⟨0, reached, congrArg some result, rfl, rfl⟩

/-- A fresh mount over a tree. The lower dentries have the addresses of their dentries. -/
def mountOver (tree : PlainTree) : Machine PlainTree :=
  mounted
    { lower := tree
      upper := { freshMount.visible.upper with lowerPath := fun address => ⟨⟨address⟩, 0⟩ }
      lowerSb := 0 }
    freshMount.tfilePath

def treeMount : Machine PlainTree := mountOver (chain [])

/-- The mask and the lower paths of both dentries at a call, and whether it is traced. -/
def shownBy {L : Type} (report : Report L) : Bool × BitVec 64 × LowerPath × LowerPath :=
  (traced report, report.before.mask, report.before.visible.upper.lowerPath 1, report.before.visible.upper.lowerPath 2)

/-- A call on `/a` and `/b` is proper when its bit is set and the dentries have their lower paths. -/
theorem plain_proper {env : Environment PlainTree} {op : TracedOp} {before : Machine PlainTree} {done : Done PlainTree}
    {grown : Bool} {mask : BitVec 64} (ran : op.exec env reliable before = some done)
    (shown : shownBy ⟨op, before, done⟩ = (grown, mask, ⟨⟨1⟩, 0⟩, ⟨⟨2⟩, 0⟩)) (bit : bitSet mask op.kind)
    (structural : op.operation ≠ none) (named : ∀ dentry ∈ op.dentries, dentry = dentryA ∨ dentry = dentryB) :
    Proper env reliable (fun _ => placeOf) ⟨op, before, done⟩ ∧ traced ⟨op, before, done⟩ = grown := by
  obtain ⟨same, shown⟩ := Prod.mk.inj shown
  obtain ⟨masked, paths⟩ := Prod.mk.inj shown
  obtain ⟨first, second⟩ := Prod.mk.inj paths
  have plainA : ∀ name ∈ components dentryA.path, name ≠ ascii "." ∧ name ≠ ascii ".." := by decide +kernel
  have plainB : ∀ name ∈ components dentryB.path, name ≠ ascii "." ∧ name ≠ ascii ".." := by decide +kernel
  have placeA : placeOf ⟨1⟩ = components dentryA.path := by decide +kernel
  have placeB : placeOf ⟨2⟩ = components dentryB.path := by decide +kernel
  refine ⟨?_, same⟩
  exact
    { ran := ran
      structural := structural
      bit := by
        rw [masked]
        exact bit
      placed := by
        intro dentry member
        rcases named dentry member with rfl | rfl
        · show placeOf (before.visible.upper.lowerPath 1).dentry = _
          rw [show before.visible.upper.lowerPath 1 = ⟨⟨1⟩, 0⟩ from first, placeA]
        · show placeOf (before.visible.upper.lowerPath 2).dentry = _
          rw [show before.visible.upper.lowerPath 2 = ⟨⟨2⟩, 0⟩ from second, placeB]
      rooted := by
        intro dentry member
        rcases named dentry member with rfl | rfl <;> exact ⟨_, rfl⟩
      names := by
        intro dentry member
        rcases named dentry member with rfl | rfl
        · exact plainA
        · exact plainB }

/-- The first dentry is one of the two. -/
theorem namedA : ∀ dentry ∈ [dentryA], dentry = dentryA ∨ dentry = dentryB :=
  fun _ member => .inl (List.mem_singleton.mp member)

/-- The second dentry is one of the two. -/
theorem namedB : ∀ dentry ∈ [dentryB], dentry = dentryA ∨ dentry = dentryB :=
  fun _ member => .inr (List.mem_singleton.mp member)

/-- Both dentries are among the two. -/
theorem namedBoth : ∀ dentry ∈ [dentryA, dentryB], dentry = dentryA ∨ dentry = dentryB :=
  fun _ member => List.mem_pair.mp member

/-- The reports of two calls one after the other. -/
def twoReports (env : Environment PlainTree) (first second : TracedOp) (before : Machine PlainTree) :
    Option (Report PlainTree × Report PlainTree) :=
  (first.exec env reliable before).bind fun done =>
    (second.exec env reliable done.state).map fun last => (⟨first, before, done⟩, ⟨second, done.state, last⟩)

/-- Two reports come from two runs in a row. -/
theorem twoReports_eq_some {env : Environment PlainTree} {first second : TracedOp} {before : Machine PlainTree}
    {one two : Report PlainTree} (ran : twoReports env first second before = some (one, two)) :
    ∃ done last, first.exec env reliable before = some done ∧ second.exec env reliable done.state = some last ∧
      one = ⟨first, before, done⟩ ∧ two = ⟨second, done.state, last⟩ := by
  obtain ⟨done, ranFirst, rest⟩ := Option.bind_eq_some_iff.mp ran
  obtain ⟨last, ranSecond, same⟩ := Option.map_eq_some_iff.mp rest
  obtain ⟨rfl, rfl⟩ := Prod.mk.inj same
  exact ⟨done, last, ranFirst, ranSecond, rfl, rfl⟩

def makeA : TracedOp := .mkdir ⟨1⟩ dentryA 0x1ed

def moveA : TracedOp := .rename ⟨1⟩ dentryA ⟨1⟩ dentryB

/-- A directory is made and renamed. The replay does the same below the replay directory. -/
theorem structural_mkdir_rename : ∃ made moved trace replayed,
    makeA.exec treeEnvironment reliable treeMount = some made ∧
    moveA.exec treeEnvironment reliable made.state = some moved ∧
    replayRun treeSystem trace (-1) (chain (components replayPath)) = some replayed ∧
      List.Forall₂ (Mirrors freely id id id) [⟨makeA, treeMount, made⟩, ⟨moveA, made.state, moved⟩] replayed := by
  have shows : (twoReports treeEnvironment makeA moveA treeMount).map (fun two => (shownBy two.1, shownBy two.2)) =
      some ((true, bitmapMax, ⟨⟨1⟩, 0⟩, ⟨⟨2⟩, 0⟩), (true, bitmapMax, ⟨⟨1⟩, 0⟩, ⟨⟨2⟩, 0⟩)) := by decide +kernel
  obtain ⟨⟨first, second⟩, ran, seen⟩ := Option.map_eq_some_iff.mp shows
  obtain ⟨seenFirst, seenSecond⟩ := Prod.mk.inj seen
  obtain ⟨made, moved, ranFirst, ranSecond, rfl, rfl⟩ := twoReports_eq_some ran
  obtain ⟨properFirst, grownFirst⟩ := plain_proper ranFirst seenFirst (by decide) (by decide) namedA
  obtain ⟨properSecond, grownSecond⟩ := plain_proper ranSecond seenSecond (by decide) (by decide) namedBoth
  obtain ⟨args, real⟩ := properFirst.realRecord reliable_full grownFirst
  obtain ⟨others, realOther⟩ := properSecond.realRecord reliable_full grownSecond
  have records : List.Forall₂ RealRecord
      (([⟨makeA, treeMount, made⟩, ⟨moveA, made.state, moved⟩] : List (Report PlainTree)).filter traced)
      [args, others] := by
    rw [List.filter_cons_of_pos grownFirst, List.filter_cons_of_pos grownSecond]
    exact .cons real (.cons realOther .nil)
  have only : OnlyCalls id (chain []) [⟨makeA, treeMount, made⟩, ⟨moveA, made.state, moved⟩] := ⟨rfl, rfl, trivial⟩
  have interposed : ∀ report ∈ ([⟨makeA, treeMount, made⟩, ⟨moveA, made.state, moved⟩] : List (Report PlainTree)),
      Interposed report :=
    List.forall_mem_cons.mpr ⟨nofun, List.forall_mem_singleton.mpr nofun⟩
  have simulates : ∃ replayed,
      replayRun treeSystem [args, others] (-1) (chain (components replayPath)) = some replayed ∧
        List.Forall₂ (Mirrors freely id id id)
          (([⟨makeA, treeMount, made⟩, ⟨moveA, made.state, moved⟩] : List (Report PlainTree)).filter traced) replayed :=
    structural_simulates reliable_full treeEnvironment_posix treeSystem_posix Function.injective_id
      (chain_embeds (components replayPath))
      (List.forall_mem_cons.mpr ⟨properFirst, List.forall_mem_singleton.mpr properSecond⟩) only interposed records
  obtain ⟨replayed, ran, mirrors⟩ := simulates
  rw [List.filter_cons_of_pos grownFirst, List.filter_cons_of_pos grownSecond] at mirrors
  exact ⟨made, moved, [args, others], replayed, ranFirst, ranSecond, ran, mirrors⟩

/-- The same lower filesystem when there is no memory for an inode. -/
def outOfInodes : Environment PlainTree := { treeEnvironment with iget5Locked := fun _ tree => (none, tree) }

/-- A lower file system without inodes behaves as POSIX says. -/
theorem outOfInodes_posix : Posix freely outOfInodes id fun _ => placeOf where
  performs := treeEnvironment_posix.performs
  steady := treeEnvironment_posix.steady
  iget5Locked _ _ := ⟨rfl, rfl⟩
  dSpliceAlias _ _ _ := ⟨rfl, rfl⟩
  kzalloc _ := ⟨rfl, rfl⟩
  renamed _ _ := rfl

def linkA : TracedOp := .link dentryA ⟨1⟩ dentryB

def unlinkB : TracedOp := .unlink ⟨1⟩ dentryB

/-- `/a` gets the second name `/b` below, but its interposition fails, and there is no record of it. The replay of the
removal of `/b` finds nothing to remove. -/
theorem structural_link_fails : Posix freely outOfInodes id (fun _ => placeOf) ∧
    Embeds freely (components replayPath) id (fileIn []) (fileIn (components replayPath)) ∧
    ∃ linked removed trace replayed, linkA.exec outOfInodes reliable (mountOver (fileIn [])) = some linked ∧
    unlinkB.exec outOfInodes reliable linked.state = some removed ∧
    (∀ report ∈ [⟨linkA, mountOver (fileIn []), linked⟩, ⟨unlinkB, linked.state, removed⟩],
      Proper outOfInodes reliable (fun _ => placeOf) report) ∧
    OnlyCalls id (fileIn []) [⟨linkA, mountOver (fileIn []), linked⟩, ⟨unlinkB, linked.state, removed⟩] ∧
    List.Forall₂ RealRecord
      (([⟨linkA, mountOver (fileIn []), linked⟩, ⟨unlinkB, linked.state, removed⟩] : List (Report PlainTree)).filter
        traced) trace ∧
    replayRun treeSystem trace (-1) (fileIn (components replayPath)) = some replayed ∧
    ¬ List.Forall₂ (Mirrors freely id id id)
      (([⟨linkA, mountOver (fileIn []), linked⟩, ⟨unlinkB, linked.state, removed⟩] : List (Report PlainTree)).filter
        traced) replayed := by
  refine ⟨outOfInodes_posix, fileIn_embeds (components replayPath), ?_⟩
  have shows : (twoReports outOfInodes linkA unlinkB (mountOver (fileIn []))).map
      (fun two => (shownBy two.1, shownBy two.2)) =
        some ((false, bitmapMax, ⟨⟨1⟩, 0⟩, ⟨⟨2⟩, 0⟩), (true, bitmapMax, ⟨⟨1⟩, 0⟩, ⟨⟨2⟩, 0⟩)) := by decide +kernel
  obtain ⟨⟨first, second⟩, ran, seen⟩ := Option.map_eq_some_iff.mp shows
  obtain ⟨seenFirst, seenSecond⟩ := Prod.mk.inj seen
  obtain ⟨linked, removed, ranFirst, ranSecond, rfl, rfl⟩ := twoReports_eq_some ran
  obtain ⟨properFirst, silent⟩ := plain_proper ranFirst seenFirst (by decide) (by decide) namedBoth
  obtain ⟨properSecond, grown⟩ := plain_proper ranSecond seenSecond (by decide) (by decide) namedB
  have skipped : ¬ traced (⟨linkA, mountOver (fileIn []), linked⟩ : Report PlainTree) = true := by simp [silent]
  obtain ⟨args, real⟩ := properSecond.realRecord reliable_full grown
  -- The replay removes `/usr/src/replay/b`, which is not there.
  have kind : args.kind = some .unlink := real.kind
  have path : args.path1 = dentryB.path := by
    obtain ⟨_, _, _, path1, _⟩ := real
    exact path1
  have request : args.request (-1) = some (.unlink (fullPath dentryB.path)) := by
    simp only [ReplayArgs.request, kind, path]
  have missing : (fileIn (components replayPath)).apply freely (.unlink (components (fullPath dentryB.path))) = none := by
    rw [← Option.isNone_iff_eq_none]
    decide +kernel
  have answered : treeSystem (.unlink (fullPath dentryB.path)) (fileIn (components replayPath)) =
      some (-1, fileIn (components replayPath)) := by
    simp only [treeSystem, treeReply, missing]
  obtain ⟨done, replayed, _, value⟩ := replayRecord_exec request treeSystem_posix.prints answered
  have err : args.tracer.err = 0 := by
    obtain ⟨record, appends, tracer, _⟩ := real
    rw [tracer]
    exact (properSecond.record reliable_full appends).1
  have deviates : done.value.2 = false := by
    rw [value, ReplayArgs.outcome, kind, if_neg (by decide), err]
    decide
  refine ⟨linked, removed, [args], [⟨args, -1, fileIn (components replayPath), done⟩], ranFirst, ranSecond,
    List.forall_mem_cons.mpr ⟨properFirst, List.forall_mem_singleton.mpr properSecond⟩, ⟨rfl, rfl, trivial⟩, ?_, ?_, ?_⟩
  · rw [List.filter_cons_of_neg skipped, List.filter_cons_of_pos grown]
    exact .cons real .nil
  · simp only [replayRun, replayed, Option.bind_some, Option.map_some]
  · rw [List.filter_cons_of_neg skipped, List.filter_cons_of_pos grown]
    intro mirrors
    obtain ⟨mirrors, _⟩ := List.forall₂_cons.mp mirrors
    exact absurd (mirrors.agrees.symm.trans deviates) (by decide)

end Trfs.Replay
