import Trfs.Proof.Control.Monitored
import Trfs.Proof.Replay.Structural
import Trfs.Proof.Replay.Traced
import Trfs.Proof.Replay.Verdict
import Trfs.Proof.Replay.WrittenBytes

namespace Trfs.Replay
open Bytes Effect Trace Iteration Kernel FileTree Control

section
variable {World : Type} {mode : Mode} {replayRecord : Visit → World → Option (World × Bool)}
  {holds : List FramedRecord → World → Prop}

/-- What holds before a record makes its replay agree and holds afterwards for the others. -/
def Agreeing (replayRecord : Visit → World → Option (World × Bool)) (holds : List FramedRecord → World → Prop) : Prop :=
  ∀ record rest world visit, holds (record :: rest) world → Shows record visit →
    ∃ next, replayRecord visit world = some (next, true) ∧ holds rest next

/-- A replay that agrees goes on. -/
theorem goesOn_agrees (replays : mode.replay = true) {world next : World} {visit : Visit}
    (agrees : replayRecord visit world = some (next, true)) : goesOn mode replayRecord world visit = some next := by
  rw [goesOn, if_pos replays, agrees]
  exact if_neg fun both => both.2 rfl

/-- What holds of a trace holds of its rest in the world that the loop has reached. -/
theorem Agreeing.reached (agreeing : Agreeing replayRecord holds) (replays : mode.replay = true)
    {shown rest : List FramedRecord} {visits : List Visit} {world reached : World} (start : holds (shown ++ rest) world)
    (shows : List.Forall₂ Shows shown visits) (went : visits.foldlM (goesOn mode replayRecord) world = some reached) :
    holds rest reached := by
  induction shows generalizing world with
  | nil =>
      obtain rfl := Option.some.inj went
      exact start
  | cons shows _ ih =>
      obtain ⟨next, agrees, later⟩ := agreeing _ _ _ _ start shows
      rw [List.foldlM_cons, goesOn_agrees replays agrees] at went
      exact ih later went

/-- The loop does not stop at a record whose replay agrees. -/
theorem Agreeing.passes (agreeing : Agreeing replayRecord holds) (replays : mode.replay = true)
    {records : List FramedRecord} {world reached : World} {earlier : List Visit} {visit : Visit}
    (start : holds records world) (gets : GetsTo mode replayRecord world records earlier visit reached) :
    ∃ next, replayRecord visit reached = some (next, true) := by
  obtain ⟨shown, record, later, rfl, before, shows⟩ := gets.split
  obtain ⟨next, agrees, _⟩ := agreeing _ _ _ _ (agreeing.reached replays start before gets.world) shows
  exact ⟨next, agrees⟩

/-- `main` replays all records of a trace one after the other. -/
theorem Agreeing.replayTrace (agreeing : Agreeing replayRecord holds) (replays : mode.replay = true)
    {records : List FramedRecord} {world : World} {fuel : Nat} (small : (traceBytes records).length ≤ 0x7ffff000)
    (enough : records.length < fuel) (start : holds records world) :
    ∃ result, replayTrace mode replayRecord fuel (traceBytes records)
        (BitVec.ofNat 64 (traceBytes records).length) world = some result ∧
      result.ending = .finished ∧ holds [] result.state.world := by
  obtain ⟨result, ran, through | leaves | dies⟩ := replayTrace_framed mode replayRecord world records fuel small enough
  · refine ⟨result, ran, through.all.ending, ?_⟩
    rw [← List.append_nil records] at start
    exact agreeing.reached replays start through.all.visits through.world
  · obtain ⟨earlier, visit, reached, _, gets, deviates⟩ := leaves.deviated
    obtain ⟨next, agrees⟩ := agreeing.passes replays start gets
    rw [agrees] at deviates
    cases deviates
  · obtain ⟨earlier, visit, reached, _, gets, killed⟩ := dies.killed
    obtain ⟨next, agrees⟩ := agreeing.passes replays start gets
    rw [agrees] at killed
    cases killed

end

/-- A NUL follows each of the three buffers of a round. -/
structure Beyond.Terminated (beyond : Beyond) : Prop where
  pathbuf1 : beyond.pathbuf1.head? = some 0
  pathbuf2 : beyond.pathbuf2.head? = some 0
  content : beyond.content.head? = some 0

/-- A buffer with a NUL right behind it holds a string. -/
theorem pointedString_terminated (buffer : Option (List Byte)) {beyond : List Byte} (ends : beyond.head? = some 0) :
    ∃ text, pointedString buffer beyond = some text := by
  rw [← Option.isSome_iff_exists, pointedString_isSome]
  intro bytes _
  have there : (0 : Byte) ∈ beyond := List.mem_of_head? ends
  exact List.mem_append_right bytes there

/-- The strings of a round are those of its record when a NUL follows them. A second path or a content that is left
over from another record does no harm. -/
theorem Shows.args {record : FramedRecord} {visit : Visit} {beyond : Beyond} (shows : Shows record visit)
    (terminated : beyond.Terminated) (first : ∀ byte ∈ record.path1, byte ≠ 0)
    (second : ∀ byte ∈ record.path2, byte ≠ 0) :
    ∃ args, visit.args beyond = some args ∧ args.tracer = record.header ∧ args.path1.bytes = record.path1 ∧
      (record.header.pathLen2 ≠ 0 → args.path2.map CString.bytes = some record.path2) := by
  have one : (stringAt (visit.pathbuf1 ++ beyond.pathbuf1)).map CString.bytes = some record.path1 := by
    rw [shows.path1]
    exact (stringAt_exact _ _).mpr ⟨first, terminated.pathbuf1⟩
  obtain ⟨path1, found, bytes⟩ := Option.map_eq_some_iff.mp one
  obtain ⟨path2, present⟩ := pointedString_terminated visit.pathbuf2 terminated.pathbuf2
  obtain ⟨content, there⟩ := pointedString_terminated visit.content terminated.content
  refine ⟨⟨visit.tracer, path1, path2, content⟩, ?_, shows.tracer, bytes, ?_⟩
  · rw [Visit.args_eq_some]
    exact ⟨rfl, found, present, there⟩
  · intro two
    have exact : (stringAt (record.path2 ++ beyond.pathbuf2)).map CString.bytes = some record.path2 :=
      (stringAt_exact _ _).mpr ⟨second, terminated.pathbuf2⟩
    obtain ⟨text, here, same⟩ := Option.map_eq_some_iff.mp exact
    rw [shows.path2 two, pointedString, here] at present
    obtain rfl := Option.some.inj present
    exact congrArg some same

/-- One of two paths is the end of the other, as the tracer needs it to record both. -/
def Alike (op : TracedOp) : Prop :=
  ∀ named, op.path2 = .dentry named →
    op.path1.path.bytes <:+ named.path.bytes ∨ named.path.bytes <:+ op.path1.path.bytes

section
variable {L σ A K I J : Type} [DecidableEq I] [DecidableEq J] {policy : Policy A K (BitVec 16)} {env : Environment L}
  {helpers : Helpers} {tree : L → Tree Name A K I} {place : L → LowerDentry → List Name}
  {handler : Handler SystemCall.Reply σ} {view : σ → Tree Name A K J} {renumber : I → J} {report : Report L}
  {record : FramedRecord} {visit : Visit} {beyond : Beyond}

/-- The record that a call has appended. -/
def Records (report : Report L) (record : FramedRecord) : Prop :=
  AppendsRecord report.op report.before report.done.state record.toRecord

/-- The record of an operation on names frames itself. -/
theorem structural_framing {op : TracedOp} (structural : op.operation ≠ none) (answers : Kernel.Answers) :
    op.SelfFraming answers := by
  cases op <;> trivial

/-- The record of a proper call has the lengths of its parts. -/
theorem Proper.records (full : helpers.WriteFully) (proper : Proper env helpers place report)
    (grown : traced report = true) : ∃ record, Records report record := by
  rcases (TracedOp.exec_effect proper.ran).2.appends full with ⟨_, same⟩ | ⟨_, _, fits, image, images, appends⟩
  · have length : report.done.state.traceFile = report.before.traceFile := by rw [same]
    simp [traced, length] at grown
  · exact ⟨framedRecord _ _ _ image images fits (structural_framing proper.structural _), appends⟩

/-- The paths of the record are those of the dentries. -/
theorem Proper.paths (full : helpers.WriteFully) (proper : Proper env helpers place report) (alike : Alike report.op)
    (records : Records report record) : record.path1 = report.op.path1.path.bytes ∧
      ∀ named, report.op.path2 = .dentry named → record.path2 = named.path.bytes := by
  obtain ⟨first, second⟩ := AppendsRecord.paths records full proper.ran
  rw [first, second]
  constructor
  · unfold RecordPlan.part1
    split
    · rename_i named two
      exact (overlay_eq_first _ _).mpr (alike named two)
    · rfl
  · intro named two
    have plan : (report.op.plan (answersOf report.done.events)).path2 = .dentry named := two
    rw [RecordPlan.part2, plan]

/-- `treplay` gets the record of a proper call with the real paths. -/
theorem Proper.shown (full : helpers.WriteFully) (proper : Proper env helpers place report) (alike : Alike report.op)
    (records : Records report record) (shows : Shows record visit) (terminated : beyond.Terminated) :
    ∃ args, visit.args beyond = some args ∧ RealRecord report args := by
  obtain ⟨first, second⟩ := proper.paths full alike records
  obtain ⟨_, plain⟩ := AppendsRecord.paths records full proper.ran
  have one : ∀ byte ∈ record.path1, byte ≠ 0 := by
    rw [first]
    exact report.op.path1.path.noNul
  have two : ∀ byte ∈ record.path2, byte ≠ 0 := by
    rw [plain]
    exact part2_noNul _
  obtain ⟨args, found, tracer, path1, path2⟩ := shows.args terminated one two
  refine ⟨args, found, record.toRecord, records, tracer, CString.ext (path1.trans first), ?_⟩
  intro named same
  have bytes := second named same
  have here : named ∈ report.op.dentries := List.mem_cons_of_mem _ (SecondPath.mem_dentries.mpr same)
  obtain ⟨rest, slash⟩ := proper.rooted named here
  have present : record.header.pathLen2 ≠ 0 := by
    intro zero
    have length := record.pathLen2
    change record.header.pathLen2.toInt = _ at length
    rw [zero, bytes, slash] at length
    change (0 : Int) = _ at length
    simp at length
    omega
  obtain ⟨text, there, spelled⟩ := Option.map_eq_some_iff.mp (path2 present)
  rw [there, CString.ext (spelled.trans bytes)]

/-- The process after the replay of a record. -/
theorem Process.replay_done {visit : Visit} {process : Process σ} {args : ReplayArgs} {beyond : Nat → Beyond}
    {done : Execution SystemCall.Reply σ (BitVec 32 × Bool)}
    (strings : visit.args (beyond process.log.length) = some args)
    (ran : (replayRecord process.fd args).exec handler process.system = some done) :
    Process.replay handler beyond visit process =
      some (⟨done.value.1, done.state, process.log ++ [⟨args, process.fd, process.system, done⟩]⟩, done.value.2) := by
  simp [Process.replay, strings, ran]

end

section
variable {L A K I : Type} {env : Environment L} {helpers : Helpers} {tree : L → Tree Name A K I} {report : Report L}

/-- The calls begin and end with these trees, and nobody changes the tree between them. -/
def Successive (tree : L → Tree Name A K I) : Tree Name A K I → List (Report L) → Tree Name A K I → Prop
  | start, [], final => final.entry = start.entry
  | start, report :: rest, final => (tree report.before.visible.lower).entry = start.entry ∧
      Successive tree (tree report.done.state.visible.lower) rest final

/-- A call that changes no name and whose bit is clear. -/
structure Aside (env : Environment L) (helpers : Helpers) (tree : L → Tree Name A K I) (report : Report L) : Prop where
  ran : report.op.exec env helpers report.before = some report.done
  bit : ¬ bitSet report.before.mask report.op.kind
  still : (tree report.done.state.visible.lower).entry = (tree report.before.visible.lower).entry

/-- A call aside leaves no record. -/
theorem Aside.silent (full : helpers.WriteFully) (aside : Aside env helpers tree report) : traced report = false := by
  rcases (TracedOp.exec_effect aside.ran).2.appends full with ⟨_, same⟩ | ⟨_, bit, _⟩
  · have length : report.done.state.traceFile = report.before.traceFile := by rw [same]
    simp [traced, length]
  · exact absurd bit aside.bit

/-- A list of reports may begin at any tree with the same entries. -/
theorem Successive.congr {start other final : Tree Name A K I} {reports : List (Report L)}
    (successive : Successive tree start reports final) (same : start.entry = other.entry) :
    Successive tree other reports final := by
  cases reports with
  | nil => exact Eq.trans successive same
  | cons report rest => exact ⟨successive.1.trans same, successive.2⟩

/-- A call whose replay repeats it, or a call that leaves neither a record nor a change. -/
def Repeatable (env : Environment L) (helpers : Helpers) (tree : L → Tree Name A K I)
    (place : L → LowerDentry → List Name) (report : Report L) : Prop :=
  (Proper env helpers place report ∧ Alike report.op ∧ Interposed report) ∨ Aside env helpers tree report

/-- The calls that changed nothing can be left out. -/
theorem Successive.filter {start final : Tree Name A K I} {reports : List (Report L)} {keep : Report L → Bool}
    (successive : Successive tree start reports final)
    (still : ∀ report ∈ reports, keep report = false →
      (tree report.done.state.visible.lower).entry = (tree report.before.visible.lower).entry) :
    Successive tree start (reports.filter keep) final := by
  induction reports generalizing start with
  | nil => exact successive
  | cons report rest ih =>
      obtain ⟨now, others⟩ := List.forall_mem_cons.mp still
      have later := ih successive.2 others
      cases kept : keep report with
      | true =>
          rw [List.filter_cons_of_pos kept]
          exact ⟨successive.1, later⟩
      | false =>
          rw [List.filter_cons_of_neg (by simp [kept])]
          exact later.congr ((now kept).trans successive.1)

end

section
variable {L A K I : Type} [DecidableEq I] {policy : Policy A K (BitVec 16)} {env : Environment L} {helpers : Helpers}
  {tree : L → Tree Name A K I} {place : L → LowerDentry → List Name} {peek : L → BitVec 64 → BitVec 64}
  {client : Client}

/-- The calls of a control request. -/
def Requested : Call → Prop
  | .lower c => ¬ c.Effective
  | .upper (.lowerFile _) | .upper (.attributes _) | .upper (.setAttributes ..) | .setMask _ | .copyMaskToUser _ => True
  | _ => False

/-- The ioctl makes only calls that it is permitted. -/
theorem trfsUnlockedIoctl_requested (file : File) (fileInode : Inode) (cmd : BitVec 32) (arg : BitVec 64) :
    (trfsUnlockedIoctl file fileInode cmd arg).Calls Requested := by
  have masks : (maskRequest cmd arg).Calls Requested := by
    unfold maskRequest
    split
    · exact ⟨trivial, fun _ => trivial⟩
    · split
      · exact ⟨trivial, fun _ => trivial⟩
      · trivial
  apply masks.bind
  intro _
  refine ⟨trivial, fun lowerFile => ?_⟩
  cases lowerFile with
  | none => trivial
  | some lowerFile =>
      refine ⟨id, fun reply => ?_⟩
      change (runIf _ _ >>= fun _ => _).Calls Requested
      apply Program.Calls.bind
      · unfold runIf
        split
        · exact ⟨id, fun _ => ⟨trivial, fun _ => ⟨trivial, fun _ => trivial⟩⟩⟩
        · trivial
      · exact fun _ => trivial

/-- A control request leaves the tree alone. -/
theorem trfsUnlockedIoctl_tree (posix : Posix policy env tree place)
    (copies : ∀ address value state, tree (env.copyToUser address value state).2 = tree state) {file : File}
    {fileInode : Inode} {cmd : BitVec 32} {arg : BitVec 64} {state : Machine L}
    {done : Execution Call.Reply (Machine L) (BitVec 64)}
    (ran : (trfsUnlockedIoctl file fileInode cmd arg).exec (handle env helpers) state = some done) :
    tree done.state.visible.lower = tree state.visible.lower := by
  have kept : ∀ c (before : Machine L) reply after, Requested c →
      tree before.visible.lower = tree state.visible.lower → handle env helpers c before = some (reply, after) →
        tree after.visible.lower = tree state.visible.lower := by
    intro c before reply after requested same answered
    cases c with
    | lower c =>
        obtain ⟨_, rfl⟩ := Prod.mk.inj (Option.some.inj answered)
        exact (posix.steady c _ requested).1.trans same
    | upper c =>
        obtain ⟨_, rfl⟩ := Prod.mk.inj (Option.some.inj answered)
        cases c <;> first | exact requested.elim | exact same
    | copyMaskToUser address =>
        obtain ⟨_, rfl⟩ := Prod.mk.inj (Option.some.inj answered)
        exact (copies address before.mask before.visible.lower).trans same
    | setMask value =>
        obtain ⟨_, rfl⟩ := Prod.mk.inj (Option.some.inj answered)
        exact same
    | _ => exact requested.elim
  exact (trfsUnlockedIoctl_requested file fileInode cmd arg).exec_keeps kept rfl ran

/-- A control program leaves the lower tree. -/
theorem serve_tree (posix : Posix policy env tree place)
    (copies : ∀ address value state, tree (env.copyToUser address value state).2 = tree state) {α : Type}
    {program : Ctl α} {state : Machine L} {done : Execution ControlCall.Reply (Machine L) α}
    (ran : program.exec (serve env helpers peek client) state = some done) :
    tree done.state.visible.lower = tree state.visible.lower := by
  have kept : ∀ c (before : Machine L) reply after, True →
      tree before.visible.lower = tree state.visible.lower →
      serve env helpers peek client c before = some (reply, after) →
        tree after.visible.lower = tree state.visible.lower := by
    intro c before reply after _ same answered
    cases c with
    | ioctl fd cmd arg =>
        obtain ⟨asked, ran, found⟩ := Option.map_eq_some_iff.mp answered
        obtain ⟨_, rfl⟩ := Prod.mk.inj found
        exact (trfsUnlockedIoctl_tree posix copies ran).trans same
    | ioctlRet fd =>
        obtain ⟨asked, ran, found⟩ := Option.map_eq_some_iff.mp answered
        obtain ⟨_, rfl⟩ := Prod.mk.inj found
        exact (trfsUnlockedIoctl_tree posix copies ran).trans same
    | _ =>
        obtain ⟨_, rfl⟩ := Prod.mk.inj (Option.some.inj answered)
        exact same
  exact (calls_anything program).exec_keeps kept rfl ran

/-- A change outside the mount that leaves the names alone. -/
def KeepsNames (tree : L → Tree Name A K I) : Activity L → Prop
  | .outside change => ∀ visible, (tree (change visible).lower).entry = (tree visible.lower).entry
  | _ => True

/-- The calls of a run follow each other on the tree. -/
theorem runActivities_successive (posix : Posix policy env tree place)
    (copies : ∀ address value state, tree (env.copyToUser address value state).2 = tree state)
    {activities : List (Activity L)} {before last : Machine L} {reports : List (Report L)}
    (ran : runActivities env helpers peek activities before = some (reports, last))
    (keeps : ∀ activity ∈ activities, KeepsNames tree activity) :
    Successive tree (tree before.visible.lower) reports (tree last.visible.lower) := by
  induction activities generalizing before reports with
  | nil =>
      obtain ⟨rfl, rfl⟩ := Prod.mk.inj (Option.some.inj ran)
      rfl
  | cons activity rest ih =>
      obtain ⟨now, others⟩ := List.forall_mem_cons.mp keeps
      cases activity with
      | trctl client argv =>
          obtain ⟨done, first, continued⟩ := Option.bind_eq_some_iff.mp ran
          have same := serve_tree posix copies first
          exact (ih continued others).congr (congrArg Tree.entry same)
      | call op =>
          obtain ⟨done, first, later⟩ := Option.bind_eq_some_iff.mp ran
          obtain ⟨⟨more, reached⟩, continued, same⟩ := Option.map_eq_some_iff.mp later
          obtain ⟨rfl, rfl⟩ := Prod.mk.inj same
          exact ⟨rfl, ih continued others⟩
      | outside change => exact (ih ran others).congr (now before.visible)

/-- A call that leaves no record changes nothing. -/
theorem Repeatable.still (full : helpers.WriteFully) (posix : Posix policy env tree place) {report : Report L}
    (repeatable : Repeatable env helpers tree place report) (silent : traced report = false) :
    (tree report.done.state.visible.lower).entry = (tree report.before.visible.lower).entry := by
  rcases repeatable with ⟨proper, _, interposed⟩ | aside
  · rcases proper.performs full posix interposed with ⟨grown, _⟩ | ⟨_, same⟩
    · rw [silent] at grown
      cases grown
    · exact same
  · exact aside.still

end

section
variable {L A K I : Type} {env : Environment L} {helpers : Helpers} {tree : L → Tree Name A K I}
  {place : L → LowerDentry → List Name} {peek : L → BitVec 64 → BitVec 64}

/-- The trace file of a run holds one record for each traced call. -/
theorem runActivities_records (full : helpers.WriteFully) {activities : List (Activity L)} {before last : Machine L}
    {reports : List (Report L)} (ran : runActivities env helpers peek activities before = some (reports, last))
    (repeatable : ∀ report ∈ reports, Repeatable env helpers tree place report) :
    ∃ records : List FramedRecord, List.Forall₂ Records (reports.filter traced) records ∧
      last.traceFile = before.traceFile ++ traceBytes records := by
  induction activities generalizing before reports with
  | nil =>
      obtain ⟨rfl, rfl⟩ := Prod.mk.inj (Option.some.inj ran)
      exact ⟨[], .nil, (List.append_nil _).symm⟩
  | cons activity rest ih =>
      cases activity with
      | trctl client argv =>
          obtain ⟨done, first, continued⟩ := Option.bind_eq_some_iff.mp ran
          obtain ⟨records, recorded, file⟩ := ih continued repeatable
          refine ⟨records, recorded, ?_⟩
          rw [file, serve_keeps first]
      | call op =>
          obtain ⟨done, first, later⟩ := Option.bind_eq_some_iff.mp ran
          obtain ⟨⟨more, reached⟩, continued, same⟩ := Option.map_eq_some_iff.mp later
          obtain ⟨rfl, rfl⟩ := Prod.mk.inj same
          obtain ⟨now, others⟩ := List.forall_mem_cons.mp repeatable
          obtain ⟨records, recorded, file⟩ := ih continued others
          cases grown : traced (⟨op, before, done⟩ : Report L) with
          | true =>
              have record : ∃ record, Records (⟨op, before, done⟩ : Report L) record := by
                rcases now with ⟨proper, _⟩ | aside
                · exact proper.records full grown
                · rw [aside.silent full] at grown
                  cases grown
              obtain ⟨record, appended⟩ := record
              rw [List.filter_cons_of_pos grown]
              refine ⟨record :: records, .cons appended recorded, ?_⟩
              have bytes : done.state.traceFile = before.traceFile ++ record.bytes := appended.bytes
              rw [file, bytes, traceBytes_cons, List.append_assoc]
          | false =>
              have quiet : done.state.traceFile = before.traceFile := by
                rcases (TracedOp.exec_effect first).2.appends full with ⟨_, same⟩ | ⟨_, _, _, _, _, appends⟩
                · rw [same]
                · simp [traced, appends.bytes, Record.bytes, appends.image, sizeofTraceDs] at grown
              rw [List.filter_cons_of_neg (by simp [grown])]
              exact ⟨records, recorded, by rw [file, quiet]⟩
      | outside change =>
          obtain ⟨records, recorded, file⟩ := ih ran repeatable
          exact ⟨records, recorded, file⟩

end

section
variable {L σ A K I J : Type} [DecidableEq I] [DecidableEq J] {policy : Policy A K (BitVec 16)} {env : Environment L}
  {helpers : Helpers} {tree : L → Tree Name A K I} {place : L → LowerDentry → List Name}
  {handler : Handler SystemCall.Reply σ} {view : σ → Tree Name A K J} {renumber : I → J}
  {peek : L → BitVec 64 → BitVec 64}

/-- In the middle of the replay: the calls whose records are left, and a copy of the tree in which they begin. -/
structure Replaying (env : Environment L) (helpers : Helpers) (policy : Policy A K (BitVec 16))
    (tree : L → Tree Name A K I) (place : L → LowerDentry → List Name) (view : σ → Tree Name A K J) (renumber : I → J)
    (reports : List (Report L)) (final : Tree Name A K I) (records : List FramedRecord) (process : Process σ) : Prop where
  left : ∃ past next start, reports = past ++ next ∧ List.Forall₂ (Mirrors policy tree view renumber) past process.log ∧
    List.Forall₂ Records next records ∧ Successive tree start next final ∧
      Embeds policy (components replayPath) renumber start (view process.system)

/-- The replay of one record goes on to the next. -/
theorem Replaying.step (full : helpers.WriteFully) (posix : Posix policy env tree place)
    (calls : PosixCalls policy handler view) (distinct : Function.Injective renumber) {reports : List (Report L)}
    (proper : ∀ report ∈ reports, traced report = true ∧
      Proper env helpers place report ∧ Alike report.op ∧ Interposed report)
    {final : Tree Name A K I} {beyond : Nat → Beyond} (terminated : ∀ round, (beyond round).Terminated) :
    Agreeing (Process.replay handler beyond)
      (Replaying env helpers policy tree place view renumber reports final) := by
  intro record rest process visit replaying shows
  obtain ⟨past, next, start, rfl, mirrored, recorded, successive, copy⟩ := replaying
  cases recorded with
  | @cons report _ next _ appended recorded =>
      have member : report ∈ past ++ report :: next := List.mem_append_right _ List.mem_cons_self
      obtain ⟨grown, proper, alike, interposed⟩ := proper report member
      obtain ⟨same, successive⟩ := successive
      obtain ⟨args, strings, real⟩ := proper.shown full alike appended shows (terminated process.log.length)
      rcases proper.performs full posix interposed with ⟨_, operation, reached, own, applied, entries⟩ | ⟨silent, _⟩
      · have here : Embeds policy (components replayPath) renumber (tree report.before.visible.lower)
            (view process.system) := copy.congr same rfl
        obtain ⟨done, ran, _, mirrors⟩ := proper.mirrors full calls distinct real here own applied entries process.fd
        refine ⟨⟨done.value.1, done.state, process.log ++ [⟨args, process.fd, process.system, done⟩]⟩, ?_,
          past ++ [report], next, tree report.done.state.visible.lower, ?_, ?_, recorded, successive, mirrors.copy⟩
        · rw [Process.replay_done strings ran, mirrors.agrees]
        · rw [List.append_assoc, List.singleton_append]
        · exact List.rel_append mirrored (.cons mirrors .nil)
      · rw [grown] at silent
        cases silent

end

/-- The bits of mkdir and rmdir. -/
def directoriesWord : CString := ⟨ascii "0x300", by decide +kernel⟩

/-- `trctl 0x300 PATH`, then the directories `/a` and `/b` are made and `/a` is removed. -/
def makings : List (Activity PlainTree) :=
  [.trctl rootClient [junk, directoriesWord, junk], .call (.mkdir ⟨1⟩ dentryA 0x1ed), .call (.mkdir ⟨1⟩ dentryB 0x1ed),
    .call (.rmdir ⟨1⟩ dentryA)]

/-- The three operations run and leave a trace of 90 bytes. -/
theorem makings_run : ∃ reports last,
    runActivities treeEnvironment reliable (fun _ _ => 0) makings treeMount = some (reports, last) ∧
      last.traceFile.length = 90 ∧ reports.length = 3 ∧
      ∀ report ∈ reports, Repeatable treeEnvironment reliable id (fun _ => placeOf) report := by
  have shows : (runActivities treeEnvironment reliable (fun _ _ => 0) makings treeMount).map
      (fun ran => (ran.2.traceFile.length, ran.1.map shownBy)) =
        some (90, List.replicate 3 (true, 0x300, ⟨⟨1⟩, 0⟩, ⟨⟨2⟩, 0⟩)) := by decide +kernel
  obtain ⟨⟨reports, last⟩, ran, seen⟩ := Option.map_eq_some_iff.mp shows
  obtain ⟨size, shown⟩ := Prod.mk.inj seen
  refine ⟨reports, last, ran, size, by simpa using congrArg List.length shown, ?_⟩
  obtain ⟨switched, _, three⟩ := Option.bind_eq_some_iff.mp ran
  obtain ⟨madeA, first, rest⟩ := Option.bind_eq_some_iff.mp three
  obtain ⟨⟨_, _⟩, two, same⟩ := Option.map_eq_some_iff.mp rest
  obtain ⟨rfl, rfl⟩ := Prod.mk.inj same
  obtain ⟨madeB, second, rest⟩ := Option.bind_eq_some_iff.mp two
  obtain ⟨⟨_, _⟩, one, same⟩ := Option.map_eq_some_iff.mp rest
  obtain ⟨rfl, rfl⟩ := Prod.mk.inj same
  obtain ⟨removed, third, rest⟩ := Option.bind_eq_some_iff.mp one
  obtain ⟨⟨_, _⟩, zero, same⟩ := Option.map_eq_some_iff.mp rest
  obtain ⟨rfl, rfl⟩ := Prod.mk.inj same
  obtain ⟨rfl, rfl⟩ := Prod.mk.inj (Option.some.inj zero)
  obtain ⟨shownA, shown⟩ := List.cons.inj shown
  obtain ⟨shownB, shown⟩ := List.cons.inj shown
  obtain ⟨gone, _⟩ := List.cons.inj shown
  have alone : ∀ op : TracedOp, op.path2 = .absent → Alike op := by
    intro op absent named two
    rw [absent] at two
    cases two
  intro report member
  rcases List.mem_cons.mp member with rfl | member
  · exact .inl ⟨(plain_proper first shownA (by decide) (by decide) namedA).1, alone _ rfl, nofun⟩
  rcases List.mem_cons.mp member with rfl | member
  · exact .inl ⟨(plain_proper second shownB (by decide) (by decide) namedB).1, alone _ rfl, nofun⟩
  obtain rfl := List.mem_singleton.mp member
  exact .inl ⟨(plain_proper third gone (by decide) (by decide) namedA).1, alone _ rfl, nofun⟩

end Trfs.Replay
