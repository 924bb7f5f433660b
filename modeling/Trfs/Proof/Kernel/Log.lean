import Mathlib.Data.List.Forall2
import Mathlib.Data.List.ReduceOption
import Trfs.Construction.Kernel.Run
import Trfs.Proof.Kernel.Records

namespace Trfs.Kernel
open Bytes Effect Trace

/-- The calls of a control request. -/
def IsControl : Call → Prop
  | .lower _ | .upper _ | .setMask _ | .copyMaskToUser _ => True
  | _ => False

section
attribute [local simp] Program.Calls IsControl

/-- The mask request only controls. -/
theorem maskRequest_control (cmd : BitVec 32) (arg : BitVec 64) : (maskRequest cmd arg).Calls IsControl := by
  unfold maskRequest
  split
  · exact ⟨trivial, fun _ => trivial⟩
  · split <;> simp

/-- A controlling action under a condition only controls. -/
theorem runIf_control (condition : Prop) [Decidable condition] {action : Prog Unit}
    (control : action.Calls IsControl) : (runIf condition action).Calls IsControl := by
  unfold runIf
  split
  · exact control
  · trivial

/-- The ioctl only controls. -/
theorem trfsUnlockedIoctl_control (file : File) (fileInode : Inode) (cmd : BitVec 32) (arg : BitVec 64) :
    (trfsUnlockedIoctl file fileInode cmd arg).Calls IsControl := by
  apply Program.Calls.bind (maskRequest_control cmd arg)
  intro _
  refine ⟨trivial, fun lowerFile => ?_⟩
  cases lowerFile with
  | none => trivial
  | some lowerFile =>
      refine ⟨trivial, fun reply => ?_⟩
      exact (runIf_control _ (by simp [fsstackCopyAttrAll, fsstackCopy])).bind fun _ => trivial

end

section
variable {L : Type} {env : Environment L} {helpers : Helpers}

/-- A control request changes nothing of the tracer but the mask. -/
theorem trfsUnlockedIoctl_exec {file : File} {fileInode : Inode} {cmd : BitVec 32} {arg : BitVec 64}
    {state : Machine L} {done : Execution Call.Reply (Machine L) (BitVec 64)}
    (ran : (trfsUnlockedIoctl file fileInode cmd arg).exec (handle env helpers) state = some done) :
    done.state = { state with visible := done.state.visible, mask := done.state.mask } := by
  have kept : ∀ c (before : Machine L) reply after, IsControl c →
      before = { state with visible := before.visible, mask := before.mask } →
      handle env helpers c before = some (reply, after) →
      after = { state with visible := after.visible, mask := after.mask } := by
    intro c before reply after control same answered
    cases c with
    | tracer c => exact control.elim
    | oops => exact control.elim
    | _ =>
        obtain ⟨_, rfl⟩ := Prod.mk.inj (Option.some.inj answered)
        rw [same]
  exact (trfsUnlockedIoctl_control file fileInode cmd arg).exec_keeps kept rfl ran

/-- The call succeeded: the byte count is not negative, or the result is 0. -/
def TracedOp.Succeeds (op : TracedOp) (err : BitVec 32) : Prop :=
  match op.kind with
  | .read | .write => 0 ≤ err.toInt
  | _ => err = 0

/-- A call that succeeds has reached its block, if the new dentry of a link is positive. -/
theorem TracedOp.succeeds_reaches {op : TracedOp} {answers : Answers} {err : BitVec 32}
    (positive : answers.lower = some 0 → answers.negative ≠ some true) (returned : op.Returned answers err)
    (succeeds : op.Succeeds err) : op.Reaches answers := by
  cases op with
  | «open» inode file =>
      obtain rfl : err = 0 := succeeds
      rcases returned with ⟨_, _, wrong⟩ | ⟨_, _, wrong⟩ | ⟨hashed, allocated, _⟩
      · exact absurd wrong (by decide)
      · exact absurd wrong (by decide)
      · exact ⟨hashed, allocated⟩
  | read file buf count ppos => trivial
  | write file buf count ppos => trivial
  | release file => trivial
  | create dir dentry mode wantExcl => trivial
  | link oldDentry dir newDentry =>
      obtain rfl : err = 0 := succeeds
      rcases returned with ⟨_, wrong⟩ | ⟨lower, negative, _⟩ | reaches
      · exact absurd rfl wrong
      · exact absurd negative (positive lower)
      · exact reaches
  | unlink dir dentry =>
      obtain rfl : err = 0 := succeeds
      exact returned.symm.imp (fun plain => plain.1) fun silly => ⟨silly.1, silly.2.1⟩
  | symlink dir dentry symname =>
      obtain rfl : err = 0 := succeeds
      exact returned.resolve_left fun wrong => wrong.2 rfl
  | mkdir dir dentry mode =>
      obtain rfl : err = 0 := succeeds
      exact (returned.resolve_left fun wrong => wrong.2 rfl).1
  | rmdir dir dentry =>
      obtain rfl : err = 0 := succeeds
      exact returned
  | mknod dir dentry mode dev =>
      obtain rfl : err = 0 := succeeds
      exact returned.resolve_left fun wrong => wrong.2 rfl
  | rename oldDir oldDentry newDir newDentry =>
      obtain rfl : err = 0 := succeeds
      exact returned.resolve_left fun wrong => absurd wrong.2 (by decide)

/-- The entry of the log that belongs to one call. -/
structure Report.Logged (report : Report L) (entry : Option Record) : Prop where
  clear : ¬ bitSet report.before.mask report.op.kind → entry = none
  nothing : entry = none → report.done.state.traceFile = report.before.traceFile ∧
    report.done.state.recordId = report.before.recordId
  record : ∀ record, entry = some record → AppendsRecord report.op report.before report.done.state record
  success : bitSet report.before.mask report.op.kind → report.op.Succeeds report.done.value.err →
    entry.isSome

/-- A lower link that returned 0 left its new dentry positive. -/
def Report.LinksPositive (report : Report L) : Prop :=
  (answersOf report.done.events).lower = some 0 → (answersOf report.done.events).negative ≠ some true

/-- A finished operation has logged its record, or nothing. -/
theorem exec_logged {op : TracedOp} {state : Machine L} {done : Done L} (full : helpers.WriteFully)
    (ran : op.exec env helpers state = some done) (positive : Report.LinksPositive ⟨op, state, done⟩) :
    ∃ entry, Report.Logged ⟨op, state, done⟩ entry := by
  obtain ⟨returned, effect⟩ := TracedOp.exec_effect ran
  rcases effect.appends full with ⟨unrecorded, same⟩ | ⟨_, bit, _, image, _, appends⟩
  · refine ⟨none, fun _ => rfl, fun _ => ?_, nofun, fun bit succeeds => ?_⟩
    · rw [same]
      exact ⟨rfl, rfl⟩
    · exact absurd ⟨TracedOp.succeeds_reaches positive returned succeeds, bit⟩ unrecorded
  · exact ⟨some _, fun clear => absurd bit clear, nofun, fun record same => Option.some.inj same ▸ appends,
      fun _ _ => rfl⟩

/-- The log of a run, as it continues the trace file and the counter of its first state. -/
structure Continues (before last : Machine L) (records : List Record) : Prop where
  traceFile : last.traceFile = before.traceFile ++ records.flatMap Record.bytes
  numbered : ∀ index record, records[index]? = some record →
    record.header.recordId = before.recordId + BitVec.ofNat 32 index
  counter : last.recordId = before.recordId + BitVec.ofNat 32 records.length

/-- The empty log continues every state. -/
theorem Continues.refl (state : Machine L) : Continues state state [] where
  traceFile := (List.append_nil _).symm
  numbered := nofun
  counter := (BitVec.add_zero _).symm

/-- Logs are appended. -/
theorem Continues.trans {first second third : Machine L} {front back : List Record}
    (early : Continues first second front) (late : Continues second third back) :
    Continues first third (front ++ back) where
  traceFile := by
    rw [late.traceFile, early.traceFile, List.flatMap_append, List.append_assoc]
  numbered := by
    intro index record found
    rcases Nat.lt_or_ge index front.length with inside | beyond
    · rw [List.getElem?_append_left inside] at found
      exact early.numbered index record found
    · rw [List.getElem?_append_right beyond] at found
      rw [late.numbered _ record found, early.counter, BitVec.add_assoc, ← BitVec.ofNat_add,
        Nat.add_sub_cancel' beyond]
  counter := by
    rw [late.counter, early.counter, BitVec.add_assoc, ← BitVec.ofNat_add, List.length_append]

/-- A call continues the log with its entry. -/
theorem Report.Logged.continues {report : Report L} {entry : Option Record} (logged : report.Logged entry) :
    Continues report.before report.done.state entry.toList := by
  cases entry with
  | none =>
      obtain ⟨file, counter⟩ := logged.nothing rfl
      exact ⟨by rw [file]; simp, nofun, by rw [counter]; simp⟩
  | some record =>
      have appends := logged.record record rfl
      refine ⟨by rw [appends.bytes]; simp, ?_, appends.counter⟩
      intro index found inside
      have only : index = 0 ∧ record = found := by
        cases index with
        | zero => exact ⟨rfl, Option.some.inj inside⟩
        | succ index => exact nomatch inside
      obtain ⟨rfl, rfl⟩ := only
      rw [appends.recordId]
      simp

/-- The log of a list of requests is the list of their records. -/
theorem runRequests_log {requests : List (Request L)} {before last : Machine L} {reports : List (Report L)}
    (full : helpers.WriteFully) (ran : runRequests env helpers requests before = some (reports, last))
    (positive : ∀ report ∈ reports, report.LinksPositive) :
    ∃ log, List.Forall₂ Report.Logged reports log ∧ Continues before last log.reduceOption := by
  induction requests generalizing before reports with
  | nil =>
      obtain ⟨rfl, rfl⟩ := Prod.mk.inj (Option.some.inj ran)
      exact ⟨[], .nil, .refl before⟩
  | cons request rest ih =>
      cases request with
      | call op =>
          obtain ⟨done, first, later⟩ := Option.bind_eq_some_iff.mp ran
          obtain ⟨⟨others, reached⟩, continued, same⟩ := Option.map_eq_some_iff.mp later
          obtain ⟨rfl, rfl⟩ := Prod.mk.inj same
          obtain ⟨entry, logged⟩ := exec_logged full first (positive _ List.mem_cons_self)
          obtain ⟨log, entries, continues⟩ := ih continued fun report member =>
            positive report (List.mem_cons_of_mem _ member)
          refine ⟨entry :: log, .cons logged entries, ?_⟩
          have split : (entry :: log).reduceOption = entry.toList ++ log.reduceOption := by
            cases entry with
            | none => exact List.reduceOption_cons_of_none log
            | some record => exact List.reduceOption_cons_of_some record log
          rw [split]
          exact logged.continues.trans continues
      | ioctl file fileInode cmd arg =>
          obtain ⟨done, first, continued⟩ := Option.bind_eq_some_iff.mp ran
          obtain ⟨log, entries, continues⟩ := ih continued positive
          have same := trfsUnlockedIoctl_exec first
          refine ⟨log, entries, ?_⟩
          rw [same] at continues
          exact ⟨continues.traceFile, continues.numbered, continues.counter⟩
      | outside change =>
          obtain ⟨log, entries, continues⟩ := ih ran positive
          exact ⟨log, entries, continues.traceFile, continues.numbered, continues.counter⟩

/-- From the mount on, the trace file is the log of the calls and the counter is its length. -/
theorem sequentialLog {visible : Visible L} {tfilePath : CString} {requests : List (Request L)}
    {reports : List (Report L)} {last : Machine L} (full : helpers.WriteFully)
    (ran : runRequests env helpers requests (mounted visible tfilePath) = some (reports, last))
    (positive : ∀ report ∈ reports, report.LinksPositive) :
    ∃ log, List.Forall₂ Report.Logged reports log ∧
      last.traceFile = log.reduceOption.flatMap Record.bytes ∧
      (∀ index record, log.reduceOption[index]? = some record →
        record.header.recordId = BitVec.ofNat 32 index) ∧
      last.recordId = BitVec.ofNat 32 log.reduceOption.length := by
  obtain ⟨log, entries, continues⟩ := runRequests_log full ran positive
  have zero : (mounted visible tfilePath).recordId = 0 := rfl
  refine ⟨log, entries, continues.traceFile, ?_, ?_⟩
  · intro index record found
    rw [continues.numbered index record found, zero]
    exact BitVec.zero_add _
  · rw [continues.counter, zero]
    exact BitVec.zero_add _

/-- A fresh mount logs a mkdir and nothing of the read after its bit was cleared. -/
theorem sequentialLog_mkdir : ∃ reports last,
    runRequests (steady 0 2) reliable
        [.call (.mkdir ⟨1⟩ dentryA 0x1ed), .ioctl fileA ⟨1⟩ NONE 0, .call (.read fileA 0 2 0)] freshMount =
      some (reports, last) ∧
    ∃ log, List.Forall₂ Report.Logged reports log ∧
      last.traceFile = log.reduceOption.flatMap Record.bytes ∧
      (∀ index record, log.reduceOption[index]? = some record →
        record.header.recordId = BitVec.ofNat 32 index) ∧
      last.recordId = BitVec.ofNat 32 log.reduceOption.length := by
  have shows : (runRequests (steady 0 2) reliable
      [.call (.mkdir ⟨1⟩ dentryA 0x1ed), .ioctl fileA ⟨1⟩ NONE 0, .call (.read fileA 0 2 0)] freshMount).map
        (fun ran => (ran.2.traceFile.length, ran.1.map fun report => (answersOf report.done.events).negative)) =
      some (30, [none, none]) := by decide +kernel
  obtain ⟨⟨reports, last⟩, ran, seen⟩ := Option.map_eq_some_iff.mp shows
  refine ⟨reports, last, ran, sequentialLog reliable_full ran fun report member _ => ?_⟩
  have among : (answersOf report.done.events).negative ∈ [none, none] :=
    (Prod.mk.inj seen).2 ▸ List.mem_map_of_mem member
  intro negative
  rw [negative] at among
  exact absurd among (by decide)

/-- The trace file holds whole records, and the counter counts them. -/
def WholeLog (state : Machine L) : Prop :=
  ∃ records : List FramedRecord, state.traceFile = traceBytes records ∧
    state.recordId = BitVec.ofNat 32 records.length

/-- A write of this length to the trace file loses no byte. -/
def WriteOutcome.Delivers : WriteOutcome → Nat → Prop
  | .full, _ => True
  | .short count, length => length ≤ count
  | .failed _, length => length = 0

/-- The step does not reach the two defects: each of its writes to the trace file completes, and its
record is self-framing. -/
def Report.WritesWhole (helpers : Helpers) (report : Report L) : Prop :=
  report.op.Reaches (answersOf report.done.events) → bitSet report.before.mask report.op.kind →
    report.op.SelfFraming (answersOf report.done.events) ∧
      ∀ index length,
        (sizeofTraceDs :: (report.op.plan (answersOf report.done.events)).parts.map List.length)[index]? =
          some length → (helpers.write (report.before.traceWrites + index)).Delivers length

/-- A write that delivers lets all bytes arrive. -/
theorem WriteOutcome.Delivers.arriving {outcome : WriteOutcome} {bytes : List Byte}
    (delivers : outcome.Delivers bytes.length) : outcome.arriving bytes = bytes := by
  cases outcome with
  | full => rfl
  | short count => exact List.take_of_length_le delivers
  | failed errno => exact (List.length_eq_zero_iff.mp delivers).symm

/-- Writes that all deliver let the whole record arrive. -/
theorem arrivals_whole {start : Nat} {parts : List (List Byte)}
    (delivers : ∀ index length, (parts.map List.length)[index]? = some length →
      (helpers.write (start + index)).Delivers length) :
    arrivals helpers start parts = parts.flatten := by
  induction parts generalizing start with
  | nil => rfl
  | cons part rest ih =>
      have later : ∀ index length, (rest.map List.length)[index]? = some length →
          (helpers.write (start + 1 + index)).Delivers length := by
        intro index length found
        rw [Nat.add_assoc, Nat.add_comm 1]
        exact delivers (index + 1) length found
      have now : (helpers.write start).Delivers part.length := delivers 0 part.length rfl
      rw [arrivals, now.arriving, ih later, List.flatten_cons]

/-- The record of a self-framing plan. -/
def framedRecord (op : TracedOp) (answers : Answers) (recId : BitVec 32) (image : List Byte)
    (images : (op.plan answers).Images recId image) (fits : (op.plan answers).Fits)
    (framing : op.SelfFraming answers) : FramedRecord where
  toRecord := (op.plan answers).record image
  imageSize := images.1
  pathLen1 := by
    obtain ⟨flags, mode, view⟩ := images.2
    exact (congrArg (fun header => header.pathLen1.toInt) view).trans (op.plan_lengths fits framing).1
  pathLen2 := by
    obtain ⟨flags, mode, view⟩ := images.2
    exact (congrArg (fun header => header.pathLen2.toInt) view).trans (op.plan_lengths fits framing).2.1
  writeLen := by
    obtain ⟨flags, mode, view⟩ := images.2
    exact (congrArg (fun header => header.writeLen.toInt) view).trans (op.plan_lengths fits framing).2.2

/-- An operation whose writes deliver keeps the log whole. -/
theorem exec_wholeLog {op : TracedOp} {state : Machine L} {done : Done L} (whole : WholeLog state)
    (ran : op.exec env helpers state = some done) (writes : Report.WritesWhole helpers ⟨op, state, done⟩) :
    WholeLog done.state := by
  obtain ⟨records, file, count⟩ := whole
  cases (TracedOp.exec_effect ran).2 with
  | silent unrecorded same =>
      rw [same]
      exact ⟨records, file, count⟩
  | record reaches bit fits image images helped same =>
      obtain ⟨framing, full⟩ := writes reaches bit
      have lengths : (image :: (op.plan (answersOf done.events)).parts).map List.length =
          sizeofTraceDs :: (op.plan (answersOf done.events)).parts.map List.length := by
        rw [List.map_cons, images.1]
      refine ⟨records ++ [framedRecord op _ _ image images fits framing], ?_, ?_⟩
      · rw [same, arrivals_whole (by rw [lengths]; exact full), file, traceBytes_append,
          ← RecordPlan.record_bytes, traceBytes_cons, traceBytes_nil, List.append_nil]
        rfl
      · rw [same, List.length_append, BitVec.ofNat_add, ← count]
        rfl

/-- So does a list of such operations. -/
theorem runRequests_wholeLog {requests : List (Request L)} {before last : Machine L}
    {reports : List (Report L)} (whole : WholeLog before)
    (ran : runRequests env helpers requests before = some (reports, last))
    (writes : ∀ report ∈ reports, report.WritesWhole helpers) : WholeLog last := by
  induction requests generalizing before reports with
  | nil =>
      obtain ⟨rfl, rfl⟩ := Prod.mk.inj (Option.some.inj ran)
      exact whole
  | cons request rest ih =>
      cases request with
      | call op =>
          obtain ⟨done, first, later⟩ := Option.bind_eq_some_iff.mp ran
          obtain ⟨⟨others, reached⟩, continued, same⟩ := Option.map_eq_some_iff.mp later
          obtain ⟨rfl, rfl⟩ := Prod.mk.inj same
          have now := exec_wholeLog whole first (writes _ List.mem_cons_self)
          exact ih now continued fun report member => writes report (List.mem_cons_of_mem _ member)
      | ioctl file fileInode cmd arg =>
          obtain ⟨done, first, continued⟩ := Option.bind_eq_some_iff.mp ran
          have same := trfsUnlockedIoctl_exec first
          have now : WholeLog done.state := by
            rw [same]
            exact whole
          exact ih now continued writes
      | outside change =>
          have now : WholeLog { before with visible := change before.visible } := whole
          exact ih now ran writes

/-- From the mount on, steps whose writes complete keep the log whole. -/
theorem wholeLog_reached {visible : Visible L} {tfilePath : CString} {requests : List (Request L)}
    {reports : List (Report L)} {last : Machine L}
    (ran : runRequests env helpers requests (mounted visible tfilePath) = some (reports, last))
    (writes : ∀ report ∈ reports, report.WritesWhole helpers) : WholeLog last :=
  runRequests_wholeLog ⟨[], rfl, rfl⟩ ran writes

/-- A read whose writes complete leaves a whole record. -/
theorem wholeLog_read : ∃ reports last,
    runRequests (steady 0 2) reliable [.call (.read fileA 0 2 0)] freshMount = some (reports, last) ∧
      WholeLog last := by
  have shows : (runRequests (steady 0 2) reliable [.call (.read fileA 0 2 0)] freshMount).map
      (fun ran => ran.2.traceFile.length) = some 30 := by decide +kernel
  obtain ⟨⟨reports, last⟩, ran, _⟩ := Option.map_eq_some_iff.mp shows
  have reads : ∀ report ∈ reports, ∃ file buf count ppos, report.op = .read file buf count ppos := by
    obtain ⟨done, _, later⟩ := Option.bind_eq_some_iff.mp ran
    obtain ⟨_, continued, same⟩ := Option.map_eq_some_iff.mp later
    obtain rfl := Option.some.inj continued
    obtain ⟨rfl, _⟩ := Prod.mk.inj same
    intro report member
    obtain rfl := List.mem_singleton.mp member
    exact ⟨_, _, _, _, rfl⟩
  refine ⟨reports, last, ran, wholeLog_reached ran fun report member _ _ => ⟨?_, fun _ _ _ => trivial⟩⟩
  obtain ⟨file, buf, count, ppos, same⟩ := reads report member
  rw [same]
  trivial

/-- The disk fills up while the header is written: ten of its bytes arrive, and the path does not. -/
def fullDisk : Helpers where
  fails _ := none
  garbage _ _ := 0
  write
    | 0 => .short 10
    | _ => .failed ⟨-28, by decide⟩

/-- A whole log is empty or holds a header at least. -/
theorem WholeLog.length {state : Machine L} (whole : WholeLog state) :
    state.traceFile = [] ∨ sizeofTraceDs ≤ state.traceFile.length := by
  obtain ⟨records, file, _⟩ := whole
  cases records with
  | nil => exact .inl file
  | cons record records =>
      right
      rw [file, traceBytes_cons, List.length_append, record.bytes_length]
      omega

/-- After that read the trace file holds ten bytes, which are no record. -/
theorem wholeLog_read_fails : ∃ reports last,
    runRequests (steady 0 2) fullDisk [.call (.read fileA 0 2 0)] freshMount = some (reports, last) ∧
      ¬ WholeLog last := by
  have shows : (runRequests (steady 0 2) fullDisk [.call (.read fileA 0 2 0)] freshMount).map
      (fun ran => ran.2.traceFile.length) = some 10 := by decide +kernel
  obtain ⟨⟨reports, last⟩, ran, size⟩ := Option.map_eq_some_iff.mp shows
  refine ⟨reports, last, ran, fun whole => ?_⟩
  rcases whole.length with none | long
  · rw [none] at size
    exact nomatch size
  · rw [size] at long
    exact absurd long (by decide)

end

end Trfs.Kernel
