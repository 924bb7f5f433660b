import Trfs.Construction.Control.Monitored
import Trfs.Proof.Control.Grammar
import Trfs.Proof.Kernel.WholeRecords
import Trfs.Proof.Replay.RoundTrip

namespace Trfs.Control
open Bytes Effect Trace Kernel Replay

/-- The mask after a run of `trctl` with these arguments. -/
def argvMask (mask : BitVec 64) : List CString → BitVec 64
  | [_, command, _] => commandMask mask command
  | _ :: first :: second :: third :: rest => (first :: second :: third :: rest).dropLast.foldl applyToken mask
  | _ => mask

/-- The masks that the runs of `trctl` give to the calls, in the order of the calls. -/
def callMasks {L : Type} : List (Activity L) → BitVec 64 → List (BitVec 64)
  | [], _ => []
  | .trctl _ argv :: rest, mask => callMasks rest (argvMask mask argv)
  | .call _ :: rest, mask => mask :: callMasks rest mask
  | .outside _ :: rest, mask => callMasks rest mask

section
variable {L : Type} {env : Environment L} {helpers : Helpers} {peek : L → BitVec 64 → BitVec 64} {client : Client}

/-- Every program meets the empty condition. -/
theorem calls_anything {α : Type} (program : Ctl α) : program.Calls fun _ => True := by
  induction program with
  | pure value => trivial
  | call c next ih => exact ⟨trivial, fun reply => ih reply⟩

/-- A control program changes nothing of the tracer but the mask. -/
theorem serve_keeps {α : Type} {program : Ctl α} {state : Machine L}
    {done : Execution ControlCall.Reply (Machine L) α}
    (ran : program.exec (serve env helpers peek client) state = some done) :
    done.state = { state with visible := done.state.visible, mask := done.state.mask } := by
  have kept : ∀ c (before : Machine L) reply after, True →
      before = { state with visible := before.visible, mask := before.mask } →
      serve env helpers peek client c before = some (reply, after) →
      after = { state with visible := after.visible, mask := after.mask } := by
    intro c before reply after _ same answered
    cases c with
    | ioctl fd cmd arg =>
        obtain ⟨asked, ran, found⟩ := Option.map_eq_some_iff.mp answered
        obtain ⟨_, rfl⟩ := Prod.mk.inj found
        rw [trfsUnlockedIoctl_exec ran, same]
    | ioctlRet fd =>
        obtain ⟨asked, ran, found⟩ := Option.map_eq_some_iff.mp answered
        obtain ⟨_, rfl⟩ := Prod.mk.inj found
        rw [trfsUnlockedIoctl_exec ran, same]
    | printf text =>
        obtain ⟨_, rfl⟩ := Prod.mk.inj (Option.some.inj answered)
        exact same
    | «open» path flags =>
        obtain ⟨_, rfl⟩ := Prod.mk.inj (Option.some.inj answered)
        exact same
    | close fd =>
        obtain ⟨_, rfl⟩ := Prod.mk.inj (Option.some.inj answered)
        exact same
  exact (calls_anything program).exec_keeps kept rfl ran

variable (helpers client) in
/-- Every run of `trctl` completes and leaves the mask that its arguments ask for. -/
theorem trctl_masks (serves : Serves env peek) (argv : List CString) (state : Machine L) :
    ∃ done, (trctl argv).exec (serve env helpers peek client) state = some done ∧
      done.state.mask = argvMask state.mask argv := by
  match argv with
  | [] => exact ⟨_, rfl, rfl⟩
  | [_] => exact ⟨_, rfl, rfl⟩
  | [program, path] =>
      obtain ⟨reply, after, answered⟩ := serve_answers helpers client serves (.ioctlRet client.fd) state trivial
      have kept := serve_mask serves (show SetsMask (.ioctlRet client.fd) from trivial) answered
      have shown : (showMask client.fd).exec (serve env helpers peek client) state =
          some ⟨reply.1, after, [⟨.ioctlRet client.fd, reply⟩,
            ⟨.printf ("Current bitmap value is : 0x" ++ hexText reply.2 ++ "\n"), ()⟩]⟩ := by
        simp only [showMask, perform_bind, Program.exec, answered]
        rfl
      obtain ⟨done, ran, last⟩ := opened_exec helpers client showMask shown
      exact ⟨done, ran, by rw [last]; exact kept⟩
  | [program, command, path] => exact trctl_command helpers client serves program command path state
  | program :: first :: second :: third :: rest =>
      generalize arguments : first :: second :: third :: rest = words
      have ends : words ≠ [] := by simp [← arguments]
      have several : 2 ≤ words.dropLast.length := by simp [← arguments]
      obtain ⟨done, ran⟩ := updating_completes helpers client serves (increment_meets words.dropLast state.mask)
        (show MaskIs state state.mask from rfl)
      refine ⟨done, ?_, ?_⟩
      · rw [← List.dropLast_append_getLast ends, trctl_incremental (.inl several), ran]
      · rw [increment_exec serves ran, ← arguments]
        rfl

end

/-- One call with the mask that the runs of `trctl` before it have set, and with its record, if it has one. -/
structure Line (L : Type) where
  report : Report L
  mask : BitVec 64
  entry : Option FramedRecord

/-- The call has a record exactly when it came to its tracer and the mask selects it, and then the record is its own. -/
structure Line.Watched {L : Type} (line : Line L) : Prop where
  selected : line.entry.isSome ↔
    line.report.op.Reaches (answersOf line.report.done.events) ∧ bitSet line.mask line.report.op.kind
  produced : ∀ record, line.entry = some record →
    Produces line.report.op (answersOf line.report.done.events) record.toRecord

/-- The record of a call has the type of the call. -/
theorem Line.Watched.kind {L : Type} {line : Line L} (watched : line.Watched) {record : FramedRecord}
    (own : line.entry = some record) : CallKind.ofRecordType record.header.recordType = some line.report.op.kind := by
  obtain ⟨_, recId, image, ⟨_, flags, mode, view⟩, same⟩ := watched.produced record own
  have header : record.header = TraceDs.view image := congrArg Record.header same
  rw [header, view]
  exact CallKind.ofRecordType_recordType _

section
variable {L : Type} {env : Environment L} {helpers : Helpers} {peek : L → BitVec 64 → BitVec 64} {client : Client}

/-- A log of framed records continues the trace by their bytes. -/
theorem continues_framed {before last : Machine L} {records : List FramedRecord}
    (continues : Continues before last (records.map FramedRecord.toRecord)) :
    last.traceFile = before.traceFile ++ traceBytes records := by
  rw [continues.traceFile, List.flatMap_map]
  rfl

/-- One call whose writes complete leaves its line. -/
theorem exec_watched {op : TracedOp} {state : Machine L} {done : Done L} (ran : op.exec env helpers state = some done)
    (writes : Report.WritesWhole helpers ⟨op, state, done⟩) :
    ∃ entry, Line.Watched ⟨⟨op, state, done⟩, state.mask, entry⟩ ∧ done.state.mask = state.mask ∧
      Continues state done.state (entry.toList.map FramedRecord.toRecord) := by
  cases (TracedOp.exec_effect ran).2 with
  | silent unrecorded same =>
      refine ⟨none, ⟨iff_of_false Bool.false_ne_true unrecorded, fun _ nothing => by cases nothing⟩, by rw [same], ?_⟩
      constructor
      · rw [same]
        simp
      · intro index record found
        cases found
      · rw [same]
        simp
  | record reaches bit fits image images helped same =>
      obtain ⟨framing, full⟩ := writes reaches bit
      have lengths : (image :: (op.plan (answersOf done.events)).parts).map List.length =
          sizeofTraceDs :: (op.plan (answersOf done.events)).parts.map List.length := by
        rw [List.map_cons, images.1]
      refine ⟨some (framedRecord op _ _ image images fits framing), ⟨iff_of_true rfl ⟨reaches, bit⟩, ?_⟩, by rw [same], ?_⟩
      · intro record found
        obtain rfl := Option.some.inj found
        exact ⟨fits, state.recordId, image, images, rfl⟩
      · constructor
        · rw [same, arrivals_whole (by rw [lengths]; exact full), ← RecordPlan.record_bytes]
          simp [framedRecord]
        · intro index record found
          obtain ⟨rfl, rfl⟩ : index = 0 ∧ (op.plan (answersOf done.events)).record image = record := by
            cases index with
            | zero => exact ⟨rfl, Option.some.inj found⟩
            | succ index => cases found
          obtain ⟨flags, mode, view⟩ := images.2
          rw [Record.header, RecordPlan.record, view]
          exact (BitVec.add_zero _).symm
        · rw [same]
          rfl

/-- The lines of a run. -/
theorem runActivities_watched (serves : Serves env peek) {activities : List (Activity L)} {before last : Machine L}
    {reports : List (Report L)} (ran : runActivities env helpers peek activities before = some (reports, last))
    (writes : ∀ report ∈ reports, report.WritesWhole helpers) :
    ∃ lines : List (Line L), lines.map Line.report = reports ∧ lines.map Line.mask = callMasks activities before.mask ∧
      (∀ line ∈ lines, line.Watched) ∧
      Continues before last ((lines.filterMap Line.entry).map FramedRecord.toRecord) := by
  induction activities generalizing before reports with
  | nil =>
      obtain ⟨rfl, rfl⟩ := Prod.mk.inj (Option.some.inj ran)
      exact ⟨[], rfl, rfl, fun _ nothing => absurd nothing List.not_mem_nil, .refl before⟩
  | cons activity rest ih =>
      cases activity with
      | trctl client argv =>
          obtain ⟨done, first, continued⟩ := Option.bind_eq_some_iff.mp ran
          obtain ⟨other, again, mask⟩ := trctl_masks helpers client serves argv before
          obtain rfl := Option.some.inj (first.symm.trans again)
          obtain ⟨lines, same, masks, watched, continues⟩ := ih continued writes
          have kept := serve_keeps first
          refine ⟨lines, same, by rw [masks, mask]; rfl, watched, ?_⟩
          rw [kept] at continues
          exact ⟨continues.traceFile, continues.numbered, continues.counter⟩
      | call op =>
          obtain ⟨done, first, later⟩ := Option.bind_eq_some_iff.mp ran
          obtain ⟨⟨others, reached⟩, continued, same⟩ := Option.map_eq_some_iff.mp later
          obtain ⟨rfl, rfl⟩ := Prod.mk.inj same
          obtain ⟨entry, now, mask, early⟩ := exec_watched first (writes _ List.mem_cons_self)
          obtain ⟨lines, same, masks, watched, late⟩ := ih continued fun report member =>
            writes report (List.mem_cons_of_mem _ member)
          refine ⟨⟨⟨op, before, done⟩, before.mask, entry⟩ :: lines, ?_, ?_, ?_, ?_⟩
          · rw [List.map_cons, same]
          · rw [List.map_cons, masks, mask]
            rfl
          · exact List.forall_mem_cons.mpr ⟨now, watched⟩
          · have split : (⟨⟨op, before, done⟩, before.mask, entry⟩ :: lines).filterMap Line.entry =
                entry.toList ++ lines.filterMap Line.entry := by
              cases entry <;> rfl
            rw [split, List.map_append]
            exact early.trans late
      | outside change =>
          obtain ⟨lines, same, masks, watched, continues⟩ := ih ran writes
          exact ⟨lines, same, masks, watched, continues.traceFile, continues.numbered, continues.counter⟩

variable {World : Type}

end

/-- `trctl -read PATH`, a mkdir and a read, `trctl 0X2a PATH`, and the read again. -/
def switching : List (Activity (BitVec 64)) :=
  [.trctl rootClient [junk, minusRead, junk], .call (.mkdir ⟨1⟩ dentryA 0x1ed), .call (.read fileA 0 2 0),
    .trctl rootClient [junk, upperWord, junk], .call (.read fileA 0 2 0)]

/-- The run that switches the mask leaves a trace of 60 bytes. -/
theorem switching_runs : ∃ reports last,
    runActivities responsive reliable (fun memory _ => memory) switching freshControl = some (reports, last) ∧
      last.traceFile.length = 60 ∧ reports.map (fun report => report.op.kind) = [.mkdir, .read, .read] := by
  have shows : (runActivities responsive reliable (fun memory _ => memory) switching freshControl).map
      (fun ran => (ran.2.traceFile.length, ran.1.map fun report => report.op.kind)) =
        some (60, [.mkdir, .read, .read]) := by decide +kernel
  obtain ⟨⟨reports, last⟩, ran, seen⟩ := Option.map_eq_some_iff.mp shows
  obtain ⟨size, kinds⟩ := Prod.mk.inj seen
  exact ⟨reports, last, ran, size, kinds⟩

/-- With reliable writes only a write and a symbolic link can lose their framing. -/
theorem reliable_writesWhole {L : Type} {report : Report L} (write : report.op.kind ≠ .write)
    (symlink : report.op.kind ≠ .symlink) : report.WritesWhole reliable := by
  intro _ _
  refine ⟨?_, fun _ _ _ => trivial⟩
  unfold TracedOp.SelfFraming
  split
  · rename_i same
    exact absurd (by rw [same]; rfl) write
  · rename_i same
    exact absurd (by rw [same]; rfl) symlink
  · trivial

end Trfs.Control
