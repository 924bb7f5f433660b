import Trfs.Proof.Kernel.Records

namespace Trfs.Kernel
open Bytes Effect Trace

/-- The two operations that write their record before the interposition get past the interposition. -/
def TracedOp.Interposes (op : TracedOp) (answers : Answers) : Prop :=
  match op.kind with
  | .create | .mkdir => answers.lower = some 0 → answers.interposed = some 0
  | _ => True

section
variable {L : Type} {env : Environment L} {helpers : Helpers} {op : TracedOp} {answers : Answers}

/-- The recorded number and the returned number of an operation that reached its tracing block. -/
theorem TracedOp.recordedErr_eq_iff {err : BitVec 32} (reaches : op.Reaches answers)
    (returned : op.Returned answers err) : op.recordedErr answers = err ↔ op.Interposes answers := by
  cases op with
  | «open» inode file =>
      rcases returned with ⟨unhashed, _⟩ | ⟨unallocated, _⟩ | ⟨_, _, lower⟩
      · exact absurd (unhashed.symm.trans reaches.1) (by decide)
      · exact absurd (unallocated.symm.trans reaches.2) (by decide)
      · exact iff_of_true (congrArg (fun result => result.getD 0) lower) trivial
  | read file buf count ppos => exact iff_of_true (congrArg (fun result => result.getD 0) returned) trivial
  | write file buf count ppos => exact iff_of_true (congrArg (fun result => result.getD 0) returned) trivial
  | release file => exact iff_of_true (Eq.symm returned) trivial
  | create dir dentry mode wantExcl =>
      change answers.lower.getD 0 = err ↔ (answers.lower = some 0 → answers.interposed = some 0)
      rcases returned with ⟨lower, failed⟩ | ⟨lower, interposed⟩
      · rw [lower]
        exact iff_of_true rfl fun zero => absurd (Option.some.inj zero) failed
      · rw [lower, interposed]
        exact ⟨fun zero _ => congrArg some zero.symm, fun works => (Option.some.inj (works rfl)).symm⟩
  | link oldDentry dir newDentry =>
      obtain ⟨succeeded, positive, interposed⟩ := reaches
      have zero : err = 0 := by
        rcases returned with ⟨lower, failed⟩ | ⟨_, _, zero⟩ | ⟨_, _, result⟩
        · exact absurd (Option.some.inj (lower.symm.trans succeeded)) failed
        · exact zero
        · exact Option.some.inj (result.symm.trans interposed)
      exact iff_of_true zero.symm trivial
  | unlink dir dentry =>
      have zero : err = 0 := by
        rcases returned with ⟨_, _, zero⟩ | ⟨lower, named⟩
        · exact zero
        · rcases reaches with succeeded | ⟨busy, renamed⟩
          · exact Option.some.inj (lower.symm.trans succeeded)
          · have kept := named (Option.some.inj (lower.symm.trans busy))
            exact nomatch Option.some.inj (kept.symm.trans renamed)
      exact iff_of_true zero.symm trivial
  | symlink dir dentry symname =>
      have zero : err = 0 := by
        rcases returned with ⟨lower, failed⟩ | ⟨_, interposed⟩
        · exact absurd (Option.some.inj (lower.symm.trans reaches.1)) failed
        · exact Option.some.inj (interposed.symm.trans reaches.2)
      exact iff_of_true zero.symm trivial
  | mkdir dir dentry mode =>
      change 0 = err ↔ (answers.lower = some 0 → answers.interposed = some 0)
      rcases returned with ⟨lower, failed⟩ | ⟨lower, interposed⟩
      · exact absurd (Option.some.inj (lower.symm.trans reaches)) failed
      · rw [lower, interposed]
        exact ⟨fun zero _ => congrArg some zero.symm, fun works => (Option.some.inj (works rfl)).symm⟩
  | rmdir dir dentry => exact iff_of_true (Option.some.inj (reaches.symm.trans returned)) trivial
  | mknod dir dentry mode dev =>
      have zero : err = 0 := by
        rcases returned with ⟨lower, failed⟩ | ⟨_, interposed⟩
        · exact absurd (Option.some.inj (lower.symm.trans reaches.1)) failed
        · exact Option.some.inj (interposed.symm.trans reaches.2)
      exact iff_of_true zero.symm trivial
  | rename oldDir oldDentry newDir newDentry =>
      rcases returned with ⟨unperformed, _⟩ | lower
      · exact nomatch unperformed.symm.trans reaches
      · exact iff_of_true (Option.some.inj (reaches.symm.trans lower)) trivial

/-- A record that a call appended is the record of its plan. -/
theorem AppendsRecord.of_exec {state : Machine L} {done : Done L} {record : Record}
    (appends : AppendsRecord op state done.state record) (full : helpers.WriteFully)
    (ran : op.exec env helpers state = some done) :
    op.Reaches (answersOf done.events) ∧
      (op.plan (answersOf done.events)).Images state.recordId record.image := by
  rcases (TracedOp.exec_effect ran).2.appends full with ⟨_, same⟩ | ⟨reaches, _, _, image, images, planned⟩
  · exact absurd (congrArg Machine.traceFile same) appends.grows
  · have file := planned.bytes.symm.trans appends.bytes
    obtain ⟨same, _⟩ := append_sized_inj file images.1 appends.image
    change image = record.image at same
    rw [← same]
    exact ⟨reaches, images⟩

/-- A record holds the value that its call returns exactly when no failed interposition came after it. -/
theorem TracedOp.recordsReturned_iff {state : Machine L} {done : Done L} {record : Record}
    (full : helpers.WriteFully) (ran : op.exec env helpers state = some done)
    (appends : AppendsRecord op state done.state record) :
    record.header.err = done.value.err ↔ op.Interposes (answersOf done.events) := by
  obtain ⟨returned, _⟩ := TracedOp.exec_effect ran
  obtain ⟨reaches, _, flags, mode, view⟩ := appends.of_exec full ran
  have recorded : record.header.err = op.recordedErr (answersOf done.events) := congrArg TraceDs.err view
  rw [recorded]
  exact TracedOp.recordedErr_eq_iff reaches returned

/-- A trace file that grew holds one record more. -/
theorem TracedOp.grown_appends {state : Machine L} {done : Done L} (full : helpers.WriteFully)
    (ran : op.exec env helpers state = some done) (grown : done.state.traceFile ≠ state.traceFile) :
    ∃ record, AppendsRecord op state done.state record := by
  rcases (TracedOp.exec_effect ran).2.appends full with ⟨_, same⟩ | ⟨_, _, _, image, _, appends⟩
  · exact absurd (congrArg Machine.traceFile same) grown
  · exact ⟨_, appends⟩

end

/-- The steady filesystem behind another superblock. Each interposition fails with `-EXDEV`. -/
def mountPoint : Environment Unit :=
  { steady 0 0 with
    lower := fun c _ => match c with
      | .superBlock _ => (1, ())
      | c => (steadyLower 0 0 c, ()) }

/-- A successful mkdir records the 0 that it returns. -/
theorem recordsReturned_mkdir : ∃ done record,
    (TracedOp.mkdir ⟨1⟩ dentryA 0x1ed).exec (steady 0 0) reliable freshMount = some done ∧
      AppendsRecord (TracedOp.mkdir ⟨1⟩ dentryA 0x1ed) freshMount done.state record ∧
        record.header.err = done.value.err := by
  have shows : ((TracedOp.mkdir ⟨1⟩ dentryA 0x1ed).exec (steady 0 0) reliable freshMount).map
      (fun done => (done.state.traceFile.length, (answersOf done.events).interposed)) = some (30, some 0) := by
    decide +kernel
  obtain ⟨done, ran, both⟩ := Option.map_eq_some_iff.mp shows
  obtain ⟨size, interposed⟩ := Prod.mk.inj both
  have grown : done.state.traceFile ≠ freshMount.traceFile := fun same => nomatch same ▸ size
  obtain ⟨record, appends⟩ := TracedOp.grown_appends reliable_full ran grown
  exact ⟨done, record, ran, appends,
    (TracedOp.recordsReturned_iff reliable_full ran appends).mpr fun _ => interposed⟩

/-- A mkdir whose interposition fails returns `-EXDEV` and records 0. -/
theorem recordsReturned_mkdir_fails : ∃ done record,
    (TracedOp.mkdir ⟨1⟩ dentryA 0x1ed).exec mountPoint reliable freshMount = some done ∧
      AppendsRecord (TracedOp.mkdir ⟨1⟩ dentryA 0x1ed) freshMount done.state record ∧
        record.header.err ≠ done.value.err := by
  have shows : ((TracedOp.mkdir ⟨1⟩ dentryA 0x1ed).exec mountPoint reliable freshMount).map
      (fun done => (done.value.err, done.state.traceFile.length,
        (TraceDs.view (done.state.traceFile.take sizeofTraceDs)).err)) = some (EXDEV, 30, 0) := by
    decide +kernel
  obtain ⟨done, ran, seen⟩ := Option.map_eq_some_iff.mp shows
  obtain ⟨returned, seen⟩ := Prod.mk.inj seen
  obtain ⟨size, recorded⟩ := Prod.mk.inj seen
  have grown : done.state.traceFile ≠ freshMount.traceFile := fun same => nomatch same ▸ size
  obtain ⟨record, appends⟩ := TracedOp.grown_appends reliable_full ran grown
  have whole : done.state.traceFile = record.image ++ record.payload := appends.bytes
  rw [whole, List.take_left' appends.image] at recorded
  refine ⟨done, record, ran, appends, fun same => ?_⟩
  have zero : record.header.err = 0 := recorded
  rw [zero, returned] at same
  exact absurd same (by decide)

end Trfs.Kernel
