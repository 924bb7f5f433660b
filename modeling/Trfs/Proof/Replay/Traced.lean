import Trfs.Proof.Kernel.Header
import Trfs.Proof.Replay.Issued

namespace Trfs.Replay
open Bytes Effect Trace Kernel

/-- A call with its record as `main` hands it to `replay_record`. -/
def Traced {L : Type} (op : TracedOp) (before after : Machine L) (args : ReplayArgs) : Prop :=
  ∃ record, AppendsRecord op before after record ∧ args.tracer = record.header ∧ args.path1.bytes = record.path1 ∧
    (op.path2 ≠ .absent → args.path2.map CString.bytes = some record.path2)

section
variable {L : Type} {env : Environment L} {helpers : Helpers} {op : TracedOp} {before : Machine L} {done : Done L}
  {args : ReplayArgs} {record : Record}

theorem content_or_path2 (op : TracedOp) : op.content = none ∨ op.path2 = .absent := by
  cases op <;> first | exact .inl rfl | exact .inr rfl

/-- The paths of a record are those of the plan. -/
theorem AppendsRecord.paths (appends : AppendsRecord op before done.state record) (full : helpers.WriteFully)
    (ran : op.exec env helpers before = some done) :
    record.path1 = (op.plan (answersOf done.events)).part1 ∧
      record.path2 = (op.plan (answersOf done.events)).part2 := by
  obtain ⟨_, image, images, file⟩ := TracedOp.grown_record full ran appends.grows
  obtain ⟨_, payload⟩ := append_sized_inj (appends.bytes.symm.trans file) appends.image images.1
  have first : record.path1.length = (op.plan (answersOf done.events)).part1.length := by
    rw [appends.path1, RecordPlan.part1_length]
    rfl
  simp only [Record.payload, RecordPlan.record, List.append_assoc] at payload
  obtain ⟨path1, rest⟩ := List.append_inj payload first
  refine ⟨path1, ?_⟩
  rcases content_or_path2 op with none | absent
  · have nothing : (op.plan (answersOf done.events)).contentPart = [] := by
      simp [RecordPlan.contentPart, TracedOp.plan, none]
    rwa [appends.content none, nothing, List.append_nil, List.append_nil] at rest
  · rw [appends.path2 absent, RecordPlan.part2]
    simp [TracedOp.plan, absent]

/-- A path that has the buffer to itself is recorded as it is. -/
theorem part1_alone (plan : RecordPlan) (alone : ∀ dentry, plan.path2 ≠ .dentry dentry) :
    plan.part1 = plan.path1.path.bytes := by
  unfold RecordPlan.part1
  split
  · rename_i dentry two
    exact absurd two (alone dentry)
  · rfl

theorem Traced.kind (traced : Traced op before done.state args) : args.kind = some op.kind := by
  obtain ⟨record, appends, tracer, _⟩ := traced
  rw [ReplayArgs.kind, tracer, appends.recordType, CallKind.ofRecordType_recordType]

theorem Traced.path1 (full : helpers.WriteFully) (ran : op.exec env helpers before = some done)
    (traced : Traced op before done.state args) (alone : ∀ dentry, op.path2 ≠ .dentry dentry) :
    args.path1 = op.path1.path := by
  obtain ⟨record, appends, _, path1, _⟩ := traced
  ext1
  rw [path1, (AppendsRecord.paths appends full ran).1]
  exact part1_alone (op.plan _) alone

/-- The target of a symbolic link gets to the replay as it was when its length is a `short`. -/
theorem Traced.target {dir : Inode} {dentry : Dentry} {symname : CString} (full : helpers.WriteFully)
    (ran : (TracedOp.symlink dir dentry symname).exec env helpers before = some done)
    (traced : Traced (.symlink dir dentry symname) before done.state args) (small : symname.length < 2 ^ 15) :
    args.path2 = some symname := by
  obtain ⟨record, appends, _, _, path2⟩ := traced
  obtain ⟨target, present, bytes⟩ := Option.map_eq_some_iff.mp (path2 nofun)
  have delivers : record.path2 = symname.bytes.take symname.length :=
    ((AppendsRecord.paths appends full ran).2).trans (delivered_short symname.bytes symname.length small)
  rw [present]
  apply congrArg some
  ext1
  rw [bytes, delivers]
  exact List.take_length

/-- The second path of a record has no NUL. -/
theorem part2_noNul (plan : RecordPlan) : ∀ byte ∈ plan.part2, byte ≠ 0 := by
  intro byte member
  unfold RecordPlan.part2 at member
  split at member
  · cases member
  · rename_i symname _
    unfold delivered at member
    split at member
    · cases member
    · exact symname.noNul byte (List.mem_of_mem_take member)
  · rename_i dentry _
    exact dentry.path.noNul byte member

/-- A call with one path that made the trace file grow was traced. -/
theorem traced_of_grown (full : helpers.WriteFully) (ran : op.exec env helpers before = some done)
    (alone : ∀ dentry, op.path2 ≠ .dentry dentry) (grown : done.state.traceFile ≠ before.traceFile)
    (content : Option CString) : ∃ args, Traced op before done.state args ∧ args.content = content := by
  obtain ⟨record, appends⟩ := TracedOp.grown_appends full ran grown
  obtain ⟨path1, path2⟩ := AppendsRecord.paths appends full ran
  let second : CString := ⟨record.path2, path2 ▸ part2_noNul _⟩
  refine ⟨⟨record.header, op.path1.path, some second, content⟩, ⟨record, appends, rfl, ?_, fun _ => rfl⟩, rfl⟩
  exact (path1.trans (part1_alone (op.plan _) alone)).symm

end

end Trfs.Replay
