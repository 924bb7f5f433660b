import Trfs.Proof.Kernel.SingleCall
import Trfs.Proof.Replay.RecordLoop

namespace Trfs.Kernel
open Bytes Effect Trace

/-- All writes to the trace file complete. -/
def Helpers.WriteFully (helpers : Helpers) : Prop := ∀ index, helpers.write index = .full

/-- Full writes let the whole record arrive. -/
theorem arrivals_full {helpers : Helpers} (full : helpers.WriteFully) (start : Nat)
    (parts : List (List Byte)) : arrivals helpers start parts = parts.flatten := by
  induction parts generalizing start with
  | nil => rfl
  | cons part rest ih =>
      rw [arrivals, full start, ih, List.flatten_cons]
      rfl

/-- The record that an image and the parts of a plan make. -/
def RecordPlan.record (plan : RecordPlan) (image : List Byte) : Record where
  image := image
  path1 := plan.part1
  path2 := plan.part2
  content := plan.contentPart

/-- The bytes of a record are its header and its parts. -/
theorem RecordPlan.record_bytes (plan : RecordPlan) (image : List Byte) :
    (plan.record image).bytes = (image :: plan.parts).flatten := by
  rw [List.flatten_cons, plan.parts_flatten]
  rfl

/-- The first part is as long as the first path. -/
theorem RecordPlan.part1_length (plan : RecordPlan) : plan.part1.length = plan.path1.path.length := by
  unfold RecordPlan.part1
  split
  · exact overlay_length _ _
  · rfl

/-- One record of the operation was appended, and the counter counted it. -/
structure AppendsRecord {L : Type} (op : TracedOp) (before after : Machine L) (record : Record) : Prop where
  bytes : after.traceFile = before.traceFile ++ record.bytes
  counter : after.recordId = before.recordId + 1
  image : record.image.length = sizeofTraceDs
  recordId : record.header.recordId = before.recordId
  recordType : record.header.recordType = op.kind.recordType
  path1 : record.path1.length = op.path1.path.length
  path2 : op.path2 = .absent → record.path2 = []
  content : op.content = none → record.content = []

/-- A trace file with a new record is longer. -/
theorem AppendsRecord.grows {L : Type} {op : TracedOp} {before after : Machine L} {record : Record}
    (appends : AppendsRecord op before after record) : after.traceFile ≠ before.traceFile := by
  intro same
  have length := congrArg List.length (appends.bytes.symm.trans same)
  have size := appends.image
  simp only [Record.bytes, List.length_append, sizeofTraceDs] at length size
  omega

/-- A lower filesystem that answers every request with the same numbers. -/
def steadyLower (err : BitVec 32) (moved : BitVec 64) : (c : LowerCall) → c.Reply
  | .vfsCreate .. | .vfsLink .. | .vfsUnlink .. | .vfsSymlink .. | .vfsMkdir .. | .vfsRmdir ..
  | .vfsMknod .. | .vfsRename .. => err
  | .vfsRead .. | .vfsWrite .. | .readIter .. | .writeIter .. => ⟨moved, 0⟩
  | .dentryOpen .. => .ok ⟨1, ⟨1⟩⟩
  | .unlockedIoctl .. | .renameTrap .. => none
  | .dInode _ => ⟨1⟩
  | .dgetParent _ => ⟨1⟩
  | .dNegative _ | .nfsRenamed _ => false
  | .igrab _ | .hasReadIter _ | .hasWriteIter _ => true
  | .superBlock _ => 0
  | .attributes _ => ⟨0, 0, 0, 0, 0, 0, 0, 0, 0, 0, 0, 0, 0⟩
  | .fput _ | .dget _ | .dput _ | .pathGet _ | .pathPut _ | .iput _ | .getFile _ => ()

def steady (err : BitVec 32) (moved : BitVec 64) : Environment Unit where
  lower c _ := (steadyLower err moved c, ())
  iget5Locked _ _ := (some (⟨2⟩, false), ())
  dSpliceAlias _ _ _ := (0, ())
  kzalloc _ := (true, ())
  copyToUser _ _ _ := (0, ())

/-- Helpers that never fail, on memory that holds zeros. -/
def reliable : Helpers where
  fails _ := none
  garbage _ _ := 0
  write _ := .full

/-- The reliable helpers write fully. -/
theorem reliable_full : reliable.WriteFully := fun _ => rfl

/-- A fresh mount whose files are all open. -/
def freshMount : Machine Unit :=
  mounted
    { lower := ()
      upper :=
        { attributes := fun _ => ⟨0, 0, 0, 0, 0, 0, 0, 0, 0, 0, 0, 0, 0⟩
          lowerInode := fun _ => ⟨1⟩
          inode := fun _ => ⟨1⟩
          unhashed := fun _ => false
          lowerPath := fun _ => ⟨⟨1⟩, 0⟩
          fileInfo := fun _ => true
          lowerFile := fun _ => some ⟨1, ⟨1⟩⟩ }
      lowerSb := 0 }
    ⟨[], nofun⟩

/-- The dentries of `/a`, `/b` and `/a/b`. -/
def dentryA : Dentry := ⟨1, ⟨[0x2f, 0x61], by decide⟩⟩
def dentryB : Dentry := ⟨2, ⟨[0x2f, 0x62], by decide⟩⟩
def dentryAB : Dentry := ⟨3, ⟨[0x2f, 0x61, 0x2f, 0x62], by decide⟩⟩

def fileA : File := ⟨1, dentryA, 0⟩

section
variable {L : Type} {env : Environment L} {helpers : Helpers} {op : TracedOp} {answers : Answers}

/-- The bytes of an image are a record with the number of the counter. -/
theorem Images.appends {before after : Machine L} {image : List Byte}
    (images : (op.plan answers).Images before.recordId image)
    (bytes : after.traceFile = before.traceFile ++ ((op.plan answers).record image).bytes)
    (counter : after.recordId = before.recordId + 1) :
    AppendsRecord op before after ((op.plan answers).record image) := by
  obtain ⟨size, flags, mode, view⟩ := images
  exact
    { bytes := bytes
      counter := counter
      image := size
      recordId := congrArg TraceDs.recordId view
      recordType := congrArg TraceDs.recordType view
      path1 := (op.plan answers).part1_length
      path2 := fun absent => by
        have plan2 : (op.plan answers).path2 = .absent := absent
        simp [RecordPlan.record, RecordPlan.part2, plan2]
      content := fun none => by
        simp [RecordPlan.record, RecordPlan.contentPart, TracedOp.plan, none] }

/-- With full writes a call appends the record of its plan exactly when it reaches its block with the bit
set, and otherwise leaves the tracer's state alone. -/
theorem TracerEffect.appends {before after : Machine L} (full : helpers.WriteFully)
    (effect : TracerEffect helpers op before after answers) :
    (¬ (op.Reaches answers ∧ bitSet before.mask op.kind) ∧ after = { before with visible := after.visible }) ∨
      (op.Reaches answers ∧ bitSet before.mask op.kind ∧ (op.plan answers).Fits ∧
        ∃ image, (op.plan answers).Images before.recordId image ∧
          AppendsRecord op before after ((op.plan answers).record image)) := by
  cases effect with
  | silent unrecorded state => exact .inl ⟨unrecorded, state⟩
  | record reaches bit fits image images helped state =>
      refine .inr ⟨reaches, bit, fits, image, images, Images.appends images ?_ ?_⟩
      · rw [state, arrivals_full full, RecordPlan.record_bytes]
      · rw [state]

/-- A trace file that grew holds the record of the plan at its end. -/
theorem TracedOp.grown_record {state : Machine L} {done : Done L} (full : helpers.WriteFully)
    (ran : op.exec env helpers state = some done) (grown : done.state.traceFile ≠ state.traceFile) :
    (op.plan (answersOf done.events)).Fits ∧
      ∃ image, (op.plan (answersOf done.events)).Images state.recordId image ∧
        done.state.traceFile =
          state.traceFile ++ ((op.plan (answersOf done.events)).record image).bytes := by
  rcases (TracedOp.exec_effect ran).2.appends full with ⟨_, same⟩ | ⟨_, _, fits, image, images, appends⟩
  · exact absurd (congrArg Machine.traceFile same) grown
  · exact ⟨fits, image, images, appends.bytes⟩

/-- The appended bytes are one record with both paths and their lengths. -/
def NamesBoth (oldDentry newDentry : Dentry) (bytes : List Byte) : Prop :=
  ∃ record : Record, bytes = record.bytes ∧ record.image.length = sizeofTraceDs ∧
    record.header.pathLen1.toInt = oldDentry.path.length ∧
    record.header.pathLen2.toInt = newDentry.path.length ∧
    record.path1 = oldDentry.path.bytes ∧ record.path2 = newDentry.path.bytes ∧ record.content = []

/-- Parts of a known size behind the same front are equal. -/
theorem append_sized_inj {front first second rest more : List Byte} {size : Nat}
    (same : front ++ (first ++ rest) = front ++ (second ++ more)) (left : first.length = size)
    (right : second.length = size) : first = second ∧ rest = more :=
  List.append_inj (List.append_cancel_left same) (left.trans right.symm)

/-- The length of a path that fits is the number it is stored as. -/
theorem short_toInt (path : CString) (fits : path.length < pathBufferSize) :
    (BitVec.ofNat 16 path.length).toInt = path.length :=
  toInt_ofNat_of_lt _ (by simp only [pathBufferSize] at fits; omega)

/-- A record of two paths names the right files exactly when one path is the end of the other. -/
theorem TracedOp.namesBoth_iff {newDentry : Dentry} {state : Machine L} {done : Done L}
    (two : op.path2 = .dentry newDentry) (full : helpers.WriteFully)
    (ran : op.exec env helpers state = some done) (grown : done.state.traceFile ≠ state.traceFile) :
    (∃ bytes, done.state.traceFile = state.traceFile ++ bytes ∧ NamesBoth op.path1 newDentry bytes) ↔
      op.path1.path.bytes <:+ newDentry.path.bytes ∨ newDentry.path.bytes <:+ op.path1.path.bytes := by
  obtain ⟨fits, image, ⟨size, flags, mode, view⟩, file⟩ := TracedOp.grown_record full ran grown
  have plan2 : (op.plan (answersOf done.events)).path2 = .dentry newDentry := two
  have content : op.content = none := by
    cases op <;> first | rfl | exact nomatch two
  have part1 : (op.plan (answersOf done.events)).part1 = overlay op.path1.path.bytes newDentry.path.bytes := by
    rw [RecordPlan.part1, plan2]
    rfl
  have part2 : (op.plan (answersOf done.events)).part2 = newDentry.path.bytes := by
    rw [RecordPlan.part2, plan2]
  have part3 : (op.plan (answersOf done.events)).contentPart = [] := by
    simp [RecordPlan.contentPart, TracedOp.plan, content]
  rw [← overlay_eq_first]
  constructor
  · rintro ⟨bytes, appended, record, rfl, imageSize, _, _, path1, path2, _⟩
    have same := append_sized_inj (file.symm.trans appended) size imageSize
    have payload : overlay op.path1.path.bytes newDentry.path.bytes ++ newDentry.path.bytes =
        op.path1.path.bytes ++ (newDentry.path.bytes ++ record.content) := by
      have joined := same.2
      simp only [Record.payload, RecordPlan.record, part1, part2, part3, path1, path2, List.append_nil,
        List.append_assoc] at joined
      exact joined
    exact (List.append_inj payload (overlay_length _ _)).1
  · intro survives
    have header : TraceDs.view image = _ := view
    refine ⟨_, file, _, rfl, size, ?_, ?_, ?_, part2, part3⟩
    · change (TraceDs.view image).pathLen1.toInt = _
      rw [header]
      exact short_toInt _ fits.1
    · change (TraceDs.view image).pathLen2.toInt = _
      rw [header, RecordPlan.header, RecordPlan.lenPath2, plan2]
      exact short_toInt _ (fits.2 newDentry plan2)
    · exact part1.trans survives

/-- A rename from `/a/b` to `/b` is recorded right because one path is the end of the other. -/
theorem namesBoth_rename : ∃ done,
    (TracedOp.rename ⟨1⟩ dentryAB ⟨1⟩ dentryB).exec (steady 0 0) reliable freshMount = some done ∧
      ∃ bytes, done.state.traceFile = freshMount.traceFile ++ bytes ∧ NamesBoth dentryAB dentryB bytes := by
  have shows : ((TracedOp.rename ⟨1⟩ dentryAB ⟨1⟩ dentryB).exec (steady 0 0) reliable freshMount).map
      (fun done => done.state.traceFile.length) = some 34 := by decide +kernel
  obtain ⟨done, ran, size⟩ := Option.map_eq_some_iff.mp shows
  have grown : done.state.traceFile ≠ freshMount.traceFile := fun same => nomatch same ▸ size
  exact ⟨done, ran, (TracedOp.namesBoth_iff rfl reliable_full ran grown).mpr (.inr ⟨[0x2f, 0x61], rfl⟩)⟩

/-- A record that names both names the first. -/
theorem NamesBoth.first {oldDentry newDentry : Dentry} {bytes : List Byte}
    (names : NamesBoth oldDentry newDentry bytes) :
    (bytes.drop sizeofTraceDs).take oldDentry.path.length = oldDentry.path.bytes := by
  obtain ⟨record, rfl, size, _, _, path1, _⟩ := names
  rw [Record.bytes, List.drop_left' size, Record.payload, path1, List.append_assoc]
  exact List.take_left' rfl

/-- The record of a link from `/a` to `/b` names `/b` twice. -/
theorem namesBoth_link_fails : ∃ done,
    (TracedOp.link dentryA ⟨1⟩ dentryB).exec (steady 0 0) reliable freshMount = some done ∧
      done.state.traceFile ≠ freshMount.traceFile ∧ ¬ ∃ bytes,
        done.state.traceFile = freshMount.traceFile ++ bytes ∧ NamesBoth dentryA dentryB bytes := by
  have shows : ((TracedOp.link dentryA ⟨1⟩ dentryB).exec (steady 0 0) reliable freshMount).map
      (fun done => done.state.traceFile.drop sizeofTraceDs) = some [0x2f, 0x62, 0x2f, 0x62] := by
    decide +kernel
  obtain ⟨done, ran, payload⟩ := Option.map_eq_some_iff.mp shows
  refine ⟨done, ran, fun same => (nomatch same ▸ payload), ?_⟩
  rintro ⟨bytes, appended, names⟩
  have whole : done.state.traceFile = bytes := appended
  have first := names.first
  rw [← whole, payload] at first
  exact absurd first (by decide)

/-- The lengths in the header describe the payload, and the cursor of treplay moves over both. -/
def FramesItself (image payload : List Byte) : Prop :=
  0 ≤ (TraceDs.view image).pathLen1.toInt ∧ 0 ≤ (TraceDs.view image).pathLen2.toInt ∧
    0 ≤ (TraceDs.view image).writeLen.toInt ∧
    (TraceDs.view image).pathLen1.toInt + (TraceDs.view image).pathLen2.toInt +
      (TraceDs.view image).writeLen.toInt = payload.length ∧
    ∀ position, position + (sizeofTraceDs + payload.length) < 2 ^ 31 →
      Replay.nextRecSize (BitVec.ofNat 32 position) (TraceDs.view image) =
        BitVec.ofNat 32 (position + (sizeofTraceDs + payload.length))

/-- A record frames itself when its header has the lengths of the three parts. -/
theorem FramesItself.of_lengths {image part1 part2 part3 : List Byte}
    (one : (TraceDs.view image).pathLen1.toInt = part1.length)
    (two : (TraceDs.view image).pathLen2.toInt = part2.length)
    (three : (TraceDs.view image).writeLen.toInt = part3.length) :
    FramesItself image (part1 ++ part2 ++ part3) := by
  have total : (part1 ++ part2 ++ part3).length = part1.length + part2.length + part3.length := by
    simp only [List.length_append]
  refine ⟨by omega, by omega, by omega, by omega, fun position small => ?_⟩
  rw [total, ← Nat.add_assoc sizeofTraceDs, ← Nat.add_assoc sizeofTraceDs] at small ⊢
  exact Replay.nextRecSize_lengths position _ _ _ _ one two three small

/-- The results and targets whose lengths the header can hold. -/
def TracedOp.SelfFraming (op : TracedOp) (answers : Answers) : Prop :=
  match op with
  | .write .. => 0 ≤ (answers.lower.getD 0).toInt
  | .symlink _ _ symname => symname.length % 2 ^ 16 < 2 ^ 15
  | _ => True

/-- The content is as long as the result says. -/
theorem RecordPlan.contentPart_length (plan : RecordPlan) {buf : UserMemory} (content : plan.content = some buf) :
    plan.contentPart.length = plan.err.toInt.toNat := by
  rw [RecordPlan.contentPart, content]
  exact userBytes_length buf plan.err

/-- The length of a target is kept modulo 2^16 and arrives when it is not negative as a `short`. -/
theorem symname_length (symname : CString) (framing : symname.length % 2 ^ 16 < 2 ^ 15) :
    (BitVec.ofNat 16 symname.length).toInt =
      (delivered symname.bytes ((BitVec.ofNat 16 symname.length).signExtend 64)).length := by
  have value : (BitVec.ofNat 16 symname.length).toInt = (symname.length % 2 ^ 16 : Nat) := by
    rw [BitVec.toInt_eq_toNat_of_lt] <;> rw [BitVec.toNat_ofNat]
    omega
  have known : symname.bytes.length = symname.length := rfl
  rw [delivered_signExtend _ _ _ (by decide) value, value, List.length_take, known]
  omega

/-- A self-framing operation stores the lengths of its parts. -/
theorem TracedOp.plan_lengths (fits : (op.plan answers).Fits) (framing : op.SelfFraming answers) :
    (BitVec.ofNat 16 op.path1.path.length).toInt = (op.plan answers).part1.length ∧
      (op.plan answers).lenPath2.toInt = (op.plan answers).part2.length ∧
      (op.plan answers).writeLen.toInt = (op.plan answers).contentPart.length := by
  refine ⟨?_, ?_, ?_⟩
  · rw [RecordPlan.part1_length]
    exact short_toInt _ fits.1
  · cases op with
    | link oldDentry dir newDentry => exact short_toInt _ (fits.2 newDentry rfl)
    | rename oldDir oldDentry newDir newDentry => exact short_toInt _ (fits.2 newDentry rfl)
    | symlink dir dentry symname => exact symname_length symname framing
    | _ => rfl
  · cases op with
    | write file buf count ppos =>
        rw [RecordPlan.contentPart_length _ rfl]
        exact (Int.toNat_of_nonneg framing).symm
    | _ => rfl

/-- A record frames itself exactly when its operation is self-framing. -/
theorem TracedOp.framesItself_iff {state : Machine L} {done : Done L} (full : helpers.WriteFully)
    (ran : op.exec env helpers state = some done) (grown : done.state.traceFile ≠ state.traceFile) :
    (∃ image payload, done.state.traceFile = state.traceFile ++ (image ++ payload) ∧
      image.length = sizeofTraceDs ∧ FramesItself image payload) ↔
      op.SelfFraming (answersOf done.events) := by
  obtain ⟨fits, image, ⟨size, flags, mode, view⟩, file⟩ := TracedOp.grown_record full ran grown
  constructor
  · rintro ⟨other, payload, appended, otherSize, _, length2, length3, _⟩
    obtain ⟨rfl, _⟩ := append_sized_inj (file.symm.trans appended) size otherSize
    change TraceDs.view image = _ at view
    change 0 ≤ (TraceDs.view image).pathLen2.toInt at length2
    change 0 ≤ (TraceDs.view image).writeLen.toInt at length3
    rw [view] at length2 length3
    cases op with
    | write file buf count ppos => exact length3
    | symlink dir dentry symname =>
        change 0 ≤ (BitVec.ofNat 16 symname.length).toInt at length2
        have value := BitVec.toInt_eq_toNat_cond (BitVec.ofNat 16 symname.length)
        rw [BitVec.toNat_ofNat] at value
        change symname.length % 2 ^ 16 < 2 ^ 15
        split at value <;> omega
    | _ => trivial
  · intro framing
    obtain ⟨length1, length2, length3⟩ := TracedOp.plan_lengths fits framing
    refine ⟨image, _, file, size, FramesItself.of_lengths ?_ ?_ ?_⟩
    · exact (congrArg (fun header => header.pathLen1.toInt) view).trans length1
    · exact (congrArg (fun header => header.pathLen2.toInt) view).trans length2
    · exact (congrArg (fun header => header.writeLen.toInt) view).trans length3

/-- A write of two bytes frames itself. -/
theorem framesItself_write : ∃ done,
    (TracedOp.write fileA (fun _ => 0x78) 2 0).exec (steady 0 2) reliable freshMount = some done ∧
      ∃ image payload, done.state.traceFile = freshMount.traceFile ++ (image ++ payload) ∧
        image.length = sizeofTraceDs ∧ FramesItself image payload := by
  have shows : ((TracedOp.write fileA (fun _ => 0x78) 2 0).exec (steady 0 2) reliable freshMount).map
      (fun done => (done.state.traceFile.length, (answersOf done.events).lower)) = some (32, some 2) := by
    decide +kernel
  obtain ⟨done, ran, size⟩ := Option.map_eq_some_iff.mp shows
  obtain ⟨size, lower⟩ := Prod.mk.inj size
  have grown : done.state.traceFile ≠ freshMount.traceFile := fun same => nomatch same ▸ size
  have framing : (TracedOp.write fileA (fun _ => 0x78) 2 0).SelfFraming (answersOf done.events) := by
    rw [TracedOp.SelfFraming, lower]
    decide
  exact ⟨done, ran, (TracedOp.framesItself_iff reliable_full ran grown).mpr framing⟩

/-- A write that fails with `-ENOSPC` stores -28 as the length of a content that it does not append. -/
theorem framesItself_write_fails : ∃ done,
    (TracedOp.write fileA (fun _ => 0x78) 2 0).exec (steady 0 (-28)) reliable freshMount = some done ∧
      done.state.traceFile ≠ freshMount.traceFile ∧
        ¬ ∃ image payload, done.state.traceFile = freshMount.traceFile ++ (image ++ payload) ∧
          image.length = sizeofTraceDs ∧ FramesItself image payload := by
  have shows : ((TracedOp.write fileA (fun _ => 0x78) 2 0).exec (steady 0 (-28)) reliable freshMount).map
      (fun done => (done.state.traceFile.length,
        (TraceDs.view (done.state.traceFile.take sizeofTraceDs)).writeLen)) = some (30, -28) := by
    decide +kernel
  obtain ⟨done, ran, size⟩ := Option.map_eq_some_iff.mp shows
  obtain ⟨size, length⟩ := Prod.mk.inj size
  refine ⟨done, ran, fun same => (nomatch same ▸ size), ?_⟩
  rintro ⟨image, payload, appended, imageSize, _, _, positive, _⟩
  have whole : done.state.traceFile = image ++ payload := appended
  rw [whole, List.take_left' imageSize] at length
  rw [length] at positive
  exact absurd positive (by decide)

/-- The operation made its lower call. A release always counts. -/
def TracedOp.Performs (op : TracedOp) (answers : Answers) : Prop :=
  op.kind = .release ∨ answers.lower.isSome

/-- The five operations that trace failures reach their block once they have made the lower call. -/
theorem TracedOp.tracesFailures_reaches {err : BitVec 32} (traces : op.TracesFailures)
    (performs : op.Performs answers) (returned : op.Returned answers err) : op.Reaches answers := by
  cases op with
  | «open» inode file =>
      rcases returned with ⟨_, none, _⟩ | ⟨_, none, _⟩ | ⟨hashed, allocated, _⟩
      · rcases performs with release | some
        · exact nomatch release
        · rw [none] at some
          exact nomatch some
      · rcases performs with release | some
        · exact nomatch release
        · rw [none] at some
          exact nomatch some
      · exact ⟨hashed, allocated⟩
  | read file buf count ppos => trivial
  | write file buf count ppos => trivial
  | release file => trivial
  | create dir dentry mode wantExcl => trivial
  | _ => exact traces.elim

/-- A call whose bit is set records the result of its lower call exactly when its operation traces failures
or has come as far as its block. -/
theorem TracedOp.recordsOutcome_iff {state : Machine L} {done : Done L} (full : helpers.WriteFully)
    (ran : op.exec env helpers state = some done) :
    (op.Performs (answersOf done.events) → bitSet state.mask op.kind →
      ∃ record, AppendsRecord op state done.state record) ↔
      ¬ op.Performs (answersOf done.events) ∨ ¬ bitSet state.mask op.kind ∨ op.TracesFailures ∨
        op.Reaches (answersOf done.events) := by
  obtain ⟨returned, effect⟩ := TracedOp.exec_effect ran
  constructor
  · intro records
    by_cases performs : op.Performs (answersOf done.events)
    · by_cases bit : bitSet state.mask op.kind
      · obtain ⟨record, appends⟩ := records performs bit
        rcases effect.appends full with ⟨_, same⟩ | ⟨reaches, _⟩
        · have length := congrArg List.length (appends.bytes.symm.trans (congrArg Machine.traceFile same))
          have size := appends.image
          simp only [Record.bytes, List.length_append, sizeofTraceDs] at length size
          omega
        · exact .inr (.inr (.inr reaches))
      · exact .inr (.inl bit)
    · exact .inl performs
  · intro condition performs bit
    have reaches : op.Reaches (answersOf done.events) := by
      rcases condition with none | clear | traces | reaches
      · exact absurd performs none
      · exact absurd bit clear
      · exact TracedOp.tracesFailures_reaches traces performs returned
      · exact reaches
    rcases effect.appends full with ⟨unrecorded, _⟩ | ⟨_, _, _, image, _, appends⟩
    · exact absurd ⟨reaches, bit⟩ unrecorded
    · exact ⟨_, appends⟩

/-- A successful mkdir leaves its record. -/
theorem recordsOutcome_mkdir : ∃ done,
    (TracedOp.mkdir ⟨1⟩ dentryA 0x1ed).exec (steady 0 0) reliable freshMount = some done ∧
      ((TracedOp.mkdir ⟨1⟩ dentryA 0x1ed).Performs (answersOf done.events) →
        bitSet freshMount.mask .mkdir → ∃ record,
          AppendsRecord (TracedOp.mkdir ⟨1⟩ dentryA 0x1ed) freshMount done.state record) := by
  have shows : ((TracedOp.mkdir ⟨1⟩ dentryA 0x1ed).exec (steady 0 0) reliable freshMount).map
      (fun done => (answersOf done.events).lower) = some (some 0) := by decide +kernel
  obtain ⟨done, ran, lower⟩ := Option.map_eq_some_iff.mp shows
  exact ⟨done, ran, (TracedOp.recordsOutcome_iff reliable_full ran).mpr (.inr (.inr (.inr lower)))⟩

/-- A mkdir that fails with `-EEXIST` leaves nothing although its bit is set. -/
theorem recordsOutcome_mkdir_fails : ∃ done,
    (TracedOp.mkdir ⟨1⟩ dentryA 0x1ed).exec (steady (-17) 0) reliable freshMount = some done ∧
      ¬ ((TracedOp.mkdir ⟨1⟩ dentryA 0x1ed).Performs (answersOf done.events) →
        bitSet freshMount.mask .mkdir → ∃ record,
          AppendsRecord (TracedOp.mkdir ⟨1⟩ dentryA 0x1ed) freshMount done.state record) := by
  have shows : ((TracedOp.mkdir ⟨1⟩ dentryA 0x1ed).exec (steady (-17) 0) reliable freshMount).map
      (fun done => (done.state.traceFile, (answersOf done.events).lower)) = some ([], some (-17)) := by
    decide +kernel
  obtain ⟨done, ran, both⟩ := Option.map_eq_some_iff.mp shows
  obtain ⟨file, lower⟩ := Prod.mk.inj both
  refine ⟨done, ran, fun records => ?_⟩
  obtain ⟨record, appends⟩ := records (.inr (by rw [lower]; rfl)) (by decide)
  have empty : ([] : List Byte) = record.bytes := file.symm.trans appends.bytes
  have size := appends.image
  rw [Record.bytes] at empty
  rw [(List.append_eq_nil_iff.mp empty.symm).1] at size
  exact absurd size (by decide)

end

end Trfs.Kernel
