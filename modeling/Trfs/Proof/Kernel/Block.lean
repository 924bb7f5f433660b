import Trfs.Construction.Kernel.Machine
import Trfs.Proof.Kernel.Staged

namespace Trfs.Kernel
open Bytes Effect Trace

/-- The paths of a record that go through the 256-byte buffer must fit in it. -/
def RecordPlan.Fits (plan : RecordPlan) : Prop :=
  plan.path1.path.length < pathBufferSize ∧
    ∀ dentry, plan.path2 = .dentry dentry → dentry.path.length < pathBufferSize

/-- The `short` length of the second path. -/
def RecordPlan.lenPath2 (plan : RecordPlan) : BitVec 16 :=
  match plan.path2 with
  | .absent => 0
  | .symname symname => BitVec.ofNat 16 symname.length
  | .dentry dentry => BitVec.ofNat 16 dentry.path.length

def RecordPlan.header (plan : RecordPlan) (recordId openFlags : BitVec 32) (permMode : BitVec 16) : TraceDs where
  pathLen1 := BitVec.ofNat 16 plan.path1.path.length
  pathLen2 := plan.lenPath2
  writeLen := plan.writeLen
  recordId := recordId
  recordType := plan.kind.recordType
  openFlags := openFlags
  permissionMode := permMode
  err := plan.err

/-- The first path as the buffer holds it when it is written. -/
def RecordPlan.part1 (plan : RecordPlan) : List Byte :=
  match plan.path2 with
  | .dentry dentry => overlay plan.path1.path.bytes dentry.path.bytes
  | _ => plan.path1.path.bytes

def RecordPlan.part2 (plan : RecordPlan) : List Byte :=
  match plan.path2 with
  | .absent => []
  | .symname symname => delivered symname.bytes (plan.lenPath2.signExtend 64)
  | .dentry dentry => dentry.path.bytes

def RecordPlan.contentPart (plan : RecordPlan) : List Byte :=
  match plan.content with
  | none => []
  | some buf => userBytes buf plan.err

/-- The bytes of each `vfs_write` of a path. -/
def RecordPlan.pathParts (plan : RecordPlan) : List (List Byte) :=
  plan.part1 :: (match plan.path2 with
    | .absent => []
    | _ => [plan.part2])

/-- The bytes of each `vfs_write` after the header. -/
def RecordPlan.parts (plan : RecordPlan) : List (List Byte) :=
  plan.pathParts ++ (match plan.content with
    | none => []
    | some _ => [plan.contentPart])

/-- The parts of a record are its two paths and its content. -/
theorem RecordPlan.parts_flatten (plan : RecordPlan) :
    plan.parts.flatten = plan.part1 ++ plan.part2 ++ plan.contentPart := by
  rcases plan with ⟨kind, path1, path2, writeLen, content, err⟩
  cases path2 <;> cases content <;> simp [parts, pathParts, part2, contentPart]

/-- How far an operation has come with its record. -/
structure Progress where
  answers : Answers
  checked : Option Bool
  recId : Option (BitVec 32)
  written : List (List Byte)
  stored : Bool
  helperCalls : Nat
  failed : Bool

def Progress.start : Progress where
  answers := .none
  checked := none
  recId := none
  written := []
  stored := false
  helperCalls := 0
  failed := false

/-- The bit of a record type. -/
def bitSet (mask : BitVec 64) (kind : CallKind) : Prop := (mask >>> kind.recordType.toNat) &&& 1 = 1

instance (mask : BitVec 64) (kind : CallKind) : Decidable (bitSet mask kind) :=
  inferInstanceAs (Decidable (_ = _))

def Progress.nextTracer (op : TracedOp) (progress : Progress) : (c : TracerCall) → c.Reply → Progress
  | .mask, mask => { progress with checked := some (decide (bitSet mask op.kind)) }
  | .recordId, recId => { progress with recId := some recId }
  | .kmalloc _, block =>
      { progress with helperCalls := progress.helperCalls + 1, failed := progress.failed || block.isNone }
  | .filpOpen .., file =>
      { progress with helperCalls := progress.helperCalls + 1, failed := progress.failed || !file.toBool }
  | .vfsWrite _ source count, _ => { progress with written := progress.written ++ [delivered source count] }
  | .setRecordId _, _ => { progress with stored := true }
  | _, _ => progress

/-- The block is between its mask test and the store of the counter. -/
def Progress.inBlock (progress : Progress) : Prop := progress.checked = some true ∧ progress.stored = false

/-- The next bytes are those that the plan asks for. -/
def RecordPlan.Continues (plan : RecordPlan) (recId : BitVec 32) (written : List (List Byte))
    (source : List Byte) (count : BitVec 64) : Prop :=
  match written with
  | [] => source.length = sizeofTraceDs ∧ count = BitVec.ofNat 64 sizeofTraceDs ∧
      ∃ flags mode, TraceDs.view source = plan.header recId flags mode
  | _ :: parts => plan.parts[parts.length]? = some (delivered source count)

/-- The order in which an operation may make its calls, whatever the replies are. -/
def protocol (op : TracedOp) : Monitor Call.Reply Progress where
  permits progress
    | .lower _ => ¬ progress.inBlock
    | .upper c => progress.inBlock → IsRead (.upper c)
    | .oops => progress.checked = none ∨
        (progress.inBlock ∧ (progress.failed = true ∨ ¬ (op.plan progress.answers).Fits))
    | .tracer .mask => progress.checked = none ∧ op.Reaches progress.answers
    | .tracer .tfilePath | .tracer (.filpClose _) => progress.inBlock
    | .tracer .recordId => progress.inBlock ∧ progress.recId = none
    | .tracer (.kmalloc _) | .tracer (.filpOpen ..) =>
        progress.inBlock ∧ progress.helperCalls < 4 ∧ progress.recId.isSome
    | .tracer (.kfree _) => True
    | .tracer (.vfsWrite _ source count) => progress.inBlock ∧ progress.failed = false ∧
        ∃ recId, progress.recId = some recId ∧
          (op.plan progress.answers).Continues recId progress.written source count
    | .tracer (.setRecordId value) => progress.inBlock ∧ progress.failed = false ∧
        progress.written.length = 1 + (op.plan progress.answers).parts.length ∧
        ∃ recId, progress.recId = some recId ∧ value = recId + 1
    | .setMask _ | .copyMaskToUser _ => False
  next progress
    | .tracer c, reply => progress.nextTracer op c reply
    | c, reply => { progress with answers := progress.answers.next c reply }

/-- A non-negative count arrives as that many bytes. -/
theorem delivered_signExtend {width : Nat} (source : List Byte) (count : BitVec width) (number : Nat)
    (within : width ≤ 64) (value : count.toInt = number) :
    delivered source (count.signExtend 64) = source.take number := by
  have extended : (count.signExtend 64).toInt = number := by
    rw [BitVec.toInt_signExtend_of_le within, value]
  rw [delivered, if_neg (by omega), signExtend_toNat count number within value]

/-- A length that fits in a `short` arrives as the count of `vfs_write`. -/
theorem delivered_short (source : List Byte) (length : Nat) (small : length < 2 ^ 15) :
    delivered source ((BitVec.ofNat 16 length).signExtend 64) = source.take length :=
  delivered_signExtend source _ length (by decide) (toInt_ofNat_of_lt length (by omega))

/-- The content has as many bytes as the result says. -/
theorem userBytes_length (buf : UserMemory) (err : BitVec 32) :
    (userBytes buf err).length = err.toInt.toNat := by
  simp [userBytes]

/-- The content of a write arrives whole. A negative result arrives as no bytes. -/
theorem delivered_user (buf : UserMemory) (err : BitVec 32) :
    delivered (userBytes buf err) (err.signExtend 64) = userBytes buf err := by
  by_cases negative : err.toInt < 0
  · have none : err.toInt.toNat = 0 := by omega
    simp [delivered, userBytes, none]
  · have value : err.toInt = (err.toInt.toNat : Nat) := by omega
    rw [delivered_signExtend _ err _ (by decide) value]
    exact List.take_of_length_le (Nat.le_of_eq (userBytes_length buf err))

/-- The states of an operation at its block, after a clear bit, and after its record. -/
def Progress.atBlock (answers : Answers) : Progress :=
  { Progress.start with answers := answers, checked := some true }

def Progress.skipped (answers : Answers) : Progress :=
  { Progress.start with answers := answers, checked := some false }

def Progress.recorded (answers : Answers) (recId : BitVec 32) (image : List Byte)
    (parts : List (List Byte)) : Progress where
  answers := answers
  checked := some true
  recId := some recId
  written := image :: parts
  stored := true
  helperCalls := 4
  failed := false

/-- The image holds the members that the plan asks for. -/
def RecordPlan.Images (plan : RecordPlan) (recId : BitVec 32) (image : List Byte) : Prop :=
  image.length = sizeofTraceDs ∧ ∃ flags mode, TraceDs.view image = plan.header recId flags mode

section
variable {op : TracedOp} {α : Type} {progress : Progress}

/-- A program that only reads keeps the progress. -/
theorem reads_meets {post : α → Progress → Prop} {program : Prog α} (reads : program.Calls IsRead)
    (rest : ∀ value, post value progress) : program.Meets (protocol op) post progress := by
  apply reads.meets _ rest
  intro c read reached
  cases c with
  | upper c => cases c <;> first | exact ⟨fun _ => trivial, fun _ => rfl⟩ | exact read.elim
  | lower c => exact read.elim
  | tracer c => exact read.elim
  | setMask value => exact read.elim
  | copyMaskToUser address => exact read.elim
  | oops => exact read.elim

/-- An oops is excused by a failed helper or a path that does not fit. -/
theorem oops_meets {post : α → Progress → Prop} {next : Empty → Prog α} (inside : progress.inBlock)
    (excused : progress.failed = true ∨ ¬ (op.plan progress.answers).Fits) :
    (Program.call Call.oops next).Meets (protocol op) post progress :=
  ⟨.inr ⟨inside, excused⟩, fun impossible => nomatch impossible⟩

end

section
variable {op : TracedOp} {block : TraceBlock} {buffer : Block pathBufferSize} {progress : Progress}

/-- What the two path pointers of a block show in the shared buffer. -/
structure PathsStored (plan : RecordPlan) (buffer : Block pathBufferSize) (offset : Nat)
    (pathName2 : Except Errno Nat) : Prop where
  first : (buffer.bytes.drop offset).take plan.path1.path.length = plan.part1
  second : ∀ dentry, plan.path2 = .dentry dentry → ∃ start, pathName2 = .ok start ∧
    (buffer.bytes.drop start).take dentry.path.length = dentry.path.bytes

/-- A path that fits stands at the end of the buffer. -/
theorem storedPath (buffer : Block pathBufferSize) (path : CString) (fits : path.length < pathBufferSize) :
    (buffer.storePath path).bytes.drop (pathBufferSize - 1 - path.length) = path.bytes ++ [0] := by
  have size := buffer.length
  have inside : path.length < buffer.bytes.length := by omega
  rw [← drop_storeRight buffer.bytes path inside, size]
  rfl

/-- Its length is found again. -/
theorem storedLength (buffer : Block pathBufferSize) (path : CString)
    (fits : path.length < pathBufferSize) :
    pathLength (buffer.storePath path) (.ok (pathBufferSize - 1 - path.length)) =
      pure (BitVec.ofNat 16 path.length) := by
  have bytes := storedPath buffer path fits
  change Program.pure (BitVec.ofNat 16 (strlen ((buffer.storePath path).bytes.drop _))) = _
  rw [bytes, strlen_append]
  rfl

/-- The second path goes into the buffer that already holds the first one. -/
theorem secondPath_meets {post : Block pathBufferSize × Except Errno Nat × BitVec 16 → Progress → Prop}
    (same : block.toRecordPlan = op.plan progress.answers) (inside : progress.inBlock)
    (fits : block.path1.path.length < pathBufferSize)
    (rest : ∀ buffer' pathName2, block.toRecordPlan.Fits →
      PathsStored block.toRecordPlan buffer' (pathBufferSize - 1 - block.path1.path.length) pathName2 →
      post (buffer', pathName2, block.toRecordPlan.lenPath2) progress) :
    (block.secondPath (buffer.storePath block.path1.path)).Meets (protocol op) post progress := by
  have alone : ((buffer.storePath block.path1.path).bytes.drop
      (pathBufferSize - 1 - block.path1.path.length)).take block.path1.path.length =
        block.path1.path.bytes := by
    rw [storedPath buffer _ fits]
    exact List.take_left' rfl
  rcases block with ⟨⟨kind, path1, path2, writeLen, content, err⟩, flags, mode⟩
  cases path2 with
  | absent => exact rest _ _ ⟨fits, nofun⟩ ⟨alone, nofun⟩
  | symname symname => exact rest _ _ ⟨fits, nofun⟩ ⟨alone, nofun⟩
  | dentry dentry =>
      simp only [TraceBlock.secondPath, dentryPathRaw]
      split
      · rename_i small
        rw [Program.pure_eq, Program.pure_bind, storedLength _ _ small]
        apply rest
        · exact ⟨fits, fun _ named => SecondPath.dentry.inj named ▸ small⟩
        · constructor
          · have size := buffer.length
            have shared := load_storeRight_twice buffer.bytes path1.path dentry.path
              (by rw [size]; exact fits) (by rw [size]; exact small)
            rw [size] at shared
            exact shared
          · intro other named
            obtain rfl := SecondPath.dentry.inj named
            refine ⟨_, rfl, ?_⟩
            rw [storedPath _ _ small]
            exact List.take_left' rfl
      · rename_i large
        have unfit : ¬ (op.plan progress.answers).Fits := by
          rw [← same]
          exact fun both => large (both.2 dentry rfl)
        exact oops_meets inside (.inr unfit)

/-- The block has made its helper calls and has written these parts. -/
def Progress.writing (answers : Answers) (recId : BitVec 32) (written : List (List Byte)) : Progress where
  answers := answers
  checked := some true
  recId := some recId
  written := written
  stored := false
  helperCalls := 4
  failed := false

/-- A write of the next part moves the protocol on. -/
theorem write_meets {post : BitVec 64 → Progress → Prop} {answers : Answers} {recId : BitVec 32}
    {image : List Byte} {parts : List (List Byte)} {file : TraceFile} {source : List Byte}
    {count : BitVec 64} (next : (op.plan answers).parts[parts.length]? = some (delivered source count))
    (rest : ∀ reply, post reply (.writing answers recId (image :: parts ++ [delivered source count]))) :
    (vfsWrite (.ok file) source count).Meets (protocol op) post (.writing answers recId (image :: parts)) :=
  ⟨⟨⟨rfl, rfl⟩, rfl, recId, rfl, next⟩, rest⟩

/-- The second path is the next part. -/
theorem writePath2_meets {post : Unit → Progress → Prop} {answers : Answers} {recId : BitVec 32}
    {image : List Byte} {file : TraceFile} {offset : Nat} {pathName2 : Except Errno Nat}
    (same : block.toRecordPlan = op.plan answers) (fits : block.toRecordPlan.Fits)
    (stored : PathsStored block.toRecordPlan buffer offset pathName2)
    (rest : post () (.writing answers recId (image :: block.toRecordPlan.pathParts))) :
    (block.writePath2 (.ok file) buffer pathName2 block.toRecordPlan.lenPath2).Meets (protocol op) post
      (.writing answers recId [image, block.toRecordPlan.part1]) := by
  rcases block with ⟨⟨kind, path1, path2, writeLen, content, err⟩, flags, mode⟩
  cases path2 with
  | absent => exact rest
  | symname symname =>
      unfold TraceBlock.writePath2
      rw [Program.meets_bind]
      apply write_meets
      · rw [← same]
        rfl
      · intro _
        exact rest
  | dentry dentry =>
      obtain ⟨start, rfl, path⟩ := stored.second dentry rfl
      have small : dentry.path.length < 2 ^ 15 :=
        Nat.lt_trans (fits.2 dentry rfl) (by decide)
      have arrives : delivered (buffer.bytes.drop start)
          ((BitVec.ofNat 16 dentry.path.length).signExtend 64) = dentry.path.bytes := by
        rw [delivered_short _ _ small, path]
      simp only [TraceBlock.writePath2, pathMemory, Program.pure_eq, Program.pure_bind, Program.meets_bind]
      apply write_meets
      · rw [← same]
        exact congrArg some arrives.symm
      · intro _
        simp only [RecordPlan.lenPath2]
        rw [arrives]
        exact rest

/-- The content is the last part. -/
theorem writeContent_meets {post : Unit → Progress → Prop} {answers : Answers} {recId : BitVec 32}
    {image : List Byte} {file : TraceFile} (same : block.toRecordPlan = op.plan answers)
    (rest : post () (.writing answers recId (image :: block.toRecordPlan.parts))) :
    (block.writeContent (.ok file)).Meets (protocol op) post
      (.writing answers recId (image :: block.toRecordPlan.pathParts)) := by
  rcases block with ⟨⟨kind, path1, path2, writeLen, content, err⟩, flags, mode⟩
  cases content with
  | none =>
      simp only [RecordPlan.parts, List.append_nil] at rest
      exact rest
  | some buf =>
      unfold TraceBlock.writeContent
      rw [Program.meets_bind]
      apply write_meets
      · rw [← same, delivered_user]
        simp [RecordPlan.parts, RecordPlan.contentPart]
      · intro _
        rw [delivered_user]
        exact rest

end

/-- The copied header is an image of the plan. -/
theorem header_image (plan : RecordPlan) (recId openFlags : BitVec 32) (permMode : BitVec 16)
    (object copy : Block sizeofTraceDs) :
    plan.Images recId
      (memcpy copy.bytes ((plan.header recId openFlags permMode).assign object.bytes) sizeofTraceDs) := by
  have size := TraceDs.assign_length (plan.header recId openFlags permMode) object.bytes object.length
  rw [memcpy_whole _ _ _ copy.length size]
  exact ⟨size, openFlags, permMode, TraceDs.view_assign _ _ object.length⟩

/-- The header is the first write. -/
theorem header_meets {op : TracedOp} {post : BitVec 64 → Progress → Prop} {answers : Answers}
    {recId : BitVec 32} {image : List Byte} {file : TraceFile} {plan : RecordPlan}
    (same : plan = op.plan answers) (images : plan.Images recId image)
    (rest : ∀ reply, post reply (.writing answers recId [image])) :
    (vfsWrite (.ok file) image (BitVec.ofNat 64 sizeofTraceDs)).Meets (protocol op) post
      (.writing answers recId []) := by
  have whole : delivered image (BitVec.ofNat 64 sizeofTraceDs) = image :=
    List.take_of_length_le (Nat.le_of_eq images.1)
  subst same
  refine ⟨⟨⟨rfl, rfl⟩, rfl, recId, rfl, images.1, rfl, images.2⟩, fun reply => ?_⟩
  have kept := rest reply
  rw [← whole] at kept
  exact kept

/-- After all parts the block closes the file and stores the counter. -/
theorem store_meets {op : TracedOp} {answers : Answers} {recId : BitVec 32} {image : List Byte}
    {file : TraceFile} {buffers : TraceBuffers} {plan : RecordPlan} (same : plan = op.plan answers)
    (fits : plan.Fits) (images : plan.Images recId image) :
    (filpClose (.ok file) >>= fun _ => tracer (.setRecordId (recId + 1)) >>= fun _ => pure buffers).Meets
      (protocol op) (fun _ reached => (op.plan answers).Fits ∧ ∃ recId image,
        (op.plan answers).Images recId image ∧
          reached = .recorded answers recId image (op.plan answers).parts)
      (.writing answers recId (image :: plan.parts)) := by
  subst same
  refine meets_perform_bind ⟨rfl, rfl⟩ fun _ => ?_
  refine meets_perform_bind ⟨⟨rfl, rfl⟩, rfl, Nat.add_comm _ 1, recId, rfl, rfl⟩ fun _ => ?_
  exact ⟨fits, recId, image, images, rfl⟩

/-- The block writes one record that follows its plan, or it faults for a reason that is known. -/
theorem body_meets {op : TracedOp} {block : TraceBlock} {answers : Answers}
    (same : block.toRecordPlan = op.plan answers) (flags : block.openFlags.Calls IsRead)
    (mode : block.permMode.Calls IsRead) :
    block.body.Meets (protocol op) (fun _ reached => (op.plan answers).Fits ∧ ∃ recId image,
      (op.plan answers).Images recId image ∧
        reached = .recorded answers recId image (op.plan answers).parts) (.atBlock answers) := by
  unfold TraceBlock.body
  refine meets_perform_bind ⟨rfl, rfl⟩ fun filename => ?_
  refine meets_perform_bind ⟨⟨rfl, rfl⟩, rfl⟩ fun recId => ?_
  rw [Program.meets_bind]
  apply reads_meets flags
  intro openFlags
  rw [Program.meets_bind]
  apply reads_meets mode
  intro permMode
  refine meets_perform_bind ⟨⟨rfl, rfl⟩, Nat.lt_of_sub_eq_succ rfl, rfl⟩ ?_
  rintro (_ | buffer)
  · exact oops_meets ⟨rfl, rfl⟩ (.inl rfl)
  simp only [dentryPathRaw]
  split
  · rename_i fits
    rw [Program.pure_eq, Program.pure_bind, storedLength _ _ fits, Program.pure_eq, Program.pure_bind,
      Program.meets_bind]
    apply secondPath_meets same ⟨rfl, rfl⟩ fits
    intro buffer pathName2 bothFit stored
    refine meets_perform_bind ⟨⟨rfl, rfl⟩, Nat.lt_of_sub_eq_succ rfl, rfl⟩ ?_
    intro fileOp
    refine meets_perform_bind ⟨⟨rfl, rfl⟩, Nat.lt_of_sub_eq_succ rfl, rfl⟩ ?_
    rintro (_ | object)
    · exact oops_meets ⟨rfl, rfl⟩ (.inl (by simp [protocol, Progress.nextTracer]))
    refine meets_perform_bind ⟨⟨rfl, rfl⟩, Nat.lt_of_sub_eq_succ rfl, rfl⟩ ?_
    rintro (_ | copy)
    · exact oops_meets ⟨rfl, rfl⟩ (.inl (by simp [protocol, Progress.nextTracer]))
    cases fileOp with
    | error errno => exact oops_meets ⟨rfl, rfl⟩ (.inl (by simp [protocol, Progress.nextTracer, Except.toBool]))
    | ok file =>
        have image := header_image block.toRecordPlan recId openFlags permMode object copy
        have path : delivered (buffer.bytes.drop (pathBufferSize - 1 - block.path1.path.length))
            ((BitVec.ofNat 16 block.path1.path.length).signExtend 64) = block.toRecordPlan.part1 := by
          rw [delivered_short _ _ (Nat.lt_trans fits (by decide)), stored.first]
        change (vfsWrite _ _ _ >>= fun _ => vfsWrite _ _ _ >>= fun _ => _).Meets _ _ (Progress.writing answers recId [])
        rw [Program.meets_bind]
        apply header_meets same image
        intro _
        rw [Program.meets_bind]
        apply write_meets
        · rw [← same, path]
          rfl
        intro _
        rw [path, Program.meets_bind]
        apply writePath2_meets same bothFit stored
        rw [Program.meets_bind]
        apply writeContent_meets same
        exact store_meets same bothFit image
  · rename_i large
    have unfit : ¬ (op.plan answers).Fits := by
      rw [← same]
      exact fun both => large both.1
    exact oops_meets ⟨rfl, rfl⟩ (.inr unfit)

end Trfs.Kernel
