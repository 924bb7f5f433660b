import Trfs.Proof.Kernel.Results

namespace Trfs.Kernel
open Bytes Effect Trace

/-- What is known about the flags and the mode of a record. -/
structure Marks where
  flags : BitVec 32 → Prop
  mode : BitVec 16 → Prop

def Marks.Hold (marks : Marks) (header : TraceDs) : Prop :=
  marks.flags header.openFlags ∧ marks.mode header.permissionMode

/-- Until the mask has been found clear, the first write to the trace file is a header with the given marks if all
attributes that were read before it are as expected. No attributes change before it. -/
def heading (kind : CallKind) (expected : Attributes → Prop) (marks : Marks) : Monitor Call.Reply (Prop × Bool) where
  permits progress c := progress.2 = false → match c with
    | .tracer (.vfsWrite _ source count) => count = BitVec.ofNat 64 sizeofTraceDs ∧ source.length = sizeofTraceDs ∧
        (progress.1 → marks.Hold (TraceDs.view source))
    | .upper (.setAttributes ..) | .setMask _ => False
    | _ => True
  next progress
    | .upper (.attributes _), reply => (progress.1 ∧ expected reply, progress.2)
    | .tracer .mask, reply => (progress.1, progress.2 || !decide (bitSet reply kind))
    | .tracer (.vfsWrite ..), _ => (progress.1, true)
    | _, _ => progress

/-- The calls that have nothing to do with attributes, the mask and the trace file. -/
def Aside : Call → Prop
  | .upper (.attributes _) | .upper (.setAttributes ..) | .tracer .mask | .tracer (.vfsWrite ..) | .setMask _ => False
  | _ => True

section
variable {kind : CallKind} {expected : Attributes → Prop} {marks : Marks} {α : Type} {trusted : Prop}

/-- After the header everything is permitted. -/
theorem headed_meets (program : Prog α) (trusted : Prop) :
    program.Meets (heading kind expected marks) (fun _ progress => progress.2 = true) (trusted, true) := by
  induction program generalizing trusted with
  | pure value => rfl
  | call c next ih =>
      refine ⟨nofun, fun reply => ?_⟩
      have headed : ∃ later, (heading kind expected marks).next (trusted, true) c reply = (later, true) := by
        cases c with
        | upper c => cases c <;> exact ⟨_, rfl⟩
        | tracer c => cases c <;> exact ⟨_, rfl⟩
        | _ => exact ⟨_, rfl⟩
      obtain ⟨later, same⟩ := headed
      rw [same]
      exact ih reply later

/-- A program aside of the header keeps the progress. -/
theorem aside_meets {post : α → Prop × Bool → Prop} {program : Prog α} {progress : Prop × Bool}
    (aside : program.Calls Aside) (rest : ∀ value, post value progress) :
    program.Meets (heading kind expected marks) post progress := by
  apply aside.meets _ rest
  intro c quiet reached
  cases c with
  | upper c => cases c <;> first | exact quiet.elim | exact ⟨fun _ => trivial, fun _ => rfl⟩
  | tracer c => cases c <;> first | exact quiet.elim | exact ⟨fun _ => trivial, fun _ => rfl⟩
  | setMask value => exact quiet.elim
  | _ => exact ⟨fun _ => trivial, fun _ => rfl⟩

/-- After an oops nothing is left to prove. -/
theorem oops_heading {post : α → Prop × Bool → Prop} {progress : Prop × Bool} {next : Empty → Prog α} :
    (Program.call Call.oops next).Meets (heading kind expected marks) post progress := ⟨fun _ => trivial, nofun⟩

/-- A program that only computes a value with the given property, as far as its reads are as expected. -/
def Gives (kind : CallKind) (expected : Attributes → Prop) (marks : Marks) (program : Prog α)
    (holds : α → Prop) : Prop :=
  ∀ trusted, program.Meets (heading kind expected marks)
    (fun value progress => progress.2 = false ∧ (progress.1 → trusted ∧ holds value)) (trusted, false)

/-- A known value gives what holds of it. -/
theorem gives_pure {holds : α → Prop} {value : α} (here : holds value) :
    Gives kind expected marks (pure value : Prog α) holds := fun _ => ⟨rfl, fun trust => ⟨trust, here⟩⟩

/-- A member of an inode gives what its attributes promise. -/
theorem gives_inodeMember {holds : α → Prop} {inode : Inode} {select : Attributes → α}
    (here : ∀ attributes, expected attributes → holds (select attributes)) :
    Gives kind expected marks (inodeMember inode select) holds := by
  intro trusted
  refine ⟨fun _ => trivial, fun attributes => ⟨rfl, fun trust => ⟨trust.1, here attributes trust.2⟩⟩⟩

/-- A member of the inode of a dentry gives what its attributes promise. -/
theorem gives_dInodeMember {holds : α → Prop} {dentry : Dentry} {select : Attributes → α}
    (here : ∀ attributes, expected attributes → holds (select attributes)) :
    Gives kind expected marks (dInodeMember dentry select) holds := by
  intro trusted
  refine ⟨fun _ => trivial, fun inode => ⟨fun _ => trivial, fun attributes => ?_⟩⟩
  exact ⟨rfl, fun trust => ⟨trust.1, here attributes trust.2⟩⟩

attribute [local simp] Program.Calls Aside

/-- The second path is made aside of the header. -/
theorem secondPath_aside (block : TraceBlock) (buffer : Block pathBufferSize) :
    (block.secondPath buffer).Calls Aside := by
  unfold TraceBlock.secondPath
  split
  · trivial
  · trivial
  · rename_i dentry same
    simp only [dentryPathRaw]
    split
    · simp [pathLength, pathMemory]
    · simp [pathLength, pathMemory, oops]

/-- The block writes its header with the marks of its flags and its mode. -/
theorem body_heading {block : TraceBlock} (flags : Gives kind expected marks block.openFlags marks.flags)
    (mode : Gives kind expected marks block.permMode marks.mode) (trusted : Prop) :
    block.body.Meets (heading kind expected marks) (fun _ progress => progress.2 = true) (trusted, false) := by
  unfold TraceBlock.body
  refine meets_perform_bind (fun _ => trivial) fun filename => ?_
  refine meets_perform_bind (fun _ => trivial) fun recId => ?_
  rw [Program.meets_bind]
  apply (flags trusted).mono
  rintro openFlags ⟨trust, _⟩ ⟨rfl, flagged⟩
  rw [Program.meets_bind]
  apply (mode trust).mono
  rintro permMode ⟨trust', _⟩ ⟨rfl, moded⟩
  refine meets_perform_bind (fun _ => trivial) ?_
  rintro (_ | buffer)
  · exact oops_heading
  simp only [dentryPathRaw]
  split
  · rw [Program.pure_eq, Program.pure_bind, Program.meets_bind]
    apply aside_meets (by simp [pathLength, pathMemory])
    intro lenPath1
    rw [Program.meets_bind]
    apply aside_meets (secondPath_aside block _)
    intro second
    refine meets_perform_bind (fun _ => trivial) fun fileOp => ?_
    refine meets_perform_bind (fun _ => trivial) ?_
    rintro (_ | object)
    · exact oops_heading
    refine meets_perform_bind (fun _ => trivial) ?_
    rintro (_ | copy)
    · exact oops_heading
    cases fileOp with
    | error errno => exact oops_heading
    | ok file =>
        refine ⟨fun _ => ⟨rfl, ?_, ?_⟩, fun reply => headed_meets _ _⟩
        · rw [memcpy_whole _ _ _ copy.length (TraceDs.assign_length _ _ object.length)]
          exact TraceDs.assign_length _ _ object.length
        · intro trust
          rw [memcpy_whole _ _ _ copy.length (TraceDs.assign_length _ _ object.length),
            TraceDs.view_assign _ _ object.length]
          exact ⟨(flagged (moded trust).1).2, (moded trust).2⟩
  · exact oops_heading

/-- After its tracing block an operation is free to do anything. -/
theorem run_heading {block : TraceBlock} {after : TraceBuffers → Prog α} (same : block.kind = kind)
    (flags : Gives kind expected marks block.openFlags marks.flags)
    (mode : Gives kind expected marks block.permMode marks.mode) (trusted : Prop) :
    (block.run >>= after).Meets (heading kind expected marks) (fun _ _ => True) (trusted, false) := by
  have free : ∀ buffers progress, progress.2 = true →
      (after buffers).Meets (heading kind expected marks) (fun _ _ => True) progress := by
    rintro buffers ⟨trust, _⟩ rfl
    exact (headed_meets (after buffers) trust).mono fun _ _ _ => trivial
  rw [Program.meets_bind, TraceBlock.run]
  refine meets_perform_bind (fun _ => trivial) fun mask => ?_
  by_cases bit : bitSet mask kind
  · have start : (heading kind expected marks).next (trusted, false) (Call.tracer .mask) mask = (trusted, false) := by
      simp [heading, bit]
    rw [if_pos (by rw [same]; exact bit), start]
    exact (body_heading flags mode trusted).mono free
  · have skip : (heading kind expected marks).next (trusted, false) (Call.tracer .mask) mask = (trusted, true) := by
      simp [heading, bit]
    rw [if_neg (by rw [same]; exact bit), skip]
    exact free .null (trusted, true) rfl

/-- Dropping the lower file is aside of the header. -/
theorem dropLowerFile_aside (file : File) : (dropLowerFile file).Calls Aside := by
  simp only [dropLowerFile, perform_bind, Program.Calls]
  refine ⟨trivial, fun lowerFile => ?_⟩
  cases lowerFile <;> simp [lower, perform]

/-- Opening the lower file is aside of the header. -/
theorem openLower_aside (file : File) : (openLower file).Calls Aside := by
  refine ⟨trivial, fun path => ⟨trivial, fun _ => ⟨trivial, fun opened => ⟨trivial, fun _ => ?_⟩⟩⟩⟩
  cases opened with
  | error errno => exact (dropLowerFile_aside file).bind fun _ => trivial
  | ok lowerFile => exact ⟨trivial, fun _ => trivial⟩

/-- A file that was opened is recorded with its own flags. -/
theorem trfsOpen_heading (inode : Inode) (file : File) :
    (trfsOpen inode file).Meets (heading .open (fun _ => True) ⟨(· = file.flags), fun _ => True⟩) (fun _ _ => True)
      (True, false) := by
  unfold trfsOpen
  refine meets_perform_bind (fun _ => trivial) fun unhashed => ?_
  cases unhashed with
  | true => trivial
  | false =>
      refine meets_perform_bind (fun _ => trivial) fun allocated => ?_
      cases allocated with
      | false => trivial
      | true =>
          change (openLower file >>= _).Meets _ _ _
          rw [Program.meets_bind]
          apply aside_meets (openLower_aside file)
          intro err
          apply run_heading
          · rfl
          · exact gives_pure rfl
          · exact gives_dInodeMember fun _ _ => trivial

/-- The prefix of an operation that works on one locked parent. -/
theorem locked_heading {post : α → Prop × Bool → Prop} {dentry : Dentry} {progress : Prop × Bool}
    {next : LowerPath → LowerDentry → LowerInode → Prog α}
    (rest : ∀ path parent inode, (next path parent inode).Meets (heading kind expected marks) post progress) :
    (trfsGetLowerPath dentry >>= fun path => lockParent path.dentry >>= fun parent =>
      lowerDInode parent >>= fun inode => next path parent inode).Meets (heading kind expected marks) post
        progress := by
  rw [Program.meets_bind]
  apply aside_meets (by simp [trfsGetLowerPath, upper, lower, perform])
  intro path
  rw [Program.meets_bind]
  apply aside_meets (by simp [lockParent, lowerDInode, upper, lower, perform])
  intro parent
  exact meets_perform_bind (fun _ => trivial) fun inode => rest path parent inode

/-- A created file is recorded with its mode and with the lookup flags of its directory. -/
theorem trfsCreate_heading (dir : Inode) (dentry : Dentry) (mode : BitVec 16) (wantExcl : Bool)
    (holds : BitVec 16 → Prop) :
    (trfsCreate dir dentry mode wantExcl).Meets
      (heading .create (fun inode => holds inode.opflags)
        ⟨fun flags => ∃ opflags, holds opflags ∧ flags = opflags.setWidth 32, (· = mode)⟩)
      (fun _ _ => True) (True, false) := by
  unfold trfsCreate
  apply locked_heading
  intro path parent inode
  refine meets_perform_bind (fun _ => trivial) fun err => ?_
  apply run_heading
  · rfl
  · exact gives_inodeMember fun attributes here => ⟨attributes.opflags, here, rfl⟩
  · exact gives_pure rfl

/-- A directory is recorded with the mode that it was asked for. -/
theorem trfsMkdir_heading (dir : Inode) (dentry : Dentry) (mode : BitVec 16) :
    (trfsMkdir dir dentry mode).Meets (heading .mkdir (fun _ => True) ⟨fun _ => True, (· = mode)⟩)
      (fun _ _ => True) (True, false) := by
  unfold trfsMkdir
  apply locked_heading
  intro path parent inode
  refine meets_perform_bind (fun _ => trivial) fun err => ?_
  split
  · apply aside_meets
    · simp [TraceBuffers.out, leaveParent, unlockDir, trfsPutLowerPath, TraceBuffers.freeInode, kfreeSet,
        TraceBuffers.null, lowerDInode, upper, lower, perform]
    · exact fun _ => trivial
  · apply run_heading
    · rfl
    · exact gives_inodeMember fun _ _ => trivial
    · exact gives_pure rfl

end

section
variable {L : Type} {env : Environment L} {helpers : Helpers} {op : TracedOp} {expected : Attributes → Prop}
  {marks : Marks}

/-- Before the header the mask, the attributes and the trace file are as they were. The header comes first. -/
structure Headed (expected : Attributes → Prop) (marks : Marks) (kind : CallKind) (before state : Machine L)
    (progress : Prop × Bool) : Prop where
  quiet : progress.2 = false → progress.1 ∧ state.mask = before.mask ∧ state.traceFile = before.traceFile ∧
    state.visible.upper.attributes = before.visible.upper.attributes
  header : progress.2 = true → bitSet before.mask kind → ∃ image rest,
    state.traceFile = before.traceFile ++ (image ++ rest) ∧ image.length = sizeofTraceDs ∧
      marks.Hold (TraceDs.view image)

/-- A permitted call keeps the trace headed. -/
theorem Headed.step {kind : CallKind} {before : Machine L} (full : helpers.WriteFully) (c : Call) (state : Machine L)
    (reply : c.Reply) (after : Machine L) (progress : Prop × Bool)
    (trusted : ∀ inode, expected (before.visible.upper.attributes inode))
    (permitted : (heading kind expected marks).permits progress c)
    (headed : Headed expected marks kind before state progress)
    (answered : handle env helpers c state = some (reply, after)) :
    Headed expected marks kind before after ((heading kind expected marks).next progress c reply) := by
  obtain ⟨quiet, header⟩ := headed
  cases c with
  | lower c =>
      obtain ⟨rfl, rfl⟩ := Prod.mk.inj (Option.some.inj answered)
      exact ⟨quiet, header⟩
  | copyMaskToUser address =>
      obtain ⟨rfl, rfl⟩ := Prod.mk.inj (Option.some.inj answered)
      exact ⟨quiet, header⟩
  | setMask value =>
      obtain ⟨rfl, rfl⟩ := Prod.mk.inj (Option.some.inj answered)
      exact ⟨fun early => (permitted early).elim, header⟩
  | oops => cases answered
  | upper c =>
      obtain ⟨rfl, rfl⟩ := Prod.mk.inj (Option.some.inj answered)
      cases c with
      | attributes inode =>
          refine ⟨fun early => ?_, header⟩
          obtain ⟨trust, mask, file, same⟩ := quiet early
          refine ⟨⟨trust, ?_⟩, mask, file, same⟩
          show expected (state.visible.upper.attributes inode)
          rw [same]
          exact trusted inode
      | setAttributes inode value => exact ⟨fun early => (permitted early).elim, header⟩
      | dSpliceAlias inode dentry =>
          refine ⟨fun early => ?_, header⟩
          obtain ⟨trust, mask, file, same⟩ := quiet early
          refine ⟨trust, mask, file, ?_⟩
          rw [← same]
          simp only
          split <;> rfl
      | _ => exact ⟨quiet, header⟩
  | tracer c =>
      obtain ⟨rfl, rfl⟩ := Prod.mk.inj (Option.some.inj answered)
      cases c with
      | mask =>
          refine ⟨fun early => ?_, fun late bit => ?_⟩
          · have open' : progress.2 = false := by
              simp only [heading, Bool.or_eq_false_iff] at early
              exact early.1
            exact quiet open'
          · by_cases early : progress.2 = false
            · have mask := (quiet early).2.1
              have clear : ¬ bitSet state.mask kind := by
                simpa [heading, early, Machine.answer] using late
              exact absurd (mask ▸ bit) clear
            · exact header (by simpa using early) bit
      | vfsWrite file source count =>
          refine ⟨fun early => Bool.noConfusion early, fun _ bit => ?_⟩
          by_cases early : progress.2 = false
          · obtain ⟨trust, _, kept, _⟩ := quiet early
            obtain ⟨rfl, size, marked⟩ := permitted early
            refine ⟨source, [], ?_, size, marked trust⟩
            have whole : delivered source (BitVec.ofNat 64 sizeofTraceDs) = source := by
              rw [delivered, if_neg (by decide)]
              exact List.take_of_length_le (by rw [size]; decide)
            simp only [full _, WriteOutcome.arriving, whole, List.append_nil]
            split <;> simp [kept]
          · obtain ⟨image, rest, file, size, marked⟩ := header (by simpa using early) bit
            refine ⟨image, rest ++ delivered source count, ?_, size, marked⟩
            simp only [full _, WriteOutcome.arriving]
            split <;> simp [file]
      | kmalloc size =>
          split <;> exact ⟨quiet, header⟩
      | filpOpen filename flags =>
          split <;> exact ⟨quiet, header⟩
      | _ => exact ⟨quiet, header⟩

/-- The record of a call has the marks that its program gives to the header. -/
theorem AppendsRecord.marked {state : Machine L} {done : Done L} {record : Record}
    (appends : AppendsRecord op state done.state record) (full : helpers.WriteFully)
    (trusted : ∀ inode, expected (state.visible.upper.attributes inode))
    (marks_program : op.program.Meets (heading op.kind expected marks) (fun _ _ => True) (True, false))
    (ran : op.exec env helpers state = some done) : marks.Hold record.header := by
  have start : Headed expected marks op.kind state state (True, false) :=
    ⟨fun _ => ⟨trivial, rfl, rfl, rfl⟩, nofun⟩
  have headed := marks_program.exec_relation
    (fun c middle reply after progress permitted kept answered =>
      Headed.step full c middle reply after progress trusted permitted kept answered) start ran
  have bit : bitSet state.mask op.kind := by
    rcases (TracedOp.exec_effect ran).2.appends full with ⟨_, same⟩ | ⟨_, bit, _⟩
    · exact absurd (congrArg Machine.traceFile same) appends.grows
    · exact bit
  have written : ((heading op.kind expected marks).after (True, false) done.events).2 = true := by
    by_contra early
    exact appends.grows (headed.quiet (by simpa using early)).2.2.1
  obtain ⟨image, rest, file, size, marked⟩ := headed.header written bit
  obtain ⟨rfl, _⟩ := append_sized_inj (file.symm.trans appends.bytes) size appends.image
  exact marked

end

end Trfs.Kernel
