import Trfs.Proof.Kernel.Header

namespace Trfs.Kernel
open Bytes Effect Trace

/-- Until the mask has been found clear, the first write to the trace file is a header with the given marks. -/
def stamping (kind : CallKind) (marks : Marks) : Monitor Call.Reply Bool where
  permits written c := written = false → match c with
    | .tracer (.vfsWrite _ source count) => count = BitVec.ofNat 64 sizeofTraceDs ∧ source.length = sizeofTraceDs ∧
        marks.Hold (TraceDs.view source)
    | .setMask _ => False
    | _ => True
  next written
    | .tracer .mask, reply => written || !decide (bitSet reply kind)
    | .tracer (.vfsWrite ..), _ => true
    | _, _ => written

/-- The header is ahead in both monitors or in none, and what was read is as expected. -/
def Stamps (progress : Prop × Bool) (written : Bool) : Prop := progress.1 ∧ progress.2 = written

section
variable {kind : CallKind} {marks : Marks} {α : Type}

/-- A plain call is permitted before the header. -/
theorem plain_permits {c : Call} (plain : Plain c) : (stamping kind marks).permits false c := by
  cases c <;> first | exact plain.elim | exact fun _ => trivial

/-- A plain call writes no header. -/
theorem plain_next {c : Call} (plain : Plain c) (reply : c.Reply) : (stamping kind marks).next false c reply = false := by
  cases c <;> first | exact plain.elim | rfl

/-- A program aside of the header keeps what was written. -/
theorem aside_stamping {post : α → Bool → Prop} {program : Prog α} {written : Bool} (aside : program.Calls Aside)
    (ends : ∀ value, post value written) : program.Meets (stamping kind marks) post written := by
  apply aside.meets _ ends
  intro c quiet reached
  cases c with
  | tracer c => cases c <;> first | exact quiet.elim | exact ⟨fun _ => trivial, fun _ => rfl⟩
  | setMask value => exact quiet.elim
  | _ => exact ⟨fun _ => trivial, fun _ => rfl⟩

/-- Plain calls come before the header. -/
theorem observed_stamping {program : Prog α} {answers : Answers} {post : α → Answers → Prop}
    (observed : program.Meets observe post answers) :
    program.Meets (stamping kind marks) (fun _ written => written = false) false := by
  induction program generalizing answers with
  | pure value => rfl
  | call c next ih =>
      refine ⟨plain_permits observed.1, fun reply => ?_⟩
      rw [plain_next observed.1]
      exact ih reply (observed.2 reply)

/-- A block whose flags and mode are given stamps them. -/
theorem run_stamping {block : TraceBlock} {after : TraceBuffers → Prog α} (same : block.kind = kind)
    {flags : BitVec 32} {mode : BitVec 16} (openFlags : block.openFlags = pure flags)
    (permMode : block.permMode = pure mode) :
    (block.run >>= after).Meets (stamping kind ⟨(· = flags), (· = mode)⟩) (fun _ _ => True) false := by
  have headed : (block.run >>= after).Meets (heading kind (fun _ => True) ⟨(· = flags), (· = mode)⟩)
      (fun _ _ => True) (True, false) := by
    apply run_heading same
    · rw [openFlags]
      exact gives_pure rfl
    · rw [permMode]
      exact gives_pure rfl
  have permits : ∀ progress written c, Stamps progress written →
      (heading kind (fun _ => True) ⟨(· = flags), (· = mode)⟩).permits progress c →
        (stamping kind ⟨(· = flags), (· = mode)⟩).permits written c := by
    rintro progress written c ⟨trust, rfl⟩ permitted early
    cases c with
    | tracer c =>
        cases c with
        | vfsWrite file source count =>
            obtain ⟨whole, size, marked⟩ := permitted early
            exact ⟨whole, size, marked trust⟩
        | _ => trivial
    | setMask value => exact permitted early
    | _ => trivial
  have follows : ∀ progress written c reply, Stamps progress written →
      (heading kind (fun _ => True) ⟨(· = flags), (· = mode)⟩).permits progress c →
        Stamps ((heading kind (fun _ => True) ⟨(· = flags), (· = mode)⟩).next progress c reply)
          ((stamping kind ⟨(· = flags), (· = mode)⟩).next written c reply) := by
    rintro progress written c reply ⟨trust, rfl⟩ _
    cases c with
    | upper c => cases c <;> first | exact ⟨trust, rfl⟩ | exact ⟨⟨trust, trivial⟩, rfl⟩
    | tracer c => cases c <;> exact ⟨trust, rfl⟩
    | _ => exact ⟨trust, rfl⟩
  have start : Stamps (True, false) false := ⟨trivial, rfl⟩
  exact (headed.simulate permits follows start).mono fun _ _ _ => trivial

/-- A node is recorded with its mode and its device number. -/
theorem trfsMknod_stamping (dir : Inode) (dentry : Dentry) (mode : BitVec 16) (dev : BitVec 32) :
    (trfsMknod dir dentry mode dev).Meets (stamping .mknod ⟨(· = dev), (· = mode)⟩) (fun _ _ => True) false := by
  have quiet : ∀ {β : Type} {program : Prog β}, program.Calls Quiet → program.Meets observe (fun _ _ => True) .none :=
    fun calls => observe_quiet calls fun _ => trivial
  have left : ∀ parent path err, (TraceBuffers.null.out (leaveParent parent path) err).Calls Aside := by
    intro parent path err
    simp [Program.Calls, Aside, TraceBuffers.out, leaveParent, unlockDir, trfsPutLowerPath, TraceBuffers.freeInode,
      kfreeSet, TraceBuffers.null, lowerDInode, upper, lower, perform]
  unfold trfsMknod
  rw [Program.meets_bind]
  apply (observed_stamping (quiet (trfsGetLowerPath_quiet dentry))).mono
  rintro path _ rfl
  rw [Program.meets_bind]
  apply (observed_stamping (quiet (lockParent_quiet path.dentry))).mono
  rintro parent _ rfl
  rw [Program.meets_bind]
  apply (observed_stamping (quiet (lowerDInode_quiet parent))).mono
  rintro inode _ rfl
  refine meets_perform_bind (fun _ => trivial) fun err => ?_
  split
  · exact aside_stamping (left parent path _) fun _ => trivial
  · rw [Program.meets_bind]
    apply (observed_stamping (trfsInterpose_meets dentry path .none)).mono
    rintro err _ rfl
    split
    · exact aside_stamping (left parent path _) fun _ => trivial
    · apply run_stamping
      · rfl
      · rfl
      · rfl

end

section
variable {L : Type} {env : Environment L} {helpers : Helpers} {op : TracedOp}

/-- Before the header the mask and the trace file are as they were. The header comes first. -/
structure Stamped (marks : Marks) (kind : CallKind) (before state : Machine L) (written : Bool) : Prop where
  quiet : written = false → state.mask = before.mask ∧ state.traceFile = before.traceFile
  header : written = true → bitSet before.mask kind → ∃ image rest,
    state.traceFile = before.traceFile ++ (image ++ rest) ∧ image.length = sizeofTraceDs ∧
      marks.Hold (TraceDs.view image)

/-- A permitted call keeps the trace stamped. -/
theorem Stamped.step {marks : Marks} {kind : CallKind} {before : Machine L} (full : helpers.WriteFully) (c : Call)
    (state : Machine L) (reply : c.Reply) (after : Machine L) (written : Bool)
    (permitted : (stamping kind marks).permits written c) (stamped : Stamped marks kind before state written)
    (answered : handle env helpers c state = some (reply, after)) :
    Stamped marks kind before after ((stamping kind marks).next written c reply) := by
  obtain ⟨quiet, header⟩ := stamped
  cases c with
  | lower c =>
      obtain ⟨rfl, rfl⟩ := Prod.mk.inj (Option.some.inj answered)
      exact ⟨quiet, header⟩
  | upper c =>
      obtain ⟨rfl, rfl⟩ := Prod.mk.inj (Option.some.inj answered)
      exact ⟨quiet, header⟩
  | copyMaskToUser address =>
      obtain ⟨rfl, rfl⟩ := Prod.mk.inj (Option.some.inj answered)
      exact ⟨quiet, header⟩
  | setMask value =>
      obtain ⟨rfl, rfl⟩ := Prod.mk.inj (Option.some.inj answered)
      exact ⟨fun early => (permitted early).elim, header⟩
  | oops => cases answered
  | tracer c =>
      obtain ⟨rfl, rfl⟩ := Prod.mk.inj (Option.some.inj answered)
      cases c with
      | mask =>
          refine ⟨fun early => ?_, fun late bit => ?_⟩
          · have open' : written = false := by
              simp only [stamping, Bool.or_eq_false_iff] at early
              exact early.1
            exact quiet open'
          · by_cases early : written = false
            · have clear : ¬ bitSet state.mask kind := by
                simpa [stamping, early, Machine.answer] using late
              exact absurd ((quiet early).1 ▸ bit) clear
            · exact header (by simpa using early) bit
      | vfsWrite file source count =>
          refine ⟨fun early => Bool.noConfusion early, fun _ bit => ?_⟩
          by_cases early : written = false
          · obtain ⟨rfl, size, marked⟩ := permitted early
            refine ⟨source, [], ?_, size, marked⟩
            have whole : delivered source (BitVec.ofNat 64 sizeofTraceDs) = source := by
              rw [delivered, if_neg (by decide)]
              exact List.take_of_length_le (by rw [size]; decide)
            simp only [full _, WriteOutcome.arriving, whole, List.append_nil]
            split <;> simp [(quiet early).2]
          · obtain ⟨image, rest, file, size, marked⟩ := header (by simpa using early) bit
            refine ⟨image, rest ++ delivered source count, ?_, size, marked⟩
            simp only [full _, WriteOutcome.arriving]
            split <;> simp [file]
      | kmalloc size =>
          split <;> exact ⟨quiet, header⟩
      | filpOpen filename flags =>
          split <;> exact ⟨quiet, header⟩
      | _ => exact ⟨quiet, header⟩

/-- The record of a call has the marks that its program stamps. -/
theorem AppendsRecord.stamped {marks : Marks} {state : Machine L} {done : Done L} {record : Record}
    (appends : AppendsRecord op state done.state record) (full : helpers.WriteFully)
    (stamps : op.program.Meets (stamping op.kind marks) (fun _ _ => True) false)
    (ran : op.exec env helpers state = some done) : marks.Hold record.header := by
  have start : Stamped marks op.kind state state false := ⟨fun _ => ⟨rfl, rfl⟩, by simp⟩
  have stamped := stamps.exec_relation
    (fun c middle reply after written permitted kept answered =>
      Stamped.step full c middle reply after written permitted kept answered) start ran
  have bit : bitSet state.mask op.kind := by
    rcases (TracedOp.exec_effect ran).2.appends full with ⟨_, same⟩ | ⟨_, bit, _⟩
    · exact absurd (congrArg Machine.traceFile same) appends.grows
    · exact bit
  have written : (stamping op.kind marks).after false done.events = true := by
    by_contra early
    exact appends.grows (stamped.quiet (by simpa using early)).2
  obtain ⟨image, rest, file, size, marked⟩ := stamped.header written bit
  obtain ⟨rfl, _⟩ := append_sized_inj (file.symm.trans appends.bytes) size appends.image
  exact marked

end

end Trfs.Kernel
