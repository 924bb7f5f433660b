import Trfs.Proof.Kernel.Records

namespace Trfs.Kernel
open Bytes Effect Trace

/-- The calls of the tracing block. -/
def Hidden : Call → Prop
  | .tracer _ | .upper (.dInode _) | .upper (.attributes _) | .oops => True
  | _ => False

/-- A read of the mount may be a part of the tracing block. -/
theorem IsRead.hidden (c : Call) (read : IsRead c) : Hidden c := by
  cases c with
  | upper c => cases c <;> first | exact trivial | exact read.elim
  | _ => exact read.elim

section
variable {block : TraceBlock}

/-- So may a fault. -/
theorem oops_hidden {α : Type} : (oops : Prog α).Calls Hidden := ⟨trivial, nofun⟩

/-- `dentry_path_raw` is called by the tracing block only. -/
theorem dentryPathRaw_hidden {size : Nat} (dentry : Dentry) (buffer : Option (Block size)) :
    (dentryPathRaw dentry buffer).Calls Hidden := by
  cases buffer with
  | none => exact oops_hidden
  | some buffer =>
      unfold dentryPathRaw
      dsimp only
      split <;> trivial

/-- The pointer that it returned is used there, -/
theorem pathMemory_hidden {size : Nat} (buffer : Block size) (pathName : Except Errno Nat) :
    (pathMemory buffer pathName).Calls Hidden := by
  cases pathName with
  | error errno => exact oops_hidden
  | ok offset => trivial

/-- and its length is taken there. -/
theorem pathLength_hidden {size : Nat} (buffer : Block size) (pathName : Except Errno Nat) :
    (pathLength buffer pathName).Calls Hidden :=
  (pathMemory_hidden buffer pathName).bind fun _ => trivial

/-- A block of memory that may be `NULL` is used there. -/
theorem deref_hidden {size : Nat} (pointer : Option (Block size)) : (deref pointer).Calls Hidden := by
  cases pointer with
  | none => exact oops_hidden
  | some pointer => trivial

/-- The trace file is written there. -/
theorem vfsWrite_hidden (fileOp : Except Errno TraceFile) (source : List Byte) (count : BitVec 64) :
    (vfsWrite fileOp source count).Calls Hidden := by
  cases fileOp with
  | error errno => exact oops_hidden
  | ok file => exact ⟨trivial, fun _ => trivial⟩

/-- The trace file is closed there. -/
theorem filpClose_hidden (fileOp : Except Errno TraceFile) : (filpClose fileOp).Calls Hidden := by
  cases fileOp with
  | error errno => exact oops_hidden
  | ok file => exact ⟨trivial, fun _ => trivial⟩

/-- The second path is found there, -/
theorem secondPath_hidden (buffer : Block pathBufferSize) : (block.secondPath buffer).Calls Hidden := by
  unfold TraceBlock.secondPath
  split
  · trivial
  · trivial
  · exact (dentryPathRaw_hidden _ _).bind fun _ => (pathLength_hidden _ _).bind fun _ => trivial

/-- and it is written there. -/
theorem writePath2_hidden (fileOp : Except Errno TraceFile) (buffer : Block pathBufferSize)
    (pathName2 : Except Errno Nat) (lenPath2 : BitVec 16) :
    (block.writePath2 fileOp buffer pathName2 lenPath2).Calls Hidden := by
  unfold TraceBlock.writePath2
  split
  · trivial
  · exact (vfsWrite_hidden _ _ _).bind fun _ => trivial
  · exact (pathMemory_hidden _ _).bind fun _ => (vfsWrite_hidden _ _ _).bind fun _ => trivial

/-- So is the content. -/
theorem writeContent_hidden (fileOp : Except Errno TraceFile) :
    (block.writeContent fileOp).Calls Hidden := by
  unfold TraceBlock.writeContent
  split
  · trivial
  · exact (vfsWrite_hidden _ _ _).bind fun _ => trivial

/-- All calls of a selected tracing block are its own. -/
theorem body_hidden (flags : block.openFlags.Calls IsRead) (mode : block.permMode.Calls IsRead) :
    block.body.Calls Hidden := by
  unfold TraceBlock.body
  refine ⟨trivial, fun _ => ⟨trivial, fun _ => ?_⟩⟩
  apply (flags.mono IsRead.hidden).bind
  intro _
  apply (mode.mono IsRead.hidden).bind
  intro _
  refine ⟨trivial, fun _ => ?_⟩
  apply (dentryPathRaw_hidden _ _).bind
  intro _
  apply (pathLength_hidden _ _).bind
  intro _
  apply (secondPath_hidden _).bind
  intro _
  refine ⟨trivial, fun _ => ⟨trivial, fun _ => ?_⟩⟩
  apply (deref_hidden _).bind
  intro _
  refine ⟨trivial, fun _ => ?_⟩
  apply (deref_hidden _).bind
  intro _
  apply (vfsWrite_hidden _ _ _).bind
  intro _
  apply (pathMemory_hidden _ _).bind
  intro _
  apply (vfsWrite_hidden _ _ _).bind
  intro _
  apply (writePath2_hidden _ _ _ _).bind
  intro _
  apply (writeContent_hidden _).bind
  intro _
  apply (filpClose_hidden _).bind
  intro _
  exact ⟨trivial, fun _ => trivial⟩

/-- All calls of a tracing block are its own. -/
theorem run_hidden (flags : block.openFlags.Calls IsRead) (mode : block.permMode.Calls IsRead) :
    block.run.Calls Hidden := by
  refine ⟨trivial, fun mask => ?_⟩
  change (ite _ block.body _).Calls Hidden
  split
  · exact body_hidden flags mode
  · trivial

end

/-- The calls to the lower filesystem with their arguments and replies. -/
def lowerEvents (events : List (Event Call.Reply)) : List (Event LowerCall.Reply) :=
  events.filterMap fun event => match event with
    | ⟨.lower c, reply⟩ => some ⟨c, reply⟩
    | _ => none

/-- The lower calls of a longer execution. -/
theorem lowerEvents_append (first second : List (Event Call.Reply)) :
    lowerEvents (first ++ second) = lowerEvents first ++ lowerEvents second :=
  List.filterMap_append

/-- The tracing block makes no lower call, and it does not change the answers. -/
theorem hidden_events {events : List (Event Call.Reply)} (hidden : ∀ event ∈ events, Hidden event.call)
    (answers : Answers) : lowerEvents events = [] ∧ observe.after answers events = answers := by
  induction events with
  | nil => exact ⟨rfl, rfl⟩
  | cons event events ih =>
      obtain ⟨quiet, same⟩ := ih fun later member => hidden later (List.mem_cons_of_mem _ member)
      have now := hidden event List.mem_cons_self
      rcases event with ⟨c, reply⟩
      have kept : observe.next answers c reply = answers ∧ lowerEvents [⟨c, reply⟩] = [] := by
        cases c with
        | upper c => cases c <;> first | exact ⟨rfl, rfl⟩ | exact now.elim
        | tracer c => exact ⟨rfl, rfl⟩
        | oops => exact Empty.elim reply
        | _ => exact now.elim
      constructor
      · rw [← List.singleton_append, lowerEvents_append, kept.2, quiet, List.append_nil]
      · rw [Monitor.after_cons, kept.1, same]

/-- The paths of the operation fit in the 256-byte buffer. -/
def TracedOp.PathsFit (op : TracedOp) : Prop :=
  op.path1.path.length < pathBufferSize ∧
    ∀ dentry, op.path2 = .dentry dentry → dentry.path.length < pathBufferSize

section
variable {L : Type} {env : Environment L} {helpers others : Helpers} {op : TracedOp} {answers : Answers}

/-- It leaves the lower filesystem and the upper inodes as they are. -/
theorem handle_hidden {c : Call} {before after : Machine L} {reply : c.Reply} (hidden : Hidden c)
    (answered : handle env helpers c before = some (reply, after)) : after.visible = before.visible := by
  cases c with
  | upper c =>
      cases c <;> first
        | exact hidden.elim
        | exact (congrArg Machine.visible (Prod.mk.inj (Option.some.inj answered)).2).symm
  | tracer c =>
      have step := Option.some.inj answered
      cases c <;> simp only [Machine.answer] at step <;> (try split at step) <;>
        exact (congrArg Machine.visible (Prod.mk.inj step).2).symm
  | oops => exact Empty.elim reply
  | _ => exact hidden.elim

/-- The tracing block leaves everything outside the tracer as it was. -/
theorem run_silent {block : TraceBlock} (answers : Answers) (flags : block.openFlags.Calls IsRead)
    (mode : block.permMode.Calls IsRead) {state : Machine L}
    {done : Execution Call.Reply (Machine L) TraceBuffers}
    (ran : block.run.exec (handle env helpers) state = some done) :
    done.state.visible = state.visible ∧ lowerEvents done.events = [] ∧
      observe.after answers done.events = answers := by
  have hidden := run_hidden flags mode
  have kept : ∀ c (before : Machine L) reply after, Hidden c → before.visible = state.visible →
      handle env helpers c before = some (reply, after) → after.visible = state.visible :=
    fun c before reply after hidden same answered => (handle_hidden hidden answered).trans same
  exact ⟨hidden.exec_keeps kept rfl ran, hidden_events (hidden.exec_events ran) answers⟩

/-- The four helper calls of the next record succeed. -/
def Ready (helpers : Helpers) (state : Machine L) : Prop :=
  ∀ index < 4, helpers.fails (state.helperCalls + index) = none

/-- None of the four helper calls of a block that is ready fails. -/
theorem Tracks.nextHelper {kind : CallKind} {before after : Machine L} {progress : Progress}
    (tracks : Tracks helpers kind before after progress) (ready : Ready helpers before)
    (few : progress.helperCalls < 4) : helpers.fails after.helperCalls = none := by
  have count : after.helperCalls = before.helperCalls + progress.helperCalls := by rw [tracks.state]
  rw [count]
  exact ready _ few

/-- The state from which the body of a block goes on without a fault. -/
structure Sound (helpers : Helpers) (kind : CallKind) (answers : Answers) (before after : Machine L)
    (progress : Progress) : Prop where
  tracks : Tracks helpers kind before after progress
  checked : progress.checked = some true
  sound : progress.failed = false
  answers : progress.answers = answers

/-- A selected block that is ready and whose lengths fit does not fault. -/
theorem body_completes {block : TraceBlock} (same : block.toRecordPlan = op.plan answers)
    (flags : block.openFlags.Calls IsRead) (mode : block.permMode.Calls IsRead) {state : Machine L}
    (bit : bitSet state.mask op.kind) (ready : Ready helpers state) (fits : (op.plan answers).Fits) :
    ∃ done, block.body.exec (handle env helpers) state = some done := by
  have start : Sound helpers op.kind answers state state (.atBlock answers) :=
    { tracks :=
        { state := by simp [Progress.atBlock, Progress.start, arrivals]
          recId := fun recId read => by cases read
          checked := fun _ checked => Option.some.inj checked ▸ (iff_of_true rfl bit)
          helped := fun _ index within => absurd within (Nat.not_lt_zero index) }
      checked := rfl
      sound := rfl
      answers := rfl }
  apply ((body_meets same flags mode).restrict (body_hidden flags mode)).exec_isSome _ start
  intro c before progress permitted sound
  obtain ⟨permitted, hidden⟩ := permitted
  cases c with
  | lower c => exact hidden.elim
  | setMask value => exact hidden.elim
  | copyMaskToUser address => exact hidden.elim
  | oops =>
      rcases permitted with none | ⟨_, failed | unfit⟩
      · cases sound.checked.symm.trans none
      · cases sound.sound.symm.trans failed
      · rw [sound.answers] at unfit
        exact absurd fits unfit
  | upper c =>
      have answered : handle env helpers (.upper c) before = some ((before.visible.answer env c).1,
          { before with visible := (before.visible.answer env c).2 }) := rfl
      refine ⟨_, _, answered, handle_tracks _ _ permitted sound.tracks answered, sound.checked,
        sound.sound, ?_⟩
      rw [← sound.answers]
      cases c <;> first | rfl | exact hidden.elim
  | tracer c =>
      have answered : handle env helpers (.tracer c) before =
          some ((before.answer helpers c).1, (before.answer helpers c).2) := rfl
      refine ⟨_, _, answered, handle_tracks _ _ permitted sound.tracks answered, ?_, ?_, ?_⟩
      · cases c with
        | mask => cases sound.checked.symm.trans permitted.1
        | _ => exact sound.checked
      · cases c with
        | kmalloc size =>
            have works := sound.tracks.nextHelper ready permitted.2.1
            simp [protocol, Progress.nextTracer, Machine.answer, works, sound.sound]
        | filpOpen filename flags =>
            have works := sound.tracks.nextHelper ready permitted.2.1
            simp [protocol, Progress.nextTracer, Machine.answer, works, sound.sound, Except.toBool]
        | _ => exact sound.sound
      · cases c <;> exact sound.answers

/-- With the helpers ready and the paths short a block completes. With a clear bit it does nothing. -/
theorem run_completes {block : TraceBlock} (same : block.toRecordPlan = op.plan answers)
    (flags : block.openFlags.Calls IsRead) (mode : block.permMode.Calls IsRead) {state : Machine L}
    (ready : bitSet state.mask op.kind → Ready helpers state ∧ (op.plan answers).Fits) :
    ∃ done, block.run.exec (handle env helpers) state = some done := by
  have kind : block.kind = op.kind := congrArg RecordPlan.kind same
  have step : block.run.exec (handle env helpers) state =
      ((if bitSet state.mask block.kind then block.body else pure .null).exec (handle env helpers) state).map
        fun rest => { rest with events := ⟨Call.tracer .mask, state.mask⟩ :: rest.events } := rfl
  rw [step, kind]
  split
  · rename_i bit
    obtain ⟨helped, fits⟩ := ready bit
    obtain ⟨done, ran⟩ := body_completes same flags mode bit helped fits
    exact ⟨_, by rw [ran]; rfl⟩
  · exact ⟨_, rfl⟩

end

end Trfs.Kernel
