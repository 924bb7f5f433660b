import Trfs.Proof.Kernel.Protocol
namespace Trfs.Kernel
open Bytes Effect Trace

/-- The bytes that arrive in the trace file when these parts are written one after the other. -/
def arrivals (helpers : Helpers) : Nat → List (List Byte) → List Byte
  | _, [] => []
  | start, part :: rest => (helpers.write start).arriving part ++ arrivals helpers (start + 1) rest

/-- What arrives of two lists of writes. -/
theorem arrivals_append (helpers : Helpers) (start : Nat) (first second : List (List Byte)) :
    arrivals helpers start (first ++ second) =
      arrivals helpers start first ++ arrivals helpers (start + first.length) second := by
  induction first generalizing start with
  | nil => rfl
  | cons part rest ih =>
      rw [List.cons_append, arrivals, ih, arrivals, List.append_assoc, List.length_cons]
      congr 3
      omega

/-- The answers that a list of events leaves. -/
def answersOf (events : List (Event Call.Reply)) : Answers := observe.after .none events

/-- The protocol follows the answers. -/
theorem protocol_answers (op : TracedOp) (progress : Progress) (events : List (Event Call.Reply)) :
    ((protocol op).after progress events).answers = observe.after progress.answers events := by
  induction events generalizing progress with
  | nil => rfl
  | cons event events ih =>
      rw [Monitor.after_cons, Monitor.after_cons, ih]
      congr 1
      rcases event with ⟨c, reply⟩
      cases c with
      | tracer c => cases c <;> rfl
      | upper c => rfl
      | lower c => rfl
      | setMask value => rfl
      | copyMaskToUser address => rfl
      | oops => rfl

section
variable {L : Type} {env : Environment L} {helpers : Helpers} {op : TracedOp}

/-- The tracer's part of the state is where the progress of the call says it is. -/
structure Tracks (helpers : Helpers) (kind : CallKind) (before after : Machine L) (progress : Progress) :
    Prop where
  state : after = { before with
    visible := after.visible
    recordId := if progress.stored then before.recordId + 1 else before.recordId
    traceFile := before.traceFile ++ arrivals helpers before.traceWrites progress.written
    helperCalls := before.helperCalls + progress.helperCalls
    traceWrites := before.traceWrites + progress.written.length }
  recId : ∀ recId, progress.recId = some recId → recId = before.recordId
  checked : ∀ bit, progress.checked = some bit → (bit = true ↔ bitSet before.mask kind)
  helped : progress.failed = false → ∀ index < progress.helperCalls,
    helpers.fails (before.helperCalls + index) = none

/-- The start is tracked. -/
theorem Tracks.start (helpers : Helpers) (kind : CallKind) (state : Machine L) :
    Tracks helpers kind state state .start where
  state := by simp [Progress.start, arrivals]
  recId := nofun
  checked := nofun
  helped := fun _ index within => absurd within (Nat.not_lt_zero index)

/-- A change of what is visible is tracked. -/
theorem Tracks.plain {kind : CallKind} {before state after : Machine L} {progress : Progress} {answers : Answers}
    (tracks : Tracks helpers kind before state progress) (same : after = { state with visible := after.visible }) :
    Tracks helpers kind before after { progress with answers := answers } where
  state := by rw [same, tracks.state]
  recId := tracks.recId
  checked := tracks.checked
  helped := tracks.helped

/-- A call of a helper is tracked. -/
theorem Tracks.help {kind : CallKind} {before state after : Machine L} {progress : Progress} {failing : Bool}
    (tracks : Tracks helpers kind before state progress)
    (same : after = { state with helperCalls := state.helperCalls + 1 })
    (outcome : failing = (helpers.fails state.helperCalls).isSome) :
    Tracks helpers kind before after { progress with
      helperCalls := progress.helperCalls + 1, failed := progress.failed || failing } where
  state := by rw [same, tracks.state]; rfl
  recId := tracks.recId
  checked := tracks.checked
  helped := by
    intro fine index within
    obtain ⟨before, now⟩ := Bool.or_eq_false_iff.mp fine
    have count : state.helperCalls = _ := congrArg Machine.helperCalls tracks.state
    rcases Nat.lt_succ_iff_lt_or_eq.mp within with earlier | rfl
    · exact tracks.helped before index earlier
    · rw [now, count] at outcome
      exact Option.isSome_eq_false_iff.mp outcome.symm |> Option.isNone_iff_eq_none.mp

/-- A permitted call is tracked. -/
theorem handle_tracks {before state after : Machine L} {progress : Progress} (c : Call) (reply : c.Reply)
    (permitted : (protocol op).permits progress c) (tracks : Tracks helpers op.kind before state progress)
    (answered : handle env helpers c state = some (reply, after)) :
    Tracks helpers op.kind before after ((protocol op).next progress c reply) := by
  cases c with
  | lower c =>
      obtain ⟨rfl, rfl⟩ := Prod.mk.inj (Option.some.inj answered)
      exact tracks.plain rfl
  | upper c =>
      obtain ⟨rfl, rfl⟩ := Prod.mk.inj (Option.some.inj answered)
      exact tracks.plain rfl
  | tracer c =>
      have step := Option.some.inj answered
      cases c with
      | mask =>
          obtain ⟨rfl, rfl⟩ := Prod.mk.inj step
          have mask : state.mask = before.mask := by rw [tracks.state]
          exact { tracks with
            checked := fun bit checked => by
              rw [← Option.some.inj checked, mask]
              exact decide_eq_true_iff }
      | tfilePath =>
          obtain ⟨rfl, rfl⟩ := Prod.mk.inj step
          exact tracks
      | recordId =>
          obtain ⟨rfl, rfl⟩ := Prod.mk.inj step
          have notStored : progress.stored = false := permitted.1.2
          have counter : state.recordId = before.recordId := by rw [tracks.state, notStored]; rfl
          exact { tracks with recId := fun recId read => Option.some.inj read ▸ counter }
      | setRecordId value =>
          obtain ⟨rfl, rfl⟩ := Prod.mk.inj step
          obtain ⟨_, _, _, recId, read, rfl⟩ := permitted
          have counter := tracks.recId recId read
          have old := tracks.state
          exact { tracks with state := by rw [old, counter]; rfl }
      | kmalloc size =>
          simp only [Machine.answer] at step
          split at step
          · rename_i errno failing
            obtain ⟨rfl, rfl⟩ := Prod.mk.inj step
            exact tracks.help rfl (by rw [failing]; rfl)
          · rename_i works
            obtain ⟨rfl, rfl⟩ := Prod.mk.inj step
            exact tracks.help rfl (by rw [works]; rfl)
      | kfree address =>
          obtain ⟨rfl, rfl⟩ := Prod.mk.inj step
          exact tracks
      | filpOpen filename flags =>
          simp only [Machine.answer] at step
          split at step
          · rename_i errno failing
            obtain ⟨rfl, rfl⟩ := Prod.mk.inj step
            exact tracks.help rfl (by rw [failing]; rfl)
          · rename_i works
            obtain ⟨rfl, rfl⟩ := Prod.mk.inj step
            exact tracks.help rfl (by rw [works]; rfl)
      | vfsWrite file source count =>
          have old := tracks.state
          have writes : state.traceWrites = before.traceWrites + progress.written.length := by rw [old]
          have same : after = { state with
              traceFile := state.traceFile ++ (helpers.write state.traceWrites).arriving (delivered source count)
              traceWrites := state.traceWrites + 1 } := by
            simp only [Machine.answer] at step
            split at step
            · exact (Prod.mk.inj step).2.symm
            · exact (Prod.mk.inj step).2.symm
          refine { tracks with state := ?_ }
          rw [same, writes, old]
          simp [protocol, Progress.nextTracer, arrivals_append, arrivals, Nat.add_assoc]
          rfl
      | filpClose file =>
          obtain ⟨rfl, rfl⟩ := Prod.mk.inj step
          exact tracks
  | setMask value => exact permitted.elim
  | copyMaskToUser address => exact permitted.elim
  | oops => exact Empty.elim reply

/-- What a completed call leaves of the tracer's state. -/
inductive TracerEffect (helpers : Helpers) (op : TracedOp) (before after : Machine L) (answers : Answers) :
    Prop where
  | silent (unrecorded : ¬ (op.Reaches answers ∧ bitSet before.mask op.kind))
      (state : after = { before with visible := after.visible })
  | record (reaches : op.Reaches answers) (bit : bitSet before.mask op.kind)
      (fits : (op.plan answers).Fits) (image : List Byte)
      (images : (op.plan answers).Images before.recordId image)
      (helped : ∀ index < 4, helpers.fails (before.helperCalls + index) = none)
      (state : after = { before with
        visible := after.visible
        recordId := before.recordId + 1
        traceFile := before.traceFile ++
          arrivals helpers before.traceWrites (image :: (op.plan answers).parts)
        helperCalls := before.helperCalls + 4
        traceWrites := before.traceWrites + (1 + (op.plan answers).parts.length) })

/-- Every completed call returns what its answers say and appends one record or nothing. -/
theorem TracedOp.exec_effect {state : Machine L} {done : Done L}
    (ran : op.exec env helpers state = some done) :
    op.Returned (answersOf done.events) done.value.err ∧
      TracerEffect helpers op state done.state (answersOf done.events) := by
  have tracks := op.meets.exec_relation
    (fun c before reply after progress permitted tracks answered =>
      handle_tracks c reply permitted tracks answered)
    (Tracks.start helpers op.kind state) ran
  have finished := op.meets.exec ran
  have answers : ((protocol op).after .start done.events).answers = answersOf done.events :=
    protocol_answers op .start done.events
  simp only [TracedOp.Finished, TracedOp.Recorded, answers] at finished
  obtain ⟨returned, ended⟩ := finished
  refine ⟨returned, ?_⟩
  rcases ended with ⟨early, shape⟩ | ⟨reaches, shape | ⟨fits, recId, image, images, shape⟩⟩
  · rw [shape] at tracks
    apply TracerEffect.silent (fun both => early both.1)
    rw [tracks.state]
    simp [Progress.before, Progress.start, arrivals]
  · rw [shape] at tracks
    apply TracerEffect.silent (fun both => absurd ((tracks.checked false rfl).mpr both.2) Bool.false_ne_true)
    rw [tracks.state]
    simp [Progress.skipped, Progress.start, arrivals]
  · rw [shape] at tracks
    have counter := tracks.recId recId rfl
    subst counter
    apply TracerEffect.record reaches ((tracks.checked true rfl).mp rfl) fits image images
      (tracks.helped rfl)
    rw [tracks.state]
    simp [Progress.recorded, Nat.add_comm]

end

end Trfs.Kernel
