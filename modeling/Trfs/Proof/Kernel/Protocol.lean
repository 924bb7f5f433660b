import Trfs.Proof.Kernel.Block
import Trfs.Proof.Kernel.Operations
namespace Trfs.Kernel
open Bytes Effect Trace

def Progress.before (answers : Answers) : Progress := { Progress.start with answers := answers }

/-- The operation has appended one record that follows its plan. -/
def TracedOp.Recorded (op : TracedOp) (progress : Progress) : Prop :=
  (op.plan progress.answers).Fits ∧ ∃ recId image, (op.plan progress.answers).Images recId image ∧
    progress = .recorded progress.answers recId image (op.plan progress.answers).parts

/-- How every run of an operation ends: its block was not reached, skipped, or completed. -/
def TracedOp.Finished (op : TracedOp) (outcome : Outcome) (progress : Progress) : Prop :=
  op.Returned progress.answers outcome.err ∧
    ((¬ op.Reaches progress.answers ∧ progress = .before progress.answers) ∨
      (op.Reaches progress.answers ∧ (progress = .skipped progress.answers ∨ op.Recorded progress)))

/-- The block writes the record of its plan, or skips it. -/
theorem run_meets {op : TracedOp} {block : TraceBlock} {answers : Answers}
    (same : block.toRecordPlan = op.plan answers) (flags : block.openFlags.Calls IsRead)
    (mode : block.permMode.Calls IsRead) (reaches : op.Reaches answers) :
    block.run.Meets (protocol op) (fun _ reached => reached.answers = answers ∧
      (reached = .skipped answers ∨ op.Recorded reached)) (.before answers) := by
  unfold TraceBlock.run
  refine meets_perform_bind ⟨rfl, reaches⟩ fun mask => ?_
  have kind : block.kind = op.kind := congrArg RecordPlan.kind same
  by_cases bit : bitSet mask op.kind
  · rw [if_pos (by rw [kind]; exact bit)]
    have start : (protocol op).next (.before answers) (Call.tracer .mask) mask = .atBlock answers := by
      simp [protocol, Progress.nextTracer, Progress.before, Progress.atBlock, bit]
    rw [start]
    apply (body_meets same flags mode).mono
    rintro _ _ ⟨fits, recId, image, images, rfl⟩
    exact ⟨rfl, .inr ⟨fits, recId, image, images, rfl⟩⟩
  · rw [if_neg (by rw [kind]; exact bit)]
    have skip : (protocol op).next (.before answers) (Call.tracer .mask) mask = .skipped answers := by
      simp [protocol, Progress.nextTracer, Progress.before, Progress.skipped, bit]
    rw [skip]
    exact ⟨rfl, .inl rfl⟩

/-- Freeing keeps the progress. -/
theorem frees_meets {op : TracedOp} {α : Type} {post : α → Progress → Prop} {progress : Progress}
    {program : Prog α} (frees : program.Calls IsKfree) (rest : ∀ value, post value progress) :
    program.Meets (protocol op) post progress := by
  apply frees.meets _ rest
  intro c free reached
  cases c with
  | tracer c => cases c <;> first | exact ⟨trivial, fun _ => rfl⟩ | exact free.elim
  | upper c => exact free.elim
  | lower c => exact free.elim
  | setMask value => exact free.elim
  | copyMaskToUser address => exact free.elim
  | oops => exact free.elim

/-- A plain call is permitted outside the block. -/
theorem Plain.permitted {op : TracedOp} {c : Call} (plain : Plain c) {progress : Progress}
    (outside : ¬ progress.inBlock) : (protocol op).permits progress c := by
  cases c with
  | tracer c => exact plain.elim
  | upper c => exact fun inside => absurd inside outside
  | lower c => exact outside
  | setMask value => exact plain.elim
  | copyMaskToUser address => exact plain.elim
  | oops => exact plain.elim

/-- A plain call adds its answer. -/
theorem Plain.next {op : TracedOp} {c : Call} (plain : Plain c) (progress : Progress) (reply : c.Reply) :
    (protocol op).next progress c reply = { progress with answers := progress.answers.next c reply } := by
  cases c with
  | tracer c => exact plain.elim
  | upper c => rfl
  | lower c => rfl
  | setMask value => exact plain.elim
  | copyMaskToUser address => exact plain.elim
  | oops => exact plain.elim

/-- What follows the block meets the protocol. -/
theorem Tail.meets {op : TracedOp} {plan : RecordPlan} {after : TraceBuffers → Prog Outcome}
    {answers : Answers} (tail : Tail op plan after answers) (buffers : TraceBuffers) {progress : Progress}
    (outside : ¬ progress.inBlock) (here : progress.answers = answers) :
    (after buffers).Meets (protocol op) (fun outcome reached => op.plan reached.answers = plan ∧
      op.Reaches reached.answers ∧ op.Returned reached.answers outcome.err ∧
      reached = { progress with answers := reached.answers }) progress := by
  induction tail generalizing progress with
  | ends frees outcome answers freeing kept reaches returned =>
      subst here
      rw [Program.meets_bind]
      exact frees_meets (freeing buffers) fun _ => ⟨kept, reaches, returned, rfl⟩
  | call c next answers plain rest ih =>
      subst here
      refine ⟨plain.permitted outside, fun reply => ?_⟩
      rw [plain.next]
      exact @ih reply { progress with answers := progress.answers.next c reply } outside rfl

/-- Whatever the replies are, an operation keeps to its protocol and ends in one of three ways. -/
theorem Staged.meets {op : TracedOp} {program : Prog Outcome} {answers : Answers}
    (staged : Staged op program answers) :
    program.Meets (protocol op) op.Finished (.before answers) := by
  induction staged with
  | stop outcome answers early returned => exact ⟨returned, .inl ⟨early, rfl⟩⟩
  | fault next answers => exact ⟨.inl rfl, fun impossible => nomatch impossible⟩
  | call c next answers plain rest ih =>
      refine ⟨plain.permitted fun inside => (nomatch inside.1), fun reply => ?_⟩
      rw [plain.next]
      exact ih reply
  | block block after answers same flags mode reaches tail =>
      rw [Program.meets_bind]
      apply (run_meets same flags mode reaches).mono
      rintro buffers progress ⟨here, recorded⟩
      have outside : ¬ progress.inBlock := by
        rcases recorded with rfl | ⟨_, recId, image, _, shape⟩
        · exact fun inside => (nomatch inside.1)
        · rw [shape]
          exact fun inside => (nomatch inside.2)
      apply (tail.meets buffers outside here).mono
      rintro outcome reached ⟨kept, reaches, returned, same⟩
      refine ⟨returned, .inr ⟨reaches, ?_⟩⟩
      rcases recorded with rfl | ⟨fits, recId, image, images, shape⟩
      · exact .inl same
      · rw [here, ← kept] at fits images shape
        refine .inr ⟨fits, recId, image, images, ?_⟩
        rw [same, shape]
        rfl

/-- Every operation meets the protocol. -/
theorem TracedOp.meets (op : TracedOp) : op.program.Meets (protocol op) op.Finished .start :=
  op.staged.meets

end Trfs.Kernel
