import Trfs.Construction.Kernel.Run
import Trfs.Proof.Kernel.Hidden

namespace Trfs.Kernel
open Bytes Effect Trace

section
variable {L : Type} {env : Environment L} {helpers others : Helpers} {op : TracedOp} {answers : Answers}

/-- A lower call is answered by the lower file system. -/
theorem handle_lower (c : LowerCall) (state : Machine L) :
    handle env helpers (.lower c) state = some ((env.lower c state.visible.lower).1,
      { state with visible := { state.visible with lower := (env.lower c state.visible.lower).2 } }) := rfl

/-- A call of the upper level is answered from the visible state. -/
theorem handle_upper (c : UpperCall) (state : Machine L) :
    handle env helpers (.upper c) state = some ((state.visible.answer env c).1,
      { state with visible := (state.visible.answer env c).2 }) := rfl

/-- A plain call has the same answer on every state with the same visible part. -/
theorem handle_plain {c : Call} (plain : Plain c) {first second after : Machine L} {reply : c.Reply}
    (same : first.visible = second.visible) (answered : handle env helpers c first = some (reply, after)) :
    handle env others c second = some (reply, { second with visible := after.visible }) := by
  cases c with
  | lower c =>
      rw [handle_lower] at answered ⊢
      obtain ⟨rfl, rfl⟩ := Prod.mk.inj (Option.some.inj answered)
      rw [same]
  | upper c =>
      rw [handle_upper] at answered ⊢
      obtain ⟨rfl, rfl⟩ := Prod.mk.inj (Option.some.inj answered)
      rw [same]
  | _ => exact plain.elim

/-- The second execution shows the same as the first outside the tracer. -/
structure Agrees (answers : Answers) (first second : Done L) : Prop where
  value : second.value = first.value
  visible : second.state.visible = first.state.visible
  lower : lowerEvents second.events = lowerEvents first.events
  answers : observe.after answers second.events = observe.after answers first.events

/-- Both executions begin with the same call and the same reply. -/
theorem Agrees.cons {c : Call} {reply : c.Reply} {first second whole : Done L}
    (agrees : Agrees (answers.next c reply) first second) (value : whole.value = first.value)
    (last : whole.state = first.state) (events : whole.events = ⟨c, reply⟩ :: first.events) :
    Agrees answers whole { second with events := ⟨c, reply⟩ :: second.events } where
  value := agrees.value.trans value.symm
  visible := by rw [last]; exact agrees.visible
  lower := by
    rw [events, ← List.singleton_append, lowerEvents_append, agrees.lower, ← lowerEvents_append]
    rfl
  answers := by
    rw [events, Monitor.after_cons, Monitor.after_cons]
    exact agrees.answers

/-- A run goes on after its first answer. -/
theorem exec_call {c : Call} {next : c.Reply → Prog Outcome} {reply : c.Reply} {before after : Machine L}
    {rest : Done L} (answered : handle env helpers c before = some (reply, after))
    (continued : (next reply).exec (handle env helpers) after = some rest) :
    (Program.call c next).exec (handle env helpers) before =
      some { rest with events := ⟨c, reply⟩ :: rest.events } := by
  simp only [Program.exec, answered, continued, Option.map_some]

/-- Freeing at the end keeps outcome and state. -/
theorem frees_exec {frees : Prog Unit} (freeing : frees.Calls IsKfree) (outcome : Outcome)
    (state : Machine L) (answers : Answers) : ∃ done : Done L,
      (frees >>= fun _ => .pure outcome).exec (handle env helpers) state = some done ∧
        done.value = outcome ∧ done.state = state ∧ lowerEvents done.events = [] ∧
        observe.after answers done.events = answers := by
  induction frees with
  | pure value => exact ⟨⟨outcome, state, []⟩, rfl, rfl, rfl, rfl, rfl⟩
  | call c next ih =>
      cases c with
      | tracer c =>
          cases c with
          | kfree address =>
              obtain ⟨done, ran, value, last, quiet, same⟩ := ih () (freeing.2 ())
              refine ⟨{ done with events := ⟨Call.tracer (.kfree address), ()⟩ :: done.events }, ?_, value, last,
                quiet, same⟩
              simp only [Program.call_bind, Program.exec, handle, Machine.answer, ran]
              rfl
          | _ => exact freeing.1.elim
      | _ => exact freeing.1.elim

/-- The rest of an operation does the same from every state with the same visible part. -/
theorem Tail.exec_agrees {plan : RecordPlan} {after : TraceBuffers → Prog Outcome}
    (tail : Tail op plan after answers) (buffers : TraceBuffers) {first : Machine L} {done : Done L}
    (ran : (after buffers).exec (handle env helpers) first = some done) :
    op.Reaches (observe.after answers done.events) ∧
      ∀ (also : TraceBuffers) (second : Machine L), first.visible = second.visible →
        ∃ other, (after also).exec (handle env others) second = some other ∧ Agrees answers done other := by
  induction tail generalizing first done with
  | ends frees outcome answers freeing kept reaches returned =>
      obtain ⟨one, ran1, value1, last1, quiet1, answers1⟩ :=
        frees_exec (freeing buffers) outcome first answers
      obtain rfl := Option.some.inj (ran1.symm.trans ran)
      rw [answers1]
      refine ⟨reaches, fun also second same => ?_⟩
      obtain ⟨two, ran2, value2, last2, quiet2, answers2⟩ :=
        frees_exec (freeing also) outcome second answers
      exact ⟨two, ran2,
        { value := value2.trans value1.symm
          visible := by rw [last1, last2, same]
          lower := quiet2.trans quiet1.symm
          answers := answers2.trans answers1.symm }⟩
  | call c next answers plain rest ih =>
      obtain ⟨reply, reached, more, answered, continued, value, last, events⟩ := Program.exec_call_eq_some ran
      obtain ⟨reaches, agreeing⟩ := ih reply continued
      rw [events]
      refine ⟨reaches, fun also second same => ?_⟩
      obtain ⟨other, ran', agrees⟩ := agreeing also { second with visible := reached.visible } rfl
      exact ⟨_, exec_call (handle_plain plain same answered) ran', agrees.cons value last events⟩

/-- From a state with the same visible part an operation does the same, if no fault of its block stops it. -/
theorem Staged.exec_agrees {program : Prog Outcome} (staged : Staged op program answers)
    {first second : Machine L} {done : Done L} (same : first.visible = second.visible)
    (ran : program.exec (handle env helpers) first = some done)
    (ready : bitSet second.mask op.kind → op.Reaches (observe.after answers done.events) →
      Ready others second ∧ op.PathsFit) :
    ∃ other, program.exec (handle env others) second = some other ∧ Agrees answers done other := by
  induction staged generalizing first second done with
  | stop outcome answers early returned =>
      obtain rfl := Option.some.inj ran
      exact ⟨_, rfl, rfl, same.symm, rfl, rfl⟩
  | fault next answers => exact nomatch ran
  | call c next answers plain rest ih =>
      obtain ⟨reply, reached, more, answered, continued, value, last, events⟩ := Program.exec_call_eq_some ran
      rw [events] at ready
      obtain ⟨other, ran', agrees⟩ :=
        @ih reply reached { second with visible := reached.visible } more rfl continued ready
      exact ⟨_, exec_call (handle_plain plain same answered) ran', agrees.cons value last events⟩
  | block block after answers plan flags mode reaches tail =>
      rw [Program.exec_bind] at ran ⊢
      obtain ⟨one, ran1, rest1⟩ := Option.bind_eq_some_iff.mp ran
      obtain ⟨end1, ran2, rfl⟩ := Option.map_eq_some_iff.mp rest1
      obtain ⟨visible1, quiet1, answers1⟩ := run_silent answers flags mode ran1
      obtain ⟨reaches, agreeing⟩ := tail.exec_agrees one.value ran2
      have ready' : bitSet second.mask op.kind → Ready others second ∧ (op.plan answers).Fits := by
        intro bit
        apply ready bit
        rw [Monitor.after_append, answers1]
        exact reaches
      have completes : ∃ two, block.run.exec (handle env others) second = some two :=
        run_completes plan flags mode ready'
      obtain ⟨two, ran3⟩ := completes
      obtain ⟨visible2, quiet2, answers2⟩ := run_silent answers flags mode ran3
      obtain ⟨end2, ran4, agrees⟩ := agreeing two.value two.state (by rw [visible1, visible2, same])
      refine ⟨{ end2 with events := two.events ++ end2.events }, ?_, agrees.value, agrees.visible, ?_, ?_⟩
      · rw [ran3, Option.bind_some, ran4]
        rfl
      · rw [lowerEvents_append, lowerEvents_append, quiet1, quiet2, agrees.lower]
      · rw [Monitor.after_append, Monitor.after_append, answers1, answers2]
        exact agrees.answers

/-- The traced call does the same as any other call that its tracing block does not stop. -/
theorem TracedOp.exec_agrees {first : Machine L} {done : Done L} (ran : op.exec env helpers first = some done)
    (second : Machine L) (same : first.visible = second.visible)
    (ready : bitSet second.mask op.kind → op.Reaches (answersOf done.events) →
      Ready others second ∧ op.PathsFit) :
    ∃ other, op.exec env others second = some other ∧ Agrees .none done other :=
  op.staged.exec_agrees same ran ready

/-- The empty mask has no bit set. -/
theorem bitSet_zero (kind : CallKind) : ¬ bitSet 0 kind := by
  cases kind <;> decide

/-- The call returns what it would have returned with an empty bitmap. -/
def TracedOp.Survives (op : TracedOp) (env : Environment L) (helpers : Helpers) (state : Machine L) : Prop :=
  ∀ untraced, op.exec env helpers { state with mask := 0 } = some untraced →
    ∃ done, op.exec env helpers state = some done ∧ done.value = untraced.value

/-- A call survives its tracing exactly when no helper of its block fails. -/
theorem TracedOp.survives_iff {state : Machine L} : op.Survives env helpers state ↔
    ∀ untraced, op.exec env helpers { state with mask := 0 } = some untraced → bitSet state.mask op.kind →
      op.Reaches (answersOf untraced.events) → Ready helpers state ∧ op.PathsFit := by
  constructor
  · intro survives untraced ran bit reaches
    obtain ⟨done, traced, _⟩ := survives untraced ran
    obtain ⟨other, again, agrees⟩ :=
      TracedOp.exec_agrees traced { state with mask := 0 } rfl fun set _ => absurd set (bitSet_zero _)
    obtain rfl := Option.some.inj (again.symm.trans ran)
    have same : answersOf other.events = answersOf done.events := agrees.answers
    rw [same] at reaches
    cases (TracedOp.exec_effect traced).2 with
    | silent unrecorded _ => exact absurd ⟨reaches, bit⟩ unrecorded
    | record _ _ fits _ _ helped _ => exact ⟨helped, fits⟩
  · intro condition untraced ran
    obtain ⟨done, traced, agrees⟩ :=
      TracedOp.exec_agrees ran state rfl (condition untraced ran)
    exact ⟨done, traced, agrees.value⟩

/-- The trace file has mode 0, and `filp_open` refuses the caller with `-EACCES`. -/
def refused : Helpers where
  fails
    | 1 => some ⟨EACCES, by decide⟩
    | _ => none
  garbage _ _ := 0
  write _ := .full

/-- A create whose caller may not open the trace file faults, although the lower create succeeded. -/
theorem survives_create_fails :
    ¬ (TracedOp.create ⟨1⟩ dentryA 0x1a4 true).Survives (steady 0 0) refused freshMount := by
  intro survives
  have untraced : ((TracedOp.create ⟨1⟩ dentryA 0x1a4 true).exec (steady 0 0) refused
      { freshMount with mask := 0 }).isSome := by decide +kernel
  have traced : ((TracedOp.create ⟨1⟩ dentryA 0x1a4 true).exec (steady 0 0) refused freshMount).isNone := by
    decide +kernel
  obtain ⟨done, ran⟩ := Option.isSome_iff_exists.mp untraced
  obtain ⟨other, also, _⟩ := survives done ran
  rw [also] at traced
  exact nomatch traced

/-- What a completed call shows outside the tracer. -/
def shown (done : Done L) : Outcome × List (Event LowerCall.Reply) := (done.value, lowerEvents done.events)

/-- Every answer of every lower call, every result, and the state outside the tracer at the end. -/
def seen (ran : List (Done L) × Machine L) : List (Outcome × List (Event LowerCall.Reply)) × Visible L :=
  (ran.1.map shown, ran.2.visible)

/-- Two machines that look alike run an operation alike. -/
theorem exec_transparent {first : Machine L} (second : Machine L) (same : first.visible = second.visible)
    (works : ∀ index, others.fails index = none) (fits : op.PathsFit) {done : Done L}
    (ran : op.exec env helpers first = some done) :
    ∃ other, op.exec env others second = some other ∧ shown other = shown done ∧
      other.state.visible = done.state.visible := by
  obtain ⟨other, also, agrees⟩ :=
    TracedOp.exec_agrees ran second same fun _ _ => ⟨fun index _ => works _, fits⟩
  exact ⟨other, also, Prod.ext agrees.value agrees.lower, agrees.visible⟩

/-- So they run a list of operations under any masks. -/
theorem runMasked_transparent {masks : Nat → BitVec 64} (masks' : Nat → BitVec 64)
    {turns : List (Turn L)} {start : Nat} {first second : Machine L} (same : first.visible = second.visible)
    (works : ∀ index, others.fails index = none) (fits : ∀ turn ∈ turns, turn.op.PathsFit)
    {ran : List (Done L) × Machine L} (completed : runMasked env helpers masks start turns first = some ran) :
    ∃ also, runMasked env others masks' start turns second = some also ∧ seen also = seen ran := by
  induction turns generalizing start first second ran with
  | nil =>
      obtain rfl := Option.some.inj completed
      exact ⟨([], second), rfl, Prod.ext rfl same.symm⟩
  | cons turn turns ih =>
      obtain ⟨done, now, rest⟩ := Option.bind_eq_some_iff.mp completed
      obtain ⟨⟨dones, last⟩, later, rfl⟩ := Option.map_eq_some_iff.mp rest
      have before : turn.outside first.visible = turn.outside second.visible := congrArg turn.outside same
      obtain ⟨other, now', shown', visible⟩ := exec_transparent
        { second with visible := turn.outside second.visible, mask := masks' start } before works
        (fits turn List.mem_cons_self) now
      obtain ⟨⟨dones', last'⟩, later', seen'⟩ := ih visible.symm
        (fun turn member => fits turn (List.mem_cons_of_mem _ member)) later
      obtain ⟨results, final⟩ := Prod.mk.inj seen'
      refine ⟨(other :: dones', last'), ?_, Prod.ext ?_ final⟩
      · rw [runMasked, now', Option.bind_some, later']
        rfl
      · exact congrArg₂ List.cons shown' results

/-- Two runs of the same calls under different bitmaps show the same. -/
theorem transparent {masks masks' : Nat → BitVec 64} {turns : List (Turn L)} {first second : Machine L}
    (same : first.visible = second.visible) (works : ∀ index, helpers.fails index = none)
    (works' : ∀ index, others.fails index = none) (fits : ∀ turn ∈ turns, turn.op.PathsFit) :
    (runMasked env helpers masks 0 turns first).map seen =
      (runMasked env others masks' 0 turns second).map seen := by
  cases one : runMasked env helpers masks 0 turns first with
  | some ran =>
      obtain ⟨also, two, seen'⟩ := runMasked_transparent masks' same works' fits one
      rw [two, Option.map_some, Option.map_some, seen']
  | none =>
      cases two : runMasked env others masks' 0 turns second with
      | none => rfl
      | some ran =>
          obtain ⟨also, three, _⟩ := runMasked_transparent masks same.symm works fits two
          exact nomatch one.symm.trans three

/-- A read and a rename show the same with all bits set and with none. -/
theorem transparent_read_rename :
    (runMasked (steady 0 2) reliable (fun _ => bitmapMax) 0
        [⟨id, .read fileA 0 2 0⟩, ⟨id, .rename ⟨1⟩ dentryA ⟨1⟩ dentryB⟩] freshMount).isSome ∧
      (runMasked (steady 0 2) reliable (fun _ => bitmapMax) 0
        [⟨id, .read fileA 0 2 0⟩, ⟨id, .rename ⟨1⟩ dentryA ⟨1⟩ dentryB⟩] freshMount).map seen =
      (runMasked (steady 0 2) reliable (fun _ => 0) 0
        [⟨id, .read fileA 0 2 0⟩, ⟨id, .rename ⟨1⟩ dentryA ⟨1⟩ dentryB⟩] freshMount).map seen := by
  refine ⟨by decide +kernel, transparent rfl (fun _ => rfl) (fun _ => rfl) fun turn member => ?_⟩
  rcases List.mem_pair.mp member with rfl | rfl
  · exact ⟨by decide, nofun⟩
  · refine ⟨by decide, fun dentry same => ?_⟩
    obtain rfl := SecondPath.dentry.inj same
    decide

end

end Trfs.Kernel
