import Trfs.Construction.Kernel.Concurrent
import Trfs.Proof.Kernel.Log

namespace Trfs.Kernel
open Bytes Effect Trace

/-- An operation reads the counter in its block and writes only after that, its header first. -/
structure Progress.Regular (progress : Progress) : Prop where
  unread : progress.checked ≠ some true → progress.recId = none
  unwritten : progress.recId = none → progress.written = [] ∧ progress.stored = false
  numbered : ∀ image parts, progress.written = image :: parts →
    progress.recId = some (TraceDs.view image).recordId

/-- The start of the protocol is regular. -/
theorem Progress.regular_start : Progress.start.Regular where
  unread := fun _ => rfl
  unwritten := fun _ => ⟨rfl, rfl⟩
  numbered := nofun

section
variable {op : TracedOp} {progress : Progress}

/-- The first write delivers the header with the number read. -/
theorem RecordPlan.Continues.header {plan : RecordPlan} {recId : BitVec 32} {source : List Byte}
    {count : BitVec 64} (continues : plan.Continues recId [] source count) :
    (delivered source count).length = sizeofTraceDs ∧
      (TraceDs.view (delivered source count)).recordId = recId := by
  obtain ⟨size, rfl, flags, mode, view⟩ := continues
  have whole : delivered source (BitVec.ofNat 64 sizeofTraceDs) = source := by
    have positive : ¬ (BitVec.ofNat 64 sizeofTraceDs).toInt < 0 := by decide
    rw [delivered, if_neg positive]
    exact List.take_of_length_le (Nat.le_of_eq size)
  rw [whole, view]
  exact ⟨size, rfl⟩

/-- A permitted call keeps the progress regular. -/
theorem Progress.Regular.next (regular : progress.Regular) {c : Call}
    (permitted : (protocol op).permits progress c) (reply : c.Reply) :
    ((protocol op).next progress c reply).Regular := by
  cases c with
  | tracer c =>
      cases c with
      | mask =>
          have unread := regular.unread (by rw [permitted.1]; exact nofun)
          exact { regular with unread := fun _ => unread }
      | recordId =>
          have empty := (regular.unwritten permitted.2).1
          exact
            { unread := fun unchecked => absurd permitted.1.1 unchecked
              unwritten := nofun
              numbered := fun image parts written => nomatch empty.symm.trans written }
      | vfsWrite file source count =>
          obtain ⟨inside, _, recId, read, continues⟩ := permitted
          refine
            { unread := fun unchecked => absurd inside.1 unchecked
              unwritten := fun unread => nomatch read.symm.trans unread
              numbered := fun image parts written => ?_ }
          change progress.written ++ [delivered source count] = image :: parts at written
          cases before : progress.written with
          | nil =>
              rw [before] at written continues
              obtain ⟨rfl, _⟩ := List.cons.inj written
              rw [continues.header.2]
              exact read
          | cons first rest =>
              rw [before] at written
              obtain ⟨rfl, _⟩ := List.cons.inj written
              exact regular.numbered first rest before
      | setRecordId value =>
          obtain ⟨inside, _, _, recId, read, _⟩ := permitted
          exact { regular with unwritten := fun unread => nomatch read.symm.trans unread }
      | _ => exact { regular with }
  | lower c => exact { regular with }
  | upper c => exact { regular with }
  | oops => exact Empty.elim reply
  | setMask value => exact permitted.elim
  | copyMaskToUser address => exact permitted.elim

/-- The bytes that a call sends to the trace file. -/
def Call.sends : Call → List (List Byte)
  | .tracer (.vfsWrite _ source count) => [delivered source count]
  | _ => []

/-- The protocol adds what a call sends. -/
theorem written_next (op : TracedOp) (progress : Progress) (c : Call) (reply : c.Reply) :
    ((protocol op).next progress c reply).written = progress.written ++ c.sends := by
  cases c with
  | tracer c => cases c <;> first | rfl | exact (List.append_nil _).symm
  | _ => exact (List.append_nil _).symm

end

section
variable {ι L : Type} {env : Environment L} {helpers : Helpers} {op : TracedOp} {progress : Progress}

/-- A write to the trace file loses no byte. -/
def Call.Delivers (helpers : Helpers) (state : Machine L) : Call → Prop
  | .tracer (.vfsWrite _ source count) =>
      (helpers.write state.traceWrites).Delivers (delivered source count).length
  | _ => True

/-- The counter after a call. -/
def Call.counter (old : BitVec 32) : Call → BitVec 32
  | .tracer (.setRecordId value) => value
  | _ => old

/-- What a call does to the mask, the counter and the file of the tracer. -/
structure Traced (helpers : Helpers) (before after : Machine L) (c : Call) : Prop where
  mask : after.mask = before.mask
  counter : after.recordId = c.counter before.recordId
  file : c.Delivers helpers before → after.traceFile = before.traceFile ++ c.sends.flatten

/-- A permitted call changes the trace by what it sends and the counter by what it stores. -/
theorem handle_traced {c : Call} {before after : Machine L} {reply : c.Reply}
    (permitted : (protocol op).permits progress c)
    (answered : handle env helpers c before = some (reply, after)) : Traced helpers before after c := by
  cases c with
  | lower c =>
      obtain ⟨rfl, rfl⟩ := Prod.mk.inj (Option.some.inj answered)
      exact ⟨rfl, rfl, fun _ => (List.append_nil _).symm⟩
  | upper c =>
      obtain ⟨rfl, rfl⟩ := Prod.mk.inj (Option.some.inj answered)
      exact ⟨rfl, rfl, fun _ => (List.append_nil _).symm⟩
  | tracer c =>
      have step := Option.some.inj answered
      cases c with
      | vfsWrite file source count =>
          have same : after = { before with
              traceFile := before.traceFile ++ (helpers.write before.traceWrites).arriving (delivered source count)
              traceWrites := before.traceWrites + 1 } := by
            simp only [Machine.answer] at step
            split at step
            · exact (Prod.mk.inj step).2.symm
            · exact (Prod.mk.inj step).2.symm
          rw [same]
          refine ⟨rfl, rfl, fun delivers => ?_⟩
          have whole : (helpers.write before.traceWrites).arriving (delivered source count) = _ :=
            WriteOutcome.Delivers.arriving delivers
          simp only [whole, Call.sends, List.flatten_cons, List.flatten_nil, List.append_nil]
      | _ =>
          simp only [Machine.answer] at step
          try split at step
          all_goals
            obtain ⟨_, rfl⟩ := Prod.mk.inj step
            exact ⟨rfl, rfl, fun _ => (List.append_nil _).symm⟩
  | setMask value => exact permitted.elim
  | copyMaskToUser address => exact permitted.elim
  | oops => exact Empty.elim reply

/-- An answer of the shared state is an answer of its machine. -/
theorem map_machine {c : Call} {before after : Shared ι L} {reply : c.Reply}
    (answered : (handle env helpers c before.machine).map
      (fun (reply, machine) => (reply, { before with machine := machine })) = some (reply, after)) :
    handle env helpers c before.machine = some (reply, after.machine) := by
  obtain ⟨⟨other, machine⟩, found, same⟩ := Option.map_eq_some_iff.mp answered
  obtain ⟨rfl, rfl⟩ := Prod.mk.inj same
  exact found

/-- The locks change nothing of the machine. -/
theorem handleShared_handle {task : ι} {c : Call} {before after : Shared ι L} {reply : c.Reply}
    (answered : handleShared env helpers task c before = some (reply, after)) :
    handle env helpers c before.machine = some (reply, after.machine) := by
  cases c with
  | upper c =>
      cases c with
      | lock inodes =>
          simp only [handleShared] at answered
          split at answered
          · obtain ⟨_, rfl⟩ := Prod.mk.inj (Option.some.inj answered)
            rfl
          · exact nomatch answered
      | unlock inodes =>
          obtain ⟨_, rfl⟩ := Prod.mk.inj (Option.some.inj answered)
          rfl
      | _ => exact map_machine answered
  | _ => exact map_machine answered

/-- The bit a task has checked is the bit of the mask it found. -/
theorem checked_next {c : Call} {reply : c.Reply} {before after : Machine L} {bit : Bool}
    (answered : handle env helpers c before = some (reply, after))
    (checked : ((protocol op).next progress c reply).checked = some bit) :
    progress.checked = some bit ∨ (bit = true ↔ bitSet before.mask op.kind) := by
  cases c with
  | tracer c =>
      cases c with
      | mask =>
          obtain ⟨rfl, _⟩ := Prod.mk.inj (Option.some.inj answered)
          right
          rw [← Option.some.inj checked]
          exact decide_eq_true_iff
      | _ => exact .inl checked
  | oops => exact Empty.elim reply
  | _ => exact .inl checked

end

section
variable {ι L : Type} [DecidableEq ι] {env : Environment L} {helpers : Helpers}

/-- How far the task has come with its record. -/
def World.progress (ops : ι → TracedOp) (world : World ι L) (task : ι) : Progress :=
  Config.progress (fun task => protocol (ops task)) (fun _ => .start) world task

def World.Follows (ops : ι → TracedOp) (world : World ι L) : Prop :=
  Config.Follows (fun task => protocol (ops task)) (fun task => (ops task).Finished) (fun _ => .start) world

/-- One step of a task in a world where all tasks follow their operations. -/
abbrev World.Advance (env : Environment L) (helpers : Helpers) (ops : ι → TracedOp) (task : ι)
    (world next : World ι L) (c : Call) (reply : c.Reply) : Prop :=
  Config.Advance (handleShared env helpers) (fun task => protocol (ops task)) (fun _ => .start) task
    world next c reply

section
variable {ops : ι → TracedOp} {task : ι} {world next : World ι L} {c : Call} {reply : c.Reply}

/-- The task that steps moves on in its protocol. -/
theorem advance_here (advance : World.Advance env helpers ops task world next c reply) :
    next.progress ops task = (protocol (ops task)).next (world.progress ops task) c reply := advance.here

/-- The other tasks stay where they are. -/
theorem advance_others (advance : World.Advance env helpers ops task world next c reply) {other : ι}
    (this : other ≠ task) : next.progress ops other = world.progress ops other := advance.others other this

/-- The step is traced. -/
theorem advance_traced (advance : World.Advance env helpers ops task world next c reply) :
    Traced helpers world.shared.machine next.shared.machine c :=
  handle_traced advance.permitted (handleShared_handle advance.answered)

/-- The task has written what it sends in addition. -/
theorem advance_written (advance : World.Advance env helpers ops task world next c reply) :
    (next.progress ops task).written = (world.progress ops task).written ++ c.sends := by
  rw [advance_here advance, written_next]

end

/-- What holds in every interleaving. -/
structure Underway (ops : ι → TracedOp) (start : Machine L) (world : World ι L) : Prop where
  follows : world.Follows ops
  regular : ∀ task, (world.progress ops task).Regular
  mask : world.shared.machine.mask = start.mask
  checked : ∀ task bit, (world.progress ops task).checked = some bit →
    (bit = true ↔ bitSet start.mask (ops task).kind)

/-- At the start every task is underway. -/
theorem underway_begin (ops : ι → TracedOp) (machine : Machine L) :
    Underway ops machine (World.begin ops machine) where
  follows := fun task => (ops task).meets
  regular := fun _ => Progress.regular_start
  mask := rfl
  checked := nofun

/-- Every step of every task keeps what holds in every interleaving. -/
theorem Underway.step {ops : ι → TracedOp} {start : Machine L} {world next : World ι L} {task : ι}
    (underway : Underway ops start world)
    (stepped : Config.step (handleShared env helpers) task world = some next) :
    Underway ops start next ∧ ∃ c reply, World.Advance env helpers ops task world next c reply := by
  obtain ⟨follows, c, reply, advance⟩ := underway.follows.step stepped
  refine ⟨⟨follows, fun other => ?_, ?_, fun other bit => ?_⟩, c, reply, advance⟩
  · by_cases this : other = task
    · rw [this, advance_here advance]
      exact (underway.regular task).next advance.permitted reply
    · rw [advance_others advance this]
      exact underway.regular other
  · exact (advance_traced advance).mask.trans underway.mask
  · by_cases this : other = task
    · rw [this, advance_here advance]
      intro checked
      rcases checked_next (handleShared_handle advance.answered) checked with earlier | now
      · exact underway.checked task bit earlier
      · rw [← underway.mask]
        exact now
    · rw [advance_others advance this]
      exact underway.checked other bit

/-- What every allowed step keeps of a world in the middle of its calls, a whole run keeps. -/
theorem underway_run {ops : ι → TracedOp} {start : Machine L} {allowed : World ι L → ι → Prop}
    (kept : World ι L → Prop)
    (step : ∀ (world next : World ι L) task c (reply : c.Reply), Underway ops start world → kept world →
      allowed world task → World.Advance env helpers ops task world next c reply → kept next)
    (first : kept (World.begin ops start)) {schedule : List ι} {last : World ι L}
    (obeys : Config.Obeys (handleShared env helpers) allowed schedule (World.begin ops start))
    (ran : World.run env helpers schedule (World.begin ops start) = some last) :
    Underway ops start last ∧ kept last := by
  have keeps : ∀ (world : World ι L) task next, (Underway ops start world ∧ kept world) →
      allowed world task → Config.step (handleShared env helpers) task world = some next →
      Underway ops start next ∧ kept next := by
    intro world task next both permitted stepped
    obtain ⟨underway, holds⟩ := both
    obtain ⟨onward, c, reply, advance⟩ := underway.step stepped
    exact ⟨onward, step world next task c reply underway holds permitted advance⟩
  exact Config.run_keeps keeps ⟨underway_begin ops start, first⟩ obeys ran

end

end Trfs.Kernel
