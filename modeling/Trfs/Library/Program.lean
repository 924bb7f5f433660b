/-
This file models programs by the calls that they make. A handler answers the calls, and a monitor watches them.
-/

import Mathlib.Tactic.Basic

namespace Effect

/-- A program either returns or performs one call and continues with the reply. -/
inductive Program {Call : Type} (Reply : Call → Type) (α : Type) where
  | pure (value : α)
  | call (c : Call) (next : Reply c → Program Reply α)

/-- An event is one performed call together with the reply that it received. -/
structure Event {Call : Type} (Reply : Call → Type) where
  call : Call
  reply : Reply call

/-- A handler answers one call. It returns nothing when the call faults or cannot proceed. -/
abbrev Handler {Call : Type} (Reply : Call → Type) (σ : Type) := (c : Call) → σ → Option (Reply c × σ)

/-- A completed execution keeps its result, its last state and its events in order. -/
structure Execution {Call : Type} (Reply : Call → Type) (σ α : Type) where
  value : α
  state : σ
  events : List (Event Reply)

section
variable {Call : Type} {Reply : Call → Type} {σ α β Q : Type}

def Program.bind : Program Reply α → (α → Program Reply β) → Program Reply β
  | .pure value, after => after value
  | .call c next, after => .call c fun reply => (next reply).bind after

instance : Monad (Program Reply) where
  pure := .pure
  bind := .bind

/-- This program performs one call and returns its reply. -/
def perform (c : Call) : Program Reply (Reply c) := .call c .pure

/-- The two ways to write a finished program. -/
@[simp] theorem Program.pure_eq (value : α) : (Pure.pure value : Program Reply α) = .pure value := rfl

/-- A finished program hands its value on. -/
@[simp] theorem Program.pure_bind (value : α) (after : α → Program Reply β) :
    (Program.pure value >>= after) = after value := rfl

/-- A program goes on after its first call. -/
@[simp] theorem Program.call_bind (c : Call) (next : Reply c → Program Reply α)
    (after : α → Program Reply β) :
    (Program.call c next >>= after) = .call c fun reply => next reply >>= after := rfl

/-- A single call is followed by the rest. -/
@[simp] theorem perform_bind (c : Call) (after : Reply c → Program Reply α) :
    (perform c >>= after) = .call c after := rfl

/-- Returning the value changes nothing. -/
theorem Program.bind_pure (program : Program Reply α) : (program >>= fun value => Pure.pure value) = program := by
  induction program with
  | pure value => rfl
  | call c next ih =>
      rw [call_bind]
      exact congrArg (Program.call c) (funext ih)

/-- The execution consults the handler for each call in turn. -/
def Program.exec (handler : Handler Reply σ) : Program Reply α → σ → Option (Execution Reply σ α)
  | .pure value, state => some ⟨value, state, []⟩
  | .call c next, state =>
      match handler c state with
      | none => none
      | some (reply, after) => ((next reply).exec handler after).map fun rest =>
          { rest with events := ⟨c, reply⟩ :: rest.events }

/-- A completed execution of a call splits into the answer and the rest. -/
theorem Program.exec_call_eq_some {handler : Handler Reply σ} {c : Call}
    {next : Reply c → Program Reply α} {state : σ} {done : Execution Reply σ α}
    (ran : (Program.call c next).exec handler state = some done) :
    ∃ reply after rest, handler c state = some (reply, after) ∧
      (next reply).exec handler after = some rest ∧ done.value = rest.value ∧
      done.state = rest.state ∧ done.events = ⟨c, reply⟩ :: rest.events := by
  simp only [exec] at ran
  split at ran
  · cases ran
  · rename_i reply after answered
    obtain ⟨rest, continued, rfl⟩ := Option.map_eq_some_iff.mp ran
    exact ⟨reply, after, rest, answered, continued, rfl, rfl, rfl⟩

/-- The execution of a sequence continues from the state that the first part left. -/
theorem Program.exec_bind (handler : Handler Reply σ) (program : Program Reply α)
    (after : α → Program Reply β) (state : σ) :
    (program >>= after).exec handler state = (program.exec handler state).bind fun first =>
      ((after first.value).exec handler first.state).map fun second =>
        { second with events := first.events ++ second.events } := by
  induction program generalizing state with
  | pure value => simp [exec]
  | call c next ih =>
      simp only [call_bind, exec]
      cases handler c state with
      | none => rfl
      | some answer =>
          simp only [ih, Option.bind_map, Option.map_bind]
          apply congrArg
          funext first
          simp [Function.comp_def]

/-- A completed execution of a sequence splits into the executions of its two parts. -/
theorem Program.exec_bind_eq_some {handler : Handler Reply σ} {program : Program Reply α}
    {after : α → Program Reply β} {state : σ} {done : Execution Reply σ β}
    (ran : (program >>= after).exec handler state = some done) :
    ∃ first second, program.exec handler state = some first ∧
      (after first.value).exec handler first.state = some second ∧ done.value = second.value ∧
      done.state = second.state ∧ done.events = first.events ++ second.events := by
  rw [exec_bind] at ran
  obtain ⟨first, started, rest⟩ := Option.bind_eq_some_iff.mp ran
  obtain ⟨second, continued, rfl⟩ := Option.map_eq_some_iff.mp rest
  exact ⟨first, second, started, continued, rfl, rfl, rfl⟩

/-- Every call of the program satisfies the predicate, whatever the replies are. -/
def Program.Calls (holds : Call → Prop) : Program Reply α → Prop
  | .pure _ => True
  | .call c next => holds c ∧ ∀ reply, (next reply).Calls holds

/-- A finished program makes no calls. -/
@[simp] theorem Program.calls_pure (holds : Call → Prop) (value : α) :
    (Program.pure value : Program Reply α).Calls holds := trivial

/-- A single call is the call it makes. -/
@[simp] theorem calls_perform (holds : Call → Prop) (c : Call) :
    (perform c : Program Reply (Reply c)).Calls holds ↔ holds c := by
  simp [perform, Program.Calls]

/-- A sequence makes the calls of its two parts. -/
theorem Program.Calls.bind {holds : Call → Prop} {program : Program Reply α}
    {after : α → Program Reply β} (first : program.Calls holds)
    (second : ∀ value, (after value).Calls holds) : (program >>= after).Calls holds := by
  induction program with
  | pure value => exact second value
  | call c next ih => exact ⟨first.1, fun reply => ih reply (first.2 reply)⟩

/-- A completed execution keeps what each of its calls keeps. -/
theorem Program.Calls.exec_keeps {handler : Handler Reply σ} {holds : Call → Prop} {kept : σ → Prop}
    (step : ∀ c state reply after, holds c → kept state → handler c state = some (reply, after) → kept after)
    {program : Program Reply α} {state : σ} {done : Execution Reply σ α} (calls : program.Calls holds)
    (start : kept state) (ran : program.exec handler state = some done) : kept done.state := by
  induction program generalizing state done with
  | pure value =>
      obtain rfl := Option.some.inj ran
      exact start
  | call c next ih =>
      obtain ⟨reply, after, rest, answered, continued, _, last, _⟩ := exec_call_eq_some ran
      rw [last]
      exact ih reply (calls.2 reply) (step c state reply after calls.1 start answered) continued

/-- The events of a run are among the calls of the program. -/
theorem Program.Calls.exec_events {handler : Handler Reply σ} {holds : Call → Prop}
    {program : Program Reply α} {state : σ} {done : Execution Reply σ α} (calls : program.Calls holds)
    (ran : program.exec handler state = some done) : ∀ event ∈ done.events, holds event.call := by
  induction program generalizing state done with
  | pure value =>
      obtain rfl := Option.some.inj ran
      nofun
  | call c next ih =>
      obtain ⟨reply, after, rest, _, continued, _, _, events⟩ := exec_call_eq_some ran
      rw [events]
      intro event member
      rcases List.mem_cons.mp member with rfl | later
      · exact calls.1
      · exact ih reply (calls.2 reply) continued event later

/-- A weaker condition on the calls holds too. -/
theorem Program.Calls.mono {weak strong : Call → Prop} (weaker : ∀ c, strong c → weak c)
    {program : Program Reply α} (calls : program.Calls strong) : program.Calls weak := by
  induction program with
  | pure value => trivial
  | call c next ih => exact ⟨weaker c calls.1, fun reply => ih reply (calls.2 reply)⟩

/-- A monitor follows the events of a program and says which call may come next. -/
structure Monitor {Call : Type} (Reply : Call → Type) (Q : Type) where
  permits : Q → Call → Prop
  next : Q → (c : Call) → Reply c → Q

/-- The monitor state after a list of events. -/
def Monitor.after (monitor : Monitor Reply Q) (start : Q) (events : List (Event Reply)) : Q :=
  events.foldl (fun progress event => monitor.next progress event.call event.reply) start

/-- A monitor takes the events one by one. -/
@[simp] theorem Monitor.after_cons (monitor : Monitor Reply Q) (start : Q) (event : Event Reply)
    (events : List (Event Reply)) :
    monitor.after start (event :: events) =
      monitor.after (monitor.next start event.call event.reply) events := rfl

/-- A monitor takes one list after the other. -/
theorem Monitor.after_append (monitor : Monitor Reply Q) (start : Q)
    (first second : List (Event Reply)) :
    monitor.after start (first ++ second) = monitor.after (monitor.after start first) second := by
  simp [Monitor.after, List.foldl_append]

/-- Whatever the replies are, the program makes permitted calls only and ends as required. -/
def Program.Meets (monitor : Monitor Reply Q) (post : α → Q → Prop) : Program Reply α → Q → Prop
  | .pure value, progress => post value progress
  | .call c next, progress => monitor.permits progress c ∧
      ∀ reply, (next reply).Meets monitor post (monitor.next progress c reply)

/-- A call meets a monitor that permits it and goes on with every reply. -/
@[simp] theorem Program.meets_call (monitor : Monitor Reply Q) (post : α → Q → Prop) (c : Call)
    (next : Reply c → Program Reply α) (progress : Q) :
    (Program.call c next).Meets monitor post progress ↔ monitor.permits progress c ∧
      ∀ reply, (next reply).Meets monitor post (monitor.next progress c reply) := Iff.rfl

/-- A single call followed by the rest meets a monitor that permits it. -/
theorem meets_perform_bind {monitor : Monitor Reply Q} {post : α → Q → Prop} {c : Call}
    {after : Reply c → Program Reply α} {progress : Q} (permitted : monitor.permits progress c)
    (rest : ∀ reply, (after reply).Meets monitor post (monitor.next progress c reply)) :
    (perform c >>= after).Meets monitor post progress := ⟨permitted, rest⟩

/-- A sequence meets a monitor when its first part leaves the second one where it does. -/
@[simp] theorem Program.meets_bind (monitor : Monitor Reply Q) (post : β → Q → Prop)
    (program : Program Reply α) (after : α → Program Reply β) (progress : Q) :
    (program >>= after).Meets monitor post progress ↔
      program.Meets monitor (fun value reached => (after value).Meets monitor post reached) progress := by
  induction program generalizing progress with
  | pure value => rfl
  | call c next ih => simp [ih]

/-- A weaker end is met too. -/
theorem Program.Meets.mono {monitor : Monitor Reply Q} {weak strong : α → Q → Prop}
    (weaker : ∀ value progress, strong value progress → weak value progress)
    {program : Program Reply α} {progress : Q} (meets : program.Meets monitor strong progress) :
    program.Meets monitor weak progress := by
  induction program generalizing progress with
  | pure value => exact weaker value progress meets
  | call c next ih => exact ⟨meets.1, fun reply => ih reply (meets.2 reply)⟩

/-- A program that keeps to one monitor keeps to every monitor that simulates it. -/
theorem Program.Meets.simulate {Q' : Type} {monitor : Monitor Reply Q} {other : Monitor Reply Q'}
    {relation : Q → Q' → Prop}
    (permits : ∀ progress reached c, relation progress reached → monitor.permits progress c →
      other.permits reached c)
    (next : ∀ progress reached c reply, relation progress reached → monitor.permits progress c →
      relation (monitor.next progress c reply) (other.next reached c reply))
    {post : α → Q → Prop} {program : Program Reply α} {progress : Q} {reached : Q'}
    (meets : program.Meets monitor post progress) (start : relation progress reached) :
    program.Meets other (fun value last => ∃ first, post value first ∧ relation first last) reached := by
  induction program generalizing progress reached with
  | pure value => exact ⟨progress, meets, start⟩
  | call c continued ih =>
      refine ⟨permits progress reached c start meets.1, fun reply => ?_⟩
      exact ih reply (meets.2 reply) (next progress reached c reply start meets.1)

/-- Calls that the monitor ignores leave its state unchanged. -/
theorem Program.Calls.meets {monitor : Monitor Reply Q} {holds : Call → Prop}
    (ignored : ∀ c, holds c → ∀ progress, monitor.permits progress c ∧
      ∀ reply, monitor.next progress c reply = progress)
    {program : Program Reply α} (quiet : program.Calls holds) {post : α → Q → Prop} {progress : Q}
    (ends : ∀ value, post value progress) : program.Meets monitor post progress := by
  induction program with
  | pure value => exact ends value
  | call c next ih =>
      have permitted := ignored c quiet.1 progress
      refine ⟨permitted.1, fun reply => ?_⟩
      rw [permitted.2 reply]
      exact ih reply (quiet.2 reply)

/-- The monitor may rely on what the text of the program says about its calls. -/
theorem Program.Meets.restrict {monitor : Monitor Reply Q} {holds : Call → Prop} {post : α → Q → Prop}
    {program : Program Reply α} {progress : Q} (meets : program.Meets monitor post progress)
    (calls : program.Calls holds) :
    program.Meets ⟨fun progress c => monitor.permits progress c ∧ holds c, monitor.next⟩ post progress := by
  induction program generalizing progress with
  | pure value => exact meets
  | call c next ih => exact ⟨⟨meets.1, calls.1⟩, fun reply => ih reply (meets.2 reply) (calls.2 reply)⟩

/-- A completed execution ends as the monitor requires. -/
theorem Program.Meets.exec {handler : Handler Reply σ} {monitor : Monitor Reply Q}
    {post : α → Q → Prop} {program : Program Reply α} {progress : Q} {state : σ}
    {done : Execution Reply σ α} (meets : program.Meets monitor post progress)
    (ran : program.exec handler state = some done) :
    post done.value (monitor.after progress done.events) := by
  induction program generalizing progress state done with
  | pure value =>
      obtain rfl := Option.some.inj ran
      exact meets
  | call c next ih =>
      obtain ⟨reply, after, rest, _, continued, value, _, events⟩ := exec_call_eq_some ran
      have ended := ih reply (meets.2 reply) continued
      rw [value, events]
      exact ended

/-- The monitor permits every call of a completed execution where it happens. -/
theorem Program.Meets.exec_permits {handler : Handler Reply σ} {monitor : Monitor Reply Q}
    {post : α → Q → Prop} {program : Program Reply α} {progress : Q} {state : σ}
    {done : Execution Reply σ α} (meets : program.Meets monitor post progress)
    (ran : program.exec handler state = some done) {front back : List (Event Reply)} {event : Event Reply}
    (split : done.events = front ++ event :: back) :
    monitor.permits (monitor.after progress front) event.call := by
  induction program generalizing progress state done front with
  | pure value =>
      obtain rfl := Option.some.inj ran
      exact absurd split (by simp)
  | call c next ih =>
      obtain ⟨reply, after, rest, _, continued, _, _, events⟩ := exec_call_eq_some ran
      rw [events] at split
      cases front with
      | nil =>
          obtain ⟨rfl, _⟩ := List.cons.inj split
          exact meets.1
      | cons first front =>
          obtain ⟨rfl, later⟩ := List.cons.inj split
          exact ih reply (meets.2 reply) continued later

/-- A relation between state and monitor survives an execution when each permitted call keeps it. -/
theorem Program.Meets.exec_relation {handler : Handler Reply σ} {monitor : Monitor Reply Q}
    {relation : σ → Q → Prop}
    (step : ∀ c state reply after progress, monitor.permits progress c → relation state progress →
      handler c state = some (reply, after) → relation after (monitor.next progress c reply))
    {post : α → Q → Prop} {program : Program Reply α} {progress : Q} {state : σ}
    {done : Execution Reply σ α} (meets : program.Meets monitor post progress)
    (start : relation state progress) (ran : program.exec handler state = some done) :
    relation done.state (monitor.after progress done.events) := by
  induction program generalizing progress state done with
  | pure value =>
      obtain rfl := Option.some.inj ran
      exact start
  | call c next ih =>
      obtain ⟨reply, after, rest, answered, continued, _, last, events⟩ := exec_call_eq_some ran
      have kept := ih reply (meets.2 reply)
        (step c state reply after progress meets.1 start answered) continued
      rw [last, events]
      exact kept

/-- An execution completes when the handler answers every permitted call. -/
theorem Program.Meets.exec_isSome {handler : Handler Reply σ} {monitor : Monitor Reply Q}
    {relation : σ → Q → Prop}
    (answers : ∀ c state progress, monitor.permits progress c → relation state progress →
      ∃ reply after, handler c state = some (reply, after) ∧
        relation after (monitor.next progress c reply))
    {post : α → Q → Prop} {program : Program Reply α} {progress : Q} {state : σ}
    (meets : program.Meets monitor post progress) (start : relation state progress) :
    ∃ done, program.exec handler state = some done := by
  induction program generalizing progress state with
  | pure value => exact ⟨_, rfl⟩
  | call c next ih =>
      obtain ⟨reply, after, answered, kept⟩ := answers c state progress meets.1 start
      obtain ⟨rest, continued⟩ := ih reply (meets.2 reply) kept
      refine ⟨{ rest with events := ⟨c, reply⟩ :: rest.events }, ?_⟩
      simp [Program.exec, answered, continued]

end

end Effect
