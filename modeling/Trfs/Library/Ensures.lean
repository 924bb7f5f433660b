/-
This file gives the rules of postconditions for programs on one system.
-/

import Trfs.Library.Program

namespace Effect

section
variable {Call : Type} {Reply : Call → Type} {σ α β Q : Type}

/-- Every completed execution from this state ends in the postcondition. The monitor remembers its events. -/
def Program.Ensures (handler : Handler Reply σ) (monitor : Monitor Reply Q) (post : α → σ → Q → Prop) :
    Program Reply α → σ → Q → Prop
  | .pure value, state, progress => post value state progress
  | .call c next, state, progress => ∀ reply after, handler c state = some (reply, after) →
      (next reply).Ensures handler monitor post after (monitor.next progress c reply)

variable {handler : Handler Reply σ} {monitor : Monitor Reply Q} {state : σ} {progress : Q}

/-- A finished program ensures what holds of its value. -/
@[simp] theorem Program.ensures_pure {post : α → σ → Q → Prop} {value : α} :
    (Program.pure value : Program Reply α).Ensures handler monitor post state progress ↔
      post value state progress := Iff.rfl

/-- A call ensures what the rest ensures after every answer. -/
theorem Program.ensures_call {post : α → σ → Q → Prop} {c : Call} {next : Reply c → Program Reply α} :
    (Program.call c next).Ensures handler monitor post state progress ↔
      ∀ reply after, handler c state = some (reply, after) →
        (next reply).Ensures handler monitor post after (monitor.next progress c reply) := Iff.rfl

/-- A sequence ensures what its second part ensures where the first one ends. -/
@[simp] theorem Program.ensures_bind {post : β → σ → Q → Prop} {program : Program Reply α}
    {after : α → Program Reply β} :
    (program >>= after).Ensures handler monitor post state progress ↔
      program.Ensures handler monitor
        (fun value reached seen => (after value).Ensures handler monitor post reached seen) state progress := by
  induction program generalizing state progress with
  | pure value => rfl
  | call c next ih => simp only [call_bind, ensures_call, ih]

/-- A weaker end is ensured too. -/
theorem Program.Ensures.mono {weak strong : α → σ → Q → Prop}
    (weaker : ∀ value state progress, strong value state progress → weak value state progress)
    {program : Program Reply α} (ensures : program.Ensures handler monitor strong state progress) :
    program.Ensures handler monitor weak state progress := by
  induction program generalizing state progress with
  | pure value => exact weaker value state progress ensures
  | call c next ih => exact fun reply after answered => ih reply (ensures reply after answered)

/-- What each call keeps is there at the end. -/
theorem Program.Calls.ensures {holds : Call → Prop} {kept : σ → Q → Prop}
    (step : ∀ c state progress reply after, holds c → kept state progress →
      handler c state = some (reply, after) → kept after (monitor.next progress c reply))
    {program : Program Reply α} (calls : program.Calls holds) (start : kept state progress)
    {post : α → σ → Q → Prop} (ends : ∀ value reached seen, kept reached seen → post value reached seen) :
    program.Ensures handler monitor post state progress := by
  induction program generalizing state progress with
  | pure value => exact ends value state progress start
  | call c next ih =>
      exact fun reply after answered =>
        ih reply (calls.2 reply) (step c state progress reply after calls.1 start answered)

/-- A completed execution ends as it was ensured. -/
theorem Program.Ensures.exec {post : α → σ → Q → Prop} {program : Program Reply α} {done : Execution Reply σ α}
    (ensures : program.Ensures handler monitor post state progress)
    (ran : program.exec handler state = some done) :
    post done.value done.state (monitor.after progress done.events) := by
  induction program generalizing state progress done with
  | pure value =>
      obtain rfl := Option.some.inj ran
      exact ensures
  | call c next ih =>
      obtain ⟨reply, after, rest, answered, continued, value, last, events⟩ := exec_call_eq_some ran
      have ended := ih reply (ensures reply after answered) continued
      rw [value, last, events]
      exact ended

end

end Effect
