/-
This file replaces each call of a program by a program.
-/

import Trfs.Library.Program

namespace Effect

section
variable {C D S : Type} {Reply : C → Type} {Other : D → Type} {α β γ : Type}

theorem Program.bind_assoc (program : Program Reply α) (next : α → Program Reply β) (last : β → Program Reply γ) :
    ((program >>= next) >>= last) = (program >>= fun value => next value >>= last) := by
  induction program with
  | pure value => rfl
  | call c inner ih =>
      simp only [call_bind]
      exact congrArg (Program.call c) (funext ih)

/-- Each call becomes a program over other calls. The state holds the local variables of the translated program. -/
def Program.translate (step : (c : C) → S → Program Other (Reply c × S)) :
    Program Reply α → S → Program Other (α × S)
  | .pure value, locals => .pure (value, locals)
  | .call c next, locals => step c locals >>= fun done => (next done.1).translate step done.2

/-- The translation of a sequence hands the local variables on. -/
theorem Program.translate_bind (step : (c : C) → S → Program Other (Reply c × S)) (program : Program Reply α)
    (next : α → Program Reply β) (locals : S) :
    (program >>= next).translate step locals =
      (program.translate step locals >>= fun done => (next done.1).translate step done.2) := by
  induction program generalizing locals with
  | pure value => rfl
  | call c inner ih =>
      simp only [call_bind, translate, ih, bind_assoc]

/-- A translation makes only calls that the translations of the calls make. -/
theorem Program.translate_calls {holds : D → Prop} {step : (c : C) → S → Program Other (Reply c × S)}
    (steps : ∀ c locals, (step c locals).Calls holds) (program : Program Reply α) (locals : S) :
    (program.translate step locals).Calls holds := by
  induction program generalizing locals with
  | pure value => trivial
  | call c next ih => exact (steps c locals).bind fun done => ih done.1 done.2

end

end Effect
