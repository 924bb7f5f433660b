/-
This file runs a list of actions on a state.
-/

import Mathlib.Data.Option.Basic
import Mathlib.Tactic.Abel

namespace Effect

section
variable {A S : Type} {step : A → S → Option S}

/-- A run takes one action after the other. It is no run when an action cannot happen. -/
def runActions (step : A → S → Option S) : List A → S → Option S
  | [], state => some state
  | action :: rest, state => (step action state).bind (runActions step rest)

/-- Each action of the run satisfies the condition where it happens. -/
def ObeyActions (step : A → S → Option S) (allowed : S → A → Prop) : List A → S → Prop
  | [], _ => True
  | action :: rest, state => allowed state action ∧
      ∀ next, step action state = some next → ObeyActions step allowed rest next

theorem obeyActions_of_forall {allowed : S → A → Prop} (always : ∀ state action, allowed state action)
    (actions : List A) (state : S) : ObeyActions step allowed actions state := by
  induction actions generalizing state with
  | nil => trivial
  | cons action rest ih => exact ⟨always state action, fun next _ => ih next⟩

/-- A run can be checked action by action. -/
instance ObeyActions.decidable {allowed : S → A → Prop} [∀ state action, Decidable (allowed state action)] :
    (actions : List A) → (state : S) → Decidable (ObeyActions step allowed actions state)
  | [], _ => isTrue trivial
  | action :: rest, state =>
      match stepped : step action state with
      | none => decidable_of_iff (allowed state action)
          ⟨fun now => ⟨now, fun _ same => by rw [stepped] at same; cases same⟩, fun obeys => obeys.1⟩
      | some next =>
          have later : Decidable (ObeyActions step allowed rest next) := decidable rest next
          decidable_of_iff (allowed state action ∧ ObeyActions step allowed rest next)
            ⟨fun both => ⟨both.1, fun other same => by
              obtain rfl := Option.some.inj (stepped.symm.trans same)
              exact both.2⟩, fun obeys => ⟨obeys.1, obeys.2 next stepped⟩⟩

/-- What every allowed action keeps, a whole run keeps. -/
theorem runActions_keeps {allowed : S → A → Prop} {kept : S → Prop}
    (keeps : ∀ state action next, kept state → allowed state action → step action state = some next → kept next)
    {actions : List A} {first last : S} (start : kept first) (obeys : ObeyActions step allowed actions first)
    (ran : runActions step actions first = some last) : kept last := by
  induction actions generalizing first with
  | nil =>
      obtain rfl := Option.some.inj ran
      exact start
  | cons action rest ih =>
      obtain ⟨next, stepped, continued⟩ := Option.bind_eq_some_iff.mp ran
      exact ih (keeps first action next start obeys.1 stepped) (obeys.2 next stepped) continued

/-- What every action keeps, every run keeps. -/
theorem runActions_invariant {kept : S → Prop}
    (keeps : ∀ state action next, kept state → step action state = some next → kept next)
    {actions : List A} {first last : S} (start : kept first) (ran : runActions step actions first = some last) :
    kept last := by
  induction actions generalizing first with
  | nil =>
      obtain rfl := Option.some.inj ran
      exact start
  | cons action rest ih =>
      obtain ⟨next, stepped, continued⟩ := Option.bind_eq_some_iff.mp ran
      exact ih (keeps first action next start stepped) continued

/-- What the actions of a run add up to, each where it happens. -/
def totalActions {M : Type} [AddCommMonoid M] (step : A → S → Option S) (amount : S → A → M) : List A → S → M
  | [], _ => 0
  | action :: rest, state => amount state action + ((step action state).map (totalActions step amount rest)).getD 0

/-- What every action earns and spends shows in the balance of a run. -/
theorem runActions_balance {M : Type} [AddCommMonoid M] {kept : S → Prop} {measure : S → M} {earned spent : S → A → M}
    (balances : ∀ state action next, kept state → step action state = some next →
      kept next ∧ measure next + spent state action = measure state + earned state action)
    {actions : List A} {first last : S} (start : kept first) (ran : runActions step actions first = some last) :
    measure last + totalActions step spent actions first = measure first + totalActions step earned actions first := by
  induction actions generalizing first with
  | nil =>
      obtain rfl := Option.some.inj ran
      rfl
  | cons action rest ih =>
      obtain ⟨next, stepped, continued⟩ := Option.bind_eq_some_iff.mp ran
      obtain ⟨later, now⟩ := balances first action next start stepped
      have rest := ih later continued
      simp only [totalActions, stepped, Option.map_some, Option.getD_some]
      calc measure last + (spent first action + totalActions step spent _ next)
          = measure last + totalActions step spent _ next + spent first action := by abel
        _ = measure next + totalActions step earned _ next + spent first action := by rw [rest]
        _ = measure next + spent first action + totalActions step earned _ next := by abel
        _ = measure first + earned first action + totalActions step earned _ next := by rw [now]
        _ = measure first + (earned first action + totalActions step earned _ next) := by abel

/-- A run ends in a sound state exactly when each action is allowed, if the harm of any other action stays. -/
theorem runActions_sound_iff {allowed : S → A → Prop} {sound harmed : S → Prop}
    (keeps : ∀ state action next, sound state → allowed state action → step action state = some next → sound next)
    (harms : ∀ state action next, sound state → ¬ allowed state action → step action state = some next → harmed next)
    (stays : ∀ state action next, harmed state → step action state = some next → harmed next)
    (apart : ∀ state, harmed state → ¬ sound state) {actions : List A} {first last : S} (start : sound first)
    (ran : runActions step actions first = some last) :
    sound last ↔ ObeyActions step allowed actions first := by
  induction actions generalizing first with
  | nil =>
      obtain rfl := Option.some.inj ran
      exact iff_of_true start trivial
  | cons action rest ih =>
      obtain ⟨next, stepped, continued⟩ := Option.bind_eq_some_iff.mp ran
      by_cases obeys : allowed first action
      · rw [ih (keeps first action next start obeys stepped) continued]
        constructor
        · intro later
          refine ⟨obeys, ?_⟩
          intro other again
          obtain rfl := Option.some.inj (stepped.symm.trans again)
          exact later
        · intro all
          exact all.2 next stepped
      · have harmed := runActions_invariant stays (harms first action next start obeys stepped) continued
        exact iff_of_false (apart last harmed) fun all => obeys all.1

end

end Effect
