/-
This file runs a loop with fuel, one round after the other.
-/

import Mathlib.Tactic.Basic

namespace Iteration

/-- One round continues with a new state or stops with a result. -/
inductive Round (σ ρ : Type) where
  | again (state : σ)
  | stop (result : ρ)

section
variable {σ ρ : Type}

/-- The loop runs until a round stops. It returns nothing when the fuel ends first. -/
def iterate (round : σ → Round σ ρ) : Nat → σ → Option ρ
  | 0, _ => none
  | fuel + 1, state =>
      match round state with
      | .again next => iterate round fuel next
      | .stop result => some result

theorem iterate_again {round : σ → Round σ ρ} {state next : σ} (continues : round state = .again next)
    (fuel : Nat) : iterate round (fuel + 1) state = iterate round fuel next := by
  rw [iterate, continues]

theorem iterate_stop {round : σ → Round σ ρ} {state : σ} {result : ρ}
    (stops : round state = .stop result) (fuel : Nat) :
    iterate round (fuel + 1) state = some result := by
  rw [iterate, stops]

/-- The states between two rounds. -/
inductive Reaches (round : σ → Round σ ρ) (first : σ) : σ → Prop where
  | start : Reaches round first first
  | again {state next : σ} : Reaches round first state → round state = .again next → Reaches round first next

/-- What every round that goes on keeps holds between all rounds. -/
theorem Reaches.keeps {round : σ → Round σ ρ} {kept : σ → Prop} {first state : σ}
    (reaches : Reaches round first state)
    (step : ∀ state next, kept state → round state = .again next → kept next) (start : kept first) : kept state := by
  induction reaches with
  | start => exact start
  | again _ continues ih => exact step _ _ ih continues

end

end Iteration
