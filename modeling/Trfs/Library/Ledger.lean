/-
This file counts the tokens that the calls of a program take and give.
-/

import Mathlib.Algebra.BigOperators.Group.Finset.Piecewise
import Mathlib.Algebra.Order.Group.Multiset
import Trfs.Library.Program

namespace Effect

/-- Which tokens each call takes and which it gives with its reply. -/
structure Ledger {Call : Type} (Reply : Call → Type) (Token : Type) where
  gains : (c : Call) → Reply c → Multiset Token
  spends : Call → Multiset Token

section
variable {Call Token : Type} {Reply : Call → Type} [DecidableEq Token]

/-- The tokens that are held. A call that takes a token that is not held ends the account. -/
def Ledger.account (ledger : Ledger Reply Token) : Monitor Reply (Option (Multiset Token)) where
  permits _ _ := True
  next progress c reply := progress.bind fun held =>
    if ledger.spends c ≤ held then some (held - ledger.spends c + ledger.gains c reply) else none

variable {ledger : Ledger Reply Token} {held rest : Multiset Token} {c : Call} {reply : Reply c}

/-- A call with its tokens at hand leaves the rest and what it gives. -/
theorem Ledger.account_next (enough : held = ledger.spends c + rest) :
    ledger.account.next (some held) c reply = some (rest + ledger.gains c reply) := by
  have within : ledger.spends c ≤ held := by
    rw [enough]
    exact Multiset.le_add_right _ _
  have left : held - ledger.spends c = rest := by
    rw [enough, add_tsub_cancel_left]
  change (if ledger.spends c ≤ held then some (held - ledger.spends c + ledger.gains c reply) else none) = _
  rw [if_pos within, left]

/-- A call that takes nothing adds what it gives. -/
theorem Ledger.account_gain (free : ledger.spends c = 0) :
    ledger.account.next (some held) c reply = some (held + ledger.gains c reply) := by
  apply account_next
  rw [free, zero_add]

end

section
variable {I V M : Type} [DecidableEq I] [AddCommMonoid M] {members : Finset I} {weigh : V → M} {family : I → V} {index : I}
  {value : V}

/-- A change outside the members leaves what they hold together. -/
theorem sum_update_absent (absent : index ∉ members) :
    ∑ other ∈ members, weigh (Function.update family index value other) = ∑ other ∈ members, weigh (family other) := by
  apply Finset.sum_congr rfl
  intro other member
  have different : other ≠ index := fun same => absent (same ▸ member)
  rw [Function.update_of_ne different]

/-- A change of one member exchanges what it holds. -/
theorem sum_update_member (member : index ∈ members) :
    weigh (family index) + ∑ other ∈ members, weigh (Function.update family index value other) =
      weigh value + ∑ other ∈ members, weigh (family other) := by
  rw [← Finset.insert_erase member]
  have absent : index ∉ members.erase index := Finset.notMem_erase index members
  rw [Finset.sum_insert absent, Finset.sum_insert absent, sum_update_absent absent, Function.update_self]
  exact add_left_comm _ _ _

/-- A member that holds more adds the same to what all hold together. -/
theorem sum_update_gain {I V M : Type} [DecidableEq I] [AddCancelCommMonoid M] {members : Finset I} {weigh : V → M}
    {family : I → V} {index : I} {value : V} {extra : M} (member : index ∈ members)
    (more : weigh value = extra + weigh (family index)) :
    ∑ other ∈ members, weigh (Function.update family index value other) =
      extra + ∑ other ∈ members, weigh (family other) := by
  have exchanged : weigh (family index) + ∑ other ∈ members, weigh (Function.update family index value other) =
      weigh value + ∑ other ∈ members, weigh (family other) := sum_update_member member
  rw [more, add_assoc, add_left_comm] at exchanged
  exact add_left_cancel exchanged

/-- A member that holds less takes the same from what all hold together. -/
theorem sum_update_loss {I V M : Type} [DecidableEq I] [AddCancelCommMonoid M] {members : Finset I} {weigh : V → M}
    {family : I → V} {index : I} {value : V} {extra : M} (member : index ∈ members)
    (less : weigh (family index) = extra + weigh value) :
    ∑ other ∈ members, weigh (family other) =
      extra + ∑ other ∈ members, weigh (Function.update family index value other) := by
  have exchanged : weigh (family index) + ∑ other ∈ members, weigh (Function.update family index value other) =
      weigh value + ∑ other ∈ members, weigh (family other) := sum_update_member member
  rw [less, add_assoc, add_left_comm] at exchanged
  exact (add_left_cancel exchanged).symm

/-- A new member that holds nothing. -/
theorem sum_insert_update (absent : index ∉ members) (nothing : weigh value = 0) :
    ∑ other ∈ insert index members, weigh (Function.update family index value other) =
      ∑ other ∈ members, weigh (family other) := by
  rw [Finset.sum_insert absent, sum_update_absent absent, Function.update_self, nothing, zero_add]

end

end Effect
