/-
This file models two trees of names, one laid over the other, and the steps that keep them in correspondence.
-/

import Mathlib.Data.Finset.Erase
import Mathlib.Data.Finset.Insert
import Mathlib.Logic.Function.Basic

namespace Dentries

/-- The name of each entry of a tree and the entry above it. -/
structure Places (D N : Type) where
  name : D → N
  parent : D → D

section
variable {D E N : Type}

/-- The entries in use, except the root, lie below where the entries of the other tree do that belong to them. -/
structure Mirrors (root : D) (upper : Places D N) (lower : Places E N) (below : D → E) (used : Finset D) : Prop where
  top : root ∈ used
  name : ∀ entry ∈ used, entry ≠ root → lower.name (below entry) = upper.name entry
  parent : ∀ entry ∈ used, entry ≠ root → lower.parent (below entry) = below (upper.parent entry)
  closed : ∀ entry ∈ used, entry ≠ root → upper.parent entry ∈ used
  injective : ∀ entry ∈ used, ∀ other ∈ used, below entry = below other → entry = other

variable {root entry parent old new : D} {name : N} {upper : Places D N} {lower : Places E N} {below : D → E}
  {used : Finset D} {there : E}

/-- At first only the root is in use. -/
theorem Mirrors.start : Mirrors root upper lower below {root} where
  top := Finset.mem_singleton_self root
  name _ member different := absurd (Finset.mem_singleton.mp member) different
  parent _ member different := absurd (Finset.mem_singleton.mp member) different
  closed _ member different := absurd (Finset.mem_singleton.mp member) different
  injective _ member _ here _ := (Finset.mem_singleton.mp member).trans (Finset.mem_singleton.mp here).symm

/-- Nothing in use has a place in the lower tree below which its own entry would be new. -/
theorem Mirrors.unused (mirrors : Mirrors root upper lower below used) (inside : parent ∈ used)
    (free : ∀ other ∈ used, other ≠ root → upper.parent other = parent → upper.name other ≠ name)
    (placed : lower.parent there = below parent) (named : lower.name there = name) (notRoot : there ≠ below root) :
    ∀ other ∈ used, below other ≠ there := by
  rintro other member rfl
  have different : other ≠ root := fun same => notRoot (congrArg below same)
  have above := mirrors.closed other member different
  have same : upper.parent other = parent :=
    mirrors.injective _ above parent inside ((mirrors.parent other member different).symm.trans placed)
  exact free other member different same ((mirrors.name other member different).symm.trans named)

/-- Other trees with the same places of the entries in use. -/
theorem Mirrors.congr {upper' : Places D N} {lower' : Places E N} {below' : D → E}
    (mirrors : Mirrors root upper lower below used)
    (uppers : ∀ entry ∈ used, upper'.name entry = upper.name entry ∧ upper'.parent entry = upper.parent entry)
    (belows : ∀ entry ∈ used, below' entry = below entry)
    (lowers : ∀ entry ∈ used, lower'.name (below entry) = lower.name (below entry) ∧
      lower'.parent (below entry) = lower.parent (below entry)) :
    Mirrors root upper' lower' below' used where
  top := mirrors.top
  name entry member different := by
    rw [belows entry member, (lowers entry member).1, (uppers entry member).1]
    exact mirrors.name entry member different
  parent entry member different := by
    have above := mirrors.closed entry member different
    rw [belows entry member, (lowers entry member).2, (uppers entry member).2, belows _ above]
    exact mirrors.parent entry member different
  closed entry member different := by
    rw [(uppers entry member).2]
    exact mirrors.closed entry member different
  injective entry member other here same := by
    rw [belows entry member, belows other here] at same
    exact mirrors.injective entry member other here same

section
variable [DecidableEq D]

/-- A new entry gets its place. -/
def Places.put (places : Places D N) (entry parent : D) (name : N) : Places D N where
  name := Function.update places.name entry name
  parent := Function.update places.parent entry parent

/-- The first entry takes the place of the second one, which keeps its name and goes below the old parent. -/
def Places.move (places : Places D N) (old new : D) : Places D N where
  name := Function.update places.name old (places.name new)
  parent := Function.update (Function.update places.parent new (places.parent old)) old (places.parent new)

/-- An entry with nothing below it goes out of use. -/
theorem Mirrors.erase (mirrors : Mirrors root upper lower below used) (other : entry ≠ root)
    (childless : ∀ child ∈ used, child ≠ root → upper.parent child ≠ entry) :
    Mirrors root upper lower below (used.erase entry) where
  top := Finset.mem_erase.mpr ⟨other.symm, mirrors.top⟩
  name child member := mirrors.name child (Finset.mem_of_mem_erase member)
  parent child member := mirrors.parent child (Finset.mem_of_mem_erase member)
  closed child member different := Finset.mem_erase.mpr
    ⟨childless child (Finset.mem_of_mem_erase member) different,
      mirrors.closed child (Finset.mem_of_mem_erase member) different⟩
  injective child member other here :=
    mirrors.injective child (Finset.mem_of_mem_erase member) other (Finset.mem_of_mem_erase here)

/-- A new entry comes into use over an entry of the lower tree that belongs to no other. -/
theorem Mirrors.insert (mirrors : Mirrors root upper lower below used) (inside : upper.parent entry ∈ used)
    (named : lower.name (below entry) = upper.name entry)
    (placed : lower.parent (below entry) = below (upper.parent entry))
    (alone : ∀ other ∈ used, below other = below entry → other = entry) :
    Mirrors root upper lower below (insert entry used) where
  top := Finset.mem_insert_of_mem mirrors.top
  name child member different := by
    rcases Finset.mem_insert.mp member with rfl | member
    · exact named
    · exact mirrors.name child member different
  parent child member different := by
    rcases Finset.mem_insert.mp member with rfl | member
    · exact placed
    · exact mirrors.parent child member different
  closed child member different := by
    rcases Finset.mem_insert.mp member with rfl | member
    · exact Finset.mem_insert_of_mem inside
    · exact Finset.mem_insert_of_mem (mirrors.closed child member different)
  injective child member other here same := by
    rcases Finset.mem_insert.mp member with first | first
    · rcases Finset.mem_insert.mp here with second | second
      · exact first.trans second.symm
      · rw [first] at same
        exact first.trans (alone other second same.symm).symm
    · rcases Finset.mem_insert.mp here with second | second
      · rw [second] at same
        exact (alone child first same).trans second.symm
      · exact mirrors.injective child first other second same

/-- Both trees move the entries that belong together. -/
theorem Mirrors.move [DecidableEq E] (mirrors : Mirrors root upper lower below used) (first : old ∈ used)
    (second : new ∈ used) (oldRoot : old ≠ root) (newRoot : new ≠ root) :
    Mirrors root (upper.move old new) (lower.move (below old) (below new)) below used where
  top := mirrors.top
  name entry member different := by
    unfold Places.move
    simp only [Function.update_apply]
    by_cases same : entry = old
    · rw [if_pos same, if_pos (congrArg below same)]
      exact mirrors.name new second newRoot
    · have apart : below entry ≠ below old := fun here => same (mirrors.injective entry member old first here)
      rw [if_neg same, if_neg apart]
      exact mirrors.name entry member different
  parent entry member different := by
    unfold Places.move
    simp only [Function.update_apply]
    by_cases same : entry = old
    · rw [if_pos same, if_pos (congrArg below same)]
      exact mirrors.parent new second newRoot
    · have apart : below entry ≠ below old := fun here => same (mirrors.injective entry member old first here)
      rw [if_neg same, if_neg apart]
      by_cases same : entry = new
      · rw [if_pos same, if_pos (congrArg below same)]
        exact mirrors.parent old first oldRoot
      · have apart : below entry ≠ below new := fun here => same (mirrors.injective entry member new second here)
        rw [if_neg same, if_neg apart]
        exact mirrors.parent entry member different
  closed entry member different := by
    unfold Places.move
    simp only [Function.update_apply]
    by_cases same : entry = old
    · rw [if_pos same]
      exact mirrors.closed new second newRoot
    · rw [if_neg same]
      by_cases same : entry = new
      · rw [if_pos same]
        exact mirrors.closed old first oldRoot
      · rw [if_neg same]
        exact mirrors.closed entry member different
  injective := mirrors.injective

end

end

end Dentries
