/-
This file models a tree of directories and hard-linked objects and the operations on its names.
-/

import Mathlib.Data.List.Infix
import Mathlib.Tactic.Basic

namespace FileTree

/-- A path from the root leads to a directory or to an object that may have other names. -/
inductive Entry (A K I : Type) where
  | directory (attributes : A)
  | object (id : I) (payload : K)
deriving DecidableEq

def Entry.isDirectory {A K I : Type} : Entry A K I → Bool
  | .directory _ => true
  | .object .. => false

def Entry.map {A K I J : Type} (rename : I → J) : Entry A K I → Entry A K J
  | .directory attributes => .directory attributes
  | .object id payload => .object (rename id) payload

/-- What a permission check sees of an entry. -/
abbrev Face (A K : Type) := Entry A K Unit

def Entry.face {A K I : Type} (entry : Entry A K I) : Face A K := entry.map fun _ => ()

/-- A renaming of the objects keeps the directories. -/
@[simp] theorem Entry.isDirectory_map {A K I J : Type} (rename : I → J) (entry : Entry A K I) :
    (entry.map rename).isDirectory = entry.isDirectory := by
  cases entry <;> rfl

/-- A renaming of the objects keeps what an entry shows. -/
@[simp] theorem Entry.face_map {A K I J : Type} (rename : I → J) (entry : Entry A K I) :
    (entry.map rename).face = entry.face := by
  cases entry <;> rfl

section
variable {N V : Type} [DecidableEq N]

/-- The path gets the entry. -/
def putName (path : List N) (value : V) (names : List N → Option V) : List N → Option V :=
  fun name => if name = path then some value else names name

def eraseName (path : List N) (names : List N → Option V) : List N → Option V :=
  fun name => if name = path then none else names name

/-- Everything at and below the old path goes to the new one. -/
def moveName (old new : List N) (names : List N → Option V) : List N → Option V :=
  fun name =>
    if old <+: name then none
    else if new <+: name then names (old ++ name.drop new.length)
    else names name

/-- A name below the target is the one that was below the source. -/
theorem moveName_below {old new : List N} (names : List N → Option V) {rest : List N}
    (apart : ¬ old <+: new ++ rest) : moveName old new names (new ++ rest) = names (old ++ rest) := by
  rw [moveName, if_neg apart, if_pos (List.prefix_append new rest), List.drop_left]

/-- A name beside source and target stays. -/
theorem moveName_beside {old new name : List N} (names : List N → Option V) (source : ¬ old <+: name)
    (target : ¬ new <+: name) : moveName old new names name = names name := by
  rw [moveName, if_neg source, if_neg target]

/-- Whatever a move leaves somewhere was somewhere before. -/
theorem moveName_eq_some {old new name : List N} {names : List N → Option V} {value : V}
    (found : moveName old new names name = some value) : ∃ before, names before = some value := by
  unfold moveName at found
  split at found
  · cases found
  · split at found
    · exact ⟨_, found⟩
    · exact ⟨_, found⟩

end

/-- A finite tree. Every entry has its parent directory, and the names of one object agree on it. -/
structure Tree (N A K I : Type) where
  entry : List N → Option (Entry A K I)
  support : List (List N)
  complete : ∀ path, entry path ≠ none → path ∈ support
  root : ∃ attributes, entry [] = some (.directory attributes)
  closed : ∀ path, path ≠ [] → entry path ≠ none → ∃ attributes, entry path.dropLast = some (.directory attributes)
  shared : ∀ first second id one other, entry first = some (.object id one) → entry second = some (.object id other) →
    one = other

section
variable {N A K I : Type} (tree : Tree N A K I)

/-- No entry is in this directory. -/
def Tree.Empty (directory : List N) : Prop :=
  ∀ path, path ≠ [] → path.dropLast = directory → tree.entry path = none

/-- The entry of a directory, or another name of an object that is there. -/
def Tree.Knows (entry : Entry A K I) : Prop :=
  entry.isDirectory = true ∨ ∃ path, tree.entry path = some entry

/-- A tree that knows an object has it with one content. -/
theorem Tree.Knows.agrees {tree : Tree N A K I} {path : List N} {id : I} {one other : K}
    (knows : tree.Knows (.object id one)) (found : tree.entry path = some (.object id other)) : one = other := by
  rcases knows with directory | ⟨name, known⟩
  · exact nomatch directory
  · exact tree.shared _ _ _ _ _ known found

/-- The parent of a path is another path. -/
theorem dropLast_ne {path : List N} (nonroot : path ≠ []) : path.dropLast ≠ path := by
  intro same
  have length := congrArg List.length same
  have positive := List.length_pos_iff.mpr nonroot
  rw [List.length_dropLast] at length
  omega

variable [DecidableEq N]

instance (directory : List N) : Decidable (tree.Empty directory) :=
  decidable_of_iff (∀ path ∈ tree.support, path ≠ [] → path.dropLast = directory → tree.entry path = none) (by
    constructor
    · intro listed path nonroot parent
      by_contra present
      exact present (listed path (tree.complete path present) nonroot parent)
    · intro empty path _
      exact empty path)

/-- A new entry in an existing directory. -/
def Tree.put (path : List N) (entry : Entry A K I) (nonroot : path ≠ [])
    (parent : ∃ attributes, tree.entry path.dropLast = some (.directory attributes)) (free : tree.entry path = none)
    (knows : tree.Knows entry) : Tree N A K I where
  entry := putName path entry tree.entry
  support := path :: tree.support
  complete name present := by
    by_cases here : name = path
    · exact List.mem_cons.mpr (.inl here)
    · rw [putName, if_neg here] at present
      exact List.mem_cons_of_mem path (tree.complete name present)
  root := by
    rw [putName, if_neg (Ne.symm nonroot)]
    exact tree.root
  closed name below present := by
    have directory : ∃ attributes, tree.entry name.dropLast = some (.directory attributes) := by
      by_cases here : name = path
      · rw [here]
        exact parent
      · rw [putName, if_neg here] at present
        exact tree.closed name below present
    obtain ⟨attributes, directory⟩ := directory
    have other : name.dropLast ≠ path := by
      intro same
      rw [same, free] at directory
      cases directory
    rw [putName, if_neg other]
    exact ⟨attributes, directory⟩
  shared first second id one other named another := by
    by_cases here : first = path <;> by_cases there : second = path
    · rw [putName, if_pos here] at named
      rw [putName, if_pos there] at another
      obtain rfl := Option.some.inj named
      exact (Entry.object.inj (Option.some.inj another)).2
    · rw [putName, if_pos here] at named
      rw [putName, if_neg there] at another
      obtain rfl := Option.some.inj named
      exact knows.agrees another
    · rw [putName, if_neg here] at named
      rw [putName, if_pos there] at another
      obtain rfl := Option.some.inj another
      exact (knows.agrees named).symm
    · rw [putName, if_neg here] at named
      rw [putName, if_neg there] at another
      exact tree.shared first second id one other named another

/-- A tree without one entry that has nothing in it. -/
def Tree.erase (path : List N) (nonroot : path ≠ []) (empty : tree.Empty path) : Tree N A K I where
  entry := eraseName path tree.entry
  support := tree.support
  complete name present := by
    apply tree.complete name
    unfold eraseName at present
    split at present
    · exact absurd rfl present
    · exact present
  root := by
    rw [eraseName, if_neg (Ne.symm nonroot)]
    exact tree.root
  closed name below present := by
    by_cases here : name = path
    · exact absurd (by rw [eraseName, if_pos here]) present
    · rw [eraseName, if_neg here] at present
      have other : name.dropLast ≠ path := fun same => present (empty name below same)
      rw [eraseName, if_neg other]
      exact tree.closed name below present
  shared first second id one other named another := by
    unfold eraseName at named another
    split at named
    · cases named
    · split at another
      · cases another
      · exact tree.shared first second id one other named another

/-- A subtree at a new place, where it replaces what was there. -/
def Tree.move (old new : List N) (source : old ≠ []) (target : new ≠ [])
    (parent : ∃ attributes, tree.entry new.dropLast = some (.directory attributes)) : Tree N A K I where
  entry := moveName old new tree.entry
  support := tree.support ++ tree.support.map fun path => new ++ path.drop old.length
  complete name present := by
    rw [List.mem_append]
    unfold moveName at present
    split at present
    · exact absurd rfl present
    · split at present
      · rename_i below
        obtain ⟨rest, rfl⟩ := below
        rw [List.drop_left] at present
        apply Or.inr
        exact List.mem_map.mpr ⟨old ++ rest, tree.complete _ present, by rw [List.drop_left]⟩
      · exact .inl (tree.complete name present)
  root := by
    rw [moveName_beside]
    · exact tree.root
    · simpa using source
    · simpa using target
  closed name below present := by
    have outside : ¬ old <+: name := by
      intro inside
      rw [moveName, if_pos inside] at present
      exact present rfl
    have parentOutside : ¬ old <+: name.dropLast := fun inside => outside (inside.trans (List.dropLast_prefix name))
    by_cases moved : new <+: name
    · obtain ⟨rest, rfl⟩ := moved
      rw [moveName_below tree.entry outside] at present
      by_cases top : rest = []
      · subst top
        rw [List.append_nil] at outside parentOutside ⊢
        rw [moveName_beside tree.entry parentOutside]
        · exact parent
        · intro inside
          exact dropLast_ne target (List.IsPrefix.eq_of_length_le inside (by simp)).symm
      · have nonroot : old ++ rest ≠ [] := by simp [top]
        rw [List.dropLast_append_of_ne_nil top] at parentOutside ⊢
        rw [moveName_below tree.entry parentOutside, ← List.dropLast_append_of_ne_nil top]
        exact tree.closed _ nonroot present
    · rw [moveName_beside tree.entry outside moved] at present
      have unmoved : ¬ new <+: name.dropLast := fun inside => moved (inside.trans (List.dropLast_prefix name))
      rw [moveName_beside tree.entry parentOutside unmoved]
      exact tree.closed name below present
  shared first second id one other named another := by
    obtain ⟨before, found⟩ := moveName_eq_some named
    obtain ⟨former, known⟩ := moveName_eq_some another
    exact tree.shared before former id one other found known

end

/-- The permission checks and the attributes of a new directory. The boolean of a move says whether both names are in
one directory. -/
structure Policy (A K M : Type) where
  search : A → Bool
  make : A → Bool
  attributes : A → M → A
  remove : A → Face A K → Bool
  link : A → Face A K → Bool
  move : A → Face A K → A → Option (Face A K) → Bool → Bool

inductive Operation (N M : Type) where
  | mkdir (path : List N) (mode : M)
  | rmdir (path : List N)
  | unlink (path : List N)
  | link (old new : List N)
  | rename (old new : List N)

section
variable {N A K I M : Type} (policy : Policy A K M) (tree : Tree N A K I)

/-- The directory may be searched. -/
def Tree.searchable (path : List N) : Bool :=
  match tree.entry path with
  | some (.directory attributes) => policy.search attributes
  | _ => false

/-- The parent directory of a path, to which the path can be followed. -/
structure Parent (path : List N) where
  attributes : A
  nonroot : path ≠ []
  found : tree.entry path.dropLast = some (.directory attributes)
  searched : ∀ depth < path.length, tree.searchable policy (path.take depth) = true

def Tree.parent (path : List N) : Option (Parent policy tree path) :=
  if nonroot : path ≠ [] then
    if searched : ∀ depth < path.length, tree.searchable policy (path.take depth) = true then
      match found : tree.entry path.dropLast with
      | some (.directory attributes) => some ⟨attributes, nonroot, found, searched⟩
      | _ => none
    else none
  else none

/-- There is one parent at most. -/
theorem Tree.parent_eq {path : List N} (parent : Parent policy tree path) : tree.parent policy path = some parent := by
  obtain ⟨attributes, nonroot, found, searched⟩ := parent
  rw [Tree.parent, dif_pos nonroot, dif_pos searched]
  split
  · rename_i other same
    obtain rfl := Entry.directory.inj (Option.some.inj (same.symm.trans found))
    rfl
  · rename_i none
    exact absurd found (none attributes)

/-- The entry at a path. -/
structure Found (path : List N) where
  entry : Entry A K I
  here : tree.entry path = some entry

def Tree.found (path : List N) : Option (Found tree path) :=
  match here : tree.entry path with
  | some entry => some ⟨entry, here⟩
  | none => none

/-- A path that is found is found as such. -/
theorem Tree.found_eq {path : List N} (found : Found tree path) : tree.found path = some found := by
  obtain ⟨entry, here⟩ := found
  unfold Tree.found
  split
  · rename_i other same
    obtain rfl := Option.some.inj (same.symm.trans here)
    rfl
  · rename_i none
    exact nomatch none.symm.trans here

variable [DecidableEq N]

def Tree.mkdir (path : List N) (mode : M) : Option (Tree N A K I) :=
  (tree.parent policy path).bind fun parent =>
    if ready : tree.entry path = none ∧ policy.make parent.attributes = true then
      some (tree.put path (.directory (policy.attributes parent.attributes mode)) parent.nonroot ⟨_, parent.found⟩
        ready.1 (.inl rfl))
    else none

/-- `rmdir` and `unlink`. Nothing is in an object, so that only a directory can fail to be empty. -/
def Tree.remove (path : List N) (directory : Bool) : Option (Tree N A K I) :=
  (tree.parent policy path).bind fun parent => (tree.found path).bind fun found =>
    if ready : found.entry.isDirectory = directory ∧ policy.remove parent.attributes found.entry.face = true ∧
        tree.Empty path then
      some (tree.erase path parent.nonroot ready.2.2)
    else none

/-- The new name of an object must be free. -/
def Tree.link (old new : List N) : Option (Tree N A K I) :=
  (tree.parent policy old).bind fun _ => (tree.parent policy new).bind fun parent => (tree.found old).bind fun found =>
    if ready : found.entry.isDirectory = false ∧ policy.link parent.attributes found.entry.face = true ∧
        tree.entry new = none then
      some (tree.put new found.entry parent.nonroot ⟨_, parent.found⟩ ready.2.2 (.inr ⟨old, found.here⟩))
    else none

/-- Both paths lead to one directory or to one object. -/
def Tree.same [DecidableEq I] (old new : List N) : Bool :=
  match tree.entry old, tree.entry new with
  | some (.object first _), some (.object second _) => first = second
  | some (.directory _), some (.directory _) => old = new
  | _, _ => false

/-- An entry may replace another one of its sort that has nothing in it. -/
def Tree.Replaceable (moved : Entry A K I) (new : List N) : Prop :=
  (tree.entry new).all (fun entry => entry.isDirectory = moved.isDirectory) = true ∧ tree.Empty new

instance (moved : Entry A K I) (new : List N) : Decidable (tree.Replaceable moved new) :=
  inferInstanceAs (Decidable (_ ∧ _))

/-- A rename of one object to another name of its own does nothing. A directory does not move below itself. -/
def Tree.rename [DecidableEq I] (old new : List N) : Option (Tree N A K I) :=
  (tree.parent policy old).bind fun source => (tree.parent policy new).bind fun target =>
    (tree.found old).bind fun moved =>
      if tree.same old new then some tree
      else if ¬ old <+: new ∧ tree.Replaceable moved.entry new ∧ policy.move source.attributes moved.entry.face
          target.attributes ((tree.entry new).map Entry.face) (decide (old.dropLast = new.dropLast)) = true then
        some (tree.move old new source.nonroot target.nonroot ⟨_, target.found⟩)
      else none

/-- The tree after an operation that succeeds. -/
def Tree.apply [DecidableEq I] : Operation N M → Option (Tree N A K I)
  | .mkdir path mode => tree.mkdir policy path mode
  | .rmdir path => tree.remove policy path true
  | .unlink path => tree.remove policy path false
  | .link old new => tree.link policy old new
  | .rename old new => tree.rename policy old new

end

end FileTree
