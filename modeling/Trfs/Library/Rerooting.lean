/-
This file puts a copy of a tree below a directory of another tree and carries the operations over.
-/

import Trfs.Library.FileTree

namespace FileTree

section
variable {N V W : Type} [DecidableEq N] {base : List N}

/-- A name put below the base is put at the base. -/
theorem putName_append (path : List N) (value : V) (names : List N → Option V) (name : List N) :
    putName (base ++ path) value names (base ++ name) =
      putName path value (fun inner => names (base ++ inner)) name := by
  simp only [putName, List.append_cancel_left_eq]

/-- A name erased below the base is erased at the base. -/
theorem eraseName_append (path : List N) (names : List N → Option V) (name : List N) :
    eraseName (base ++ path) names (base ++ name) = eraseName path (fun inner => names (base ++ inner)) name := by
  simp only [eraseName, List.append_cancel_left_eq]

/-- A name moved below the base is moved at the base. -/
theorem moveName_append (old new : List N) (names : List N → Option V) (name : List N) :
    moveName (base ++ old) (base ++ new) names (base ++ name) =
      moveName old new (fun inner => names (base ++ inner)) name := by
  have drops : (base ++ name).drop (base.length + new.length) = name.drop new.length := by
    rw [List.drop_append, List.drop_eq_nil_of_le (by omega), Nat.add_sub_cancel_left, List.nil_append]
  simp only [moveName, List.prefix_append_right_inj, List.length_append, drops, List.append_assoc]

/-- Putting a name commutes with a renaming of the values. -/
theorem putName_map (rename : V → W) (path : List N) (value : V) (names : List N → Option V) (name : List N) :
    putName path (rename value) (fun inner => (names inner).map rename) name =
      (putName path value names name).map rename := by
  unfold putName
  split <;> rfl

/-- Erasing a name commutes with a renaming of the values. -/
theorem eraseName_map (rename : V → W) (path : List N) (names : List N → Option V) (name : List N) :
    eraseName path (fun inner => (names inner).map rename) name = (eraseName path names name).map rename := by
  unfold eraseName
  split <;> rfl

/-- Moving a name commutes with a renaming of the values. -/
theorem moveName_map (rename : V → W) (old new : List N) (names : List N → Option V) (name : List N) :
    moveName old new (fun inner => (names inner).map rename) name = (moveName old new names name).map rename := by
  unfold moveName
  split
  · rfl
  · split <;> rfl

end

def Operation.under {N M : Type} (base : List N) : Operation N M → Operation N M
  | .mkdir path mode => .mkdir (base ++ path) mode
  | .rmdir path => .rmdir (base ++ path)
  | .unlink path => .unlink (base ++ path)
  | .link old new => .link (base ++ old) (base ++ new)
  | .rename old new => .rename (base ++ old) (base ++ new)

/-- The directory at the base can be reached, and from there on the other tree has the same names and kinds. The
objects have other numbers. -/
structure Embeds {N A K I J M : Type} (policy : Policy A K M) (base : List N) (renumber : I → J) (tree : Tree N A K I)
    (whole : Tree N A K J) : Prop where
  reachable : ∀ depth < base.length, whole.searchable policy (base.take depth) = true
  inside : ∀ path, whole.entry (base ++ path) = (tree.entry path).map (Entry.map renumber)

section
variable {N A K I J M : Type} {policy : Policy A K M} {base : List N} {renumber : I → J} {tree after : Tree N A K I}
  {whole last : Tree N A K J} {path old new : List N}

/-- Whether a path can be searched depends on its entry only. -/
theorem searchable_congr {tree other : Tree N A K I} (same : tree.entry path = other.entry path) :
    tree.searchable policy path = other.searchable policy path := by
  rw [Tree.searchable, Tree.searchable, same]

/-- Only the entries of both trees matter. -/
theorem Embeds.congr (embeds : Embeds policy base renumber tree whole) (inner : after.entry = tree.entry)
    (outer : last.entry = whole.entry) : Embeds policy base renumber after last where
  reachable depth small := by
    rw [searchable_congr (congrFun outer _)]
    exact embeds.reachable depth small
  inside path := by rw [inner, outer, embeds.inside]

/-- A path is searchable in the tree if and only if it is at the base. -/
theorem Embeds.searchable (embeds : Embeds policy base renumber tree whole) (path : List N) :
    whole.searchable policy (base ++ path) = tree.searchable policy path := by
  rw [Tree.searchable, Tree.searchable, embeds.inside]
  cases tree.entry path with
  | none => rfl
  | some entry => cases entry <;> rfl

/-- A parent in the tree is a parent below the base. -/
def Embeds.parent (embeds : Embeds policy base renumber tree whole) (parent : Parent policy tree path) :
    Parent policy whole (base ++ path) where
  attributes := parent.attributes
  nonroot := List.append_ne_nil_of_right_ne_nil base parent.nonroot
  found := by
    rw [List.dropLast_append_of_ne_nil parent.nonroot, embeds.inside, parent.found]
    rfl
  searched depth small := by
    rw [List.length_append] at small
    by_cases above : depth < base.length
    · rw [List.take_append_of_le_length above.le]
      exact embeds.reachable depth above
    · rw [List.take_append, List.take_of_length_le (by omega), embeds.searchable]
      exact parent.searched _ (by omega)

def Embeds.found (embeds : Embeds policy base renumber tree whole) (found : Found tree path) :
    Found whole (base ++ path) where
  entry := found.entry.map renumber
  here := by rw [embeds.inside, found.here, Option.map_some]

/-- A path without an entry has none at the base. -/
theorem Embeds.free (embeds : Embeds policy base renumber tree whole) (free : tree.entry path = none) :
    whole.entry (base ++ path) = none := by
  rw [embeds.inside, free, Option.map_none]

/-- An empty directory is empty at the base. -/
theorem Embeds.empty (embeds : Embeds policy base renumber tree whole) (empty : tree.Empty path) :
    whole.Empty (base ++ path) := by
  intro name nonroot parent
  have shape := List.dropLast_append_getLast nonroot
  rw [parent, List.append_assoc] at shape
  rw [← shape, embeds.inside, empty _ (by simp) List.dropLast_concat, Option.map_none]

/-- What changes nothing above the base and the same below it keeps the embedding. -/
theorem Embeds.step (embeds : Embeds policy base renumber tree whole)
    (above : ∀ depth < base.length, last.entry (base.take depth) = whole.entry (base.take depth))
    (inside : ∀ path, last.entry (base ++ path) = (after.entry path).map (Entry.map renumber)) :
    Embeds policy base renumber after last where
  reachable depth small := by
    rw [searchable_congr (above depth small)]
    exact embeds.reachable depth small
  inside := inside

/-- A proper prefix of the base is no path below it. -/
theorem take_ne_append {depth : Nat} (small : depth < base.length) (path : List N) :
    base.take depth ≠ base ++ path := by
  intro same
  have length := congrArg List.length same
  rw [List.length_take, List.length_append] at length
  omega

/-- No path below the base begins a proper prefix of it. -/
theorem not_prefix_take {depth : Nat} (small : depth < base.length) (path : List N) :
    ¬ base ++ path <+: base.take depth := by
  intro inside
  have length := inside.length_le
  rw [List.length_take, List.length_append] at length
  omega

variable [DecidableEq N]

/-- Both trees may get the same entry. -/
theorem Embeds.put (embeds : Embeds policy base renumber tree whole) {entry : Entry A K I} {nonroot parent free knows}
    {nonroot₂ parent₂ free₂ knows₂} : Embeds policy base renumber (tree.put path entry nonroot parent free knows)
      (whole.put (base ++ path) (entry.map renumber) nonroot₂ parent₂ free₂ knows₂) := by
  apply embeds.step
  · intro depth small
    exact if_neg (take_ne_append small path)
  · intro name
    show putName (base ++ path) (entry.map renumber) whole.entry (base ++ name) = _
    rw [putName_append]
    simp only [embeds.inside]
    exact putName_map (Entry.map renumber) path entry tree.entry name

/-- Both trees may lose the same entry. -/
theorem Embeds.erase (embeds : Embeds policy base renumber tree whole) {nonroot empty nonroot₂ empty₂} :
    Embeds policy base renumber (tree.erase path nonroot empty) (whole.erase (base ++ path) nonroot₂ empty₂) := by
  apply embeds.step
  · intro depth small
    exact if_neg (take_ne_append small path)
  · intro name
    show eraseName (base ++ path) whole.entry (base ++ name) = _
    rw [eraseName_append]
    simp only [embeds.inside]
    exact eraseName_map (Entry.map renumber) path tree.entry name

/-- The same entry may move in both trees. -/
theorem Embeds.move (embeds : Embeds policy base renumber tree whole) {source target parent source₂ target₂ parent₂} :
    Embeds policy base renumber (tree.move old new source target parent)
      (whole.move (base ++ old) (base ++ new) source₂ target₂ parent₂) := by
  apply embeds.step
  · intro depth small
    exact moveName_beside whole.entry (not_prefix_take small old) (not_prefix_take small new)
  · intro name
    show moveName (base ++ old) (base ++ new) whole.entry (base ++ name) = _
    rw [moveName_append]
    simp only [embeds.inside]
    exact moveName_map (Entry.map renumber) old new tree.entry name

/-- An operation that succeeds in the tree succeeds below the base. -/
def Carries (policy : Policy A K M) (base : List N) (renumber : I → J) (done : Option (Tree N A K I))
    (copied : Option (Tree N A K J)) : Prop :=
  ∀ after, done = some after → ∃ last, copied = some last ∧ Embeds policy base renumber after last

/-- A new directory is carried over. -/
theorem mkdir_carries (embeds : Embeds policy base renumber tree whole) (mode : M) :
    Carries policy base renumber (tree.mkdir policy path mode) (whole.mkdir policy (base ++ path) mode) := by
  intro after done
  obtain ⟨parent, _, done⟩ := Option.bind_eq_some_iff.mp done
  split at done
  · rename_i ready
    obtain rfl := Option.some.inj done
    have copied : whole.entry (base ++ path) = none ∧ policy.make (embeds.parent parent).attributes = true :=
      ⟨embeds.free ready.1, ready.2⟩
    rw [Tree.mkdir, Tree.parent_eq policy whole (embeds.parent parent), Option.bind_some, dif_pos copied]
    exact ⟨_, rfl, embeds.put⟩
  · cases done

/-- A removal is carried over. -/
theorem remove_carries (embeds : Embeds policy base renumber tree whole) (directory : Bool) :
    Carries policy base renumber (tree.remove policy path directory)
      (whole.remove policy (base ++ path) directory) := by
  intro after done
  obtain ⟨parent, _, done⟩ := Option.bind_eq_some_iff.mp done
  obtain ⟨found, _, done⟩ := Option.bind_eq_some_iff.mp done
  split at done
  · rename_i ready
    obtain rfl := Option.some.inj done
    have copied : (embeds.found found).entry.isDirectory = directory ∧ policy.remove (embeds.parent parent).attributes
        (embeds.found found).entry.face = true ∧ whole.Empty (base ++ path) := by
      simp only [Embeds.found, Entry.isDirectory_map, Entry.face_map]
      exact ⟨ready.1, ready.2.1, embeds.empty ready.2.2⟩
    rw [Tree.remove, Tree.parent_eq policy whole (embeds.parent parent), Option.bind_some,
      Tree.found_eq whole (embeds.found found), Option.bind_some, dif_pos copied]
    exact ⟨_, rfl, embeds.erase⟩
  · cases done

/-- A link is carried over. -/
theorem link_carries (embeds : Embeds policy base renumber tree whole) :
    Carries policy base renumber (tree.link policy old new) (whole.link policy (base ++ old) (base ++ new)) := by
  intro after done
  obtain ⟨source, _, done⟩ := Option.bind_eq_some_iff.mp done
  obtain ⟨parent, _, done⟩ := Option.bind_eq_some_iff.mp done
  obtain ⟨found, _, done⟩ := Option.bind_eq_some_iff.mp done
  split at done
  · rename_i ready
    obtain rfl := Option.some.inj done
    have copied : (embeds.found found).entry.isDirectory = false ∧ policy.link (embeds.parent parent).attributes
        (embeds.found found).entry.face = true ∧ whole.entry (base ++ new) = none := by
      simp only [Embeds.found, Entry.isDirectory_map, Entry.face_map]
      exact ⟨ready.1, ready.2.1, embeds.free ready.2.2⟩
    rw [Tree.link, Tree.parent_eq policy whole (embeds.parent source), Option.bind_some,
      Tree.parent_eq policy whole (embeds.parent parent), Option.bind_some,
      Tree.found_eq whole (embeds.found found), Option.bind_some, dif_pos copied]
    exact ⟨_, rfl, embeds.put⟩
  · cases done

variable [DecidableEq I] [DecidableEq J]

/-- Two names mean one object in the tree if and only if they do at the base. -/
theorem Embeds.same (embeds : Embeds policy base renumber tree whole) (distinct : Function.Injective renumber) :
    whole.same (base ++ old) (base ++ new) = tree.same old new := by
  rw [Tree.same, Tree.same, embeds.inside, embeds.inside]
  cases tree.entry old with
  | none => rfl
  | some first =>
      cases tree.entry new with
      | none => cases first <;> rfl
      | some second =>
          cases first <;> cases second <;> simp [Entry.map, distinct.eq_iff]

/-- A rename is carried over. -/
theorem rename_carries (embeds : Embeds policy base renumber tree whole) (distinct : Function.Injective renumber) :
    Carries policy base renumber (tree.rename policy old new) (whole.rename policy (base ++ old) (base ++ new)) := by
  intro after done
  obtain ⟨source, _, done⟩ := Option.bind_eq_some_iff.mp done
  obtain ⟨target, _, done⟩ := Option.bind_eq_some_iff.mp done
  obtain ⟨moved, _, done⟩ := Option.bind_eq_some_iff.mp done
  rw [Tree.rename, Tree.parent_eq policy whole (embeds.parent source), Option.bind_some,
    Tree.parent_eq policy whole (embeds.parent target), Option.bind_some,
    Tree.found_eq whole (embeds.found moved), Option.bind_some, embeds.same distinct]
  split at done
  · obtain rfl := Option.some.inj done
    exact ⟨whole, if_pos ‹_›, embeds⟩
  · split at done
    · rename_i apart ready
      obtain rfl := Option.some.inj done
      obtain ⟨outside, ⟨sort, empty⟩, allowed⟩ := ready
      rw [if_neg apart, if_pos]
      · exact ⟨_, rfl, embeds.move⟩
      · refine ⟨?_, ⟨?_, embeds.empty empty⟩, ?_⟩
        · rwa [List.prefix_append_right_inj]
        · simpa [embeds.inside, Embeds.found, Option.all_map, Function.comp_def] using sort
        · rw [embeds.inside, Option.map_map, List.dropLast_append_of_ne_nil source.nonroot,
            List.dropLast_append_of_ne_nil target.nonroot]
          simpa [Embeds.found, Embeds.parent, Function.comp_def] using allowed
    · cases done

/-- Every operation carries over to a copy below another directory. -/
theorem apply_carries (embeds : Embeds policy base renumber tree whole) (distinct : Function.Injective renumber)
    (operation : Operation N M) :
    Carries policy base renumber (tree.apply policy operation) (whole.apply policy (operation.under base)) := by
  cases operation with
  | mkdir path mode => exact mkdir_carries embeds mode
  | rmdir path => exact remove_carries embeds true
  | unlink path => exact remove_carries embeds false
  | link old new => exact link_carries embeds
  | rename old new => exact rename_carries embeds distinct

end

end FileTree
