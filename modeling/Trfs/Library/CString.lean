/-
This file models strings that end at a NUL and finds them in memory.
-/

import Trfs.Library.Bytes
import Mathlib.Data.List.TakeWhile

namespace Bytes

/-- The characters of a string before its terminating NUL. -/
structure CString where
  bytes : List Byte
  noNul : ∀ byte ∈ bytes, byte ≠ 0

/-- The bytes of a text of ASCII characters. -/
def ascii (text : String) : List Byte := text.toList.map fun character => BitVec.ofNat 8 character.toNat

def CString.length (text : CString) : Nat := text.bytes.length

/-- Two strings with the same bytes are equal. -/
@[ext] theorem CString.ext {first second : CString} (same : first.bytes = second.bytes) : first = second := by
  cases first
  cases second
  cases same
  rfl

instance : DecidableEq CString := fun first second =>
  decidable_of_iff (first.bytes = second.bytes) ⟨CString.ext, fun same => by rw [same]⟩

/-- The string that `strcat` makes of two strings. -/
def CString.append (first second : CString) : CString where
  bytes := first.bytes ++ second.bytes
  noNul byte member := (List.mem_append.mp member).elim (first.noNul byte) (second.noNul byte)

/-- A common front may be dropped. -/
theorem CString.append_left_cancel {first second third : CString} (same : first.append second = first.append third) :
    second = third := CString.ext (List.append_cancel_left (congrArg CString.bytes same))

/-- The names of a path from the root on. Empty names do not count. -/
def components (path : CString) : List (List Byte) := (path.bytes.splitOn 0x2f).filter (· ≠ [])

/-- The path begins with a slash. -/
def Rooted (path : CString) : Prop := ∃ rest, path.bytes = 0x2f :: rest

/-- The components of a rooted path follow those of the front. -/
theorem components_append {first second : CString} (rooted : Rooted second) :
    components (first.append second) = components first ++ components second := by
  obtain ⟨rest, slash⟩ := rooted
  have joined : (first.append second).bytes = first.bytes ++ 0x2f :: rest := congrArg (first.bytes ++ ·) slash
  have empty : (0x2f :: rest).splitOn (0x2f : Byte) = [].splitOn 0x2f ++ rest.splitOn 0x2f :=
    List.splitOn_append_cons_self [] rest
  rw [components, components, components, joined, slash, List.splitOn_append_cons_self, empty, List.filter_append,
    List.filter_append]
  simp

/-- The number of bytes before the first NUL. -/
def strlen (memory : List Byte) : Nat := (memory.takeWhile fun byte => byte ≠ 0).length

/-- The length of a stored string does not depend on what follows its terminator. -/
theorem strlen_append (text : CString) (rest : List Byte) :
    strlen (text.bytes ++ (0 :: rest)) = text.length := by
  have all : ∀ byte ∈ text.bytes, decide (byte ≠ 0) = true :=
    fun byte member => decide_eq_true (text.noNul byte member)
  rw [strlen, List.takeWhile_append_of_pos all, List.takeWhile_cons_of_neg (by simp), List.append_nil,
    CString.length]

/-- What stands before the NUL holds none. -/
theorem takeWhile_noNul (memory : List Byte) : ∀ byte ∈ memory.takeWhile fun byte => byte ≠ 0, byte ≠ 0 := by
  intro byte member
  have kept := List.mem_takeWhile_imp (p := fun byte : Byte => decide (byte ≠ 0)) member
  exact of_decide_eq_true kept

/-- The string at the beginning of a memory. There is none when the memory has no NUL. -/
def stringAt (memory : List Byte) : Option CString :=
  if 0 ∈ memory then some ⟨memory.takeWhile fun byte => byte ≠ 0, takeWhile_noNul memory⟩ else none

/-- The string in a memory is what stands before its first NUL. -/
theorem stringAt_bytes (memory : List Byte) :
    (stringAt memory).map CString.bytes =
      if 0 ∈ memory then some (memory.takeWhile fun byte => byte ≠ 0) else none := by
  unfold stringAt
  split <;> rfl

/-- A memory holds a string if and only if it holds a NUL. -/
theorem stringAt_isSome (memory : List Byte) : (stringAt memory).isSome ↔ 0 ∈ memory := by
  unfold stringAt
  split <;> simp_all

/-- A text with a NUL behind it is the string there. -/
theorem stringAt_append (text : CString) (rest : List Byte) : stringAt (text.bytes ++ 0 :: rest) = some text := by
  have all : ∀ byte ∈ text.bytes, decide (byte ≠ 0) = true :=
    fun byte member => decide_eq_true (text.noNul byte member)
  have there : 0 ∈ text.bytes ++ 0 :: rest := by simp
  rw [stringAt, if_pos there, Option.some.injEq]
  apply CString.ext
  dsimp only
  rw [List.takeWhile_append_of_pos all, List.takeWhile_cons_of_neg (by simp), List.append_nil]

/-- The bytes of a buffer are read as a string exactly when its first NUL is the byte after them. -/
theorem stringAt_exact (buffer beyond : List Byte) :
    (stringAt (buffer ++ beyond)).map CString.bytes = some buffer ↔
      (∀ byte ∈ buffer, byte ≠ 0) ∧ beyond.head? = some 0 := by
  have passed (noNul : ∀ byte ∈ buffer, byte ≠ 0) :
      ((buffer ++ beyond).takeWhile fun byte => byte ≠ 0) =
        buffer ++ beyond.takeWhile fun byte => byte ≠ 0 :=
    List.takeWhile_append_of_pos fun byte member => decide_eq_true (noNul byte member)
  rw [stringAt_bytes]
  constructor
  · intro same
    split at same
    · rename_i member
      have exact := Option.some.inj same
      have noNul : ∀ byte ∈ buffer, byte ≠ 0 := by
        intro byte inside
        rw [← exact] at inside
        exact takeWhile_noNul _ byte inside
      rw [passed noNul, List.append_right_eq_self, List.takeWhile_eq_nil_iff] at exact
      refine ⟨noNul, ?_⟩
      cases beyond with
      | nil =>
          rw [List.append_nil] at member
          exact absurd rfl (noNul 0 member)
      | cons byte rest =>
          have zero := exact (Nat.zero_lt_succ _)
          simpa using zero
    · cases same
  · rintro ⟨noNul, next⟩
    obtain ⟨rest, rfl⟩ : ∃ rest, beyond = 0 :: rest := List.head?_eq_some_iff.mp next
    rw [if_pos (by simp), passed noNul, List.takeWhile_cons_of_neg (by simp), List.append_nil]

/-- The copy ends with its NUL in the last byte of the memory. -/
def storeRight (memory : List Byte) (text : CString) : List Byte :=
  store memory (memory.length - 1 - text.length) (text.bytes ++ [0])

/-- A text stored at the end keeps the size of the memory. -/
@[simp] theorem storeRight_length (memory : List Byte) (text : CString) :
    (storeRight memory text).length = memory.length :=
  store_length memory _ _

/-- The memory from the first character on is the string and its NUL. -/
theorem drop_storeRight (memory : List Byte) (text : CString) (fits : text.length < memory.length) :
    (storeRight memory text).drop (memory.length - 1 - text.length) = text.bytes ++ [0] := by
  have size : (text.bytes ++ [(0 : Byte)]).length = text.length + 1 := by simp [CString.length]
  have whole : (memory.take (memory.length - 1 - text.length)).length = memory.length - 1 - text.length := by
    rw [List.length_take]
    omega
  rw [storeRight, store, List.append_assoc, List.drop_left' whole, List.take_of_length_le (by omega),
    List.drop_eq_nil_of_le (by omega), List.append_nil]

/-- What is left of a string after another one of the same memory was stored over its end. -/
def overlay (first second : List Byte) : List Byte :=
  first.take (first.length - second.length) ++ second.drop (second.length - first.length)

/-- An overlay keeps the size of the memory. -/
theorem overlay_length (first second : List Byte) : (overlay first second).length = first.length := by
  simp only [overlay, List.length_append, List.length_take, List.length_drop]
  omega

/-- The first string survives exactly when the shorter one is the end of the longer one. -/
theorem overlay_eq_first (first second : List Byte) :
    overlay first second = first ↔ first <:+ second ∨ second <:+ first := by
  constructor
  · intro same
    rcases Nat.le_total second.length first.length with shorter | longer
    · rw [overlay, Nat.sub_eq_zero_of_le shorter, List.drop_zero] at same
      exact .inr ⟨_, same⟩
    · rw [overlay, Nat.sub_eq_zero_of_le longer, List.take_zero, List.nil_append] at same
      exact .inl ⟨_, by rw [← same]; exact List.take_append_drop (second.length - first.length) second⟩
  · rintro (⟨before, rfl⟩ | ⟨before, rfl⟩) <;> simp [overlay]

/-- The bytes of a memory with a text at its end. -/
theorem storeRight_getElem? (memory : List Byte) (text : CString) (index : Nat)
    (fits : text.length < memory.length) :
    (storeRight memory text)[index]? =
      if memory.length - 1 - text.length ≤ index ∧ index < memory.length then
        (text.bytes ++ [0])[index - (memory.length - 1 - text.length)]?
      else memory[index]? := by
  have size : (text.bytes ++ [(0 : Byte)]).length = text.length + 1 := by simp [CString.length]
  rw [storeRight, store_getElem?, size]
  congr 1
  apply propext
  omega

/-- Two strings stored in one memory share its end. -/
theorem load_storeRight_twice (memory : List Byte) (first second : CString)
    (fits : first.length < memory.length) (also : second.length < memory.length) :
    ((storeRight (storeRight memory first) second).drop (memory.length - 1 - first.length)).take
      first.length = overlay first.bytes second.bytes := by
  apply List.ext_getElem?
  intro index
  rw [List.getElem?_take, List.getElem?_drop, storeRight_getElem? _ _ _ (by simpa using also),
    storeRight_getElem? _ _ _ fits, storeRight_length, overlay]
  have one : first.bytes.length = first.length := rfl
  have two : second.bytes.length = second.length := rfl
  by_cases within : index < first.length
  · rw [if_pos within]
    by_cases kept : index < first.bytes.length - second.bytes.length
    · rw [if_neg (by omega), if_pos (by omega), List.getElem?_append_left (by omega),
        List.getElem?_append_left (by rw [List.length_take]; omega), List.getElem?_take_of_lt kept]
      congr 1
      omega
    · rw [if_pos (by omega), List.getElem?_append_left (by omega),
        List.getElem?_append_right (by rw [List.length_take]; omega), List.getElem?_drop, List.length_take]
      congr 1
      omega
  · rw [if_neg within, List.getElem?_eq_none]
    rw [List.length_append, List.length_take, List.length_drop]
    omega

end Bytes
