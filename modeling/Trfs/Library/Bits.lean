/-
This file assigns single bits of a machine word and relates the assignments to arithmetic.
-/

import Mathlib.Algebra.Group.Nat.Defs
import Mathlib.Data.List.Induction

namespace Bits

section
variable {width : Nat}

/-- The word with one bit replaced. -/
def assign (word : BitVec width) (bit : Nat) (value : Bool) : BitVec width :=
  if value then word ||| BitVec.twoPow width bit else word &&& ~~~BitVec.twoPow width bit

/-- The word with the bits of a value, but for those that it keeps. -/
def blend (kept value word : BitVec width) : BitVec width := value &&& ~~~kept ||| word &&& kept

/-- A blended bit comes from one of the two words. -/
theorem getElem_blend (kept value word : BitVec width) {index : Nat} (inside : index < width) :
    (blend kept value word)[index] = if kept[index] then word[index] else value[index] := by
  cases here : kept[index] <;> simp [blend, here]

/-- Of two values that come over a word with the same bits kept the later one stays. -/
theorem blend_blend (kept value other word : BitVec width) :
    blend kept value (blend kept other word) = blend kept value word := by
  ext index inside
  rw [getElem_blend, getElem_blend, getElem_blend]
  split <;> rfl

/-- What comes out is a given word exactly when both parts are. -/
theorem blend_eq_iff {kept value word : BitVec width} (whole : BitVec width) :
    blend kept value word = whole ↔ value &&& ~~~kept = whole &&& ~~~kept ∧ word &&& kept = whole &&& kept := by
  constructor
  · rintro rfl
    constructor
    · ext index inside
      cases here : kept[index] <;> simp [getElem_blend, here]
    · ext index inside
      cases here : kept[index] <;> simp [getElem_blend, here]
  · rintro ⟨same, rest⟩
    have parts : whole &&& ~~~kept ||| whole &&& kept = whole := by
      ext index inside
      cases here : kept[index] <;> simp [here]
    rw [blend, same, rest, parts]

/-- The assignments of a list, one after the other. -/
def assignAll (word : BitVec width) (updates : List (Nat × Bool)) : BitVec width :=
  updates.foldl (fun reached update => assign reached update.1 update.2) word

/-- The value that the last assignment to a bit gives it. -/
def lastValue (updates : List (Nat × Bool)) (bit : Nat) : Option Bool :=
  updates.foldl (fun last update => if update.1 = bit then some update.2 else last) none

/-- A bit of a word after an assignment. -/
theorem getLsbD_assign (word : BitVec width) {bit : Nat} (value : Bool) (inside : bit < width) (index : Nat) :
    (assign word bit value).getLsbD index = if bit = index then value else word.getLsbD index := by
  by_cases this : bit = index
  · subst this
    cases value <;> simp [assign, inside]
  · cases value <;> simp [assign, inside, this]
    exact fun set => BitVec.lt_of_getLsbD set

/-- A bit that is shifted down and masked. -/
theorem shifted (word : BitVec width) (bit : Nat) :
    (word >>> bit) &&& 1 = (BitVec.ofBool (word.getLsbD bit)).setWidth width := by
  rw [BitVec.ofNat_eq_ofNat, BitVec.and_one_eq_setWidth_ofBool_getLsbD, BitVec.getLsbD_ushiftRight, Nat.add_zero]

/-- The test `((word >> bit) & 1) == 1`. -/
theorem shifted_eq_one {word : BitVec width} {bit : Nat} (inside : bit < width) :
    (word >>> bit) &&& 1 = 1 ↔ word.getLsbD bit = true := by
  have wide : 1 < 2 ^ width := Nat.one_lt_two_pow (by omega)
  rw [shifted]
  cases word.getLsbD bit <;> simp [BitVec.toNat_eq, Nat.mod_eq_of_lt wide]

/-- The test `((word >> bit) & 1) == 0`. -/
theorem shifted_eq_zero {word : BitVec width} {bit : Nat} (inside : bit < width) :
    (word >>> bit) &&& 1 = 0 ↔ word.getLsbD bit = false := by
  have wide : 1 < 2 ^ width := Nat.one_lt_two_pow (by omega)
  rw [shifted]
  cases word.getLsbD bit <;> simp [BitVec.toNat_eq, Nat.mod_eq_of_lt wide]

/-- Assigning the value a bit has changes nothing. -/
theorem assign_same {word : BitVec width} {bit : Nat} {value : Bool} (inside : bit < width)
    (same : word.getLsbD bit = value) : assign word bit value = word := by
  apply BitVec.eq_of_getLsbD_eq
  intro index _
  rw [getLsbD_assign _ _ inside]
  split
  · rename_i here
    rw [← here, same]
  · rfl

/-- Adding the weight of a clear bit sets it and carries nowhere. -/
theorem add_twoPow {word : BitVec width} {bit : Nat} (clear : word.getLsbD bit = false) :
    word + BitVec.twoPow width bit = assign word bit true := by
  have apart : word &&& BitVec.twoPow width bit = 0 := by
    apply BitVec.eq_of_getLsbD_eq
    intro index _
    rw [BitVec.getLsbD_and, BitVec.getLsbD_twoPow, BitVec.ofNat_eq_ofNat, BitVec.getLsbD_zero]
    by_cases here : bit = index
    · rw [← here, clear, Bool.false_and]
    · simp [here]
  rw [BitVec.add_eq_or_of_and_eq_zero _ _ apart]
  rfl

/-- Subtracting the weight of a set bit clears it and borrows nowhere. -/
theorem sub_twoPow {word : BitVec width} {bit : Nat} (set : word.getLsbD bit = true) :
    word - BitVec.twoPow width bit = assign word bit false := by
  have inside : bit < width := BitVec.lt_of_getLsbD set
  have cleared : (assign word bit false).getLsbD bit = false := by rw [getLsbD_assign _ _ inside, if_pos rfl]
  have back : assign (assign word bit false) bit true = word := by
    apply BitVec.eq_of_getLsbD_eq
    intro index _
    rw [getLsbD_assign _ _ inside, getLsbD_assign _ _ inside]
    split
    · rename_i here
      rw [← here, set]
    · rfl
  calc word - BitVec.twoPow width bit
      = assign (assign word bit false) bit true - BitVec.twoPow width bit := by rw [back]
    _ = assign word bit false + BitVec.twoPow width bit - BitVec.twoPow width bit := by rw [add_twoPow cleared]
    _ = assign word bit false := by rw [BitVec.add_sub_cancel]

/-- An assignment that changes a word changes one bit of it. -/
theorem xor_assign {word : BitVec width} {bit : Nat} {value : Bool} (inside : bit < width)
    (other : word.getLsbD bit = !value) : word ^^^ assign word bit value = BitVec.twoPow width bit := by
  apply BitVec.eq_of_getLsbD_eq
  intro index _
  rw [BitVec.getLsbD_xor, getLsbD_assign _ _ inside, BitVec.getLsbD_twoPow]
  by_cases here : bit = index
  · rw [← here, if_pos rfl, other]
    cases value <;> simp [inside]
  · simp [here]

/-- Two lists of assignments are done in a row. -/
@[simp] theorem assignAll_append (word : BitVec width) (first second : List (Nat × Bool)) :
    assignAll word (first ++ second) = assignAll (assignAll word first) second :=
  List.foldl_append

/-- A list of assignments gives each bit the last value that is assigned to it. -/
theorem getLsbD_assignAll (word : BitVec width) {updates : List (Nat × Bool)}
    (inside : ∀ update ∈ updates, update.1 < width) (index : Nat) :
    (assignAll word updates).getLsbD index = (lastValue updates index).getD (word.getLsbD index) := by
  induction updates using List.reverseRecOn with
  | nil => rfl
  | append_singleton before update ih =>
      have earlier := ih fun other member => inside other (List.mem_append_left _ member)
      have now : update.1 < width := inside update (by simp)
      have last : lastValue (before ++ [update]) index =
          if update.1 = index then some update.2 else lastValue before index := by simp [lastValue]
      have one : assignAll (assignAll word before) [update] =
          assign (assignAll word before) update.1 update.2 := rfl
      rw [assignAll_append, one, getLsbD_assign _ _ now, last, earlier]
      split <;> rfl

/-- A bit has a last value exactly when some assignment names it. -/
theorem lastValue_eq_none (updates : List (Nat × Bool)) (bit : Nat) :
    lastValue updates bit = none ↔ ∀ update ∈ updates, update.1 ≠ bit := by
  induction updates using List.reverseRecOn with
  | nil => simp [lastValue]
  | append_singleton before update ih =>
      have last : lastValue (before ++ [update]) bit =
          if update.1 = bit then some update.2 else lastValue before bit := by simp [lastValue]
      rw [last]
      by_cases here : update.1 = bit
      · have member : update ∈ before ++ [update] := by simp
        rw [if_pos here]
        exact iff_of_false (Option.some_ne_none _) fun all => all update member here
      · rw [if_neg here, ih]
        simp [or_imp, forall_and, here]

/-- A word is below a power of two exactly when its higher bits are clear. -/
theorem toNat_lt_iff (word : BitVec width) (count : Nat) :
    word.toNat < 2 ^ count ↔ ∀ index, count ≤ index → word.getLsbD index = false := by
  constructor
  · intro small index above
    exact Nat.testBit_lt_two_pow (Nat.lt_of_lt_of_le small (Nat.pow_le_pow_right (by decide) above))
  · intro clear
    exact Nat.lt_pow_two_of_testBit _ clear

/-- A mask of some bits in a row selects a field of a number and leaves it where it is. -/
theorem and_field (number low count : Nat) :
    number &&& (2 ^ count - 1) * 2 ^ low = number / 2 ^ low % 2 ^ count * 2 ^ low := by
  apply Nat.eq_of_testBit_eq
  intro index
  rw [Nat.testBit_and, Nat.testBit_mul_two_pow, Nat.testBit_mul_two_pow, Nat.testBit_mod_two_pow,
    Nat.testBit_two_pow_sub_one, Nat.testBit_div_two_pow]
  by_cases above : low ≤ index
  · rw [Nat.sub_add_cancel above]
    simp [above, Bool.and_comm]
  · simp [above]

end

end Bits
