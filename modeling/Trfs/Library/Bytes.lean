/-
This file reads and writes numbers and parts of memory as lists of bytes.
-/

import Mathlib.Tactic.Ring
import Mathlib.Data.List.Basic

namespace Bytes

abbrev Byte := BitVec 8

/-- The least significant byte comes first. -/
def littleEndian : Nat → Nat → List Byte
  | 0, _ => []
  | count + 1, value => BitVec.ofNat 8 value :: littleEndian count (value / 256)

def natural : List Byte → Nat
  | [] => 0
  | byte :: rest => byte.toNat + 256 * natural rest

/-- A number takes as many bytes as asked for. -/
@[simp] theorem littleEndian_length (count value : Nat) : (littleEndian count value).length = count := by
  induction count generalizing value with
  | zero => rfl
  | succ count ih => simp [littleEndian, ih]

/-- The bytes of a number give it back, as far as they reach. -/
theorem natural_littleEndian (count value : Nat) :
    natural (littleEndian count value) = value % 256 ^ count := by
  induction count generalizing value with
  | zero => simp [littleEndian, natural, Nat.mod_one]
  | succ count ih =>
      rw [littleEndian, natural, ih, BitVec.toNat_ofNat, pow_succ' 256 count, Nat.mod_mul]

/-- A field of `count` bytes keeps every word that fits into it. -/
def encodeWord {width : Nat} (count : Nat) (word : BitVec width) : List Byte :=
  littleEndian count word.toNat

def decodeWord (width : Nat) (bytes : List Byte) : BitVec width :=
  BitVec.ofNat width (natural bytes)

/-- A word takes as many bytes as asked for. -/
@[simp] theorem encodeWord_length {width : Nat} (count : Nat) (word : BitVec width) :
    (encodeWord count word).length = count :=
  littleEndian_length count word.toNat

/-- A word is read back from bytes that are enough for it. -/
theorem decodeWord_encodeWord {width count : Nat} (fits : width ≤ 8 * count) (word : BitVec width) :
    decodeWord width (encodeWord count word) = word := by
  have below : word.toNat < 256 ^ count := by
    calc word.toNat < 2 ^ width := word.isLt
      _ ≤ 2 ^ (8 * count) := Nat.pow_le_pow_right (by decide) fits
      _ = 256 ^ count := by rw [pow_mul]; norm_num
  rw [decodeWord, encodeWord, natural_littleEndian, Nat.mod_eq_of_lt below, BitVec.ofNat_toNat,
    BitVec.setWidth_eq]

/-- This function reads `count` bytes that start at `offset`. -/
def load (memory : List Byte) (offset count : Nat) : List Byte := (memory.drop offset).take count

/-- This function overwrites the bytes that start at `offset` and keeps the size of the memory. -/
def store (memory : List Byte) (offset : Nat) (data : List Byte) : List Byte :=
  memory.take offset ++ data.take (memory.length - offset) ++ memory.drop (offset + data.length)

/-- A store keeps the size of the memory. -/
@[simp] theorem store_length (memory : List Byte) (offset : Nat) (data : List Byte) :
    (store memory offset data).length = memory.length := by
  simp only [store, List.length_append, List.length_take, List.length_drop]
  omega

/-- A store behind a front part keeps this part. -/
theorem store_append (front back data : List Byte) (fits : data.length ≤ back.length) :
    store (front ++ back) front.length data = front ++ (data ++ back.drop data.length) := by
  rw [store, List.take_left, List.take_of_length_le (by rw [List.length_append]; omega), List.append_assoc,
    ← List.drop_drop, List.drop_left]

/-- A store at the start replaces the front. -/
theorem store_start (memory data : List Byte) (fits : data.length ≤ memory.length) :
    store memory 0 data = data ++ memory.drop data.length :=
  store_append [] memory data fits

/-- The bytes of a load are those of the memory. -/
theorem load_getElem? (memory : List Byte) (offset count index : Nat) :
    (load memory offset count)[index]? = if index < count then memory[offset + index]? else none := by
  rw [load, List.getElem?_take]
  split <;> simp

/-- The bytes of a memory after a store. -/
theorem store_getElem? (memory : List Byte) (offset index : Nat) (data : List Byte) :
    (store memory offset data)[index]? =
      if offset ≤ index ∧ index < offset + data.length ∧ index < memory.length then data[index - offset]?
      else memory[index]? := by
  by_cases past : memory.length ≤ index
  · rw [if_neg (by omega), List.getElem?_eq_none past, List.getElem?_eq_none (by simpa using past)]
  · simp only [store, List.append_assoc, List.getElem?_append, List.getElem?_take, List.getElem?_drop,
      List.length_take]
    by_cases first : index < offset
    · simp [first, show index < min offset memory.length by omega, show ¬ offset ≤ index by omega]
    · have front : min offset memory.length = offset := by omega
      rw [front, if_neg first]
      by_cases second : index < offset + data.length
      · rw [if_pos (by omega), if_pos (by omega), if_pos (by omega)]
      · rw [if_neg (by omega), if_neg (by omega)]
        congr 1
        omega

/-- A load returns the bytes of the store at the same place. -/
theorem load_store_same (memory : List Byte) (offset count : Nat) (data : List Byte)
    (size : data.length = count) (inside : offset + count ≤ memory.length) :
    load (store memory offset data) offset count = data := by
  apply List.ext_getElem?
  intro index
  rw [load_getElem?, store_getElem?]
  by_cases within : index < count
  · rw [if_pos within, if_pos (by omega), Nat.add_sub_cancel_left]
  · rw [if_neg within, List.getElem?_eq_none (by omega)]

/-- A load before the stored range does not see the store. -/
theorem load_store_before (memory : List Byte) (offset start count : Nat) (data : List Byte)
    (before : start + count ≤ offset) :
    load (store memory offset data) start count = load memory start count := by
  apply List.ext_getElem?
  intro index
  rw [load_getElem?, load_getElem?, store_getElem?]
  split
  · rw [if_neg (by omega)]
  · rfl

/-- This function copies the first `count` bytes of the source over the first bytes of `dest`. -/
def memcpy (dest source : List Byte) (count : Nat) : List Byte := store dest 0 (load source 0 count)

/-- Copying a whole block gives the source. -/
theorem memcpy_whole (dest source : List Byte) (count : Nat) (destSize : dest.length = count)
    (sourceSize : source.length = count) : memcpy dest source count = source := by
  subst sourceSize
  simp [memcpy, load, store, destSize]

/-- A load that starts after a known front reads the data there. -/
theorem load_middle (front data rest : List Byte) :
    load (front ++ (data ++ rest)) front.length data.length = data := by
  rw [load, List.drop_left, List.take_left]

/-- A load behind the front reads the rest. -/
theorem load_append (front rest : List Byte) (count : Nat) :
    load (front ++ rest) front.length count = rest.take count := by
  rw [load, List.drop_left]

/-- A small number keeps its value in a signed word. -/
theorem toInt_ofNat_of_lt {width : Nat} (number : Nat) (small : 2 * number < 2 ^ width) :
    (BitVec.ofNat width number).toInt = number := by
  have within : (BitVec.ofNat width number).toNat = number := by
    rw [BitVec.toNat_ofNat, Nat.mod_eq_of_lt (by omega)]
  rw [BitVec.toInt_eq_toNat_of_lt (by rw [within]; exact small), within]

/-- A non-negative number keeps its value when it is extended to `size_t`. -/
theorem signExtend_toNat {width : Nat} (value : BitVec width) (number : Nat) (within : width ≤ 64)
    (same : value.toInt = number) : (value.signExtend 64).toNat = number := by
  have extended : (value.signExtend 64).toInt = number := by
    rw [BitVec.toInt_signExtend_of_le within, same]
  have wide := BitVec.toInt_eq_toNat_cond (value.signExtend 64)
  have bound := (value.signExtend 64).isLt
  split at wide <;> omega

end Bytes
