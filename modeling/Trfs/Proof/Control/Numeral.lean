import Trfs.Construction.Control.Trctl
import Mathlib.Data.Nat.Digits.Defs

namespace Trfs.Control
open Bytes

/-- The bytes are hexadecimal digits. -/
def AllHex (digits : List Byte) : Prop := ∀ byte ∈ digits, (hexDigit byte).isSome = true

/-- The number that hexadecimal digits denote. -/
def hexNumber (digits : List Byte) : Nat := Nat.ofDigits 16 (digits.reverse.map fun byte => (hexDigit byte).getD 0)

/-- The text does not begin with a byte of this kind. -/
def Without (kind : Byte → Bool) (text : List Byte) : Prop := ∀ byte ∈ text.head?, kind byte = false

def isHex (byte : Byte) : Bool := (hexDigit byte).isSome

def isSign (byte : Byte) : Bool := byte = 0x2b || byte = 0x2d

/-- The prefix `0x` or `0X` in front of a digit. -/
def Prefixed (text : List Byte) : Prop :=
  ∃ x digit rest, text = 0x30 :: x :: digit :: rest ∧ (x = 0x78 ∨ x = 0x58) ∧ isHex digit = true

/-- A text as blanks, a sign, a prefix and digits up to the first byte that is none of them. -/
structure Reading (text : List Byte) where
  spaces : List Byte
  sign : List Byte
  marker : List Byte
  digits : List Byte
  rest : List Byte
  split : text = spaces ++ (sign ++ (marker ++ (digits ++ rest)))
  blank : ∀ byte ∈ spaces, isSpace byte = true
  solid : Without isSpace (sign ++ (marker ++ (digits ++ rest)))
  signed : sign = [0x2d] ∨ sign = [0x2b] ∨ sign = [] ∧ Without isSign (marker ++ (digits ++ rest))
  marked : (∃ x, marker = [0x30, x] ∧ Prefixed (marker ++ (digits ++ rest))) ∨
    marker = [] ∧ ¬ Prefixed (digits ++ rest)
  hex : AllHex digits
  ends : Without isHex rest

/-- The value of a numeral from its first digit. -/
theorem hexNumber_cons (digit : Byte) (digits : List Byte) :
    hexNumber (digit :: digits) = 16 ^ digits.length * (hexDigit digit).getD 0 + hexNumber digits := by
  unfold hexNumber
  rw [List.reverse_cons, List.map_append, Nat.ofDigits_append, List.length_map, List.length_reverse]
  simp [Nat.add_comm]

/-- The loop over the digits stops in front of the rest. -/
theorem hexValue_append (value : Nat) {digits rest : List Byte} (hex : AllHex digits) (ends : Without isHex rest) :
    hexValue value (digits ++ rest) = 16 ^ digits.length * value + hexNumber digits := by
  induction digits generalizing value with
  | nil =>
      have zero : hexNumber [] = 0 := rfl
      rw [List.nil_append, List.length_nil, Nat.pow_zero, Nat.one_mul, zero, Nat.add_zero]
      cases rest with
      | nil => rfl
      | cons byte rest =>
          have none_left : hexDigit byte = none := by
            have other := ends byte rfl
            simpa [isHex] using other
          rw [hexValue, none_left]
  | cons digit digits ih =>
      obtain ⟨number, found⟩ := Option.isSome_iff_exists.mp (hex digit List.mem_cons_self)
      have later : AllHex digits := fun byte member => hex byte (List.mem_cons_of_mem _ member)
      rw [List.cons_append, hexValue, found]
      dsimp only
      rw [ih _ later, hexNumber_cons, found, List.length_cons, Nat.pow_succ, Option.getD_some]
      ring

/-- A numeral without a prefix keeps all its digits. -/
theorem dropPrefix_of_not {text : List Byte} (bare : ¬ Prefixed text) : dropPrefix text = text := by
  unfold dropPrefix
  split
  · rename_i zero x digit rest
    refine if_neg ?_
    intro here
    obtain ⟨rfl, x', hex⟩ := here
    exact bare ⟨x, digit, rest, rfl, x', hex⟩
  · rfl

/-- A numeral with a prefix loses it. -/
theorem dropPrefix_of_prefixed {numeral : List Byte} {x : Byte} (prefixed : Prefixed (0x30 :: x :: numeral)) :
    dropPrefix (0x30 :: x :: numeral) = numeral := by
  obtain ⟨x', digit, rest, same, letter, hex⟩ := prefixed
  simp only [List.cons.injEq, true_and] at same
  obtain ⟨rfl, rfl⟩ := same
  exact if_pos ⟨rfl, letter, hex⟩

/-- A text without a sign is positive. -/
theorem takeSign_of_without {text : List Byte} (unsigned : Without isSign text) : takeSign text = (false, text) := by
  cases text with
  | nil => rfl
  | cons byte rest =>
      have other := unsigned byte rfl
      simp only [isSign, Bool.or_eq_false_iff, decide_eq_false_iff_not] at other
      unfold takeSign
      split
      · rename_i same
        exact absurd (List.cons.inj same).1 other.2
      · rename_i same
        exact absurd (List.cons.inj same).1 other.1
      · rfl

/-- `strtol` of a text is the number of its digits, with its sign and within its range. -/
theorem strtol16_reading {text : List Byte} (reading : Reading text) :
    strtol16 text =
      if reading.sign = [0x2d] then BitVec.ofInt 64 (-(min (hexNumber reading.digits) (2 ^ 63) : Nat))
      else BitVec.ofNat 64 (min (hexNumber reading.digits) (2 ^ 63 - 1)) := by
  obtain ⟨spaces, sign, marker, digits, rest, rfl, blank, solid, signed, marked, hex, ends⟩ := reading
  dsimp only
  have dropped : (spaces ++ (sign ++ (marker ++ (digits ++ rest)))).dropWhile isSpace =
      sign ++ (marker ++ (digits ++ rest)) := by
    rw [List.dropWhile_append_of_pos blank]
    cases body : sign ++ (marker ++ (digits ++ rest)) with
    | nil => rfl
    | cons byte more =>
        rw [body] at solid
        rw [List.dropWhile_cons_of_neg (by rw [solid byte rfl]; exact Bool.false_ne_true)]
  have stripped : dropPrefix (marker ++ (digits ++ rest)) = digits ++ rest := by
    rcases marked with ⟨x, rfl, prefixed⟩ | ⟨rfl, bare⟩
    · exact dropPrefix_of_prefixed prefixed
    · exact dropPrefix_of_not bare
  have value : hexValue 0 (digits ++ rest) = hexNumber digits := by
    rw [hexValue_append 0 hex ends, Nat.mul_zero, Nat.zero_add]
  have taken : takeSign (sign ++ (marker ++ (digits ++ rest))) =
      (decide (sign = [0x2d]), marker ++ (digits ++ rest)) := by
    rcases signed with rfl | rfl | ⟨rfl, unsigned⟩
    · rfl
    · rfl
    · exact takeSign_of_without unsigned
  simp only [strtol16, dropped, taken, stripped, value, decide_eq_true_eq]

/-- What is left after dropping a kind of byte does not begin with it. -/
theorem without_dropWhile (kind : Byte → Bool) (text : List Byte) : Without kind (text.dropWhile kind) := by
  intro byte first
  obtain ⟨rest, same⟩ := List.head?_eq_some_iff.mp first
  have left := List.head?_dropWhile_not kind text
  rw [same] at left
  simpa using left

/-- Every text is a sign, or none, and a number. -/
theorem exists_sign (body : List Byte) :
    ∃ sign number, body = sign ++ number ∧
      (sign = [0x2d] ∨ sign = [0x2b] ∨ sign = [] ∧ Without isSign number) := by
  by_cases minus : ∃ number, body = 0x2d :: number
  · obtain ⟨number, rfl⟩ := minus
    exact ⟨[0x2d], number, rfl, .inl rfl⟩
  · by_cases plus : ∃ number, body = 0x2b :: number
    · obtain ⟨number, rfl⟩ := plus
      exact ⟨[0x2b], number, rfl, .inr (.inl rfl)⟩
    · refine ⟨[], body, rfl, .inr (.inr ⟨rfl, ?_⟩)⟩
      intro byte first
      obtain ⟨rest, same⟩ := List.head?_eq_some_iff.mp first
      by_contra signed
      simp only [isSign, Bool.not_eq_false, Bool.or_eq_true, decide_eq_true_eq] at signed
      rcases signed with rfl | rfl
      · exact plus ⟨rest, same⟩
      · exact minus ⟨rest, same⟩

/-- Every number is a prefix, or none, and a numeral. -/
theorem exists_marker (number : List Byte) :
    ∃ marker numeral, number = marker ++ numeral ∧
      ((∃ x, marker = [0x30, x] ∧ Prefixed (marker ++ numeral)) ∨ marker = [] ∧ ¬ Prefixed numeral) := by
  by_cases prefixed : Prefixed number
  · obtain ⟨x, digit, rest, rfl, _⟩ := id prefixed
    exact ⟨[0x30, x], digit :: rest, rfl, .inl ⟨x, rfl, prefixed⟩⟩
  · exact ⟨[], number, rfl, .inr ⟨rfl, prefixed⟩⟩

/-- Every text can be read. -/
theorem reading_exists (text : List Byte) : Nonempty (Reading text) := by
  obtain ⟨sign, number, body, signed⟩ := exists_sign (text.dropWhile isSpace)
  obtain ⟨marker, numeral, rfl, marked⟩ := exists_marker number
  have parts : numeral.takeWhile isHex ++ numeral.dropWhile isHex = numeral := List.takeWhile_append_dropWhile
  have solid := without_dropWhile isSpace text
  rw [body] at solid
  refine ⟨⟨text.takeWhile isSpace, sign, marker, numeral.takeWhile isHex, numeral.dropWhile isHex, ?_, ?_, ?_, ?_, ?_,
    ?_, without_dropWhile isHex numeral⟩⟩
  · rw [parts, ← body, List.takeWhile_append_dropWhile]
  · intro byte member
    exact List.mem_takeWhile_imp member
  · rw [parts]
    exact solid
  · rw [parts]
    exact signed
  · rw [parts]
    exact marked
  · intro byte member
    exact List.mem_takeWhile_imp (p := isHex) member

end Trfs.Control
