import Trfs.Proof.Control.Update
import Trfs.Proof.Control.Numeral

namespace Trfs.Control
open Bytes Bits Effect Trace Kernel

/-- The prefix of a hex word, with what follows it. -/
def HexPrefix (command : CString) (text : List Byte) : Prop :=
  ∃ x, command.bytes = 0x30 :: x :: text ∧ (x = 0x78 ∨ x = 0x58)

/-- The commands of the grammar, each with the mask that it denotes. -/
inductive Denotes (mask : BitVec 64) (command : CString) : BitVec 64 → Prop where
  | all : command.bytes = ascii "all" → Denotes mask command 0xfff
  | none : command.bytes = ascii "none" → Denotes mask command 0
  | adjust (bit : Nat) (value : Bool) : requested command = some (bit, value) →
      Denotes mask command (assign mask bit value)
  | hex (digits : List Byte) : HexPrefix command digits → digits ≠ [] → AllHex digits →
      hexNumber digits ≤ 0xfff → Denotes mask command (BitVec.ofNat 64 (hexNumber digits))

/-- A command of the grammar sets the mask that it denotes, and any other string keeps the mask. -/
def FollowsGrammar (mask : BitVec 64) (command : CString) (after : BitVec 64) : Prop :=
  Denotes mask command after ∨ (∀ denoted, ¬ Denotes mask command denoted) ∧ after = mask

/-- The number that a text begins with is above the limit, or it is the old mask. -/
def Harmless (mask : BitVec 64) (text : List Byte) : Prop :=
  ∀ reading : Reading text, 0xfff < hexNumber reading.digits ∨
    (reading.sign = [0x2d] ∧ hexNumber reading.digits ≠ 0) ∨ BitVec.ofNat 64 (hexNumber reading.digits) = mask

/-- What follows the prefix of a hex word is one or more digits, or it is harmless. -/
def Strict (mask : BitVec 64) (command : CString) : Prop :=
  ∀ text, HexPrefix command text → (text ≠ [] ∧ AllHex text) ∨ Harmless mask text

/-- The number that `strtol` reads is accepted when it is small and not negative. -/
theorem strtol16_small {text : List Byte} (reading : Reading text) :
    (strtol16 text ≤ bitmapMax ↔ hexNumber reading.digits ≤ 0xfff ∧
      (reading.sign = [0x2d] → hexNumber reading.digits = 0)) ∧
    (strtol16 text ≤ bitmapMax → strtol16 text = BitVec.ofNat 64 (hexNumber reading.digits)) := by
  have bound : bitmapMax.toNat = 0xfff := rfl
  rw [strtol16_reading reading, BitVec.le_def, bound]
  generalize hexNumber reading.digits = number
  by_cases minus : reading.sign = [0x2d]
  · simp only [minus, if_true, true_implies]
    by_cases zero : number = 0
    · subst zero
      simp
    · have large : 2 ^ 63 ≤ (BitVec.ofInt 64 (-(min number (2 ^ 63) : Nat))).toNat := by
        rw [BitVec.toNat_ofInt]
        omega
      omega
  · simp only [minus, if_false, false_implies, and_true]
    have value : (BitVec.ofNat 64 (min number (2 ^ 63 - 1))).toNat = min number (2 ^ 63 - 1) := by
      rw [BitVec.toNat_ofNat]
      omega
    rw [value]
    constructor
    · omega
    · intro small
      congr 1
      omega

/-- A digit is no space and no sign. -/
theorem digit_apart : ∀ byte : Byte, (hexDigit byte).isSome = true → isSpace byte = false ∧ isSign byte = false := by
  decide +kernel

/-- Digits alone are read as they stand. -/
theorem reading_digits {text : List Byte} (some_left : text ≠ []) (hex : AllHex text) :
    ∃ reading : Reading text, reading.sign = [] ∧ reading.digits = text := by
  obtain ⟨first, rest, rfl⟩ := List.exists_cons_of_ne_nil some_left
  have digit := hex first List.mem_cons_self
  have apart := digit_apart first digit
  have bare : ¬ Prefixed (first :: rest) := by
    rintro ⟨x, digit, more, same, letter, _⟩
    have second := hex x (by rw [same]; simp)
    rcases letter with rfl | rfl
    · exact absurd second (by decide)
    · exact absurd second (by decide)
  refine ⟨⟨[], [], [], first :: rest, [], by simp, by simp, ?_, .inr (.inr ⟨rfl, ?_⟩), .inr ⟨rfl, ?_⟩, hex, ?_⟩,
    rfl, rfl⟩
  · intro byte here
    obtain rfl : first = byte := by simpa using here
    exact apart.1
  · intro byte here
    obtain rfl : first = byte := by simpa using here
    exact apart.2
  · simpa using bare
  · intro byte here
    cases here

/-- The mask after a hex word. -/
def hexMask (mask : BitVec 64) (command : CString) : BitVec 64 :=
  if command.bytes.getD 0 0 ≠ 0x30 ∨ ¬ (command.bytes.getD 1 0 = 0x78 ∨ command.bytes.getD 1 0 = 0x58) then mask
  else if strtol16 (command.bytes.drop 2) > bitmapMax then mask
  else strtol16 (command.bytes.drop 2)

/-- After the prefix stands the text. -/
theorem hexPrefix_drop {command : CString} {text : List Byte} (here : HexPrefix command text) :
    command.bytes.drop 2 = text := by
  obtain ⟨x, same, _⟩ := here
  rw [same]
  rfl

/-- A command with the prefix sets the number behind it, unless that is too large. -/
theorem hexMask_prefixed (mask : BitVec 64) {command : CString} {text : List Byte} (here : HexPrefix command text) :
    hexMask mask command = if strtol16 text > bitmapMax then mask else strtol16 text := by
  have rest := hexPrefix_drop here
  obtain ⟨x, same, letter⟩ := here
  have accepted : ¬ (command.bytes.getD 0 0 ≠ 0x30 ∨
      ¬ (command.bytes.getD 1 0 = 0x78 ∨ command.bytes.getD 1 0 = 0x58)) := by
    rw [same]
    intro refused
    rcases refused with first | second
    · exact first rfl
    · exact second letter
  rw [hexMask, if_neg accepted, rest]

/-- A command without the prefix sets nothing. -/
theorem hexMask_of_not (mask : BitVec 64) {command : CString} (other : ∀ text, ¬ HexPrefix command text) :
    hexMask mask command = mask := by
  refine if_pos ?_
  by_contra accepted
  obtain ⟨first, second⟩ := not_or.mp accepted
  have zero := not_not.mp first
  have letter := not_not.mp second
  cases bytes : command.bytes with
  | nil =>
      rw [bytes] at zero
      exact absurd zero (by decide)
  | cons first rest =>
      cases rest with
      | nil =>
          rw [bytes] at letter
          exact absurd (show (0 : Byte) = 0x78 ∨ (0 : Byte) = 0x58 from letter) (by decide)
      | cons x text =>
          rw [bytes] at zero letter
          obtain rfl : first = 0x30 := zero
          exact other text ⟨x, bytes, letter⟩

/-- A hex word outside the grammar keeps the mask exactly when it is harmless. -/
theorem hexMask_eq_mask {mask : BitVec 64} {command : CString} {text : List Byte} (here : HexPrefix command text) :
    hexMask mask command = mask ↔ Harmless mask text := by
  rw [hexMask_prefixed mask here]
  have each (reading : Reading text) : (if strtol16 text > bitmapMax then mask else strtol16 text) = mask ↔
      0xfff < hexNumber reading.digits ∨ (reading.sign = [0x2d] ∧ hexNumber reading.digits ≠ 0) ∨
        BitVec.ofNat 64 (hexNumber reading.digits) = mask := by
    obtain ⟨small, value⟩ := strtol16_small reading
    by_cases above : strtol16 text > bitmapMax
    · have outside := mt small.mpr (BitVec.not_le.mpr above)
      rw [if_pos above]
      simp only [true_iff]
      rw [not_and_or] at outside
      rcases outside with large | negative
      · exact .inl (by omega)
      · rw [Classical.not_imp] at negative
        exact .inr (.inl negative)
    · have within := BitVec.not_lt.mp above
      obtain ⟨least, minus⟩ := small.mp within
      rw [if_neg above, value within]
      constructor
      · exact fun same => .inr (.inr same)
      · rintro (large | ⟨sign, positive⟩ | same)
        · omega
        · exact absurd (minus sign) positive
        · exact same
  constructor
  · exact fun kept reading => (each reading).mp kept
  · intro harmless
    obtain ⟨reading⟩ := reading_exists text
    exact (each reading).mpr (harmless reading)

/-- A hex word of the grammar sets its number, if that is small. -/
theorem hexMask_of_digits (mask : BitVec 64) {command : CString} {text : List Byte} (here : HexPrefix command text)
    (some_left : text ≠ []) (hex : AllHex text) :
    hexMask mask command = if hexNumber text ≤ 0xfff then BitVec.ofNat 64 (hexNumber text) else mask := by
  obtain ⟨reading, unsigned, digits⟩ := reading_digits some_left hex
  obtain ⟨small, value⟩ := strtol16_small reading
  rw [digits, unsigned] at small
  rw [digits] at value
  rw [hexMask_prefixed mask here]
  by_cases within : hexNumber text ≤ 0xfff
  · have accepted := small.mpr ⟨within, by simp⟩
    rw [if_neg (BitVec.not_lt.mpr accepted), if_pos within, value accepted]
  · have refused : strtol16 text > bitmapMax := by
      by_contra accepted
      exact within (small.mp (BitVec.not_lt.mp accepted)).1
    rw [if_pos refused, if_neg within]

section
variable {L : Type} {env : Environment L} {helpers : Helpers} {peek : L → BitVec 64 → BitVec 64}
  {client : Client} {command : CString} {mask : BitVec 64}

variable (helpers client) in
/-- A request that sets the mask leaves its argument there. -/
theorem request_exec (serves : Serves env peek) {cmd : BitVec 32} (sets : cmd = ALL ∨ cmd = NONE ∨ cmd = HEX)
    (fd : BitVec 32) (arg : BitVec 64) (state : Machine L) :
    ∃ part, (perform (ControlCall.ioctl fd cmd arg)).exec (serve env helpers peek client) state = some part ∧
      part.state.mask = arg := by
  obtain ⟨reply, after, answered⟩ := serve_answers helpers client serves (.ioctl fd cmd arg) state sets
  have mask := serve_mask serves (show SetsMask (.ioctl fd cmd arg) from sets) answered
  exact ⟨⟨reply, after, [⟨_, reply⟩]⟩, by simp only [perform, Program.exec, answered, Option.map_some], mask⟩

variable (helpers client) in
/-- The hexadecimal command leaves the mask it computes. -/
theorem hexCommand_exec (serves : Serves env peek) (fd : BitVec 32) (command : CString) (state : Machine L) :
    ∃ part, (hexCommand fd command).exec (serve env helpers peek client) state = some part ∧
      part.state.mask = hexMask state.mask command := by
  unfold hexCommand hexMask
  split
  · exact ⟨_, rfl, rfl⟩
  · dsimp only
    split
    · exact ⟨_, rfl, rfl⟩
    · exact request_exec helpers client serves (.inr (.inr rfl)) fd _ state

variable (helpers client) in
/-- The frame of a command opens the mount and closes it. -/
theorem opened_exec (branch : BitVec 32 → Ctl (BitVec 32)) {state : Machine L}
    {part : Execution ControlCall.Reply (Machine L) (BitVec 32)}
    (ran : (branch client.fd).exec (serve env helpers peek client) state = some part) :
    ∃ done, (do
        let fd ← perform (ControlCall.open (ascii "/mnt/trfs") 0)
        let rc ← branch fd
        perform (ControlCall.close fd)
        pure rc : Ctl (BitVec 32)).exec (serve env helpers peek client) state = some done ∧
      done.state = part.state := by
  simp only [perform_bind, Program.exec, serve]
  rw [Program.exec_bind, ran, Option.bind_some]
  exact ⟨_, rfl, rfl⟩

/-- The mask after any command. -/
def commandMask (mask : BitVec 64) (command : CString) : BitVec 64 :=
  if command.bytes = ascii "all" then bitmapMax
  else if command.bytes = ascii "none" then 0
  else if command.bytes.getD 0 0 = 0x2b ∨ command.bytes.getD 0 0 = 0x2d then applyToken mask command
  else hexMask mask command

variable (helpers client) in
/-- A run with one command leaves the mask of that command. -/
theorem trctl_command (serves : Serves env peek) (program command path : CString) (state : Machine L) :
    ∃ done, (trctl [program, command, path]).exec (serve env helpers peek client) state = some done ∧
      done.state.mask = commandMask state.mask command := by
  unfold commandMask
  by_cases sign : command.bytes ≠ ascii "all" ∧ command.bytes ≠ ascii "none" ∧
      (command.bytes.getD 0 0 = 0x2b ∨ command.bytes.getD 0 0 = 0x2d)
  · obtain ⟨other, other', sign⟩ := sign
    have incremental : Incremental [command] := .inr ⟨command, rfl, sign⟩
    have asked := trctl_incremental incremental program path
    obtain ⟨done, ran⟩ := updating_completes helpers client serves (increment_meets [command] state.mask)
      (show MaskIs state state.mask from rfl)
    rw [if_neg other, if_neg other', if_pos sign]
    exact ⟨done, by rw [List.singleton_append] at asked; rw [asked, ran], increment_exec serves ran⟩
  · obtain ⟨part, ran, mask⟩ : ∃ part, (oneCommand client.fd [program, command, path] command).exec
        (serve env helpers peek client) state = some part ∧ part.state.mask =
          if command.bytes = ascii "all" then bitmapMax
          else if command.bytes = ascii "none" then 0
          else if command.bytes.getD 0 0 = 0x2b ∨ command.bytes.getD 0 0 = 0x2d then applyToken state.mask command
          else hexMask state.mask command := by
      unfold oneCommand
      split
      · exact request_exec helpers client serves (.inl rfl) client.fd _ state
      · rename_i other
        split
        · exact request_exec helpers client serves (.inr (.inl rfl)) client.fd _ state
        · rename_i other'
          have unsigned : ¬ (command.bytes.getD 0 0 = 0x2b ∨ command.bytes.getD 0 0 = 0x2d) :=
            fun first => sign ⟨other, other', first⟩
          rw [if_neg unsigned, if_neg unsigned]
          exact hexCommand_exec helpers client serves client.fd command state
    obtain ⟨done, finished, last⟩ :=
      opened_exec helpers client (fun fd => oneCommand fd [program, command, path] command) ran
    exact ⟨done, finished, by rw [last, mask]⟩

end

section
variable {mask : BitVec 64} {command : CString} {text : List Byte}

/-- A token that asks for a bit begins with a sign. -/
theorem requested_sign {request : Nat × Bool} (asked : requested command = some request) :
    command.bytes.getD 0 0 = 0x2b ∨ command.bytes.getD 0 0 = 0x2d := by
  obtain ⟨entry, _, found⟩ := List.exists_of_findSome?_eq_some asked
  unfold asks at found
  split at found
  · rename_i plus
    left
    rw [plus]
    rfl
  · split at found
    · rename_i minus
      right
      rw [minus]
      rfl
    · cases found

/-- A hexadecimal command begins with the digit 0. -/
theorem hexPrefix_first (here : HexPrefix command text) : command.bytes.getD 0 0 = 0x30 := by
  obtain ⟨x, same, _⟩ := here
  rw [same]
  rfl

/-- A command of the grammar begins with the first letter of its kind. -/
theorem Denotes.first {denoted : BitVec 64} (denotes : Denotes mask command denoted) :
    command.bytes = ascii "all" ∨ command.bytes = ascii "none" ∨ (∃ request, requested command = some request) ∨
      ∃ digits, HexPrefix command digits ∧ digits ≠ [] ∧ AllHex digits ∧ hexNumber digits ≤ 0xfff := by
  cases denotes with
  | all same => exact .inl same
  | none same => exact .inr (.inl same)
  | adjust bit value asked => exact .inr (.inr (.inl ⟨_, asked⟩))
  | hex digits here some_left hex small => exact .inr (.inr (.inr ⟨digits, here, some_left, hex, small⟩))

/-- Behind the prefix of a hex word the grammar has only digits. -/
theorem Denotes.digits {denoted : BitVec 64} (denotes : Denotes mask command denoted)
    (here : HexPrefix command text) : text ≠ [] ∧ AllHex text ∧ hexNumber text ≤ 0xfff := by
  have zero := hexPrefix_first here
  rcases denotes.first with same | same | ⟨request, asked⟩ | ⟨digits, there, rest⟩
  · rw [same] at zero
    exact absurd zero (by decide)
  · rw [same] at zero
    exact absurd zero (by decide)
  · have sign := requested_sign asked
    rw [zero] at sign
    exact absurd sign (by decide)
  · rw [← hexPrefix_drop here, hexPrefix_drop there]
    exact rest

/-- A command that is no hex word follows the grammar. -/
theorem commandMask_other (mask : BitVec 64) (other : ∀ text, ¬ HexPrefix command text) :
    FollowsGrammar mask command (commandMask mask command) := by
  unfold commandMask
  by_cases all : command.bytes = ascii "all"
  · rw [if_pos all]
    exact .inl (.all all)
  · by_cases nothing : command.bytes = ascii "none"
    · rw [if_neg all, if_pos nothing]
      exact .inl (.none nothing)
    · rw [if_neg all, if_neg nothing]
      have unchanged (silent : requested command = none) : ∀ denoted, ¬ Denotes mask command denoted := by
        intro denoted denotes
        rcases denotes.first with same | same | ⟨request, asked⟩ | ⟨digits, here, _⟩
        · exact all same
        · exact nothing same
        · rw [silent] at asked
          cases asked
        · exact other digits here
      cases asked : requested command with
      | none =>
          refine .inr ⟨unchanged asked, ?_⟩
          split
          · rw [applyToken, asked]
          · exact hexMask_of_not mask other
      | some request =>
          rw [if_pos (requested_sign asked), applyToken, asked]
          exact .inl (.adjust request.1 request.2 asked)

/-- A hexadecimal command is none of the other commands. -/
theorem commandMask_hex (mask : BitVec 64) (here : HexPrefix command text) :
    commandMask mask command = hexMask mask command := by
  have zero := hexPrefix_first here
  have other (word : List Byte) (first : word.getD 0 0 ≠ 0x30) : command.bytes ≠ word := by
    intro same
    rw [same] at zero
    exact first zero
  rw [commandMask, if_neg (other _ (by decide)), if_neg (other _ (by decide)), zero, if_neg (by decide)]

/-- A hex word follows the grammar when it has only digits behind its prefix, or when it is harmless. -/
theorem commandMask_follows_iff (here : HexPrefix command text) :
    FollowsGrammar mask command (commandMask mask command) ↔
      (text ≠ [] ∧ AllHex text) ∨ Harmless mask text := by
  rw [commandMask_hex mask here]
  by_cases digits : text ≠ [] ∧ AllHex text
  · refine iff_of_true ?_ (.inl digits)
    obtain ⟨some_left, hex⟩ := digits
    rw [hexMask_of_digits mask here some_left hex]
    split
    · rename_i small
      exact .inl (.hex text here some_left hex small)
    · rename_i large
      exact .inr ⟨fun denoted denotes => large (denotes.digits here).2.2, rfl⟩
  · have outside : ∀ denoted, ¬ Denotes mask command denoted := by
      intro denoted denotes
      obtain ⟨some_left, hex, _⟩ := denotes.digits here
      exact digits ⟨some_left, hex⟩
    rw [← hexMask_eq_mask here]
    constructor
    · rintro (denotes | ⟨_, kept⟩)
      · exact absurd denotes (outside _)
      · exact .inr kept
    · rintro (wellFormed | kept)
      · exact absurd wellFormed digits
      · exact .inr ⟨outside, kept⟩

/-- A command follows the grammar if and only if it is a strict one. -/
theorem commandMask_strict (mask : BitVec 64) (command : CString) :
    FollowsGrammar mask command (commandMask mask command) ↔ Strict mask command := by
  by_cases hexWord : ∃ text, HexPrefix command text
  · obtain ⟨text, here⟩ := hexWord
    rw [commandMask_follows_iff here]
    constructor
    · intro decided text' here'
      rw [← hexPrefix_drop here', hexPrefix_drop here]
      exact decided
    · intro strict
      exact strict text here
  · have other : ∀ text, ¬ HexPrefix command text := fun text here => hexWord ⟨text, here⟩
    exact iff_of_true (commandMask_other mask other) fun text here => absurd here (other text)

end

section
variable {L : Type} {env : Environment L} {helpers : Helpers} {peek : L → BitVec 64 → BitVec 64}
  {client : Client}

/-- `trctl` follows its command grammar exactly where what stands behind `0x` is strict. -/
theorem trctl_grammar_iff (serves : Serves env peek) (program command path : CString) (state : Machine L) :
    (∃ done, (trctl [program, command, path]).exec (serve env helpers peek client) state = some done ∧
      FollowsGrammar state.mask command done.state.mask) ↔ Strict state.mask command := by
  obtain ⟨done, ran, mask⟩ := trctl_command helpers client serves program command path state
  rw [← commandMask_strict, ← mask]
  constructor
  · rintro ⟨other, again, follows⟩
    obtain rfl := Option.some.inj (ran.symm.trans again)
    exact follows
  · intro follows
    exact ⟨done, ran, follows⟩

end

/-- The commands `0X2a` and `0x`. -/
def upperWord : CString := ⟨ascii "0X2a", by decide⟩
def barePrefix : CString := ⟨ascii "0x", by decide⟩

/-- A proper hexadecimal word follows the grammar. -/
theorem trctl_grammar_iff_hex :
    (∃ done, (trctl [junk, upperWord, junk]).exec
      (serve responsive reliable (fun memory _ => memory) rootClient) freshControl = some done ∧
      FollowsGrammar freshControl.mask upperWord done.state.mask) ↔ Strict freshControl.mask upperWord :=
  trctl_grammar_iff responsive_serves _ _ _ _

/-- The command `0x` clears the mask. -/
theorem bare_prefix_accepted :
    ¬ ∀ (env : Environment (BitVec 64)) (helpers : Helpers) (peek : BitVec 64 → BitVec 64 → BitVec 64)
      (client : Client), Serves env peek → ∀ (program command path : CString) (state : Machine (BitVec 64)),
      ∃ done, (trctl [program, command, path]).exec (serve env helpers peek client) state = some done ∧
        FollowsGrammar state.mask command done.state.mask := by
  intro follows
  obtain ⟨done, ran, outcome⟩ := follows responsive reliable (fun memory _ => memory) rootClient
    responsive_serves junk barePrefix junk freshControl
  obtain ⟨done', ran', mask⟩ := trctl_command reliable rootClient responsive_serves junk barePrefix junk freshControl
  obtain rfl := Option.some.inj (ran.symm.trans ran')
  have here : HexPrefix barePrefix [] := ⟨0x78, by decide, .inl rfl⟩
  rw [mask, commandMask_follows_iff here, ← hexMask_eq_mask here] at outcome
  rcases outcome with ⟨some_left, _⟩ | kept
  · exact some_left rfl
  · exact absurd kept (by decide)

end Trfs.Control
