import Trfs.Proof.Control.Serve
import Trfs.Proof.Kernel.Records

namespace Trfs.Control
open Bytes Bits Effect Trace Kernel

/-- The bit position of each call, as the README lists them. -/
def bitPositions : List (List Byte × Nat) :=
  [(ascii "open", 0), (ascii "read", 1), (ascii "write", 2), (ascii "close", 3), (ascii "create", 4),
    (ascii "link", 5), (ascii "unlink", 6), (ascii "symlink", 7), (ascii "mkdir", 8), (ascii "rmdir", 9),
    (ascii "mknod", 10), (ascii "rename", 11)]

/-- What an argument asks of one call. -/
def asks (token : CString) (entry : List Byte × Nat) : Option (Nat × Bool) :=
  if token.bytes = ascii "+" ++ entry.1 then some (entry.2, true)
  else if token.bytes = ascii "-" ++ entry.1 then some (entry.2, false)
  else none

/-- The bit that an argument names, with the value that it asks for. -/
def requested (token : CString) : Option (Nat × Bool) := bitPositions.findSome? (asks token)

/-- The effect of one argument on a mask: `+name` sets one bit, `-name` clears it. -/
def applyToken (mask : BitVec 64) (token : CString) : BitVec 64 :=
  match requested token with
  | none => mask
  | some (bit, value) => assign mask bit value

/-- The effect of one entry of the table. -/
def applyEntry (token : CString) (mask : BitVec 64) (entry : List Byte × Nat) : BitVec 64 :=
  match asks token entry with
  | none => mask
  | some (bit, value) => assign mask bit value

/-- The blocks of the program have the names and the bits of the README. -/
theorem callNames_positions :
    callNames.map (fun entry => (entry.1, entry.2.recordType.toNat)) = bitPositions := by decide

/-- The bits of the README are the twelve lowest ones. -/
theorem bitPositions_small : ∀ entry ∈ bitPositions, entry.2 < 12 := by decide

/-- No name stands twice in the table. -/
theorem bitPositions_nodup : (bitPositions.map fun entry => entry.1).Nodup := by decide

/-- An argument that asks something of one call asks nothing of another one. -/
theorem asks_other {token : CString} {entry other : List Byte × Nat} {request : Nat × Bool}
    (found : asks token entry = some request) (distinct : other.1 ≠ entry.1) : asks token other = none := by
  have same : ∀ sign : List Byte, sign.length = 1 → token.bytes = sign ++ entry.1 →
      ∀ sign' : List Byte, sign'.length = 1 → token.bytes ≠ sign' ++ other.1 := by
    intro sign size here sign' size' there
    exact distinct (List.append_inj (there.symm.trans here) (size'.trans size.symm)).2
  unfold asks at found ⊢
  split at found
  · rename_i plus
    rw [if_neg (same _ rfl plus _ rfl), if_neg (same _ rfl plus _ rfl)]
  · split at found
    · rename_i minus
      rw [if_neg (same _ rfl minus _ rfl), if_neg (same _ rfl minus _ rfl)]
    · exact nomatch found

/-- Entries that the token does not ask for leave the word. -/
theorem applyEntry_skip {token : CString} {entries : List (List Byte × Nat)} (mask : BitVec 64)
    (nothing : ∀ entry ∈ entries, asks token entry = none) : entries.foldl (applyEntry token) mask = mask := by
  induction entries generalizing mask with
  | nil => rfl
  | cons entry entries ih =>
      have here : applyEntry token mask entry = mask := by
        rw [applyEntry, nothing entry List.mem_cons_self]
      rw [List.foldl_cons, here]
      exact ih mask fun other member => nothing other (List.mem_cons_of_mem _ member)

/-- Running through a table of distinct names has the effect of the one entry that matches. -/
theorem applyEntry_fold (token : CString) (mask : BitVec 64) {entries : List (List Byte × Nat)}
    (nodup : (entries.map fun entry => entry.1).Nodup) :
    entries.foldl (applyEntry token) mask =
      match entries.findSome? (asks token) with
      | none => mask
      | some (bit, value) => assign mask bit value := by
  induction entries generalizing mask with
  | nil => rfl
  | cons entry entries ih =>
      obtain ⟨fresh, rest⟩ := List.nodup_cons.mp nodup
      rw [List.foldl_cons, List.findSome?_cons]
      cases found : asks token entry with
      | none =>
          have here : applyEntry token mask entry = mask := by rw [applyEntry, found]
          rw [here]
          exact ih mask rest
      | some request =>
          have others : ∀ other ∈ entries, asks token other = none := by
            intro other member
            apply asks_other found
            intro same
            exact fresh (List.mem_map.mpr ⟨other, member, same⟩)
          rw [applyEntry_skip _ others, applyEntry, found]

/-- One token is the fold of all entries of the table. -/
theorem applyToken_fold (token : CString) (mask : BitVec 64) :
    bitPositions.foldl (applyEntry token) mask = applyToken mask token :=
  applyEntry_fold token mask bitPositions_nodup

/-- The word that the last request or reply gave, and the requests that change one named bit of it. -/
def updating (named : Nat → Prop) : Monitor ControlCall.Reply (BitVec 64) where
  permits word
    | .ioctl _ cmd arg => cmd = HEX ∧ ∃ bit, named bit ∧ word ^^^ arg = BitVec.twoPow 64 bit
    | _ => True
  next word
    | .ioctlRet _, reply => reply.2
    | c, reply => nextMask word c reply

/-- The bits that an argument names are among the named ones. -/
def Names (named : Nat → Prop) (token : CString) : Prop :=
  ∀ entry ∈ bitPositions, asks token entry ≠ none → named entry.2

section
variable {fd : BitVec 32} {token : CString} {locals : Locals} {named : Nat → Prop}

/-- The constant of a method is the power of two of its record type. -/
theorem weight_eq (call : CallKind) :
    ((1 : BitVec 32) <<< call.recordType.toNat).signExtend 64 = BitVec.twoPow 64 call.recordType.toNat := by
  cases call <;> rfl

/-- All record types are below twelve. -/
theorem recordType_small (call : CallKind) : call.recordType.toNat < 12 := by cases call <;> decide

/-- One block does what its entry asks, and it changes at most the bit of the entry. -/
theorem bitBlock_meets (name : List Byte) (call : CallKind)
    (names : asks token (name, call.recordType.toNat) ≠ none → named call.recordType.toNat) :
    (bitBlock fd name call token locals).Meets (updating named)
      (fun value word => value.retmapval = word ∧
        word = applyEntry token locals.retmapval (name, call.recordType.toNat)) locals.retmapval := by
  have inside : call.recordType.toNat < 64 := Nat.lt_trans (recordType_small call) (by decide)
  by_cases plus : token.bytes = ascii "+" ++ name
  · have asked : applyEntry token locals.retmapval (name, call.recordType.toNat) =
        assign locals.retmapval call.recordType.toNat true := by simp only [applyEntry, asks, if_pos plus]
    have here := names (by simp only [asks, if_pos plus]; exact Option.some_ne_none _)
    rw [bitBlock, if_pos plus, asked, weight_eq]
    split
    · rename_i clear
      have low := (shifted_eq_zero inside).mp clear
      rw [add_twoPow low]
      exact ⟨⟨rfl, _, here, xor_assign inside low⟩, fun rc => ⟨rfl, rfl⟩⟩
    · rename_i set
      have high := Bool.eq_true_of_not_eq_false fun low => set ((shifted_eq_zero inside).mpr low)
      exact ⟨rfl, (assign_same inside high).symm⟩
  · rw [bitBlock, if_neg plus]
    by_cases minus : token.bytes = ascii "-" ++ name
    · have asked : applyEntry token locals.retmapval (name, call.recordType.toNat) =
          assign locals.retmapval call.recordType.toNat false := by
        simp only [applyEntry, asks, if_neg plus, if_pos minus]
      have here := names (by simp only [asks, if_neg plus, if_pos minus]; exact Option.some_ne_none _)
      rw [if_pos minus, asked, weight_eq]
      split
      · rename_i set
        have high := (shifted_eq_one inside).mp set
        rw [sub_twoPow high]
        exact ⟨⟨rfl, _, here, xor_assign inside high⟩, fun rc => ⟨rfl, rfl⟩⟩
      · rename_i clear
        have low := Bool.eq_false_of_not_eq_true fun high => clear ((shifted_eq_one inside).mpr high)
        exact ⟨rfl, (assign_same inside low).symm⟩
    · have asked : applyEntry token locals.retmapval (name, call.recordType.toNat) = locals.retmapval := by
        simp only [applyEntry, asks, if_neg plus, if_neg minus]
      rw [if_neg minus, asked]
      exact ⟨rfl, rfl⟩

/-- The twelve bits of the mask. -/
def twelve (bit : Nat) : Prop := bit < 12

/-- Every token names bits below twelve. -/
theorem names_twelve (token : CString) : Names twelve token := fun entry member _ => bitPositions_small entry member

/-- The word of the program after some work is the word of its last request. -/
def Reached (word : BitVec 64) (value : Locals) (progress : BitVec 64) : Prop :=
  value.retmapval = progress ∧ progress = word

/-- The blocks of a part of the table do what the entries of that part ask. -/
theorem blocks_meet (fd : BitVec 32) (token : CString) (entries : List (List Byte × CallKind))
    (locals : Locals) (names : ∀ entry ∈ entries.map fun entry => (entry.1, entry.2.recordType.toNat),
      asks token entry ≠ none → named entry.2) :
    (entries.foldlM (fun reached entry => bitBlock fd entry.1 entry.2 token reached) locals).Meets
      (updating named) (Reached ((entries.map fun entry => (entry.1, entry.2.recordType.toNat)).foldl
        (applyEntry token) locals.retmapval)) locals.retmapval := by
  induction entries generalizing locals with
  | nil => exact ⟨rfl, rfl⟩
  | cons entry entries ih =>
      rw [List.foldlM_cons, Program.meets_bind]
      apply (bitBlock_meets entry.1 entry.2 (names _ List.mem_cons_self)).mono
      intro value word reached
      obtain ⟨same, effect⟩ := reached
      have rest := ih value fun other member => names other (List.mem_cons_of_mem _ member)
      rw [same, effect] at rest
      rw [effect]
      exact rest

/-- The body of the loop updates the bits the token names and reaches the applied word. -/
theorem tokenBody_meets (fd : BitVec 32) (locals : Locals) (names : Names named token) :
    (tokenBody fd token locals).Meets (updating named) (Reached (applyToken locals.retmapval token))
      locals.retmapval := by
  have listed := names
  rw [Names, ← callNames_positions] at listed
  have blocks := blocks_meet fd token callNames locals listed
  rw [callNames_positions, applyToken_fold] at blocks
  exact blocks

/-- The loop has the effect of its arguments one after the other. -/
theorem tokenLoop_meets (fd : BitVec 32) {tokens : List CString} (locals : Locals)
    (names : ∀ token ∈ tokens, Names named token) :
    (tokenLoop fd tokens locals).Meets (updating named) (Reached (tokens.foldl applyToken locals.retmapval))
      locals.retmapval := by
  induction tokens generalizing locals with
  | nil => exact ⟨rfl, rfl⟩
  | cons token rest ih =>
      rw [tokenLoop, Program.meets_bind]
      apply (tokenBody_meets fd locals (names token List.mem_cons_self)).mono
      intro value word reached
      obtain ⟨same, effect⟩ := reached
      have later := ih value fun other member => names other (List.mem_cons_of_mem _ member)
      rw [same, effect] at later
      rw [effect]
      exact later

end

/-- The arguments with which `trctl` changes single bits. -/
def Incremental (tokens : List CString) : Prop :=
  2 ≤ tokens.length ∨ ∃ token, tokens = [token] ∧ (token.bytes.getD 0 0 = 0x2b ∨ token.bytes.getD 0 0 = 0x2d)

/-- The requests of the branch of `extra_cr`. -/
def adjust (fd : BitVec 32) (tokens : List CString) : Ctl (BitVec 32) := do
  let (rc, retmapval) ← perform (ControlCall.ioctlRet fd)
  let locals ← tokenLoop fd tokens ⟨retmapval, rc⟩
  pure locals.rc

/-- The run of `trctl` that changes single bits. -/
def increment (tokens : List CString) : Ctl (BitVec 32) := do
  let fd ← perform (ControlCall.open (ascii "/mnt/trfs") 0)
  let rc ← adjust fd tokens
  perform (ControlCall.close fd)
  pure rc

/-- The body for several tokens is the adjustment by these tokens. -/
theorem extraCredit_eq (fd : BitVec 32) (program path : CString) (tokens : List CString) :
    extraCredit fd (program :: (tokens ++ [path])) = adjust fd tokens := by
  simp only [extraCredit, adjust, List.tail_cons, List.dropLast_concat]

/-- A single token with a sign takes the path of several tokens. -/
theorem oneCommand_extraCredit {fd : BitVec 32} {argv : List CString} {token : CString}
    (sign : token.bytes.getD 0 0 = 0x2b ∨ token.bytes.getD 0 0 = 0x2d) :
    oneCommand fd argv token = extraCredit fd argv := by
  have word : ∀ text : List Byte, text.getD 0 0 ≠ 0x2b → text.getD 0 0 ≠ 0x2d → token.bytes ≠ text := by
    intro text plus minus same
    rw [same] at sign
    rcases sign with sign | sign
    · exact plus sign
    · exact minus sign
  rw [oneCommand, if_neg (word (ascii "all") (by decide) (by decide)),
    if_neg (word (ascii "none") (by decide) (by decide)), if_pos sign]

/-- An incremental command line is one open, one adjustment and one close. -/
theorem trctl_incremental {tokens : List CString} (incremental : Incremental tokens) (program path : CString) :
    trctl (program :: (tokens ++ [path])) = increment tokens := by
  have several : trctl (program :: (tokens ++ [path])) = (do
      let fd ← perform (ControlCall.open (ascii "/mnt/trfs") 0)
      let rc ← extraCredit fd (program :: (tokens ++ [path]))
      perform (ControlCall.close fd)
      pure rc) := by
    rcases incremental with two | ⟨token, rfl, sign⟩
    · match tokens with
      | [] => exact absurd two (by simp)
      | [_] => exact absurd two (by simp)
      | first :: second :: rest => cases rest <;> rfl
    · simp only [List.singleton_append, trctl, oneCommand_extraCredit sign]
  rw [several]
  simp only [extraCredit_eq, increment]

section
variable {L : Type} {env : Environment L} {helpers : Helpers} {peek : L → BitVec 64 → BitVec 64}
  {client : Client} {named : Nat → Prop}

/-- A permitted call of an update sets the mask as the interface says. -/
theorem updating_sets {word : BitVec 64} {c : ControlCall} (permitted : (updating named).permits word c) :
    SetsMask c := by
  cases c with
  | ioctl fd cmd arg => exact .inr (.inr permitted.1)
  | _ => trivial

/-- The word of the monitor is the mask of the mount. -/
def MaskIs (state : Machine L) (word : BitVec 64) : Prop := state.mask = word

/-- While the machine serves the update, its mask is the word the protocol tracks. -/
theorem serve_updating (serves : Serves env peek) (c : ControlCall) (state : Machine L) (reply : c.Reply)
    (after : Machine L) (word : BitVec 64) (permitted : (updating named).permits word c) (same : MaskIs state word)
    (answered : serve env helpers peek client c state = some (reply, after)) :
    MaskIs after ((updating named).next word c reply) := by
  have mask := serve_mask serves (updating_sets permitted) answered
  cases c with
  | ioctlRet fd =>
      have told := serve_ret serves answered
      exact mask.trans told.symm
  | _ =>
      rw [same] at mask
      exact mask

variable (helpers client) in
/-- A program that keeps to the monitor completes on the mount. -/
theorem updating_completes {α : Type} (serves : Serves env peek) {post : α → BitVec 64 → Prop} {program : Ctl α}
    {word : BitVec 64} {state : Machine L} (meets : program.Meets (updating named) post word)
    (same : MaskIs state word) : ∃ done, program.exec (serve env helpers peek client) state = some done := by
  apply Program.Meets.exec_isSome _ meets same
  intro c state word permitted same
  obtain ⟨reply, after, answered⟩ := serve_answers helpers client serves c state (updating_sets permitted)
  exact ⟨reply, after, answered, serve_updating serves c state reply after word permitted same answered⟩

variable (helpers client) in
/-- From a state whose mask is the program's word the loop completes, and both are the fold again. -/
theorem tokenLoop_exec (serves : Serves env peek) (fd : BitVec 32) (tokens : List CString) (locals : Locals)
    {state : Machine L} (same : MaskIs state locals.retmapval) :
    ∃ part, (tokenLoop fd tokens locals).exec (serve env helpers peek client) state = some part ∧
      part.value.retmapval = part.state.mask ∧
        part.state.mask = tokens.foldl applyToken locals.retmapval := by
  have meets := tokenLoop_meets fd locals fun token (_ : token ∈ tokens) => names_twelve token
  obtain ⟨part, ran⟩ := updating_completes helpers client serves meets same
  have ended := meets.exec ran
  have mask : MaskIs part.state _ := meets.exec_relation (serve_updating serves) same ran
  exact ⟨part, ran, ended.1.trans mask.symm, Eq.trans mask ended.2⟩

/-- The adjustment updates only the bits below twelve. -/
theorem adjust_meets (fd : BitVec 32) (tokens : List CString) (word : BitVec 64) :
    (adjust fd tokens).Meets (updating twelve) (fun _ _ => True) word := by
  apply meets_perform_bind trivial
  intro reply
  rw [Program.meets_bind]
  apply (tokenLoop_meets fd ⟨reply.2, reply.1⟩ fun token _ => names_twelve token).mono
  intro value word reached
  trivial

/-- The whole command updates only the bits below twelve. -/
theorem increment_meets (tokens : List CString) (word : BitVec 64) :
    (increment tokens).Meets (updating twelve) (fun _ _ => True) word := by
  apply meets_perform_bind trivial
  intro fd
  rw [Program.meets_bind]
  apply (adjust_meets fd tokens word).mono
  intro value word reached
  exact ⟨trivial, fun _ => trivial⟩

/-- What the branch of `extra_cr` leaves in the mask. -/
theorem adjust_exec (serves : Serves env peek) {fd : BitVec 32} {tokens : List CString} {state : Machine L}
    {done : Execution ControlCall.Reply (Machine L) (BitVec 32)}
    (ran : (adjust fd tokens).exec (serve env helpers peek client) state = some done) :
    done.state.mask = tokens.foldl applyToken state.mask := by
  simp only [adjust, perform_bind] at ran
  obtain ⟨reply, after, rest, answered, ran, _, last, _⟩ := Program.exec_call_eq_some ran
  have told : reply.2 = state.mask := serve_ret serves answered
  have sets : SetsMask (.ioctlRet fd) := trivial
  have kept : after.mask = state.mask := serve_mask serves sets answered
  obtain ⟨loop, second, ranLoop, ran, _, last', _⟩ := Program.exec_bind_eq_some ran
  obtain rfl := Option.some.inj ran
  have same : MaskIs after reply.2 := kept.trans told.symm
  obtain ⟨part, ranPart, _, mask⟩ := tokenLoop_exec helpers client serves fd tokens ⟨reply.2, reply.1⟩ same
  obtain rfl := Option.some.inj (ranLoop.symm.trans ranPart)
  rw [last, last', mask, told]

/-- A command that runs alone leaves the fold of its tokens in the mask. -/
theorem increment_exec (serves : Serves env peek) {tokens : List CString} {state : Machine L}
    {done : Execution ControlCall.Reply (Machine L) (BitVec 32)}
    (ran : (increment tokens).exec (serve env helpers peek client) state = some done) :
    done.state.mask = tokens.foldl applyToken state.mask := by
  simp only [increment, perform_bind] at ran
  obtain ⟨fd, opened, rest, answered, ran, _, last, _⟩ := Program.exec_call_eq_some ran
  obtain ⟨rfl, rfl⟩ := Prod.mk.inj (Option.some.inj answered)
  obtain ⟨first, second, ranAdjust, ran, _, last', _⟩ := Program.exec_bind_eq_some ran
  obtain rfl := Option.some.inj ran
  rw [last, last', ← adjust_exec serves ranAdjust]

/-- The run sets and clears the bits that its arguments name, the program's word is the mask of the mount after
each argument of the loop, and each request changes one bit. -/
theorem trctl_updates {tokens : List CString} (serves : Serves env peek) (incremental : Incremental tokens)
    (program path : CString) (state : Machine L) :
    ∃ done, (trctl (program :: (tokens ++ [path]))).exec (serve env helpers peek client) state = some done ∧
      done.state.mask = tokens.foldl applyToken state.mask ∧
      (∃ ret, (perform (ControlCall.ioctlRet client.fd)).exec (serve env helpers peek client) state = some ret ∧
        ∀ front back, tokens = front ++ back → ∃ part,
          (tokenLoop client.fd front ⟨ret.value.2, ret.value.1⟩).exec (serve env helpers peek client) ret.state =
            some part ∧
          part.value.retmapval = part.state.mask ∧ part.state.mask = front.foldl applyToken state.mask) ∧
      ∀ front back fd cmd arg rc, done.events = front ++ ⟨.ioctl fd cmd arg, rc⟩ :: back →
        cmd = HEX ∧ ∃ bit < 12, (updating twelve).after state.mask front ^^^ arg = BitVec.twoPow 64 bit := by
  rw [trctl_incremental incremental]
  have meets := increment_meets tokens state.mask
  have same : MaskIs state state.mask := rfl
  obtain ⟨done, ran⟩ := updating_completes helpers client serves meets same
  refine ⟨done, ran, ?_, ?_, ?_⟩
  · exact increment_exec serves ran
  · obtain ⟨reply, after, answered⟩ := serve_answers helpers client serves (.ioctlRet client.fd) state trivial
    have told : reply.2 = state.mask := serve_ret serves answered
    have sets : SetsMask (.ioctlRet client.fd) := trivial
    have kept : after.mask = state.mask := serve_mask serves sets answered
    refine ⟨⟨reply, after, [⟨.ioctlRet client.fd, reply⟩]⟩, ?_, ?_⟩
    · simp only [perform, Program.exec, answered, Option.map_some]
    · intro front back _
      have start : MaskIs after reply.2 := kept.trans told.symm
      obtain ⟨part, ranPart, same, mask⟩ :=
        tokenLoop_exec helpers client serves client.fd front ⟨reply.2, reply.1⟩ start
      exact ⟨part, ranPart, same, mask.trans (by rw [told])⟩
  · intro front back fd cmd arg rc split
    exact meets.exec_permits ran split

end

/-- A lower filesystem that ignores all requests. Its state is the one word of memory that `trctl` reads. -/
def responsive : Environment (BitVec 64) where
  lower c memory := (steadyLower 0 0 c, memory)
  iget5Locked _ memory := (none, memory)
  dSpliceAlias _ _ memory := (0, memory)
  kzalloc memory := (true, memory)
  copyToUser _ value _ := (0, value)

/-- The device that always answers serves. -/
theorem responsive_serves : Serves responsive fun memory _ => memory where
  copies _ _ _ := ⟨rfl, rfl⟩
  ignores _ _ _ _ _ := ⟨rfl, rfl⟩

/-- A fresh mount on that filesystem. -/
def freshControl : Machine (BitVec 64) :=
  mounted { lower := 0, upper := freshMount.visible.upper, lowerSb := 0 } freshMount.tfilePath

def rootClient : Client := ⟨3, fileA, ⟨1⟩, 0⟩

/-- The arguments `-open`, `+open`, `-read` and `x`. -/
def minusOpen : CString := ⟨ascii "-open", by decide +kernel⟩
def plusOpen : CString := ⟨ascii "+open", by decide +kernel⟩
def minusRead : CString := ⟨ascii "-read", by decide +kernel⟩
def junk : CString := ⟨ascii "x", by decide +kernel⟩

/-- `trctl -open x +open -read PATH` clears the bit of read on a fresh mount. -/
theorem trctl_updates_read : ∃ done,
    (trctl (junk :: ([minusOpen, junk, plusOpen, minusRead] ++ [junk]))).exec
      (serve responsive reliable (fun memory _ => memory) rootClient) freshControl = some done ∧
        done.state.mask = 0xffd := by
  obtain ⟨done, ran, mask, _⟩ := @trctl_updates _ responsive reliable _ rootClient
    [minusOpen, junk, plusOpen, minusRead] responsive_serves (.inl (by decide)) junk junk freshControl
  exact ⟨done, ran, mask.trans (by decide)⟩

end Trfs.Control
