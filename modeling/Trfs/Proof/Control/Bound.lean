import Trfs.Proof.Control.Update

namespace Trfs.Control
open Bytes Bits Effect Trace Kernel

/-- The word has no bit above the twelve of the mask. -/
def Small (word : BitVec 64) : Prop := word.toNat < 2 ^ 12

instance (word : BitVec 64) : Decidable (Small word) := inferInstanceAs (Decidable (_ < _))

/-- A small word is at most the largest mask. -/
theorem small_iff (word : BitVec 64) : Small word ↔ word ≤ bitmapMax := by
  have bound : bitmapMax.toNat = 2 ^ 12 - 1 := rfl
  rw [Small, BitVec.le_def, bound]
  omega

/-- A run that has read only small words makes only requests with small words. -/
def bounded : Monitor ControlCall.Reply Prop where
  permits told c := SetsMask c ∧ (told → ∀ fd cmd arg, c = .ioctl fd cmd arg → Small arg)
  next told
    | .ioctlRet _, reply => told ∧ Small reply.2
    | _, _ => told

/-- Switching a bit below twelve keeps a word small. -/
theorem small_xor {word : BitVec 64} {bit : Nat} (small : Small word) (low : bit < 12) :
    Small (word ^^^ BitVec.twoPow 64 bit) := by
  have clear := (toNat_lt_iff word 12).mp small
  apply (toNat_lt_iff _ 12).mpr
  intro index above
  have apart : bit ≠ index := by omega
  rw [BitVec.getLsbD_xor, clear index above, BitVec.getLsbD_twoPow]
  simp [apart]

/-- A request that changes one of the twelve bits of a small word carries a small word. -/
theorem small_request {word arg : BitVec 64} (small : Small word)
    (changes : ∃ bit < 12, word ^^^ arg = BitVec.twoPow 64 bit) : Small arg := by
  obtain ⟨bit, low, same⟩ := changes
  have value : arg = word ^^^ BitVec.twoPow 64 bit := by
    rw [← same, ← BitVec.xor_assoc, BitVec.xor_self, BitVec.zero_xor]
  rw [value]
  exact small_xor small low

/-- The word of a run is small as long as the run has read only small words. -/
def SmallWhile (word : BitVec 64) (told : Prop) : Prop := told → Small word

/-- What the update permits of a small word stays within the bound. -/
theorem smallWhile_permits (word : BitVec 64) (told : Prop) (c : ControlCall) (start : SmallWhile word told)
    (permitted : (updating twelve).permits word c) : bounded.permits told c := by
  refine ⟨updating_sets permitted, fun read fd cmd arg request => ?_⟩
  subst request
  exact small_request (start read) permitted.2

/-- A permitted call keeps the word small. -/
theorem smallWhile_next (word : BitVec 64) (told : Prop) (c : ControlCall) (reply : c.Reply)
    (start : SmallWhile word told) (permitted : (updating twelve).permits word c) :
    SmallWhile ((updating twelve).next word c reply) (bounded.next told c reply) := by
  cases c with
  | ioctlRet fd => exact fun read => read.2
  | ioctl fd cmd arg => exact fun read => small_request (start read) permitted.2
  | printf text => exact start
  | «open» path flags => exact start
  | close fd => exact start

/-- The loop over the tokens stays within the bound. -/
theorem tokenLoop_bounded (fd : BitVec 32) (tokens : List CString) (locals : Locals) (told : Prop)
    (start : SmallWhile locals.retmapval told) :
    (tokenLoop fd tokens locals).Meets bounded (fun _ _ => True) told :=
  ((tokenLoop_meets fd locals fun token _ => names_twelve token).simulate smallWhile_permits smallWhile_next start).mono
    fun _ _ _ => trivial

/-- A request that carries a small word in any case. -/
theorem request_bounded {fd cmd : BitVec 32} {arg : BitVec 64} {told : Prop}
    (sets : cmd = ALL ∨ cmd = NONE ∨ cmd = HEX) (small : Small arg) :
    (perform (ControlCall.ioctl fd cmd arg)).Meets bounded (fun _ _ => True) told := by
  refine ⟨⟨sets, fun _ fd' cmd' arg' same => ?_⟩, fun _ => trivial⟩
  rw [← (ControlCall.ioctl.inj same).2.2]
  exact small

/-- A call that is not an `ioctl` that sets the mask. -/
theorem other_bounded {α : Type} {c : ControlCall} {next : c.Reply → Ctl α} {told : Prop} (sets : SetsMask c)
    (other : ∀ fd cmd arg, c ≠ .ioctl fd cmd arg)
    (rest : ∀ reply, (next reply).Meets bounded (fun _ _ => True) (bounded.next told c reply)) :
    (perform c >>= next).Meets bounded (fun _ _ => True) told :=
  ⟨⟨sets, fun _ fd cmd arg same => absurd same (other fd cmd arg)⟩, rest⟩

/-- The body for several tokens stays within the bound. -/
theorem extraCredit_bounded (fd : BitVec 32) (argv : List CString) (told : Prop) :
    (extraCredit fd argv).Meets bounded (fun _ _ => True) told := by
  apply other_bounded (c := .ioctlRet fd) trivial nofun
  intro reply
  rw [Program.meets_bind]
  exact (tokenLoop_bounded fd _ ⟨reply.2, reply.1⟩ _ fun read => read.2).mono fun _ _ _ => trivial

/-- The hexadecimal command stays within the bound. -/
theorem hexCommand_bounded (fd : BitVec 32) (command : CString) (told : Prop) :
    (hexCommand fd command).Meets bounded (fun _ _ => True) told := by
  unfold hexCommand
  split
  · exact other_bounded trivial nofun fun _ => trivial
  · dsimp only
    split
    · exact other_bounded trivial nofun fun _ => trivial
    · rename_i within
      exact request_bounded (.inr (.inr rfl)) ((small_iff _).mpr (BitVec.not_lt.mp within))

/-- Every single command stays within the bound. -/
theorem oneCommand_bounded (fd : BitVec 32) (argv : List CString) (command : CString) (told : Prop) :
    (oneCommand fd argv command).Meets bounded (fun _ _ => True) told := by
  unfold oneCommand
  split
  · exact request_bounded (.inl rfl) (by decide)
  · split
    · exact request_bounded (.inr (.inl rfl)) (by decide)
    · split
      · exact extraCredit_bounded fd argv told
      · exact hexCommand_bounded fd command told

/-- Showing the mask sets nothing. -/
theorem showMask_bounded (fd : BitVec 32) (told : Prop) :
    (showMask fd).Meets bounded (fun _ _ => True) told :=
  other_bounded trivial nofun fun _ => other_bounded trivial nofun fun _ => trivial

/-- The frame of all branches that open the mount. -/
theorem opened_bounded {branch : BitVec 32 → Ctl (BitVec 32)}
    (inner : ∀ fd told, (branch fd).Meets bounded (fun _ _ => True) told) (told : Prop) :
    (do
      let fd ← perform (ControlCall.open (ascii "/mnt/trfs") 0)
      let rc ← branch fd
      perform (ControlCall.close fd)
      pure rc : Ctl (BitVec 32)).Meets bounded (fun _ _ => True) told := by
  apply other_bounded (c := .open _ _) trivial nofun
  intro fd
  rw [Program.meets_bind]
  apply (inner fd _).mono
  intro rc reached _
  exact other_bounded trivial nofun fun _ => trivial

/-- `trctl` makes only requests with small words, whatever its arguments are. -/
theorem trctl_bounded (argv : List CString) (told : Prop) :
    (trctl argv).Meets bounded (fun _ _ => True) told := by
  unfold trctl
  split
  · exact other_bounded trivial nofun fun _ => other_bounded trivial nofun fun _ => trivial
  · exact other_bounded trivial nofun fun _ => other_bounded trivial nofun fun _ => trivial
  · exact opened_bounded showMask_bounded told
  · exact opened_bounded (fun fd told => oneCommand_bounded fd _ _ told) told
  · exact opened_bounded (fun fd told => extraCredit_bounded fd _ told) told

section
variable {ι L : Type} [DecidableEq ι] {env : Environment L} {helpers : Helpers}
  {peek : L → BitVec 64 → BitVec 64} {clients : ι → Client}

/-- The mask is small, and each run has read only small words and keeps to its monitor. -/
structure BoundedRuns (runs : Runs ι L) : Prop where
  mask : Small runs.shared.mask
  follows : runs.Follows (fun _ => bounded) (fun _ _ _ => True) fun _ => True
  told : ∀ run, runs.progress (fun _ => bounded) (fun _ => True) run

/-- Runs that begin with a small mask are bounded. -/
theorem BoundedRuns.begin (argv : ι → List CString) {state : Machine L} (small : Small state.mask) :
    BoundedRuns (Runs.begin argv state) where
  mask := small
  follows run := trctl_bounded (argv run) _
  told _ := trivial

/-- One request of any run keeps the mask small. -/
theorem BoundedRuns.step (serves : Serves env peek) {runs next : Runs ι L} {run : ι}
    (before : BoundedRuns runs)
    (stepped : runs.step (fun run => serve env helpers peek (clients run)) run = some next) :
    BoundedRuns next := by
  obtain ⟨follows, c, reply, advance⟩ := before.follows.step stepped
  obtain ⟨sets, small⟩ := advance.permitted
  have mask := serve_mask serves sets advance.answered
  have told : bounded.next (runs.progress (fun _ => bounded) (fun _ => True) run) c reply := by
    cases c with
    | ioctlRet fd =>
        refine ⟨before.told run, ?_⟩
        rw [serve_ret serves advance.answered]
        exact before.mask
    | _ => exact before.told run
  constructor
  · rw [mask]
    cases c with
    | ioctl fd cmd arg => exact small (before.told run) fd cmd arg rfl
    | _ => exact before.mask
  · exact follows
  · intro other
    by_cases this : other = run
    · rw [this, advance.here]
      exact told
    · rw [advance.others other this]
      exact before.told other

/-- On a fresh mount the mask stays within its twelve bits, whatever runs of `trctl` do to it. -/
theorem mask_stays (serves : Serves env peek) (argv : ι → List CString) (visible : Visible L)
    (tfilePath : CString) {schedule : List ι} {last : Runs ι L}
    (ran : (Runs.begin argv (mounted visible tfilePath)).run
      (fun run => serve env helpers peek (clients run)) schedule = some last) :
    last.shared.mask ≤ 0xfff := by
  have fresh : Small (mounted visible tfilePath).mask := show Small 0xfff by decide
  have ended := Config.run_invariant (fun _ _ _ before stepped => before.step serves stepped)
    (BoundedRuns.begin argv fresh) ran
  exact (small_iff _).mp ended.mask

end

/-- One run with `0xa19` and one with `+open -read`. -/
def hexWord : CString := ⟨ascii "0xa19", by decide⟩

def twoRuns : Bool → List CString
  | false => [junk, hexWord, junk]
  | true => [junk, plusOpen, minusRead, junk]

/-- The two runs with the hex request in the middle of the other run. -/
theorem mask_stays_two : ∃ last : Runs Bool (BitVec 64),
    (Runs.begin twoRuns freshControl).run
      (fun _ => serve responsive reliable (fun memory _ => memory) rootClient)
      [true, true, false, false, true, true, false] = some last ∧ last.shared.mask ≤ 0xfff := by
  have shows : ((Runs.begin twoRuns freshControl).run
      (fun _ => serve responsive reliable (fun memory _ => memory) rootClient)
      [true, true, false, false, true, true, false]).isSome := by decide +kernel
  obtain ⟨last, ran⟩ := Option.isSome_iff_exists.mp shows
  exact ⟨last, ran, mask_stays responsive_serves twoRuns _ _ ran⟩

end Trfs.Control
