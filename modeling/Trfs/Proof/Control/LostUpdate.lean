import Trfs.Proof.Control.Update

namespace Trfs.Control
open Bytes Bits Effect Trace Kernel

/-- What a list of arguments asks of a bit: the last one that names the bit counts. -/
def asked (tokens : List CString) (bit : Nat) : Option Bool := lastValue (tokens.filterMap requested) bit

/-- A mask has each bit that the arguments name in the state that they ask for. -/
def Settled (tokens : List CString) (mask : BitVec 64) : Prop :=
  ∀ bit value, asked tokens bit = some value → mask.getLsbD bit = value

/-- The updates of both runs are in the last mask, and nothing else has changed. -/
structure KeepsBoth (tokens : Bool → List CString) (first last : BitVec 64) : Prop where
  settled : ∀ run, Settled (tokens run) last
  others : ∀ bit, (∀ run, asked (tokens run) bit = none) → last.getLsbD bit = first.getLsbD bit

/-- The two runs name different calls. -/
def Disjoint (tokens : Bool → List CString) : Prop :=
  ∀ bit run, asked (tokens run) bit ≠ none → asked (tokens (!run)) bit = none

abbrev History := List (Bool × Event ControlCall.Reply)

/-- The run that made the last request to set the mask. -/
def lastWriter (history : History) : Option Bool :=
  history.foldl (fun last entry => match entry.2.call with
    | .ioctl .. => some entry.1
    | _ => last) none

/-- The mask that a run got from its request `RET`. -/
def readWord (history : History) (run : Bool) : Option (BitVec 64) :=
  history.foldl (fun last entry => match entry.2 with
    | ⟨.ioctlRet _, reply⟩ => if entry.1 = run then some reply.2 else last
    | _ => last) none

/-- The run that wrote last read the mask when the other run's bits were already as that run asks. -/
def ReadsSettled (tokens : Bool → List CString) (history : History) : Prop :=
  ∀ writer ∈ lastWriter history, ∀ word ∈ readWord history writer, Settled (tokens (!writer)) word

section
variable {tokens : List CString}

/-- A request of an entry is for the bit of that entry. -/
theorem asks_bit {token : CString} {entry : List Byte × Nat} {request : Nat × Bool}
    (found : asks token entry = some request) : request.1 = entry.2 := by
  unfold asks at found
  split at found
  · rw [← Option.some.inj found]
  · split at found
    · rw [← Option.some.inj found]
    · cases found

/-- Every requested bit is below twelve. -/
theorem requested_small {token : CString} {request : Nat × Bool} (found : requested token = some request) :
    request.1 < 12 := by
  obtain ⟨entry, member, asked⟩ := List.exists_of_findSome?_eq_some found
  rw [asks_bit asked]
  exact bitPositions_small entry member

/-- The fold of the arguments assigns the bits that they ask for. -/
theorem applyToken_all (tokens : List CString) (mask : BitVec 64) :
    tokens.foldl applyToken mask = assignAll mask (tokens.filterMap requested) := by
  induction tokens generalizing mask with
  | nil => rfl
  | cons token rest ih =>
      rw [List.foldl_cons, ih]
      cases found : requested token with
      | none => rw [List.filterMap_cons_none found, applyToken, found]
      | some request =>
          rw [List.filterMap_cons_some found, applyToken, found]
          rfl

/-- A bit ends as the last token that names it asks, or as it was. -/
theorem getLsbD_applyTokens (tokens : List CString) (mask : BitVec 64) (bit : Nat) :
    (tokens.foldl applyToken mask).getLsbD bit = (asked tokens bit).getD (mask.getLsbD bit) := by
  rw [applyToken_all]
  apply getLsbD_assignAll
  intro update member
  obtain ⟨token, _, found⟩ := List.mem_filterMap.mp member
  exact Nat.lt_trans (requested_small found) (by decide)

/-- The bit of a name is determined by the name. -/
theorem bitPositions_unique :
    ∀ entry ∈ bitPositions, ∀ other ∈ bitPositions, entry.1 = other.1 → entry.2 = other.2 := by decide

/-- The bits that an argument names are asked for by every list with this argument. -/
theorem names_asked {token : CString} (member : token ∈ tokens) :
    Names (fun bit => asked tokens bit ≠ none) token := by
  intro entry listed names
  obtain ⟨request, found⟩ := Option.ne_none_iff_exists'.mp names
  have some : (requested token).isSome :=
    List.findSome?_isSome_iff.mpr ⟨entry, listed, Option.isSome_iff_ne_none.mpr names⟩
  obtain ⟨first, chosen⟩ := Option.isSome_iff_exists.mp some
  obtain ⟨other, listed', found'⟩ := List.exists_of_findSome?_eq_some chosen
  have same : entry.1 = other.1 := by
    apply Decidable.byContradiction
    intro distinct
    have nothing := asks_other found' distinct
    exact names nothing
  have bit : first.1 = entry.2 := by
    rw [asks_bit found', bitPositions_unique entry listed other listed' same]
  intro unasked
  exact (lastValue_eq_none _ _).mp unasked first (List.mem_filterMap.mpr ⟨token, member, chosen⟩) bit

/-- Two words agree on the bits that the arguments do not name. -/
def Agrees (tokens : List CString) (word other : BitVec 64) : Prop :=
  ∀ bit, asked tokens bit = none → word.getLsbD bit = other.getLsbD bit

/-- The word that a run has read and the word that it has now. -/
def tracking (tokens : List CString) : Monitor ControlCall.Reply (Option (BitVec 64 × BitVec 64)) where
  permits progress c := SetsMask c ∧ ∀ fd cmd arg, c = .ioctl fd cmd arg →
    ∃ read word, progress = some (read, word) ∧ Agrees tokens arg read
  next progress
    | .ioctlRet _, reply => some (reply.2, reply.2)
    | .ioctl _ _ arg, _ => progress.map fun (read, _) => (read, arg)
    | _, _ => progress

/-- The run has this word, and it differs from the word that the run has read only where the arguments say so. -/
def Tracks (tokens : List CString) (word : BitVec 64) (progress : Option (BitVec 64 × BitVec 64)) : Prop :=
  ∃ read, progress = some (read, word) ∧ Agrees tokens word read

/-- A request that changes one named bit keeps the others. -/
theorem agrees_request {word arg read : BitVec 64} (agrees : Agrees tokens word read)
    (changes : ∃ bit, asked tokens bit ≠ none ∧ word ^^^ arg = BitVec.twoPow 64 bit) : Agrees tokens arg read := by
  obtain ⟨bit, named, same⟩ := changes
  intro index unnamed
  have apart : bit ≠ index := fun here => named (here ▸ unnamed)
  have equal := congrArg (fun value => value.getLsbD index) same
  simp only [BitVec.getLsbD_xor, BitVec.getLsbD_twoPow, apart, decide_false, Bool.and_false] at equal
  rw [← agrees index unnamed]
  exact (bne_eq_false_iff_eq.mp equal).symm

/-- What the update permits, the finer protocol permits too. -/
theorem tracks_permits (word : BitVec 64) (progress : Option (BitVec 64 × BitVec 64)) (c : ControlCall)
    (tracks : Tracks tokens word progress)
    (permitted : (updating fun bit => asked tokens bit ≠ none).permits word c) :
    (tracking tokens).permits progress c := by
  obtain ⟨read, same, agrees⟩ := tracks
  refine ⟨updating_sets permitted, fun fd cmd arg request => ?_⟩
  subst request
  exact ⟨read, word, same, agrees_request agrees permitted.2⟩

/-- Both protocols take the same step. -/
theorem tracks_next (word : BitVec 64) (progress : Option (BitVec 64 × BitVec 64)) (c : ControlCall)
    (reply : c.Reply) (tracks : Tracks tokens word progress)
    (permitted : (updating fun bit => asked tokens bit ≠ none).permits word c) :
    Tracks tokens ((updating fun bit => asked tokens bit ≠ none).next word c reply)
      ((tracking tokens).next progress c reply) := by
  obtain ⟨read, rfl, agrees⟩ := tracks
  cases c with
  | ioctlRet fd => exact ⟨reply.2, rfl, fun _ _ => rfl⟩
  | ioctl fd cmd arg => exact ⟨read, rfl, agrees_request agrees permitted.2⟩
  | printf text => exact ⟨read, rfl, agrees⟩
  | «open» path flags => exact ⟨read, rfl, agrees⟩
  | close fd => exact ⟨read, rfl, agrees⟩

/-- A finished run has a word with its bits settled and the others as it has read them. -/
def Finished (tokens : List CString) (progress : Option (BitVec 64 × BitVec 64)) : Prop :=
  ∃ read word, progress = some (read, word) ∧ Settled tokens word ∧ Agrees tokens word read

/-- The fold of all tokens has every asked bit as asked. -/
theorem settled_applyTokens (tokens : List CString) (word : BitVec 64) :
    Settled tokens (tokens.foldl applyToken word) := by
  intro bit value wanted
  rw [getLsbD_applyTokens, wanted, Option.getD_some]

/-- A mask is settled when the arguments would change nothing. -/
theorem settled_iff (tokens : List CString) (mask : BitVec 64) :
    Settled tokens mask ↔ tokens.foldl applyToken mask = mask := by
  constructor
  · intro settled
    apply BitVec.eq_of_getLsbD_eq
    intro bit _
    rw [getLsbD_applyTokens]
    cases wanted : asked tokens bit with
    | none => rfl
    | some value => exact (settled bit value wanted).symm
  · intro same
    rw [← same]
    exact settled_applyTokens tokens mask

instance (tokens : List CString) (mask : BitVec 64) : Decidable (Settled tokens mask) :=
  decidable_of_iff _ (settled_iff tokens mask).symm

/-- The loop ends with all its tokens written. -/
theorem tokenLoop_tracking (fd : BitVec 32) (tokens : List CString) (locals : Locals) :
    (tokenLoop fd tokens locals).Meets (tracking tokens) (fun _ => Finished tokens)
      (some (locals.retmapval, locals.retmapval)) := by
  have meets := tokenLoop_meets fd locals fun token (member : token ∈ tokens) => names_asked member
  have start : Tracks tokens locals.retmapval (some (locals.retmapval, locals.retmapval)) :=
    ⟨_, rfl, fun _ _ => rfl⟩
  apply (meets.simulate tracks_permits tracks_next start).mono
  intro value progress reached
  obtain ⟨word, ⟨_, ended⟩, read, same, agrees⟩ := reached
  refine ⟨read, word, same, ?_, agrees⟩
  rw [ended]
  exact settled_applyTokens tokens locals.retmapval

/-- The adjustment ends with all its tokens written. -/
theorem adjust_tracking (fd : BitVec 32) (tokens : List CString) (progress : Option (BitVec 64 × BitVec 64)) :
    (adjust fd tokens).Meets (tracking tokens) (fun _ => Finished tokens) progress := by
  have permitted : (tracking tokens).permits progress (.ioctlRet fd) := ⟨trivial, nofun⟩
  apply meets_perform_bind permitted
  intro reply
  rw [Program.meets_bind]
  apply (tokenLoop_tracking fd tokens ⟨reply.2, reply.1⟩).mono
  intro value progress finished
  exact finished

/-- The command ends with all its tokens written. -/
theorem increment_tracking (tokens : List CString) :
    (increment tokens).Meets (tracking tokens) (fun _ => Finished tokens) none := by
  have permitted : (tracking tokens).permits none (.open (ascii "/mnt/trfs") 0) := ⟨trivial, nofun⟩
  apply meets_perform_bind permitted
  intro fd
  rw [Program.meets_bind]
  apply (adjust_tracking fd tokens _).mono
  intro rc progress finished
  exact ⟨⟨trivial, nofun⟩, fun _ => finished⟩

/-- The last writer after one more event. -/
@[simp] theorem lastWriter_append (history : History) (run : Bool) (event : Event ControlCall.Reply) :
    lastWriter (history ++ [(run, event)]) = match event.call with
      | .ioctl .. => some run
      | _ => lastWriter history := by simp [lastWriter]

/-- The word a run has read after one more event. -/
@[simp] theorem readWord_append (history : History) (run other : Bool) (event : Event ControlCall.Reply) :
    readWord (history ++ [(run, event)]) other = match event with
      | ⟨.ioctlRet _, reply⟩ => if run = other then some reply.2 else readWord history other
      | _ => readWord history other := by simp [readWord]

end

section
variable {L : Type} {env : Environment L} {helpers : Helpers} {peek : L → BitVec 64 → BitVec 64}
  {clients : Bool → Client} {tokens : Bool → List CString} {first : BitVec 64}

/-- How far the two runs have come. -/
def wordsOf (tokens : Bool → List CString) (runs : Runs Bool L) (run : Bool) : Option (BitVec 64 × BitVec 64) :=
  runs.progress (fun run => tracking (tokens run)) (fun _ => none) run

/-- No bit that neither run names has changed. -/
def Keeps (tokens : Bool → List CString) (first word : BitVec 64) : Prop :=
  ∀ bit, (∀ run, asked (tokens run) bit = none) → word.getLsbD bit = first.getLsbD bit

/-- The mask is the word of the run that wrote last, and no run has written before the first one did. -/
structure TwoRuns (tokens : Bool → List CString) (first : BitVec 64) (runs : Runs Bool L) : Prop where
  follows : runs.Follows (fun run => tracking (tokens run)) (fun run _ => Finished (tokens run)) fun _ => none
  told : ∀ run read word, wordsOf tokens runs run = some (read, word) → readWord runs.history run = some read
  written : ∀ run, lastWriter runs.history = some run →
    ∃ read, wordsOf tokens runs run = some (read, runs.shared.mask)
  unwritten : lastWriter runs.history = none → runs.shared.mask = first ∧
    ∀ run read word, wordsOf tokens runs run = some (read, word) → word = first
  kept : Keeps tokens first runs.shared.mask
  copies : ∀ run read word, wordsOf tokens runs run = some (read, word) → Keeps tokens first read

/-- The invariant of two runs holds at the start. -/
theorem TwoRuns.begin (argv : Bool → List CString) (state : Machine L)
    (runs : ∀ run, trctl (argv run) = increment (tokens run)) :
    TwoRuns tokens state.mask (Runs.begin argv state) where
  follows run := by
    have meets := increment_tracking (tokens run)
    rw [← runs run] at meets
    exact meets
  told _ _ _ words := nomatch words
  written _ wrote := nomatch wrote
  unwritten _ := ⟨rfl, fun _ _ _ words => nomatch words⟩
  kept _ _ := rfl
  copies _ _ _ words := nomatch words

/-- A call that is no request leaves everything as it is. -/
theorem TwoRuns.quiet {runs next : Runs Bool L} (before : TwoRuns tokens first runs)
    (follows : next.Follows (fun run => tracking (tokens run)) (fun run _ => Finished (tokens run)) fun _ => none)
    (words : ∀ run, wordsOf tokens next run = wordsOf tokens runs run)
    (mask : next.shared.mask = runs.shared.mask) (writer : lastWriter next.history = lastWriter runs.history)
    (reads : ∀ run, readWord next.history run = readWord runs.history run) : TwoRuns tokens first next where
  follows := follows
  told run read word now := by
    rw [reads run]
    exact before.told run read word ((words run).symm.trans now)
  written run wrote := by
    rw [mask, words run]
    exact before.written run (writer.symm.trans wrote)
  unwritten nobody := by
    have earlier := before.unwritten (writer.symm.trans nobody)
    rw [mask]
    exact ⟨earlier.1, fun run read word now => earlier.2 run read word ((words run).symm.trans now)⟩
  kept := by
    rw [mask]
    exact before.kept
  copies run read word now := before.copies run read word ((words run).symm.trans now)

/-- A request `RET` of one run makes its word the mask. -/
theorem TwoRuns.ret {runs next : Runs Bool L} {run : Bool} (before : TwoRuns tokens first runs)
    (follows : next.Follows (fun run => tracking (tokens run)) (fun run _ => Finished (tokens run)) fun _ => none)
    (here : wordsOf tokens next run = some (runs.shared.mask, runs.shared.mask))
    (others : ∀ other, other ≠ run → wordsOf tokens next other = wordsOf tokens runs other)
    (mask : next.shared.mask = runs.shared.mask) (writer : lastWriter next.history = lastWriter runs.history)
    (reads : ∀ other, readWord next.history other =
      if run = other then some runs.shared.mask else readWord runs.history other) : TwoRuns tokens first next := by
  have pair : ∀ {read word}, wordsOf tokens next run = some (read, word) →
      runs.shared.mask = read ∧ runs.shared.mask = word := by
    intro read word now
    exact Prod.mk.inj (Option.some.inj (here.symm.trans now))
  constructor
  · exact follows
  · intro other read word now
    rw [reads other]
    by_cases this : other = run
    · subst this
      rw [if_pos rfl, (pair now).1]
    · rw [if_neg (Ne.symm this)]
      exact before.told other read word ((others other this).symm.trans now)
  · intro other wrote
    rw [mask]
    by_cases this : other = run
    · subst this
      exact ⟨_, here⟩
    · rw [others other this]
      exact before.written other (writer.symm.trans wrote)
  · intro nobody
    have earlier := before.unwritten (writer.symm.trans nobody)
    refine ⟨mask.trans earlier.1, fun other read word now => ?_⟩
    by_cases this : other = run
    · subst this
      exact (pair now).2.symm.trans earlier.1
    · exact earlier.2 other read word ((others other this).symm.trans now)
  · rw [mask]
    exact before.kept
  · intro other read word now
    by_cases this : other = run
    · subst this
      rw [← (pair now).1]
      exact before.kept
    · exact before.copies other read word ((others other this).symm.trans now)

/-- A request `HEX` makes the word of the run the mask. -/
theorem TwoRuns.hex {runs next : Runs Bool L} {run : Bool} {read word arg : BitVec 64}
    (before : TwoRuns tokens first runs)
    (follows : next.Follows (fun run => tracking (tokens run)) (fun run _ => Finished (tokens run)) fun _ => none)
    (earlier : wordsOf tokens runs run = some (read, word)) (agrees : Agrees (tokens run) arg read)
    (here : wordsOf tokens next run = some (read, arg))
    (others : ∀ other, other ≠ run → wordsOf tokens next other = wordsOf tokens runs other)
    (mask : next.shared.mask = arg) (writer : lastWriter next.history = some run)
    (reads : ∀ other, readWord next.history other = readWord runs.history other) : TwoRuns tokens first next := by
  have copy : ∀ {read' word'}, wordsOf tokens next run = some (read', word') → read = read' := by
    intro read' word' now
    exact (Prod.mk.inj (Option.some.inj (here.symm.trans now))).1
  constructor
  · exact follows
  · intro other read' word' now
    rw [reads other]
    by_cases this : other = run
    · subst this
      rw [← copy now]
      exact before.told other read word earlier
    · exact before.told other read' word' ((others other this).symm.trans now)
  · intro other wrote
    obtain rfl := Option.some.inj (writer.symm.trans wrote)
    rw [mask]
    exact ⟨read, here⟩
  · intro nobody
    exact nomatch writer.symm.trans nobody
  · intro bit unnamed
    rw [mask, agrees bit (unnamed run)]
    exact before.copies run read word earlier bit unnamed
  · intro other read' word' now
    by_cases this : other = run
    · subst this
      rw [← copy now]
      exact before.copies other read word earlier
    · exact before.copies other read' word' ((others other this).symm.trans now)

/-- One call of either run keeps the invariant. -/
theorem TwoRuns.step (serves : Serves env peek) {runs next : Runs Bool L} {run : Bool}
    (before : TwoRuns tokens first runs)
    (stepped : runs.step (fun run => serve env helpers peek (clients run)) run = some next) :
    TwoRuns tokens first next := by
  obtain ⟨follows, c, reply, advance⟩ := before.follows.step stepped
  obtain ⟨sets, writes⟩ := advance.permitted
  have mask := serve_mask serves sets advance.answered
  have here : wordsOf tokens next run = (tracking (tokens run)).next (wordsOf tokens runs run) c reply :=
    advance.here
  have others : ∀ other, other ≠ run → wordsOf tokens next other = wordsOf tokens runs other := advance.others
  have unmoved : wordsOf tokens next run = wordsOf tokens runs run →
      ∀ other, wordsOf tokens next other = wordsOf tokens runs other := by
    intro same other
    by_cases this : other = run
    · rw [this, same]
    · exact others other this
  cases c with
  | ioctlRet fd =>
      have told := serve_ret serves advance.answered
      apply before.ret follows _ others mask
      · rw [advance.history, lastWriter_append]
      · intro other
        rw [advance.history, readWord_append, ← told]
      · rw [here, ← told]
        rfl
  | ioctl fd cmd arg =>
      obtain ⟨read, word, earlier, agrees⟩ := writes fd cmd arg rfl
      apply before.hex follows earlier agrees _ others mask
      · rw [advance.history, lastWriter_append]
      · intro other
        rw [advance.history, readWord_append]
      · have same : wordsOf tokens runs run = some (read, word) := earlier
        rw [here, same]
        rfl
  | _ =>
      apply before.quiet follows (unmoved here) mask
      · rw [advance.history, lastWriter_append]
      · intro other
        rw [advance.history, readWord_append]

/-- The last mask of two finished runs has both updates exactly when the run that wrote last had read the other's. -/
theorem keepsBoth_iff (serves : Serves env peek) (incremental : ∀ run, Incremental (tokens run))
    (disjoint : Disjoint tokens) (program path : Bool → CString) {state : Machine L} {schedule : List Bool}
    {last : Runs Bool L}
    (ran : (Runs.begin (fun run => program run :: (tokens run ++ [path run])) state).run
      (fun run => serve env helpers peek (clients run)) schedule = some last)
    (finished : ∀ run, ∃ rc, last.threads run = .pure rc) :
    KeepsBoth tokens state.mask last.shared.mask ↔ ReadsSettled tokens last.history := by
  have start : TwoRuns tokens state.mask
      (Runs.begin (fun run => program run :: (tokens run ++ [path run])) state) :=
    TwoRuns.begin _ state fun run => trctl_incremental (incremental run) (program run) (path run)
  have ended := Config.run_invariant (fun _ _ _ before stepped => before.step serves stepped) start ran
  have words : ∀ run, Finished (tokens run) (wordsOf tokens last run) := by
    intro run
    obtain ⟨rc, returned⟩ := finished run
    have meets := ended.follows run
    rw [returned] at meets
    exact meets
  cases wrote : lastWriter last.history with
  | none =>
      obtain ⟨mask, same⟩ := ended.unwritten wrote
      have settled : ∀ run, Settled (tokens run) last.shared.mask := by
        intro run
        obtain ⟨read, word, now, settled, _⟩ := words run
        rw [mask, ← same run read word now]
        exact settled
      apply iff_of_true ⟨settled, ended.kept⟩
      intro writer member
      exact nomatch wrote.symm.trans member
  | some writer =>
      obtain ⟨read, here⟩ := ended.written writer wrote
      obtain ⟨_, _, now, settled, agrees⟩ := words writer
      obtain ⟨rfl, rfl⟩ := Prod.mk.inj (Option.some.inj (here.symm.trans now))
      have told := ended.told writer _ _ here
      -- The writer keeps the bits of the other run as it has read them.
      have other : Settled (tokens (!writer)) last.shared.mask ↔ Settled (tokens (!writer)) read := by
        have same : ∀ bit value, asked (tokens (!writer)) bit = some value →
            last.shared.mask.getLsbD bit = read.getLsbD bit := by
          intro bit value wanted
          have named : asked (tokens (!writer)) bit ≠ none := by rw [wanted]; exact Option.some_ne_none _
          have unnamed := disjoint bit (!writer) named
          rw [Bool.not_not] at unnamed
          exact agrees bit unnamed
        apply forall₃_congr
        intro bit value wanted
        rw [same bit value wanted]
      constructor
      · intro keeps run member word read'
        obtain rfl := Option.some.inj (wrote.symm.trans member)
        obtain rfl := Option.some.inj (told.symm.trans read')
        exact other.mp (keeps.settled _)
      · intro reads
        have both := other.mpr (reads writer wrote _ told)
        refine ⟨fun run => ?_, ended.kept⟩
        by_cases this : run = writer
        · rw [this]
          exact settled
        · rw [Bool.eq_not_of_ne this]
          exact both

end

/-- The names in the arguments show that two runs name different calls. -/
theorem disjoint_of_requests {tokens : Bool → List CString}
    (apart : ∀ run, ∀ update ∈ (tokens run).filterMap requested, ∀ other ∈ (tokens (!run)).filterMap requested,
      update.1 ≠ other.1) : Disjoint tokens := by
  intro bit run named
  apply (lastValue_eq_none _ _).mpr
  intro other member same
  apply named
  apply (lastValue_eq_none _ _).mpr
  intro update listed here
  exact apart run update listed other member (here.trans same.symm)

/-- One run with `-open` and one with `-read`. -/
def openAndRead : Bool → List CString
  | false => [minusOpen]
  | true => [minusRead]

/-- The two command lines are incremental. -/
theorem openAndRead_incremental : ∀ run, Incremental (openAndRead run)
  | false => .inr ⟨minusOpen, rfl, .inr rfl⟩
  | true => .inr ⟨minusRead, rfl, .inr rfl⟩

/-- The two command lines name different bits. -/
theorem openAndRead_disjoint : Disjoint openAndRead := disjoint_of_requests (by decide)

/-- The two runs on a fresh mount. -/
def openAndReadRuns : Runs Bool (BitVec 64) :=
  Runs.begin (fun run => junk :: (openAndRead run ++ [junk])) freshControl

/-- When the second run reads the mask after the first one has written, both updates stay. -/
theorem keepsBoth_serial : ∃ last : Runs Bool (BitVec 64),
    openAndReadRuns.run (fun _ => serve responsive reliable (fun memory _ => memory) rootClient)
      [false, true, false, false, true, true, false, true] = some last ∧
    (∀ run, ∃ rc, last.threads run = .pure rc) ∧ KeepsBoth openAndRead freshControl.mask last.shared.mask := by
  have shows : (openAndReadRuns.run (fun _ => serve responsive reliable (fun memory _ => memory) rootClient)
      [false, true, false, false, true, true, false, true]).map (fun last =>
        (decide (∀ run, last.nextCall run = none), lastWriter last.history, readWord last.history true)) =
      some (true, some true, some 0xffe) := by decide +kernel
  obtain ⟨last, ran, seen⟩ := Option.map_eq_some_iff.mp shows
  obtain ⟨ended, told⟩ := Prod.mk.inj seen
  obtain ⟨wrote, read⟩ := Prod.mk.inj told
  have finished : ∀ run, ∃ rc, last.threads run = .pure rc := by
    intro run
    exact Config.nextCall_eq_none.mp (of_decide_eq_true ended run)
  have both := keepsBoth_iff responsive_serves openAndRead_incremental openAndRead_disjoint (fun _ => junk)
    (fun _ => junk) ran finished
  have settled : Settled (openAndRead (!true)) 0xffe := by decide +kernel
  have reads : ReadsSettled openAndRead last.history := by
    intro writer member word here
    obtain rfl := Option.some.inj (wrote.symm.trans member)
    rw [← Option.some.inj (read.symm.trans here)]
    exact settled
  exact ⟨last, ran, finished, both.mpr reads⟩

/-- When both runs read the mask before either one writes, the update of the first writer is lost. -/
theorem keepsBoth_fails : ∃ last : Runs Bool (BitVec 64),
    openAndReadRuns.run (fun _ => serve responsive reliable (fun memory _ => memory) rootClient)
      [false, true, false, true, false, true, false, true] = some last ∧
    (∀ run, ∃ rc, last.threads run = .pure rc) ∧ Disjoint openAndRead ∧
      ¬ KeepsBoth openAndRead freshControl.mask last.shared.mask := by
  have shows : (openAndReadRuns.run (fun _ => serve responsive reliable (fun memory _ => memory) rootClient)
      [false, true, false, true, false, true, false, true]).map (fun last =>
        (decide (∀ run, last.nextCall run = none), decide (Settled (openAndRead false) last.shared.mask))) =
      some (true, false) := by decide +kernel
  obtain ⟨last, ran, seen⟩ := Option.map_eq_some_iff.mp shows
  obtain ⟨ended, lost⟩ := Prod.mk.inj seen
  have finished : ∀ run, ∃ rc, last.threads run = .pure rc := by
    intro run
    exact Config.nextCall_eq_none.mp (of_decide_eq_true ended run)
  exact ⟨last, ran, finished, openAndRead_disjoint, fun keeps => of_decide_eq_false lost (keeps.settled false)⟩

end Trfs.Control
