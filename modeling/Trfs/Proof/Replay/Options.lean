import Trfs.Construction.Replay.Options
import Trfs.Proof.Replay.RecordLoop

namespace Trfs.Replay
open Bytes Trace Iteration

section
variable {σ : Type}

/-- The replay function of a loop that also notes each record it is given, with the result of the comparison. It
returns for every record. -/
def logged (replayRecord : Visit → σ → σ × Bool) (visit : Visit) (world : σ × List (Visit × Bool)) :
    Option ((σ × List (Visit × Bool)) × Bool) :=
  let replayed := replayRecord visit world.1
  some ((replayed.1, world.2 ++ [(visit, replayed.2)]), replayed.2)

/-- The records that were passed to `replay_record`. -/
def Result.replayed (result : Result (σ × List (Visit × Bool))) : List Visit := result.state.world.2.map Prod.fst

/-- All comparisons of the log agree. -/
def Agrees (log : List (Visit × Bool)) : Prop := ∀ entry ∈ log, entry.2 = true

/-- The loop ended at the first deviation, and all records before were replayed as they were traced. -/
structure StopsAtFirst (result : Result (σ × List (Visit × Bool))) : Prop where
  ending : result.ending = .deviated
  first : ∃ earlier last, result.state.world.2 = earlier ++ [(last, false)] ∧ Agrees earlier

/-- What the mode makes of the records in a run over any bytes. -/
structure FollowsMode (mode : Mode) (result : Result (σ × List (Visit × Bool))) : Prop where
  replayed : result.replayed = if mode.replay then result.state.visits else []
  aborts : result.ending = .deviated → mode.replay = true ∧ mode.abort = true ∧ StopsAtFirst result
  agrees : mode.replay = true → mode.abort = true → result.ending ≠ .deviated → Agrees result.state.world.2

/-- The part of `FollowsMode` that holds between two rounds. -/
structure Noted (mode : Mode) (state : LoopState (σ × List (Visit × Bool))) : Prop where
  replayed : state.world.2.map Prod.fst = if mode.replay then state.visits else []
  agrees : mode.replay = true → mode.abort = true → Agrees state.world.2

/-- The first state is noted. -/
theorem startState_noted (mode : Mode) (world : σ) : Noted mode (startState (world, [])) where
  replayed := by
    change ([] : List Visit) = if mode.replay then [] else []
    split <;> rfl
  agrees _ _ := by
    intro entry member
    cases member

/-- A loop that ends without a deviation follows its mode. -/
theorem Noted.stops {mode : Mode} {state : LoopState (σ × List (Visit × Bool))} (noted : Noted mode state)
    {ending : Ending} (other : ending ≠ .deviated) : FollowsMode mode ⟨ending, state⟩ where
  replayed := noted.replayed
  aborts deviated := absurd deviated other
  agrees replays aborts _ := noted.agrees replays aborts

/-- A round notes the record that it visits. It stops at a deviation only with both flags. -/
theorem recordRound_noted (mode : Mode) (replayRecord : Visit → σ → σ × Bool) (buffer : List Byte)
    (stSize : BitVec 64) (state : LoopState (σ × List (Visit × Bool))) (noted : Noted mode state) :
    (∃ next, recordRound mode (logged replayRecord) buffer stSize state = .again next ∧ Noted mode next) ∨
      ∃ result, recordRound mode (logged replayRecord) buffer stSize state = .stop result ∧
        FollowsMode mode result := by
  unfold recordRound
  split
  · cases copied : readRecord buffer state with
    | none => exact .inr ⟨_, rfl, noted.stops (by decide)⟩
    | some visit =>
        by_cases replays : mode.replay = true
        · simp only [if_pos replays, logged]
          have passed : (state.world.2 ++ [(visit, (replayRecord visit state.world.1).2)]).map Prod.fst =
              state.visits ++ [visit] := by
            have before := noted.replayed
            rw [if_pos replays] at before
            rw [List.map_append, before, List.map_cons, List.map_nil]
          by_cases leaves : mode.replay = true ∧ mode.abort = true ∧ ¬ (replayRecord visit state.world.1).2 = true
          · rw [if_pos leaves]
            obtain ⟨_, aborts, deviates⟩ := leaves
            have deviating := Bool.eq_false_iff.mpr deviates
            refine .inr ⟨_, rfl, ?_, ?_, ?_⟩
            · rw [if_pos replays]
              exact passed
            · intro _
              refine ⟨replays, aborts, rfl, state.world.2, visit, ?_, noted.agrees replays aborts⟩
              rw [deviating]
            · intro _ _ other
              exact absurd rfl other
          · rw [if_neg leaves]
            refine .inl ⟨_, rfl, ?_, ?_⟩
            · rw [if_pos replays]
              exact passed
            · intro _ aborts entry member
              have same : (replayRecord visit state.world.1).2 = true := by
                by_contra deviates
                exact leaves ⟨replays, aborts, deviates⟩
              rcases List.mem_append.mp member with before | last
              · exact noted.agrees replays aborts entry before
              · rw [List.mem_singleton.mp last]
                exact same
        · simp only [if_neg replays]
          rw [if_neg fun leaves => replays leaves.1]
          refine .inl ⟨_, rfl, ?_, ?_⟩
          · have before := noted.replayed
            rw [if_neg replays] at before ⊢
            exact before
          · intro other
            exact absurd other replays
  · exact .inr ⟨_, rfl, noted.stops (by decide)⟩

/-- The loop follows its mode from every noted state. -/
theorem iterate_followsMode (mode : Mode) (replayRecord : Visit → σ → σ × Bool) (buffer : List Byte)
    (stSize : BitVec 64) (fuel : Nat) (state : LoopState (σ × List (Visit × Bool))) (noted : Noted mode state)
    {result : Result (σ × List (Visit × Bool))}
    (ran : iterate (recordRound mode (logged replayRecord) buffer stSize) fuel state = some result) :
    FollowsMode mode result := by
  induction fuel generalizing state with
  | zero => cases ran
  | succ fuel ih =>
      rcases recordRound_noted mode replayRecord buffer stSize state noted with
        ⟨next, continues, kept⟩ | ⟨last, stops, follows⟩
      · rw [iterate_again continues] at ran
        exact ih next kept ran
      · rw [iterate_stop stops] at ran
        obtain rfl := Option.some.inj ran
        exact follows

/-- A run of the loop over any bytes treats the records as its mode says. -/
theorem replayTrace_followsMode (mode : Mode) (replayRecord : Visit → σ → σ × Bool) (fuel : Nat)
    (buffer : List Byte) (stSize : BitVec 64) (world : σ) {result : Result (σ × List (Visit × Bool))}
    (ran : replayTrace mode (logged replayRecord) fuel buffer stSize (world, []) = some result) :
    FollowsMode mode result := by
  have noted := startState_noted mode world
  unfold replayTrace at ran
  split at ran
  · obtain rfl := Option.some.inj ran
    exact noted.stops (by decide)
  · exact iterate_followsMode mode replayRecord buffer stSize fuel _ noted ran

end

/-- What the options promise about a completed run over any bytes. -/
structure Promised {σ : Type} (letters : List OptionLetter) (result : Result (σ × List (Visit × Bool))) :
    Prop where
  dryRun : .n ∈ letters → result.replayed = []
  untilDeviation : .s ∈ letters → result.replayed = result.state.visits ∧
    (Agrees result.state.world.2 ∨ StopsAtFirst result)
  everything : .n ∉ letters → .s ∉ letters → result.replayed = result.state.visits ∧ result.ending ≠ .deviated

/-- What the options promise about a run over a trace. -/
structure Completes {σ : Type} (letters : List OptionLetter) (records : List FramedRecord)
    (result : Result (σ × List (Visit × Bool))) : Prop where
  untilDeviation : .s ∈ letters →
    VisitsAll records result ∧ Agrees result.state.world.2 ∨
      StopsAtFirst result ∧ ∃ shown rest, records = shown ++ rest ∧ List.Forall₂ Shows shown result.replayed
  everything : .n ∉ letters → .s ∉ letters → VisitsAll records result

/-- The options are given more than once, both are given, or one is unknown. -/
def Rejected (letters : List OptionLetter) : Prop :=
  ¬ letters.Nodup ∨ .unknown ∈ letters ∨ (.n ∈ letters ∧ .s ∈ letters)

/-- The program does with the records what its options say, whatever replaying a record does. -/
structure FollowsOptions (posixlyCorrect : Bool) (argv : List CString) (nVal sVal : Bool) : Prop where
  refuses : Rejected (getopt posixlyCorrect argv.tail).letters →
    (startup posixlyCorrect argv nVal sVal).goes = none
  promised : ∀ mode ∈ (startup posixlyCorrect argv nVal sVal).goes.map Prod.fst,
    ∀ (σ : Type) (replayRecord : Visit → σ → σ × Bool) (world : σ) (fuel : Nat) (buffer : List Byte)
      (stSize : BitVec 64) (result : Result (σ × List (Visit × Bool))),
      replayTrace mode (logged replayRecord) fuel buffer stSize (world, []) = some result →
        Promised (getopt posixlyCorrect argv.tail).letters result
  completes : ∀ mode ∈ (startup posixlyCorrect argv nVal sVal).goes.map Prod.fst,
    ∀ (σ : Type) (replayRecord : Visit → σ → σ × Bool) (world : σ) (records : List FramedRecord) (fuel : Nat),
      (traceBytes records).length ≤ 0x7ffff000 → records.length < fuel →
        ∃ result, replayTrace mode (logged replayRecord) fuel (traceBytes records)
            (BitVec.ofNat 64 (traceBytes records).length) (world, []) = some result ∧
          Completes (getopt posixlyCorrect argv.tail).letters records result

/-- The number of arguments for which the flags of `main` come out as the options say. -/
def Counted (argc : Nat) (nVal : Bool) : List OptionLetter → Prop
  | [] => argc ≠ 3
  | [.n] => argc ≤ 3
  | [.s] => argc ≤ 2 ∨ argc = 3 ∧ nVal = false
  | _ => True

/-- The flags that carry out the options. -/
structure Suits (letters : List OptionLetter) (mode : Mode) : Prop where
  dryRun : .n ∈ letters → mode.replay = false
  untilDeviation : .s ∈ letters → mode = ⟨true, true⟩
  everything : .n ∉ letters → .s ∉ letters → mode = ⟨true, false⟩

/-- A mode that suits the letters keeps their promise. -/
theorem Suits.promised {letters : List OptionLetter} {mode : Mode} (suits : Suits letters mode) {σ : Type}
    {result : Result (σ × List (Visit × Bool))} (follows : FollowsMode mode result) : Promised letters result where
  dryRun given := by
    have prints := suits.dryRun given
    simpa [prints] using follows.replayed
  untilDeviation given := by
    have replayed := follows.replayed
    rw [suits.untilDeviation given] at replayed follows
    refine ⟨replayed, ?_⟩
    by_cases deviated : result.ending = .deviated
    · right
      exact (follows.aborts deviated).2.2
    · left
      exact follows.agrees rfl rfl deviated
  everything absent absent' := by
    have replayed := follows.replayed
    rw [suits.everything absent absent'] at replayed follows
    refine ⟨replayed, ?_⟩
    intro deviated
    exact absurd (follows.aborts deviated).2.1 (by decide)

/-- A loop that goes through in a suitable mode does what the letters ask. -/
theorem Suits.completes {letters : List OptionLetter} {mode : Mode} (suits : Suits letters mode) {σ : Type}
    {result : Result (σ × List (Visit × Bool))} {records : List FramedRecord}
    {replayRecord : Visit → σ × List (Visit × Bool) → Option ((σ × List (Visit × Bool)) × Bool)}
    {world : σ × List (Visit × Bool)} (follows : FollowsMode mode result)
    (outcome : GoesThrough mode replayRecord world records result ∨
      LeavesAtDeviation mode replayRecord world records result) :
    Completes letters records result where
  untilDeviation given := by
    have replayed := follows.replayed
    rw [suits.untilDeviation given] at replayed follows
    rcases outcome with ⟨all, _⟩ | leaves
    · left
      refine ⟨all, follows.agrees rfl rfl ?_⟩
      rw [all.ending]
      decide
    · right
      obtain ⟨earlier, visit, _, visits, gets, _⟩ := leaves.deviated
      refine ⟨(follows.aborts leaves.ending).2.2, records.take (earlier.length + 1),
        records.drop (earlier.length + 1), (List.take_append_drop _ _).symm, ?_⟩
      rw [replayed, if_pos rfl, visits]
      exact gets.visits
  everything absent absent' := by
    rcases outcome with ⟨all, _⟩ | leaves
    · exact all
    · have aborts := leaves.aborts
      rw [suits.everything absent absent'] at aborts
      cases aborts

/-- A run in which the only record deviates tells the modes apart. -/
theorem replayTrace_deviating (mode : Mode) :
    ∃ result, replayTrace mode (logged fun _ (world : Unit) => (world, false)) 3 (traceBytes [openRecord])
        (BitVec.ofNat 64 (traceBytes [openRecord]).length) ((), []) = some result ∧
      result.state.visits.length = 1 ∧ result.state.world.2.map Prod.snd = (if mode.replay then [false] else []) ∧
      result.ending = if mode.replay ∧ mode.abort then .deviated else .finished := by
  have shows : ∀ replay abort : Bool,
      (replayTrace ⟨replay, abort⟩ (logged fun _ (world : Unit) => (world, false)) 3 (traceBytes [openRecord])
        (BitVec.ofNat 64 (traceBytes [openRecord]).length) ((), [])).map (fun result =>
          (result.state.visits.length, result.state.world.2.map Prod.snd, result.ending)) =
      some (1, if replay then [false] else [], if replay ∧ abort then .deviated else .finished) := by
    decide +kernel
  obtain ⟨result, ran, seen⟩ := Option.map_eq_some_iff.mp (shows mode.replay mode.abort)
  simp only [Prod.mk.injEq] at seen
  exact ⟨result, ran, seen⟩

/-- A mode that keeps the promises in all runs is the one for the options. -/
theorem suits_of_promised {letters : List OptionLetter} {mode : Mode}
    (promised : ∀ (σ : Type) (replayRecord : Visit → σ → σ × Bool) (world : σ) (fuel : Nat) (buffer : List Byte)
      (stSize : BitVec 64) (result : Result (σ × List (Visit × Bool))),
      replayTrace mode (logged replayRecord) fuel buffer stSize (world, []) = some result →
        Promised letters result) : Suits letters mode := by
  obtain ⟨result, ran, visited, log, ending⟩ := replayTrace_deviating mode
  have kept := promised Unit _ _ _ _ _ result ran
  have count : result.replayed.length = (if mode.replay then [false] else []).length := by
    rw [← log, Result.replayed, List.length_map, List.length_map]
  obtain ⟨replay, abort⟩ := mode
  constructor
  · intro given
    rw [kept.dryRun given] at count
    cases replay
    · rfl
    · cases count
  · intro given
    obtain ⟨replayed, outcome⟩ := kept.untilDeviation given
    rw [replayed, visited] at count
    cases replay
    · cases count
    · cases abort
      · exfalso
        rcases outcome with agrees | stops
        · have differs : false ∈ result.state.world.2.map Prod.snd := by
            rw [log]
            decide
          obtain ⟨entry, member, value⟩ := List.mem_map.mp differs
          rw [agrees entry member] at value
          cases value
        · have deviated := stops.ending
          rw [ending] at deviated
          exact absurd deviated (by decide)
      · rfl
  · intro absent absent'
    obtain ⟨replayed, goesOn⟩ := kept.everything absent absent'
    rw [replayed, visited] at count
    cases replay
    · cases count
    · cases abort
      · rfl
      · exact absurd ending goesOn

/-- The locals after the options count them and note which of them were there. -/
theorem foldl_handle (letters : List OptionLetter) (locals : OptionLocals) :
    letters.foldl OptionLocals.handle locals =
      ⟨locals.nVal || decide (.n ∈ letters), locals.sVal || decide (.s ∈ letters),
        locals.errVal || decide (.unknown ∈ letters), locals.paramLen + letters.countP (· ≠ .unknown)⟩ := by
  induction letters generalizing locals with
  | nil => simp
  | cons letter letters ih =>
      rw [List.foldl_cons, ih]
      cases letter <;> simp [OptionLocals.handle] <;> omega

/-- The mode of the program, if it goes on. -/
def modeOf (argc : Nat) (nVal sVal : Bool) : List OptionLetter → Option Mode
  | [] => if argc < 2 then none else some (chooseMode argc ⟨nVal, sVal, false, 0⟩)
  | [.n] => if argc < 3 then none else some (chooseMode argc ⟨true, sVal, false, 1⟩)
  | [.s] => if argc < 3 then none else some (chooseMode argc ⟨nVal, true, false, 1⟩)
  | _ => none

/-- Two options end the program: one of them is unknown or they are too many. -/
theorem two_letters (first second : OptionLetter) (rest : List OptionLetter)
    (known : .unknown ∉ first :: second :: rest) :
    1 < (first :: second :: rest).countP (· ≠ .unknown) := by
  simp only [List.mem_cons, not_or] at known
  obtain ⟨one, two, _⟩ := known
  rw [List.countP_cons_of_pos (by simpa using Ne.symm one), List.countP_cons_of_pos (by simpa using Ne.symm two)]
  omega

/-- The start of the program chooses the mode from the letters. -/
theorem startup_mode (posixlyCorrect : Bool) (argv : List CString) (nVal sVal : Bool) :
    (startup posixlyCorrect argv nVal sVal).goes.map Prod.fst =
      modeOf argv.length nVal sVal (getopt posixlyCorrect argv.tail).letters := by
  unfold startup
  have none_left {letters : List OptionLetter} (few : argv.length < 2) :
      modeOf argv.length nVal sVal letters = none := by
    unfold modeOf
    split
    · exact if_pos few
    · exact if_pos (by omega)
    · exact if_pos (by omega)
    · rfl
  by_cases few : argv.length < 2
  · rw [if_pos few, none_left few]
    rfl
  · rw [if_neg few]
    simp only [foldl_handle, Bool.false_or]
    generalize (getopt posixlyCorrect argv.tail).letters = letters
    cases letters with
    | nil => simp [modeOf, few]
    | cons first rest =>
        cases rest with
        | nil =>
            cases first with
            | n =>
                by_cases alone : argv.length = 2
                · simp [modeOf, alone]
                · simp [modeOf, alone]
                  omega
            | s =>
                by_cases alone : argv.length = 2
                · simp [modeOf, alone]
                · simp [modeOf, alone]
                  omega
            | unknown => simp [modeOf]
        | cons second rest =>
            have gone : modeOf argv.length nVal sVal (first :: second :: rest) = none := by
              cases first <;> rfl
            rw [gone]
            by_cases known : .unknown ∈ first :: second :: rest
            · simp [known]
            · have many := two_letters first second rest known
              simp only [known, decide_false, Bool.false_eq_true, if_false, Nat.zero_add, if_pos many,
                Option.map_none]

/-- Rejected letters choose no mode. -/
theorem modeOf_rejected {letters : List OptionLetter} (rejected : Rejected letters) (argc : Nat) (nVal sVal : Bool) :
    modeOf argc nVal sVal letters = none := by
  cases letters with
  | nil => simp [Rejected] at rejected
  | cons first rest =>
      cases rest with
      | nil =>
          cases first with
          | n => simp [Rejected] at rejected
          | s => simp [Rejected] at rejected
          | unknown => rfl
      | cons second rest => cases first <;> rfl

/-- The program follows its options if and only if the mode chosen suits the letters. -/
theorem followsOptions_iff_suits (posixlyCorrect : Bool) (argv : List CString) (nVal sVal : Bool) :
    FollowsOptions posixlyCorrect argv nVal sVal ↔
      ∀ mode ∈ modeOf argv.length nVal sVal (getopt posixlyCorrect argv.tail).letters,
        Suits (getopt posixlyCorrect argv.tail).letters mode := by
  have reached := startup_mode posixlyCorrect argv nVal sVal
  constructor
  · intro follows mode chosen
    rw [← reached] at chosen
    exact suits_of_promised (follows.promised mode chosen)
  · intro suits
    refine ⟨?_, ?_, ?_⟩
    · intro rejected
      rw [modeOf_rejected rejected] at reached
      exact Option.map_eq_none_iff.mp reached
    · intro mode chosen σ replayRecord world fuel buffer stSize result ran
      rw [reached] at chosen
      exact (suits mode chosen).promised (replayTrace_followsMode _ _ _ _ _ _ ran)
    · intro mode chosen σ replayRecord world records fuel small enough
      rw [reached] at chosen
      obtain ⟨result, ran, outcome⟩ :=
        replayTrace_framed mode (logged replayRecord) (world, []) records fuel small enough
      have follows := replayTrace_followsMode _ _ _ _ _ _ ran
      refine ⟨result, ran, ?_⟩
      rcases outcome with through | leaves | dies
      · exact (suits mode chosen).completes follows (.inl through)
      · exact (suits mode chosen).completes follows (.inr leaves)
      · obtain ⟨_, _, _, _, _, killed⟩ := dies.killed
        cases killed

/-- Without exactly three arguments the mode is replay without checks. -/
theorem chooseMode_of_ne {argc : Nat} (other : argc ≠ 3) (locals : OptionLocals) :
    chooseMode argc locals = ⟨true, false⟩ := if_neg other

/-- With three arguments the mode depends on both locals. -/
theorem chooseMode_three (nVal sVal errVal : Bool) (paramLen : Nat) :
    chooseMode 3 ⟨nVal, sVal, errVal, paramLen⟩ = ⟨!nVal && sVal, !nVal && sVal⟩ := by
  cases nVal <;> cases sVal <;> rfl

/-- No letters ask for replay without checks. -/
@[simp] theorem suits_nil (mode : Mode) : Suits [] mode ↔ mode = ⟨true, false⟩ :=
  ⟨fun suits => suits.everything (by simp) (by simp), fun same => ⟨by simp, by simp, fun _ _ => same⟩⟩

/-- The letter n asks for no replay. -/
@[simp] theorem suits_n (mode : Mode) : Suits [.n] mode ↔ mode.replay = false :=
  ⟨fun suits => suits.dryRun (by simp), fun prints => ⟨fun _ => prints, by simp, by simp⟩⟩

/-- The letter s asks for replay with checks. -/
@[simp] theorem suits_s (mode : Mode) : Suits [.s] mode ↔ mode = ⟨true, true⟩ :=
  ⟨fun suits => suits.untilDeviation (by simp), fun same => ⟨by simp, fun _ => same, by simp⟩⟩

/-- The flags of `main` suit the options for these numbers of arguments and no others. -/
theorem suits_iff (argc : Nat) (nVal sVal : Bool) (letters : List OptionLetter) :
    (∀ mode ∈ modeOf argc nVal sVal letters, Suits letters mode) ↔ Counted argc nVal letters := by
  have chosen (least : Nat) (locals : OptionLocals) (property : Mode → Prop) :
      (∀ mode ∈ if argc < least then none else some (chooseMode argc locals), property mode) ↔
        (least ≤ argc → property (chooseMode argc locals)) := by
    split
    · simp only [Option.not_mem_none, false_implies, implies_true, true_iff]
      omega
    · simp only [Option.mem_some_iff, forall_eq']
      constructor
      · intro holds _
        exact holds
      · intro holds
        exact holds (by omega)
  unfold modeOf Counted
  split
  · rw [chosen]
    by_cases three : argc = 3
    · subst three
      rw [chooseMode_three, suits_nil]
      cases nVal <;> cases sVal <;> decide
    · simp [chooseMode_of_ne three, three]
  · rw [chosen]
    by_cases three : argc = 3
    · subst three
      simp [chooseMode_three]
    · simp only [chooseMode_of_ne three, suits_n]
      simp
      omega
  · rw [chosen]
    by_cases three : argc = 3
    · subst three
      rw [chooseMode_three, suits_s]
      cases nVal <;> decide
    · simp only [chooseMode_of_ne three, suits_s]
      simp
      omega
  · simp_all

/-- The options decide what happens to the records exactly for these numbers of arguments. -/
theorem followsOptions_iff (posixlyCorrect : Bool) (argv : List CString) (nVal sVal : Bool) :
    FollowsOptions posixlyCorrect argv nVal sVal ↔
      Counted argv.length nVal (getopt posixlyCorrect argv.tail).letters := by
  rw [followsOptions_iff_suits, suits_iff]

/-- The call `treplay -n trace more` replays the records. -/
theorem dryRun_replays :
    ¬ ∀ (posixlyCorrect : Bool) (argv : List CString) (nVal sVal : Bool),
      FollowsOptions posixlyCorrect argv nVal sVal := by
  intro follows
  have suits := (followsOptions_iff_suits _ _ _ _).mp (follows false
    [⟨ascii "treplay", by decide⟩, ⟨ascii "-n", by decide⟩, ⟨ascii "trace", by decide⟩, ⟨ascii "more", by decide⟩]
    false false) ⟨true, false⟩ (by decide)
  have prints := suits.dryRun (by decide)
  cases prints

end Trfs.Replay
