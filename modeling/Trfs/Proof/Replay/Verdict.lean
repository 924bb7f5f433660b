import Trfs.Construction.Replay.Arguments
import Trfs.Proof.Replay.Issued
import Trfs.Proof.Replay.RecordLoop

namespace Trfs.Replay
open Bytes Effect Trace Iteration

/-- The result of a system call as the caller gets it: a count, a descriptor, 0, or a negative number. -/
def SystemCall.result : (c : SystemCall) → c.Reply → Int
  | .printf _, _ => 0
  | .read .., count | .write .., count => BitVec.toInt count
  | .open .., result | .close _, result | .link .., result | .unlink _, result | .symlink .., result
  | .mkdir .., result | .rmdir _, result | .mknod .., result | .rename .., result => BitVec.toInt result

/-- The result of this record is a count of bytes. -/
def ReplayArgs.Counted (args : ReplayArgs) : Prop := args.kind = some .read ∨ args.kind = some .write

instance (args : ReplayArgs) : Decidable args.Counted := inferInstanceAs (Decidable (_ ∨ _))

/-- The recorded outcome and the replayed one agree: both failed, or both succeeded, with one count. -/
def ReplayArgs.Agrees (args : ReplayArgs) (c : SystemCall) (reply : c.Reply) : Prop :=
  let recorded := args.tracer.err.toInt
  let replayed := c.result reply
  recorded < 0 ∧ replayed < 0 ∨ 0 ≤ recorded ∧ 0 ≤ replayed ∧ (args.Counted → recorded = replayed)

instance (args : ReplayArgs) (c : SystemCall) (reply : c.Reply) : Decidable (args.Agrees c reply) :=
  inferInstanceAs (Decidable (_ ∨ _))

/-- When the verdict of a record is right. An open is never found to agree. For a count, two failures must have one
number, and a count must fit into an `int` if that is what the record holds. For the other calls the numbers must
be equal when both failed or both succeeded. -/
def ReplayArgs.JudgedRight (args : ReplayArgs) (c : SystemCall) (reply : c.Reply) : Prop :=
  let recorded := args.tracer.err.toInt
  let replayed := c.result reply
  if args.kind = some .open then (recorded < 0 ↔ 0 ≤ replayed)
  else if args.Counted then
    if recorded < 0 ∧ replayed < 0 then recorded = (c.errval reply).toInt
    else recorded = (c.errval reply).toInt → (c.errval reply).toInt = replayed
  else (recorded < 0 ↔ replayed < 0) → recorded = replayed

section
variable {args : ReplayArgs} {fd : BitVec 32} {c : SystemCall} {reply : c.Reply}

variable (reply) in
/-- A result that is not a count is compared as it is. -/
theorem errval_toInt (request : args.request fd = some c) (single : ¬ args.Counted) :
    (c.errval reply).toInt = c.result reply := by
  unfold ReplayArgs.Counted at single
  unfold ReplayArgs.request at request
  cases kind : args.kind with
  | none =>
      rw [kind] at request
      cases request
  | some call =>
      rw [kind] at request single
      cases call with
      | read => exact absurd (.inl rfl) single
      | write => exact absurd (.inr rfl) single
      | _ =>
          obtain rfl := Option.some.inj request
          rfl

/-- A count that the record holds survives the conversion to `int`. -/
theorem errval_of_count (request : args.request fd = some c) (counted : args.Counted)
    (same : args.tracer.err.toInt = c.result reply) : args.tracer.err = c.errval reply := by
  have narrow (count : BitVec 64) (same : args.tracer.err.toInt = count.toInt) :
      args.tracer.err = count.setWidth 32 := by
    have recorded := args.tracer.err.isLt
    have replayed := count.isLt
    rw [BitVec.toInt_eq_toNat_cond, BitVec.toInt_eq_toNat_cond] at same
    apply BitVec.eq_of_toNat_eq
    rw [BitVec.toNat_setWidth]
    split at same <;> split at same <;> omega
  unfold ReplayArgs.request at request
  rcases counted with read | write
  · rw [read] at request
    obtain rfl := Option.some.inj request
    exact narrow reply same
  · rw [write] at request
    obtain ⟨content, _, rfl⟩ := Option.map_eq_some_iff.mp request
    exact narrow reply same

/-- The verdict of a record agrees with its outcomes exactly when it is judged right. -/
theorem outcome_right_iff (request : args.request fd = some c) :
    ((args.outcome fd (c.errval reply)).2 = true ↔ args.Agrees c reply) ↔ args.JudgedRight c reply := by
  unfold ReplayArgs.outcome ReplayArgs.JudgedRight ReplayArgs.Agrees
  dsimp only
  by_cases opens : args.kind = some .open
  · have single : ¬ args.Counted := by
      unfold ReplayArgs.Counted
      rw [opens]
      rintro (read | write)
      · cases read
      · cases write
    rw [if_pos opens, if_pos opens]
    simp only [Bool.false_eq_true, false_iff, single, false_implies, and_true]
    omega
  · rw [if_neg opens, if_neg opens]
    have verdict : decide (args.tracer.err = c.errval reply) = true ↔
        args.tracer.err.toInt = (c.errval reply).toInt := by
      rw [decide_eq_true_iff, BitVec.toInt_inj]
    simp only [verdict]
    by_cases counted : args.Counted
    · have narrow : args.tracer.err.toInt = c.result reply →
          args.tracer.err.toInt = (c.errval reply).toInt :=
        fun same => congrArg BitVec.toInt (errval_of_count request counted same)
      rw [if_pos counted]
      simp only [counted, true_implies]
      split <;> omega
    · have exact := errval_toInt reply request counted
      rw [if_neg counted, exact]
      simp only [counted, false_implies, and_true]
      omega

end

section
variable {σ : Type}

/-- The result of `replay_record`. -/
def Replayed.verdict (entry : Replayed σ) : Bool := entry.done.value.2

/-- The outcomes agree in the calls that the replay made. -/
def Replayed.Agreed (entry : Replayed σ) : Prop :=
  ∀ event ∈ entry.done.events.filter isSystem, entry.args.Agrees event.call event.reply

instance (entry : Replayed σ) : Decidable entry.Agreed :=
  inferInstanceAs (Decidable (∀ event ∈ entry.done.events.filter isSystem, _))

def Replayed.JudgedRight (entry : Replayed σ) : Prop :=
  ∀ event ∈ entry.done.events.filter isSystem, entry.args.JudgedRight event.call event.reply

/-- The entry is what the replay of its record did on the system. -/
def Replayed.Ran (handler : Handler SystemCall.Reply σ) (entry : Replayed σ) : Prop :=
  (replayRecord entry.fd entry.args).exec handler entry.before = some entry.done

variable {handler : Handler SystemCall.Reply σ} {entry : Replayed σ}

theorem Replayed.verdict_iff (ran : entry.Ran handler) :
    (entry.verdict = true ↔ entry.Agreed) ↔ entry.JudgedRight := by
  unfold Replayed.verdict Replayed.Agreed Replayed.JudgedRight
  cases replayRecord_replays ran with
  | silent kind events value =>
      rw [events, value]
      simp
  | call c reply request events value =>
      rw [events, value]
      simp only [List.mem_singleton, forall_eq]
      exact outcome_right_iff request

/-- `treplay -s` stops at the first record whose replay truly deviates, and never before it. -/
structure StopsAtDeviation (result : Result (Process σ)) : Prop where
  returns : result.ending ≠ .crashed
  notBefore : ∀ entry ∈ result.state.world.log.dropLast, entry.Agreed
  atDeviation : result.ending = .deviated → ∀ entry ∈ result.state.world.log.getLast?, ¬ entry.Agreed
  otherwise : result.ending ≠ .deviated → ∀ entry ∈ result.state.world.log, entry.Agreed

/-- The strings of the visit end within the memory, and a write has content. -/
def Visit.Returns (visit : Visit) (beyond : Beyond) : Prop := ∃ args, visit.args beyond = some args ∧ ¬ args.Kills

/-- All visits of the loop have what `replay_record` needs to return. -/
def AllReturn (beyond : Nat → Beyond) (visits : List Visit) : Prop :=
  ∀ (position : Nat) (visit : Visit), visits[position]? = some visit → visit.Returns (beyond position)

theorem AllReturn.concat {beyond : Nat → Beyond} {visits : List Visit} {visit : Visit} :
    AllReturn beyond (visits ++ [visit]) ↔ AllReturn beyond visits ∧ visit.Returns (beyond visits.length) := by
  constructor
  · intro all
    constructor
    · intro position other found
      have inside : position < visits.length := (List.getElem?_eq_some_iff.mp found).1
      apply all position other
      rw [List.getElem?_append_left inside]
      exact found
    · exact all visits.length visit List.getElem?_concat_length
  · rintro ⟨all, last⟩ position other found
    by_cases inside : position < visits.length
    · rw [List.getElem?_append_left inside] at found
      exact all position other found
    · have bound : position < (visits ++ [visit]).length := (List.getElem?_eq_some_iff.mp found).1
      rw [List.length_append, List.length_singleton] at bound
      obtain rfl : position = visits.length := by omega
      rw [List.getElem?_concat_length] at found
      rw [← Option.some.inj found]
      exact last

/-- The loop stops after the first record whose verdict is false, or where the process is killed. -/
structure StopsAtVerdict (handler : Handler SystemCall.Reply σ) (beyond : Nat → Beyond) (result : Result (Process σ)) :
    Prop where
  ran : ∀ entry ∈ result.state.world.log, entry.Ran handler
  killed : result.ending = .crashed ↔ ¬ AllReturn beyond result.state.visits
  before : ∀ entry ∈ result.state.world.log.dropLast, entry.verdict = true
  atVerdict : result.ending = .deviated → ∃ entry ∈ result.state.world.log.getLast?, entry.verdict = false
  otherwise : result.ending ≠ .deviated → ∀ entry ∈ result.state.world.log, entry.verdict = true

/-- What holds before each round of a loop that has not stopped. -/
structure Passed (handler : Handler SystemCall.Reply σ) (beyond : Nat → Beyond) (state : LoopState (Process σ)) :
    Prop where
  log : ∀ entry ∈ state.world.log, entry.Ran handler ∧ entry.verdict = true
  counted : state.visits.length = state.world.log.length
  returns : AllReturn beyond state.visits

/-- One call of `replay_record` adds its entry to the log. -/
theorem Process.replay_eq_some {beyond : Nat → Beyond} {visit : Visit} {process next : Process σ} {verdict : Bool}
    (replayed : Process.replay handler beyond visit process = some (next, verdict)) :
    visit.Returns (beyond process.log.length) ∧
      ∃ entry : Replayed σ, entry.Ran handler ∧ next.log = process.log ++ [entry] ∧ verdict = entry.verdict := by
  unfold Process.replay at replayed
  simp only [Option.bind_eq_bind, Option.bind_eq_some_iff, Option.some.injEq, Prod.mk.injEq] at replayed
  obtain ⟨args, strings, done, ran, rfl, rfl⟩ := replayed
  have returns : ¬ args.Kills := by
    rintro ⟨kind, nothing⟩
    rw [replayRecord_faults kind nothing] at ran
    cases ran
  exact ⟨⟨args, strings, returns⟩, ⟨args, process.fd, process.system, done⟩, ran, rfl, rfl⟩

/-- On a system that answers `replay_record` kills the process only at a visit that lacks something. -/
theorem Process.replay_eq_none (answers : Answers handler) {beyond : Nat → Beyond} {visit : Visit}
    {process : Process σ} (killed : Process.replay handler beyond visit process = none) :
    ¬ visit.Returns (beyond process.log.length) := by
  rintro ⟨args, strings, returns⟩
  obtain ⟨done, ran⟩ := (replayRecord_returns_iff answers process.fd process.system).mpr returns
  unfold Process.replay at killed
  rw [strings, Option.bind_eq_bind, Option.bind_some, ran] at killed
  cases killed

/-- A round that goes on has replayed one record more. -/
theorem Passed.again {beyond : Nat → Beyond} {state : LoopState (Process σ)} (passed : Passed handler beyond state)
    {visit : Visit} {next : Process σ} (replayed : Process.replay handler beyond visit state.world = some (next, true))
    {reached : LoopState (Process σ)} (visits : reached.visits = state.visits ++ [visit])
    (world : reached.world = next) : Passed handler beyond reached := by
  obtain ⟨returns, entry, ran, added, verdict⟩ := Process.replay_eq_some replayed
  subst world
  constructor
  · intro other member
    rw [added] at member
    rcases List.mem_append.mp member with before | last
    · exact passed.log other before
    · rw [List.mem_singleton.mp last]
      exact ⟨ran, verdict.symm⟩
  · rw [visits, added, List.length_append, List.length_append, passed.counted]
    rfl
  · rw [visits]
    exact AllReturn.concat.mpr ⟨passed.returns, passed.counted ▸ returns⟩

/-- A loop that ends without a verdict has passed all records. -/
theorem Passed.stops {beyond : Nat → Beyond} {state : LoopState (Process σ)} (passed : Passed handler beyond state)
    {ending : Ending} (goesOn : ending ≠ .deviated) (lives : ending ≠ .crashed) :
    StopsAtVerdict handler beyond ⟨ending, state⟩ where
  ran entry member := (passed.log entry member).1
  killed := iff_of_false lives (not_not_intro passed.returns)
  before entry member := (passed.log entry (List.dropLast_subset _ member)).2
  atVerdict deviated := absurd deviated goesOn
  otherwise _ entry member := (passed.log entry member).2

/-- A round in which the process is killed leaves the log as it is. -/
theorem Passed.crashed {beyond : Nat → Beyond} {state : LoopState (Process σ)} (passed : Passed handler beyond state)
    {visit : Visit} (lacks : ¬ visit.Returns (beyond state.world.log.length)) :
    StopsAtVerdict handler beyond ⟨.crashed, state.visiting visit⟩ where
  ran entry member := (passed.log entry member).1
  killed := by
    apply iff_of_true rfl
    intro all
    obtain ⟨_, last⟩ := AllReturn.concat.mp all
    rw [passed.counted] at last
    exact lacks last
  before entry member := (passed.log entry (List.dropLast_subset _ member)).2
  atVerdict deviated := nomatch deviated
  otherwise _ entry member := (passed.log entry member).2

/-- A round that ends the loop at its record has replayed this record too. -/
theorem Passed.deviated {beyond : Nat → Beyond} {state : LoopState (Process σ)} (passed : Passed handler beyond state)
    {visit : Visit} {next : Process σ}
    (replayed : Process.replay handler beyond visit state.world = some (next, false)) :
    StopsAtVerdict handler beyond ⟨.deviated, { state.visiting visit with world := next }⟩ := by
  obtain ⟨returns, entry, ran, added, verdict⟩ := Process.replay_eq_some replayed
  constructor
  · dsimp only
    rw [added]
    intro other member
    rcases List.mem_append.mp member with before | last
    · exact (passed.log other before).1
    · rw [List.mem_singleton.mp last]
      exact ran
  · apply iff_of_false nofun
    apply not_not_intro
    exact AllReturn.concat.mpr ⟨passed.returns, passed.counted ▸ returns⟩
  · dsimp only
    rw [added, List.dropLast_concat]
    exact fun other member => (passed.log other member).2
  · intro _
    refine ⟨entry, ?_, verdict.symm⟩
    dsimp only
    rw [added, List.getLast?_concat]
    rfl
  · exact fun other => absurd rfl other

/-- The loop stops at a verdict from any state that it has reached. -/
theorem iterate_stopsAtVerdict (answers : Answers handler) {beyond : Nat → Beyond} {buffer : List Byte}
    {stSize : BitVec 64} {fuel : Nat} {state : LoopState (Process σ)} {result : Result (Process σ)}
    (passed : Passed handler beyond state)
    (ran : iterate (recordRound ⟨true, true⟩ (Process.replay handler beyond) buffer stSize) fuel state =
      some result) : StopsAtVerdict handler beyond result := by
  induction fuel generalizing state with
  | zero => cases ran
  | succ fuel ih =>
      rw [iterate, recordRound] at ran
      by_cases inside : (state.prevRecSize.signExtend 64).slt (stSize - 1)
      · rw [if_pos inside] at ran
        cases copied : readRecord buffer state with
        | none =>
            simp only [copied] at ran
            obtain rfl := Option.some.inj ran
            exact passed.stops (by decide) (by decide)
        | some visit =>
            simp only [copied, if_true, true_and] at ran
            cases replayed : Process.replay handler beyond visit state.world with
            | none =>
                simp only [replayed] at ran
                obtain rfl := Option.some.inj ran
                exact passed.crashed (Process.replay_eq_none answers replayed)
            | some outcome =>
                obtain ⟨next, verdict⟩ := outcome
                simp only [replayed] at ran
                cases verdict with
                | true => exact ih (passed.again replayed rfl rfl) ran
                | false =>
                    obtain rfl := Option.some.inj ran
                    exact passed.deviated replayed
      · rw [if_neg inside] at ran
        obtain rfl := Option.some.inj ran
        exact passed.stops (by decide) (by decide)

/-- The stop is right exactly when the process lives and the verdict of every replayed record is right. -/
theorem StopsAtVerdict.stopsAtDeviation_iff {beyond : Nat → Beyond} {result : Result (Process σ)}
    (stops : StopsAtVerdict handler beyond result) :
    StopsAtDeviation result ↔ AllReturn beyond result.state.visits ∧
      ∀ entry ∈ result.state.world.log, (entry.verdict = true ↔ entry.Agreed) := by
  have lives : result.ending ≠ .crashed ↔ AllReturn beyond result.state.visits := by
    rw [Ne, stops.killed, not_not]
  constructor
  · intro right
    refine ⟨lives.mp right.returns, ?_⟩
    intro entry member
    by_cases ending : result.ending = .deviated
    · obtain ⟨last, isLast, verdict⟩ := stops.atVerdict ending
      obtain ⟨front, split⟩ := List.getLast?_eq_some_iff.mp isLast
      rw [split] at member
      rcases List.mem_append.mp member with before | here
      · have within : entry ∈ result.state.world.log.dropLast := by rwa [split, List.dropLast_concat]
        exact iff_of_true (stops.before entry within) (right.notBefore entry within)
      · obtain rfl := List.mem_singleton.mp here
        exact iff_of_false (by rw [verdict]; exact Bool.false_ne_true) (right.atDeviation ending entry isLast)
    · exact iff_of_true (stops.otherwise ending entry member) (right.otherwise ending entry member)
  · rintro ⟨all, right⟩
    constructor
    · exact lives.mpr all
    · intro entry member
      exact (right entry (List.dropLast_subset _ member)).mp (stops.before entry member)
    · intro ending entry member agreed
      obtain ⟨last, isLast, verdict⟩ := stops.atVerdict ending
      obtain rfl := Option.some.inj (isLast.symm.trans member)
      have passes := (right last (List.mem_of_getLast? isLast)).mpr agreed
      rw [verdict] at passes
      exact Bool.false_ne_true passes
    · intro ending entry member
      exact (right entry member).mp (stops.otherwise ending entry member)

end

/-- The process of `main` before its first record. -/
def Process.start {σ : Type} (fd : BitVec 32) (system : σ) : Process σ := ⟨fd, system, []⟩

/-- The record of a successful open of the file `/a`. -/
def openArgs : ReplayArgs := ⟨openRecord.header, ⟨openRecord.path1, by decide⟩, none, none⟩

end Trfs.Replay
