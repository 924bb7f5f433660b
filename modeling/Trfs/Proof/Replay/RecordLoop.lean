import Trfs.Construction.Replay.RecordLoop
import Mathlib.Data.List.Forall2

namespace Trfs.Replay
open Bytes Trace Iteration

/-- A visit shows a record when it carries the record's own members and parts. -/
structure Shows (record : FramedRecord) (visit : Visit) : Prop where
  tracer : visit.tracer = record.header
  path1 : visit.pathbuf1 = record.path1
  path2 : record.header.pathLen2 ≠ 0 → visit.pathbuf2 = some record.path2
  content : record.header.writeLen ≠ 0 → visit.content = some record.content

/-- The loop ended at the end of the file after one visit of each record, in order. -/
structure VisitsAll {World : Type} (records : List FramedRecord) (result : Result World) : Prop where
  ending : result.ending = .finished
  visits : List.Forall₂ Shows records result.state.visits
  position : result.state.prevRecSize.toInt = (traceBytes records).length

section
variable {World : Type}

/-- The world in which the loop goes on after the visit of a record, if it does. -/
def goesOn (mode : Mode) (replayRecord : Visit → World → Option (World × Bool)) (world : World) (visit : Visit) :
    Option World :=
  if mode.replay then
    (replayRecord visit world).bind fun (next, replayRes) => if mode.abort ∧ ¬ replayRes then none else some next
  else some world

/-- The loop went on after these visits of the first records, and it visited the next one in the world reached. -/
structure GetsTo (mode : Mode) (replayRecord : Visit → World → Option (World × Bool)) (world : World)
    (records : List FramedRecord) (earlier : List Visit) (visit : Visit) (reached : World) : Prop where
  visits : List.Forall₂ Shows (records.take (earlier.length + 1)) (earlier ++ [visit])
  world : earlier.foldlM (goesOn mode replayRecord) world = some reached

/-- The loop visited all records and went on after each of them. -/
structure GoesThrough (mode : Mode) (replayRecord : Visit → World → Option (World × Bool)) (world : World)
    (records : List FramedRecord) (result : Result World) : Prop where
  all : VisitsAll records result
  world : result.state.visits.foldlM (goesOn mode replayRecord) world = some result.state.world

/-- With `-s` the loop left right after the first record whose replay deviated in the world that it had reached. -/
structure LeavesAtDeviation (mode : Mode) (replayRecord : Visit → World → Option (World × Bool)) (world : World)
    (records : List FramedRecord) (result : Result World) : Prop where
  replays : mode.replay = true
  aborts : mode.abort = true
  ending : result.ending = .deviated
  deviated : ∃ earlier visit reached, result.state.visits = earlier ++ [visit] ∧
    GetsTo mode replayRecord world records earlier visit reached ∧
    replayRecord visit reached = some (result.state.world, false)

/-- The process was killed in the first call of `replay_record` that did not return. -/
structure DiesAtRecord (mode : Mode) (replayRecord : Visit → World → Option (World × Bool)) (world : World)
    (records : List FramedRecord) (result : Result World) : Prop where
  replays : mode.replay = true
  ending : result.ending = .crashed
  killed : ∃ earlier visit reached, result.state.visits = earlier ++ [visit] ∧
    GetsTo mode replayRecord world records earlier visit reached ∧ replayRecord visit reached = none

end

theorem copyRange_middle (front data rest : List Byte) (offset count : Int)
    (start : offset = front.length) (size : count = data.length) :
    copyRange (front ++ (data ++ rest)) offset count = some data := by
  subst start size
  have inside : (0 : Int) ≤ front.length ∧ (0 : Int) ≤ data.length ∧
      (front.length + data.length : Int) ≤ (front ++ (data ++ rest)).length := by
    simp only [List.length_append]
    omega
  rw [copyRange, if_pos inside, Int.toNat_natCast, Int.toNat_natCast, load_middle]

section
variable {World : Type}

/-- The visit that the loop makes of a framed record. -/
def expectedVisit (state : LoopState World) (record : FramedRecord) : Visit :=
  ⟨record.header, record.path1,
    if record.header.pathLen2 ≠ 0 then some record.path2 else state.pathbuf2,
    if record.header.writeLen ≠ 0 then some record.content else state.content⟩

theorem expectedVisit_shows (state : LoopState World) (record : FramedRecord) :
    Shows record (expectedVisit state record) where
  tracer := rfl
  path1 := rfl
  path2 present := if_pos present
  content present := if_pos present

/-- The copies of one round return the parts of the record at the cursor. -/
theorem readRecord_framed (front rest : List Byte) (record : FramedRecord) (state : LoopState World)
    (cursor : state.prevRecSize.toInt = front.length) :
    readRecord (front ++ (record.bytes ++ rest)) state = some (expectedVisit state record) := by
  have size := record.imageSize
  have image : copyRange (front ++ (record.bytes ++ rest)) state.prevRecSize.toInt sizeofTraceDs =
      some record.image := by
    have layout : front ++ (record.bytes ++ rest) =
        front ++ (record.image ++ (record.payload ++ rest)) := by simp [Record.bytes]
    rw [layout]
    exact copyRange_middle _ _ _ _ _ cursor (by rw [size])
  have path1 : copyRange (front ++ (record.bytes ++ rest)) (state.prevRecSize.toInt + sizeofTraceDs)
      record.header.pathLen1.toInt = some record.path1 := by
    have layout : front ++ (record.bytes ++ rest) = (front ++ record.image) ++
        (record.path1 ++ (record.path2 ++ record.content ++ rest)) := by
      simp [Record.bytes, Record.payload]
    rw [layout]
    exact copyRange_middle _ _ _ _ _ (by simp [cursor, size]) record.pathLen1
  have path2 : copyRange (front ++ (record.bytes ++ rest))
      (state.prevRecSize.toInt + sizeofTraceDs + record.header.pathLen1.toInt)
      record.header.pathLen2.toInt = some record.path2 := by
    have layout : front ++ (record.bytes ++ rest) = (front ++ record.image ++ record.path1) ++
        (record.path2 ++ (record.content ++ rest)) := by simp [Record.bytes, Record.payload]
    rw [layout]
    refine copyRange_middle _ _ _ _ _ ?_ record.pathLen2
    have length1 := record.pathLen1
    simp only [Record.header, length1, cursor, List.length_append, size, Nat.cast_add]
  have content : copyRange (front ++ (record.bytes ++ rest))
      (state.prevRecSize.toInt + sizeofTraceDs + record.header.pathLen1.toInt +
        record.header.pathLen2.toInt) record.header.writeLen.toInt = some record.content := by
    have layout : front ++ (record.bytes ++ rest) =
        (front ++ record.image ++ record.path1 ++ record.path2) ++ (record.content ++ rest) := by
      simp [Record.bytes, Record.payload]
    rw [layout]
    refine copyRange_middle _ _ _ _ _ ?_ record.writeLen
    have length1 := record.pathLen1
    have length2 := record.pathLen2
    simp only [Record.header, length1, length2, cursor, List.length_append, size, Nat.cast_add]
  have header : TraceDs.view record.image = record.header := rfl
  simp only [readRecord, image, Option.bind_eq_bind, Option.bind_some, header, path1, path2, content,
    Option.map_some, expectedVisit]
  split <;> split <;> rfl

/-- The cursor moves over a header and parts whose lengths the header holds. -/
theorem nextRecSize_lengths (position path1 path2 content : Nat) (header : TraceDs)
    (length1 : header.pathLen1.toInt = path1) (length2 : header.pathLen2.toInt = path2)
    (length3 : header.writeLen.toInt = content)
    (small : position + (sizeofTraceDs + path1 + path2 + content) < 2 ^ 31) :
    nextRecSize (BitVec.ofNat 32 position) header =
      BitVec.ofNat 32 (position + (sizeofTraceDs + path1 + path2 + content)) := by
  have cursor : (BitVec.ofNat 32 position).toInt = position := toInt_ofNat_of_lt position (by omega)
  have start := signExtend_toNat _ _ (by decide) cursor
  have first := signExtend_toNat _ _ (by decide) length1
  have second := signExtend_toNat _ _ (by decide) length2
  have third := signExtend_toNat _ _ (by decide) length3
  apply BitVec.eq_of_toNat_eq
  simp only [nextRecSize, BitVec.toNat_setWidth, BitVec.toNat_add, BitVec.toNat_ofNat, start, first,
    second, third]
  simp only [sizeofTraceDs] at small ⊢
  omega

/-- The cursor moves to the first byte after the record. -/
theorem nextRecSize_framed (position : Nat) (record : FramedRecord)
    (small : position + record.bytes.length < 2 ^ 31) :
    nextRecSize (BitVec.ofNat 32 position) record.header =
      BitVec.ofNat 32 (position + record.bytes.length) := by
  have total := record.bytes_length
  rw [total] at small ⊢
  exact nextRecSize_lengths position _ _ _ _ record.pathLen1 record.pathLen2 record.writeLen small

/-- The loop condition compares the cursor with the last byte of the file. -/
theorem guard_eq (position size : Nat) (start : position < 2 ^ 31) (small : size < 2 ^ 63)
    (positive : 0 < size) :
    ((BitVec.ofNat 32 position).signExtend 64).slt (BitVec.ofNat 64 size - 1) =
      decide (position + 1 < size) := by
  have cursor := BitVec.toInt_signExtend_of_le (x := BitVec.ofNat 32 position) (show 32 ≤ 64 by decide)
  rw [toInt_ofNat_of_lt position (by omega)] at cursor
  have one : (1 : BitVec 64).toNat = 1 := rfl
  have last : (BitVec.ofNat 64 size - 1).toInt = size - 1 := by
    rw [BitVec.toInt_eq_toNat_of_lt] <;>
      simp only [BitVec.toNat_sub, BitVec.toNat_ofNat, one] <;> omega
  rw [BitVec.slt_eq_decide, cursor, last]
  exact decide_eq_decide.mpr (by omega)

/-- What a round makes of a visit. The cursor of the next round is at a given position. -/
inductive Visited (mode : Mode) (replayRecord : Visit → World → Option (World × Bool)) (state : LoopState World)
    (visit : Visit) (position : Nat) : Round (LoopState World) (Result World) → Prop where
  | again (next : LoopState World) (visits : next.visits = state.visits ++ [visit])
      (path2 : next.pathbuf2 = visit.pathbuf2) (content : next.content = visit.content)
      (cursor : next.prevRecSize = BitVec.ofNat 32 position)
      (world : goesOn mode replayRecord state.world visit = some next.world) :
      Visited mode replayRecord state visit position (.again next)
  | deviated (left : LoopState World) (visits : left.visits = state.visits ++ [visit])
      (replays : mode.replay = true) (aborts : mode.abort = true)
      (world : replayRecord visit state.world = some (left.world, false)) :
      Visited mode replayRecord state visit position (.stop ⟨.deviated, left⟩)
  | crashed (left : LoopState World) (visits : left.visits = state.visits ++ [visit])
      (replays : mode.replay = true) (killed : replayRecord visit state.world = none) :
      Visited mode replayRecord state visit position (.stop ⟨.crashed, left⟩)

/-- A round that stops has visited its record too. -/
theorem Visited.stopped {mode : Mode} {replayRecord : Visit → World → Option (World × Bool)} {state : LoopState World}
    {visit : Visit} {position : Nat} {result : Result World}
    (visited : Visited mode replayRecord state visit position (.stop result)) :
    result.state.visits = state.visits ++ [visit] := by
  cases visited with
  | deviated left visits => exact visits
  | crashed left visits => exact visits

/-- One round visits the record at the cursor, whatever follows it, if the file goes on there. -/
theorem recordRound_at (mode : Mode) (replayRecord : Visit → World → Option (World × Bool)) {front : List Byte}
    (rest : List Byte) {record : FramedRecord} {state : LoopState World} {stSize : BitVec 64}
    (near : (front ++ record.bytes).length < 2 ^ 31) (cursor : state.prevRecSize = BitVec.ofNat 32 front.length)
    (inside : (state.prevRecSize.signExtend 64).slt (stSize - 1) = true) :
    Visited mode replayRecord state (expectedVisit state record) (front ++ record.bytes).length
      (recordRound mode replayRecord (front ++ (record.bytes ++ rest)) stSize state) := by
  have short := near
  rw [List.length_append] at short
  have copied := readRecord_framed front rest record state
    (by rw [cursor, toInt_ofNat_of_lt _ (by omega)])
  have moved : nextRecSize state.prevRecSize record.header =
      BitVec.ofNat 32 (front ++ record.bytes).length := by
    rw [cursor, nextRecSize_framed _ _ short, List.length_append]
  simp only [recordRound, inside, copied, if_true]
  change nextRecSize state.prevRecSize (expectedVisit state record).tracer = _ at moved
  generalize expectedVisit state record = visit at *
  by_cases replays : mode.replay = true
  · simp only [if_pos replays]
    cases replayed : replayRecord visit state.world with
    | none => exact .crashed _ rfl replays replayed
    | some outcome =>
        obtain ⟨world, replayRes⟩ := outcome
        dsimp only
        by_cases leaves : mode.replay = true ∧ mode.abort = true ∧ ¬ replayRes = true
        · rw [if_pos leaves]
          obtain ⟨_, aborts, deviates⟩ := leaves
          rw [Bool.eq_false_iff.mpr deviates] at replayed
          exact .deviated _ rfl replays aborts replayed
        · rw [if_neg leaves]
          apply Visited.again _ rfl rfl rfl moved
          have stays : ¬ (mode.abort = true ∧ ¬ replayRes = true) := fun both => leaves ⟨replays, both⟩
          rw [goesOn, if_pos replays, replayed, Option.bind_some]
          exact if_neg stays
  · simp only [if_neg replays]
    rw [if_neg fun leaves => replays leaves.1]
    exact .again _ rfl rfl rfl moved (if_neg replays)

/-- The loop goes on at a record that lies within the file. -/
theorem guard_framed {front rest : List Byte} {record : FramedRecord} {state : LoopState World}
    (near : front.length < 2 ^ 31) (size : (front ++ (record.bytes ++ rest)).length < 2 ^ 63)
    (cursor : state.prevRecSize = BitVec.ofNat 32 front.length) :
    (state.prevRecSize.signExtend 64).slt
      (BitVec.ofNat 64 (front ++ (record.bytes ++ rest)).length - 1) = true := by
  have image := record.bytes_length
  have lengths : (front ++ (record.bytes ++ rest)).length =
      front.length + record.bytes.length + rest.length := by simp [Nat.add_assoc]
  simp only [sizeofTraceDs] at image
  rw [cursor, guard_eq _ _ near size (by omega)]
  exact decide_eq_true (by omega)

/-- How the loop ends after these visits, when the records take so many bytes. -/
inductive Ended (mode : Mode) (replayRecord : Visit → World → Option (World × Bool)) (world : World)
    (records : List FramedRecord) (size : Nat) (visits : List Visit) : Result World → Prop where
  | finished (state : LoopState World) (position : state.prevRecSize = BitVec.ofNat 32 size)
      (shows : List.Forall₂ Shows records visits)
      (through : visits.foldlM (goesOn mode replayRecord) world = some state.world) :
      Ended mode replayRecord world records size visits ⟨.finished, state⟩
  | deviated (state : LoopState World) (earlier : List Visit) (visit : Visit) (reached : World)
      (replays : mode.replay = true) (aborts : mode.abort = true) (split : visits = earlier ++ [visit])
      (gets : GetsTo mode replayRecord world records earlier visit reached)
      (replayed : replayRecord visit reached = some (state.world, false)) :
      Ended mode replayRecord world records size visits ⟨.deviated, state⟩
  | crashed (state : LoopState World) (earlier : List Visit) (visit : Visit) (reached : World)
      (replays : mode.replay = true) (split : visits = earlier ++ [visit])
      (gets : GetsTo mode replayRecord world records earlier visit reached)
      (killed : replayRecord visit reached = none) :
      Ended mode replayRecord world records size visits ⟨.crashed, state⟩

section
variable {mode : Mode} {replayRecord : Visit → World → Option (World × Bool)} {world next reached : World}
  {record : FramedRecord} {records : List FramedRecord} {first visit : Visit} {earlier visits : List Visit}
  {size : Nat} {result : Result World}

/-- A loop that gets to a record in the world after another record gets to it. -/
theorem GetsTo.cons (gets : GetsTo mode replayRecord next records earlier visit reached) (shows : Shows record first)
    (continues : goesOn mode replayRecord world first = some next) :
    GetsTo mode replayRecord world (record :: records) (first :: earlier) visit reached where
  visits := .cons shows gets.visits
  world := by
    rw [List.foldlM_cons, continues]
    exact gets.world

/-- The loop gets to the first record at once. -/
theorem GetsTo.start (shows : Shows record visit) :
    GetsTo mode replayRecord world (record :: records) [] visit world where
  visits := .cons shows .nil
  world := rfl

/-- A loop that goes on after a record ends as it does from there. -/
theorem Ended.cons (ended : Ended mode replayRecord next records size visits result) (shows : Shows record first)
    (continues : goesOn mode replayRecord world first = some next) :
    Ended mode replayRecord world (record :: records) size (first :: visits) result := by
  cases ended with
  | finished state position shown through =>
      apply Ended.finished state position (.cons shows shown)
      rw [List.foldlM_cons, continues]
      exact through
  | deviated state earlier visit reached replays aborts split gets replayed =>
      exact .deviated state (first :: earlier) visit reached replays aborts (congrArg (first :: ·) split)
        (gets.cons shows continues) replayed
  | crashed state earlier visit reached replays split gets killed =>
      exact .crashed state (first :: earlier) visit reached replays (congrArg (first :: ·) split)
        (gets.cons shows continues) killed

end

/-- The loop visits the records that are left, from any record boundary. -/
theorem iterate_framed (mode : Mode) (replayRecord : Visit → World → Option (World × Bool)) (fuel : Nat)
    (front : List Byte) (records : List FramedRecord) (state : LoopState World)
    (small : (front ++ traceBytes records).length < 2 ^ 31)
    (positive : 0 < (front ++ traceBytes records).length)
    (cursor : state.prevRecSize = BitVec.ofNat 32 front.length) (enough : records.length < fuel) :
    ∃ result visits, iterate (recordRound mode replayRecord (front ++ traceBytes records)
        (BitVec.ofNat 64 (front ++ traceBytes records).length)) fuel state = some result ∧
      result.state.visits = state.visits ++ visits ∧
      Ended mode replayRecord state.world records (front ++ traceBytes records).length visits result := by
  induction records generalizing fuel front state with
  | nil =>
      obtain ⟨fuel, rfl⟩ : ∃ more, fuel = more + 1 := ⟨fuel - 1, by simp at enough; omega⟩
      simp only [traceBytes_nil, List.append_nil] at small positive ⊢
      have outside : recordRound mode replayRecord front (BitVec.ofNat 64 front.length) state =
          .stop ⟨.finished, state⟩ := by
        have done : (state.prevRecSize.signExtend 64).slt (BitVec.ofNat 64 front.length - 1) = false := by
          rw [cursor, guard_eq _ _ small (by omega) positive]
          exact decide_eq_false (by omega)
        rw [recordRound, if_neg (by rw [done]; exact Bool.false_ne_true)]
      exact ⟨_, [], iterate_stop outside fuel, (List.append_nil _).symm, .finished state cursor .nil rfl⟩
  | cons record records ih =>
      obtain ⟨fuel, rfl⟩ : ∃ more, fuel = more + 1 := ⟨fuel - 1, by simp at enough; omega⟩
      rw [traceBytes_cons] at small positive ⊢
      have shows := expectedVisit_shows state record
      have near : (front ++ record.bytes).length < 2 ^ 31 := by
        simp only [List.length_append] at small ⊢
        omega
      have start : front.length < 2 ^ 31 := by
        rw [List.length_append] at near
        omega
      have whole : (front ++ (record.bytes ++ traceBytes records)).length < 2 ^ 63 := by omega
      have round := recordRound_at mode replayRecord (traceBytes records) near cursor
        (guard_framed start whole cursor)
      cases made : recordRound mode replayRecord (front ++ (record.bytes ++ traceBytes records))
          (BitVec.ofNat 64 (front ++ (record.bytes ++ traceBytes records)).length) state with
      | again next =>
          rw [made] at round
          obtain ⟨_, visited, _, _, moved, continues⟩ := round
          have regroup : front ++ (record.bytes ++ traceBytes records) =
              (front ++ record.bytes) ++ traceBytes records := by simp
          rw [iterate_again made, regroup]
          rw [regroup] at small positive
          obtain ⟨result, visits, ran, all, ended⟩ := ih fuel (front ++ record.bytes) next small positive moved
            (by simpa using enough)
          refine ⟨result, expectedVisit state record :: visits, ran, ?_, ended.cons shows continues⟩
          rw [all, visited, List.append_assoc, List.singleton_append]
      | stop result =>
          rw [made] at round
          refine ⟨result, [expectedVisit state record], iterate_stop made fuel, round.stopped, ?_⟩
          cases round with
          | deviated left _ replays aborts replayed =>
              exact .deviated left [] _ state.world replays aborts rfl (.start shows) replayed
          | crashed left _ replays killed => exact .crashed left [] _ state.world replays rfl (.start shows) killed

/-- The loop visits all records of a trace, or it stops at one of them. -/
theorem replayTrace_framed (mode : Mode) (replayRecord : Visit → World → Option (World × Bool)) (world : World)
    (records : List FramedRecord) (fuel : Nat) (small : (traceBytes records).length ≤ 0x7ffff000)
    (enough : records.length < fuel) :
    ∃ result, replayTrace mode replayRecord fuel (traceBytes records)
        (BitVec.ofNat 64 (traceBytes records).length) world = some result ∧
      (GoesThrough mode replayRecord world records result ∨ LeavesAtDeviation mode replayRecord world records result ∨
        DiesAtRecord mode replayRecord world records result) := by
  cases records with
  | nil => exact ⟨_, rfl, .inl ⟨⟨rfl, .nil, rfl⟩, rfl⟩⟩
  | cons record records =>
      have size := record.bytes_length
      simp only [sizeofTraceDs] at size
      have positive : 0 < (traceBytes (record :: records)).length := by
        rw [traceBytes_cons, List.length_append]
        omega
      have nonempty : BitVec.ofNat 64 (traceBytes (record :: records)).length ≠ 0 := by
        intro empty
        have value := congrArg BitVec.toNat empty
        simp only [BitVec.toNat_ofNat] at value
        change _ = 0 at value
        omega
      obtain ⟨result, visits, ran, all, ended⟩ := iterate_framed mode replayRecord fuel [] (record :: records)
        (startState world) (by simpa using Nat.lt_of_le_of_lt small (by decide))
        (by simpa using positive) rfl enough
      have visited : result.state.visits = visits := all.trans (List.nil_append _)
      refine ⟨result, by rw [replayTrace, if_neg nonempty]; exact ran, ?_⟩
      cases ended with
      | finished state position shows through =>
          left
          refine ⟨⟨rfl, ?_, ?_⟩, ?_⟩
          · rw [visited]
            exact shows
          · rw [position, List.nil_append, toInt_ofNat_of_lt _ (by omega)]
          · rw [visited]
            exact through
      | deviated state earlier visit reached replays aborts split gets replayed =>
          exact .inr (.inl ⟨replays, aborts, rfl, earlier, visit, reached, visited.trans split, gets, replayed⟩)
      | crashed state earlier visit reached replays split gets killed =>
          exact .inr (.inr ⟨replays, rfl, earlier, visit, reached, visited.trans split, gets, killed⟩)

end

/-- This record opens the file `/a`. -/
def openRecord : FramedRecord where
  image := TraceDs.assign ⟨2, 0, 0, 0, CallKind.open.recordType, 0, 0, 0⟩ (List.replicate sizeofTraceDs 0)
  path1 := [0x2f, 0x61]
  path2 := []
  content := []
  imageSize := by decide
  pathLen1 := by decide
  pathLen2 := by decide
  writeLen := by decide

end Trfs.Replay
