import Trfs.Proof.Replay.RecordLoop

namespace Trfs.Replay
open Bytes Trace Iteration

section
variable {World : Type}

/-- The header at the cursor. -/
def headerAt (buffer : List Byte) (state : LoopState World) : TraceDs :=
  TraceDs.view (load buffer state.prevRecSize.toInt.toNat sizeofTraceDs)

/-- The loop goes into another round. -/
def InLoop (stSize : BitVec 64) (state : LoopState World) : Prop :=
  (state.prevRecSize.signExtend 64).slt (stSize - 1) = true

/-- The round copies only bytes of the buffer, all its lengths are not negative, and its cursor moves on. -/
structure SafeRound (buffer : List Byte) (state : LoopState World) : Prop where
  cursor : 0 ≤ state.prevRecSize.toInt
  header : state.prevRecSize.toInt + sizeofTraceDs ≤ buffer.length
  path1 : 0 ≤ (headerAt buffer state).pathLen1.toInt
  path2 : 0 ≤ (headerAt buffer state).pathLen2.toInt
  content : 0 ≤ (headerAt buffer state).writeLen.toInt
  payload : state.prevRecSize.toInt + sizeofTraceDs + (headerAt buffer state).pathLen1.toInt +
    (headerAt buffer state).pathLen2.toInt + (headerAt buffer state).writeLen.toInt ≤ buffer.length
  moves : state.prevRecSize.toInt < (nextRecSize state.prevRecSize (headerAt buffer state)).toInt

end

/-- In all runs over a file of which `read` delivered this many bytes, every round is safe and the loop ends. -/
structure DecodesSafely (file : List Byte) (count : Nat) : Prop where
  rounds : ∀ (World : Type) (mode : Mode) (replayRecord : Visit → World → Option (World × Bool)) (world : World)
    (state : LoopState World),
    Reaches (recordRound mode replayRecord (file.take count) (BitVec.ofNat 64 file.length)) (startState world) state →
      InLoop (BitVec.ofNat 64 file.length) state → SafeRound (file.take count) state
  ends : ∀ (World : Type) (mode : Mode) (replayRecord : Visit → World → Option (World × Bool)) (world : World),
    ∃ fuel result, replayTrace mode replayRecord fuel (file.take count) (BitVec.ofNat 64 file.length) world =
      some result

/-- What was delivered begins with whole records, and at most one byte of the file is behind them. -/
def WholeRecords (file : List Byte) (count : Nat) : Prop :=
  ∃ records tail, file.take count = traceBytes records ++ tail ∧ file.length ≤ (traceBytes records).length + 1

section
variable {World : Type} {buffer front rest : List Byte} {state : LoopState World}

/-- The bytes at the cursor of a safe round begin with a record. -/
theorem SafeRound.framed (safe : SafeRound buffer state) (split : buffer = front ++ rest)
    (cursor : state.prevRecSize.toInt = front.length) :
    ∃ (record : FramedRecord) (tail : List Byte), rest = record.bytes ++ tail := by
  obtain ⟨_, _, path1, path2, content, payload, _⟩ := safe
  have header : headerAt buffer state = TraceDs.view (rest.take sizeofTraceDs) := by
    rw [headerAt, cursor, Int.toNat_natCast, split, load_append]
  have size : (buffer.length : Int) = front.length + rest.length := by
    rw [split, List.length_append, Nat.cast_add]
  rw [header] at path1 path2 content payload
  obtain ⟨length1, first⟩ := Int.eq_ofNat_of_zero_le path1
  obtain ⟨length2, second⟩ := Int.eq_ofNat_of_zero_le path2
  obtain ⟨length3, third⟩ := Int.eq_ofNat_of_zero_le content
  have inside : sizeofTraceDs + length1 + length2 + length3 ≤ rest.length := by
    rw [first, second, third, cursor, size] at payload
    omega
  refine ⟨⟨⟨rest.take sizeofTraceDs, (rest.drop sizeofTraceDs).take length1,
    (rest.drop (sizeofTraceDs + length1)).take length2,
    (rest.drop (sizeofTraceDs + length1 + length2)).take length3⟩, ?_, ?_, ?_, ?_⟩,
    rest.drop (sizeofTraceDs + length1 + length2 + length3), ?_⟩
  · rw [List.length_take]
    omega
  · rw [first, List.length_take, List.length_drop]
    omega
  · rw [second, List.length_take, List.length_drop]
    omega
  · rw [third, List.length_take, List.length_drop]
    omega
  · have part3 := List.take_append_drop length3 (rest.drop (sizeofTraceDs + length1 + length2))
    have part2 := List.take_append_drop length2 (rest.drop (sizeofTraceDs + length1))
    have part1 := List.take_append_drop length1 (rest.drop sizeofTraceDs)
    rw [List.drop_drop] at part1 part2 part3
    simp only [Record.bytes, Record.payload, List.append_assoc]
    rw [part3, part2, part1, List.take_append_drop]

/-- The loop goes on as long as the file has more than one byte behind the cursor. -/
theorem inLoop_iff {position size : Nat} (cursor : state.prevRecSize = BitVec.ofNat 32 position)
    (near : position < 2 ^ 31) (within : position ≤ size) (small : size < 2 ^ 63) :
    InLoop (BitVec.ofNat 64 size) state ↔ position + 1 < size := by
  rw [InLoop, cursor]
  rcases Nat.eq_zero_or_pos size with empty | positive
  · have start : position = 0 := by omega
    subst empty start
    simp
  · rw [guard_eq position size near small positive, decide_eq_true_iff]

/-- A round at a whole record is safe. -/
theorem safeRound_framed {record : FramedRecord} (split : buffer = front ++ (record.bytes ++ rest))
    (cursor : state.prevRecSize = BitVec.ofNat 32 front.length)
    (near : (front ++ record.bytes).length < 2 ^ 31) : SafeRound buffer state := by
  have size := record.bytes_length
  simp only [List.length_append] at near
  have start : state.prevRecSize.toInt = front.length := by rw [cursor, toInt_ofNat_of_lt _ (by omega)]
  have total : (buffer.length : Int) = front.length + record.bytes.length + rest.length := by
    rw [split]
    simp only [List.length_append]
    omega
  have header : headerAt buffer state = record.header := by
    rw [headerAt, start, Int.toNat_natCast, split, load_append]
    simp only [Record.bytes, List.append_assoc]
    rw [← record.imageSize, List.take_left]
    rfl
  have length1 : record.header.pathLen1.toInt = record.path1.length := record.pathLen1
  have length2 : record.header.pathLen2.toInt = record.path2.length := record.pathLen2
  have length3 : record.header.writeLen.toInt = record.content.length := record.writeLen
  constructor
  · rw [start]
    omega
  · rw [start, total]
    omega
  · rw [header, length1]
    omega
  · rw [header, length2]
    omega
  · rw [header, length3]
    omega
  · rw [header, start, total, length1, length2, length3]
    omega
  · rw [header, start, cursor, nextRecSize_framed _ _ near, toInt_ofNat_of_lt _ (by omega)]
    simp only [sizeofTraceDs] at size
    omega

/-- Before every round the cursor is behind some bytes and in front of whole records. -/
def AtRecords (file : List Byte) (count : Nat) (state : LoopState World) (records : List FramedRecord) : Prop :=
  ∃ front tail, file.take count = front ++ (traceBytes records ++ tail) ∧
    state.prevRecSize = BitVec.ofNat 32 front.length ∧
    file.length ≤ (front ++ traceBytes records).length + 1

variable {file : List Byte} {count : Nat} {records : List FramedRecord} (mode : Mode)
  (replayRecord : Visit → World → Option (World × Bool))

theorem recordRound_outside {stSize : BitVec 64} (outside : ¬ InLoop stSize state) :
    recordRound mode replayRecord buffer stSize state = .stop ⟨.finished, state⟩ := by
  rw [InLoop] at outside
  rw [recordRound, if_neg outside]

/-- The loop is at the end, or it is at a record and the round of this record is safe. -/
theorem AtRecords.round (boundary : AtRecords file count state records) (size : file.length < 2 ^ 63)
    (read : count ≤ min file.length 0x7ffff000) :
    ¬ InLoop (BitVec.ofNat 64 file.length) state ∨
    ∃ record more, records = record :: more ∧ SafeRound (file.take count) state ∧
      ∀ next, recordRound mode replayRecord (file.take count) (BitVec.ofNat 64 file.length) state = .again next →
        AtRecords file count next more := by
  obtain ⟨front, tail, split, cursor, covered⟩ := boundary
  have delivered : (file.take count).length ≤ 0x7ffff000 := by
    rw [List.length_take]
    omega
  have parts : (file.take count).length = front.length + (traceBytes records).length + tail.length := by
    rw [split]
    simp only [List.length_append]
    omega
  have within : (file.take count).length ≤ file.length := List.length_take_le' _ _
  by_cases inside : InLoop (BitVec.ofNat 64 file.length) state
  · right
    have more := (inLoop_iff cursor (by omega) (by omega) size).mp inside
    cases records with
    | nil =>
        simp only [traceBytes_nil, List.append_nil] at covered
        omega
    | cons record records =>
        rw [traceBytes_cons, List.append_assoc] at split
        have near : (front ++ record.bytes).length < 2 ^ 31 := by
          rw [traceBytes_cons, List.length_append] at parts
          rw [List.length_append]
          omega
        refine ⟨record, records, rfl, safeRound_framed split cursor near, ?_⟩
        intro next continues
        have at_ := recordRound_at mode replayRecord (traceBytes records ++ tail) near cursor inside
        rw [← split, continues] at at_
        obtain ⟨_, _, _, _, moved⟩ := at_
        refine ⟨front ++ record.bytes, tail, ?_, moved, ?_⟩
        · rw [split, List.append_assoc]
        · rw [List.append_assoc, ← traceBytes_cons]
          exact covered
  · left
    exact inside

/-- With one round more than there are records the loop ends. -/
theorem AtRecords.ends (size : file.length < 2 ^ 63) (read : count ≤ min file.length 0x7ffff000)
    (boundary : AtRecords file count state records) :
    ∃ result, iterate (recordRound mode replayRecord (file.take count) (BitVec.ofNat 64 file.length))
      (records.length + 1) state = some result := by
  induction records generalizing state with
  | nil =>
      rcases boundary.round mode replayRecord size read with outside | ⟨_, _, none, _⟩
      · exact ⟨_, iterate_stop (recordRound_outside mode replayRecord outside) 0⟩
      · cases none
  | cons record records ih =>
      rcases boundary.round mode replayRecord size read with outside |
        ⟨first, more, same, _, goes⟩
      · exact ⟨_, iterate_stop (recordRound_outside mode replayRecord outside) _⟩
      · cases same
        cases round : recordRound mode replayRecord (file.take count) (BitVec.ofNat 64 file.length) state with
        | again next =>
            rw [List.length_cons, iterate_again round]
            exact ih (goes next round)
        | stop result => exact ⟨result, iterate_stop round _⟩

/-- Before some round, the bytes that are left begin with whole records that reach the end of the file. -/
theorem DecodesSafely.whole (safe : DecodesSafely file count) (size : file.length < 2 ^ 63)
    (read : count ≤ min file.length 0x7ffff000) {front rest : List Byte} {state : LoopState Unit}
    (reaches : Reaches (recordRound ⟨false, false⟩ (fun _ world => some (world, true)) (file.take count)
      (BitVec.ofNat 64 file.length)) (startState ()) state)
    (split : file.take count = front ++ rest) (cursor : state.prevRecSize = BitVec.ofNat 32 front.length) :
    ∃ records tail, rest = traceBytes records ++ tail ∧
      file.length ≤ front.length + (traceBytes records).length + 1 := by
  have parts : (file.take count).length = front.length + rest.length := by rw [split, List.length_append]
  have delivered : (file.take count).length ≤ 0x7ffff000 := by
    rw [List.length_take]
    omega
  have within : (file.take count).length ≤ file.length := List.length_take_le' _ _
  by_cases inside : InLoop (BitVec.ofNat 64 file.length) state
  · have start : state.prevRecSize.toInt = front.length := by rw [cursor, toInt_ofNat_of_lt _ (by omega)]
    obtain ⟨record, tail, framed⟩ := (safe.rounds _ _ _ _ state reaches inside).framed split start
    have positive : 0 < record.bytes.length := by
      rw [record.bytes_length, sizeofTraceDs]
      omega
    have shorter : rest.length = record.bytes.length + tail.length := by rw [framed, List.length_append]
    have near : (front ++ record.bytes).length < 2 ^ 31 := by
      rw [List.length_append]
      omega
    have split' := split
    rw [framed] at split'
    have round := recordRound_at ⟨false, false⟩ (fun _ (world : Unit) => some (world, true)) tail near cursor inside
    rw [← split'] at round
    cases made : recordRound ⟨false, false⟩ (fun _ world => some (world, true)) (file.take count)
        (BitVec.ofNat 64 file.length) state with
    | again next =>
        rw [made] at round
        obtain ⟨_, _, _, _, moved⟩ := round
        obtain ⟨records, last, whole, covered⟩ := safe.whole size read (reaches.again made)
          (by rw [split', List.append_assoc]) moved
        refine ⟨record :: records, last, ?_, ?_⟩
        · rw [framed, whole, traceBytes_cons, List.append_assoc]
        · rw [traceBytes_cons]
          simp only [List.length_append] at covered ⊢
          omega
    | stop result =>
        rw [made] at round
        rcases round with _ | ⟨_, _, replays⟩ | ⟨_, _, replays⟩
        · cases replays
        · cases replays
  · have outside := mt (inLoop_iff cursor (by omega) (by omega) size).mpr inside
    refine ⟨[], rest, rfl, ?_⟩
    simp only [traceBytes_nil, List.length_nil]
    omega
termination_by rest.length
decreasing_by omega

end

/-- The loop decodes a file safely exactly when whole records reach the last byte of the file or the one before. -/
theorem decodesSafely_iff (file : List Byte) (count : Nat) (size : file.length < 2 ^ 63)
    (read : count ≤ min file.length 0x7ffff000) : DecodesSafely file count ↔ WholeRecords file count := by
  constructor
  · intro safe
    obtain ⟨records, tail, whole, covered⟩ := safe.whole size read .start (List.nil_append _).symm rfl
    exact ⟨records, tail, whole, by simpa using covered⟩
  · intro ⟨records, tail, whole, covered⟩
    have start : ∀ {World : Type} (world : World), AtRecords file count (startState world) records :=
      fun world => ⟨[], tail, whole, rfl, covered⟩
    constructor
    · intro World mode replayRecord world state reaches inside
      have boundary : ∃ left, AtRecords file count state left := by
        have step : ∀ current next, (∃ left, AtRecords file count current left) →
            recordRound mode replayRecord (file.take count) (BitVec.ofNat 64 file.length) current = .again next →
            ∃ left, AtRecords file count next left := by
          intro current next ⟨left, here⟩ continues
          rcases here.round mode replayRecord size read with outside | ⟨_, more, _, _, goes⟩
          · rw [recordRound_outside mode replayRecord outside] at continues
            cases continues
          · exact ⟨more, goes next continues⟩
        exact reaches.keeps step ⟨records, start world⟩
      obtain ⟨left, here⟩ := boundary
      rcases here.round mode replayRecord size read with outside | ⟨_, _, _, safe, _⟩
      · exact absurd inside outside
      · exact safe
    · intro World mode replayRecord world
      rcases Decidable.em (BitVec.ofNat 64 file.length = 0) with empty | full
      · refine ⟨0, ⟨.finished, startState world⟩, ?_⟩
        rw [replayTrace, if_pos empty]
      · obtain ⟨result, ran⟩ := (start world).ends mode replayRecord size read
        refine ⟨records.length + 1, result, ?_⟩
        rw [replayTrace, if_neg full]
        exact ran

theorem decodesSafely_iff_open :
    (DecodesSafely (traceBytes [openRecord]) 30 ↔ WholeRecords (traceBytes [openRecord]) 30) :=
  decodesSafely_iff (traceBytes [openRecord]) 30 (by decide) (by decide)

/-- The loop reads a header that a file of ten bytes does not have. -/
theorem truncated_unsafe : ¬ DecodesSafely (openRecord.bytes.take 10) 10 := by
  intro safe
  have first := safe.rounds Unit ⟨false, false⟩ (fun _ world => some (world, true)) () (startState ()) .start
    (by rw [InLoop]; decide)
  exact absurd first.header (by decide)

end Trfs.Replay
