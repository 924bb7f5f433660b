import Trfs.Proof.Replay.HeldParts

namespace Trfs.Replay
open Bytes Trace Iteration

/-- The part of a record is its own when it has one or when no record before it has one. -/
def Fresh (part : FramedRecord → Option (List Byte)) (before : List FramedRecord) (record : FramedRecord) : Prop :=
  part record ≠ none ∨ ∀ earlier ∈ before, part earlier = none

section
variable {part : FramedRecord → Option (List Byte)}

/-- A record sees its own part exactly when the part is fresh. -/
theorem fresh_iff (before : List FramedRecord) (record : FramedRecord) :
    (part record).or (held part none before) = part record ↔ Fresh part before record := by
  unfold Fresh
  cases own : part record with
  | some bytes => simp
  | none =>
      rw [Option.none_or, held_eq_none]
      simp

end

/-- What `read` leaves in a buffer of the file's size: at most 0x7ffff000 bytes come from the file. -/
def ReadInto (buffer file : List Byte) : Prop :=
  buffer.length = file.length ∧ buffer.take 0x7ffff000 = file.take 0x7ffff000

/-- A completed run of the record loop over a trace, in any mode. -/
structure LoopRun (records : List FramedRecord) where
  World : Type
  mode : Mode
  replayRecord : Visit → World → Option (World × Bool)
  world : World
  buffer : List Byte
  fuel : Nat
  result : Result World
  size : buffer.length < 2 ^ 63
  read : ReadInto buffer (traceBytes records)
  ran : replayTrace mode replayRecord fuel buffer (BitVec.ofNat 64 buffer.length) world = some result

/-- The record is at this position, and it lies within what `read` delivers. -/
structure Delivered (records : List FramedRecord) (position : Nat) (record : FramedRecord) : Prop where
  record : records[position]? = some record
  within : (traceBytes (records.take (position + 1))).length ≤ 0x7ffff000

/-- The visit has the second path and the content of the record, and nothing where the record has none. -/
structure OwnParts (record : FramedRecord) (visit : Visit) : Prop where
  path2 : visit.pathbuf2 = secondPath record
  content : visit.content = writtenContent record

/-- Both parts of the record are fresh where it stands. -/
structure FreshAt (records : List FramedRecord) (position : Nat) (record : FramedRecord) : Prop where
  path2 : Fresh secondPath (records.take position) record
  content : Fresh writtenContent (records.take position) record

section
variable {records : List FramedRecord} {position : Nat} {record : FramedRecord} {visit : Visit}

theorem LoopRun.visit_parts (run : LoopRun records) (delivered : Delivered records position record)
    (visited : run.result.state.visits[position]? = some visit) :
    visit.pathbuf2 = (secondPath record).or (held secondPath none (records.take position)) ∧
      visit.content = (writtenContent record).or (held writtenContent none (records.take position)) := by
  have upTo : records.take (position + 1) = records.take position ++ [record] := by
    rw [List.take_add_one, delivered.record, Option.toList_some]
  have short : position < records.length := (List.getElem?_eq_some_iff.mp delivered.record).1
  have near := delivered.within
  rw [upTo] at near
  obtain ⟨rest, layout⟩ : ∃ rest, run.buffer = traceBytes (records.take position ++ [record]) ++ rest := by
    have front : run.buffer.take (traceBytes (records.take position ++ [record])).length =
        traceBytes (records.take position ++ [record]) := by
      have same := congrArg (List.take (traceBytes (records.take position ++ [record])).length) run.read.2
      rw [List.take_take, List.take_take, Nat.min_eq_left near] at same
      rw [same, ← upTo]
      conv_lhs => rw [← List.take_append_drop (position + 1) records, traceBytes_append]
      rw [List.take_left']
      rw [List.take_append_drop]
    exact ⟨_, by rw [← List.take_append_drop _ run.buffer, front]⟩
  have ran := run.ran
  rw [replayTrace] at ran
  split at ran
  · obtain same := Option.some.inj ran
    rw [← same] at visited
    cases visited
  · have short' : ([] ++ traceBytes (records.take position ++ [record])).length < 2 ^ 31 := by
      rw [List.nil_append]
      omega
    apply iterate_visit short' layout run.size rfl ran
    rw [List.length_take, Nat.min_eq_left (Nat.le_of_lt short)]
    simpa [startState] using visited

theorem LoopRun.ownParts_iff (run : LoopRun records) (delivered : Delivered records position record)
    (visited : run.result.state.visits[position]? = some visit) :
    OwnParts record visit ↔ FreshAt records position record := by
  obtain ⟨path2, content⟩ := run.visit_parts delivered visited
  constructor
  · intro own
    exact ⟨(fresh_iff _ _).mp (path2.symm.trans own.path2), (fresh_iff _ _).mp (content.symm.trans own.content)⟩
  · intro fresh
    exact ⟨path2.trans ((fresh_iff _ _).mpr fresh.path2), content.trans ((fresh_iff _ _).mpr fresh.content)⟩

end

/-- The visits of one record in two runs see the same arguments, and these are the record's own. -/
structure SameOwnParts (record : FramedRecord) (first second : Visit) : Prop where
  path2 : first.pathbuf2 = second.pathbuf2
  content : first.content = second.content
  ownFirst : OwnParts record first
  ownSecond : OwnParts record second

/-- Two loops over traces that share a record hand on its own parts exactly when the parts are fresh in both. -/
theorem recordLocal_iff {first second : List FramedRecord} (one : LoopRun first) (two : LoopRun second)
    (position : Nat) (record : FramedRecord) (visit visit' : Visit) (inFirst : Delivered first position record)
    (inSecond : Delivered second position record) (visited : one.result.state.visits[position]? = some visit)
    (visited' : two.result.state.visits[position]? = some visit') :
    SameOwnParts record visit visit' ↔ FreshAt first position record ∧ FreshAt second position record := by
  rw [← one.ownParts_iff inFirst visited, ← two.ownParts_iff inSecond visited']
  constructor
  · intro same
    exact ⟨same.ownFirst, same.ownSecond⟩
  · rintro ⟨own, own'⟩
    exact ⟨own.path2.trans own'.path2.symm, own.content.trans own'.content.symm, own, own'⟩

/-- This record writes the two bytes `hi` to the file `/a`. -/
def hiRecord : FramedRecord where
  image := TraceDs.assign ⟨2, 0, 2, 0, CallKind.write.recordType, 0, 0, 2⟩ (List.replicate sizeofTraceDs 0)
  path1 := [0x2f, 0x61]
  path2 := []
  content := [0x68, 0x69]
  imageSize := by decide
  pathLen1 := by decide
  pathLen2 := by decide
  writeLen := by decide

/-- This record is a write of no bytes to the file `/a`. -/
def emptyWriteRecord : FramedRecord where
  image := TraceDs.assign ⟨2, 0, 0, 1, CallKind.write.recordType, 0, 0, 0⟩ (List.replicate sizeofTraceDs 0)
  path1 := [0x2f, 0x61]
  path2 := []
  content := []
  imageSize := by decide
  pathLen1 := by decide
  pathLen2 := by decide
  writeLen := by decide

/-- The loop of `treplay -n` over a file that one `read` delivers. -/
def printRun (records : List FramedRecord) (fuel : Nat) (result : Result Unit)
    (small : (traceBytes records).length < 2 ^ 63)
    (ran : replayTrace ⟨false, false⟩ (fun _ world => some (world, true)) fuel (traceBytes records)
      (BitVec.ofNat 64 (traceBytes records).length) () = some result) : LoopRun records :=
  ⟨Unit, ⟨false, false⟩, fun _ world => some (world, true), (), traceBytes records, fuel, result, small, ⟨rfl, rfl⟩, ran⟩

/-- The loop of `treplay -n` visits both records of a trace of two. -/
theorem printRun_second (first second : FramedRecord)
    (shows : (replayTrace ⟨false, false⟩ (fun _ (world : Unit) => some (world, true)) 3 (traceBytes [first, second])
      (BitVec.ofNat 64 (traceBytes [first, second]).length) ()).map (fun result => result.state.visits.length) = some 2)
    (small : (traceBytes [first, second]).length < 2 ^ 63) :
    ∃ (run : LoopRun [first, second]) (visit : Visit), run.result.state.visits[1]? = some visit := by
  obtain ⟨result, ran, two⟩ := Option.map_eq_some_iff.mp shows
  have there : 1 < result.state.visits.length := by omega
  exact ⟨printRun [first, second] 3 result small ran, _, List.getElem?_eq_getElem there⟩

/-- The write of `hi` comes after an empty write in one trace and after an open in the other. -/
theorem recordLocal_iff_fresh :
    ∃ (one : LoopRun [emptyWriteRecord, hiRecord]) (two : LoopRun [openRecord, hiRecord]) (visit visit' : Visit),
      one.result.state.visits[1]? = some visit ∧ two.result.state.visits[1]? = some visit' ∧
        (SameOwnParts hiRecord visit visit' ↔ FreshAt [emptyWriteRecord, hiRecord] 1 hiRecord ∧
          FreshAt [openRecord, hiRecord] 1 hiRecord) := by
  obtain ⟨one, visit, visited⟩ := printRun_second emptyWriteRecord hiRecord (by decide +kernel) (by decide)
  obtain ⟨two, visit', visited'⟩ := printRun_second openRecord hiRecord (by decide +kernel) (by decide)
  exact ⟨one, two, visit, visit', visited, visited',
    recordLocal_iff one two 1 hiRecord visit visit' ⟨rfl, by decide⟩ ⟨rfl, by decide⟩ visited visited'⟩

/-- After a write of `hi` the replay of an empty write gets these two bytes again. -/
theorem emptyWrite_not_recordLocal :
    ∃ (one : LoopRun [hiRecord, emptyWriteRecord]) (two : LoopRun [emptyWriteRecord, emptyWriteRecord])
      (visit visit' : Visit), Delivered [hiRecord, emptyWriteRecord] 1 emptyWriteRecord ∧
        Delivered [emptyWriteRecord, emptyWriteRecord] 1 emptyWriteRecord ∧
        one.result.state.visits[1]? = some visit ∧ two.result.state.visits[1]? = some visit' ∧
        visit.content = some [0x68, 0x69] ∧ visit'.content = none ∧
        ¬ SameOwnParts emptyWriteRecord visit visit' := by
  have stale : (replayTrace ⟨false, false⟩ (fun _ world => some (world, true)) 3
      (traceBytes [hiRecord, emptyWriteRecord])
      (BitVec.ofNat 64 (traceBytes [hiRecord, emptyWriteRecord]).length) ()).map
        (fun result => (result.state.visits[1]?).map Visit.content) = some (some (some [0x68, 0x69])) := by
    decide +kernel
  have fresh : (replayTrace ⟨false, false⟩ (fun _ world => some (world, true)) 3
      (traceBytes [emptyWriteRecord, emptyWriteRecord])
      (BitVec.ofNat 64 (traceBytes [emptyWriteRecord, emptyWriteRecord]).length) ()).map
        (fun result => (result.state.visits[1]?).map Visit.content) = some (some none) := by
    decide +kernel
  obtain ⟨one, ran, first⟩ := Option.map_eq_some_iff.mp stale
  obtain ⟨visit, visited, content⟩ := Option.map_eq_some_iff.mp first
  obtain ⟨two, ran', second⟩ := Option.map_eq_some_iff.mp fresh
  obtain ⟨visit', visited', content'⟩ := Option.map_eq_some_iff.mp second
  refine ⟨printRun _ 3 one (by decide) ran, printRun _ 3 two (by decide) ran', visit, visit', ⟨rfl, by decide⟩,
    ⟨rfl, by decide⟩, visited, visited', content, content', ?_⟩
  intro same
  have equal := same.content
  rw [content, content'] at equal
  cases equal

end Trfs.Replay
