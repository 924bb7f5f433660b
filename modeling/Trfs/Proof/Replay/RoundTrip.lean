import Trfs.Proof.Replay.HeldParts

namespace Trfs.Replay
open Bytes Trace Iteration

/-- The replay of a record takes the length of `NULL`: it is a write and no record has had any content yet. -/
def Visit.writesNull (visit : Visit) : Prop :=
  CallKind.ofRecordType visit.tracer.recordType = some .write ∧ visit.content = none

/-- Every write record has content or comes after a record with content. -/
def ContentFirst (records : List FramedRecord) : Prop :=
  ∀ earlier record later, records = earlier ++ record :: later →
    CallKind.ofRecordType record.header.recordType = some .write →
      ∃ filled ∈ earlier ++ [record], filled.header.writeLen ≠ 0

/-- A trace without writes needs no content. -/
theorem contentFirst_of_no_write {records : List FramedRecord}
    (other : ∀ record ∈ records, CallKind.ofRecordType record.header.recordType ≠ some .write) :
    ContentFirst records := by
  intro earlier record later split write
  apply absurd write
  apply other record
  rw [split]
  simp

/-- The calls of `replay_record` return, as far as a null content does not kill them. -/
structure Returning {World : Type} (replayRecord : Visit → World → Option (World × Bool))
    (records : List FramedRecord) : Prop where
  returns : ∀ visit world, ¬ visit.writesNull → (replayRecord visit world).isSome = true
  content : ContentFirst records

section
variable {World : Type} {mode : Mode} {replayRecord : Visit → World → Option (World × Bool)} {world : World}
  {records : List FramedRecord} {result : Result World}

/-- The buffer of the contents is empty at a visit only when no record so far has content. -/
theorem visit_content {fuel : Nat} (small : (traceBytes records).length ≤ 0x7ffff000)
    (ran : replayTrace mode replayRecord fuel (traceBytes records) (BitVec.ofNat 64 (traceBytes records).length)
      world = some result)
    {earlier later : List FramedRecord} {record : FramedRecord} {visit : Visit}
    (split : records = earlier ++ record :: later) (visited : result.state.visits[earlier.length]? = some visit)
    (empty : visit.content = none) : ∀ filled ∈ earlier ++ [record], filled.header.writeLen = 0 := by
  have layout : traceBytes records = traceBytes (earlier ++ [record]) ++ traceBytes later := by
    rw [split, ← traceBytes_append, List.append_assoc, List.singleton_append]
  have near : ([] ++ traceBytes (earlier ++ [record])).length < 2 ^ 31 := by
    rw [layout, List.length_append] at small
    rw [List.nil_append]
    omega
  rw [replayTrace] at ran
  split at ran
  · obtain rfl := Option.some.inj ran
    cases visited
  · have parts := iterate_visit near layout (by omega) rfl ran (by simpa [startState] using visited)
    rw [empty] at parts
    obtain ⟨own, before⟩ := Option.or_eq_none_iff.mp parts.2.symm
    obtain ⟨_, before⟩ := (held_eq_none earlier).mp before
    intro filled member
    rw [← writtenContent_eq_none]
    rcases List.mem_append.mp member with among | last
    · exact before filled among
    · rw [List.mem_singleton.mp last]
      exact own

/-- The visits show the records before, and the last one shows the record that the loop gets to. -/
theorem GetsTo.split {earlier : List Visit} {visit : Visit} {reached : World}
    (gets : GetsTo mode replayRecord world records earlier visit reached) :
    ∃ shown record later, records = shown ++ record :: later ∧ List.Forall₂ Shows shown earlier ∧
      Shows record visit := by
  have lengths := gets.visits.length_eq
  rw [List.length_take, List.length_append, List.length_singleton] at lengths
  have inside : earlier.length < records.length := by omega
  refine ⟨records.take earlier.length, records[earlier.length], records.drop (earlier.length + 1), ?_, ?_, ?_⟩
  · rw [List.getElem_cons_drop, List.take_append_drop]
  · have front := List.forall₂_take_append _ _ _ gets.visits
    rw [List.take_take, Nat.min_eq_left (Nat.le_succ _)] at front
    exact front
  · have last := gets.visits.get (i := earlier.length) (by rw [List.length_take]; omega) (by simp)
    simpa using last

/-- The process is not killed at a record of a trace that can be replayed. -/
theorem Returning.lives {fuel : Nat} (returning : Returning replayRecord records)
    (small : (traceBytes records).length ≤ 0x7ffff000)
    (ran : replayTrace mode replayRecord fuel (traceBytes records) (BitVec.ofNat 64 (traceBytes records).length)
      world = some result) : ¬ DiesAtRecord mode replayRecord world records result := by
  intro dies
  obtain ⟨earlier, visit, reached, visits, gets, killed⟩ := dies.killed
  obtain ⟨shown, record, later, split, before, shows⟩ := gets.split
  have visited : result.state.visits[shown.length]? = some visit := by
    rw [visits, before.length_eq, List.getElem?_concat_length]
  by_cases null : visit.writesNull
  · obtain ⟨write, empty⟩ := null
    rw [shows.tracer] at write
    obtain ⟨filled, among, length⟩ := returning.content shown record later split write
    exact length (visit_content small ran split visited empty filled among)
  · have returns := returning.returns visit reached null
    rw [killed] at returns
    cases returns

end

/-- The record loop decodes what the tracers encoded. It visits every record once, in order, and ends at the end of
the file, unless `-s` stops it right after the first record whose replay deviates. -/
theorem replayTrace_roundTrip {World : Type} (mode : Mode)
    (replayRecord : Visit → World → Option (World × Bool)) (world : World) (records : List FramedRecord) (fuel : Nat)
    (small : (traceBytes records).length ≤ 0x7ffff000) (enough : records.length < fuel)
    (returning : mode.replay = true → Returning replayRecord records) :
    ∃ result, replayTrace mode replayRecord fuel (traceBytes records)
        (BitVec.ofNat 64 (traceBytes records).length) world = some result ∧
      (GoesThrough mode replayRecord world records result ∨
        LeavesAtDeviation mode replayRecord world records result) := by
  obtain ⟨result, ran, through | leaves | dies⟩ := replayTrace_framed mode replayRecord world records fuel small enough
  · exact ⟨result, ran, .inl through⟩
  · exact ⟨result, ran, .inr leaves⟩
  · exact absurd dies ((returning dies.replays).lives small ran)

/-- A replay in which the second record deviates. -/
def secondDeviates (_ : Visit) (replayed : Nat) : Option (Nat × Bool) := some (replayed + 1, decide (replayed ≠ 1))

/-- With `-s` the loop visits two of three records. -/
theorem replayTrace_roundTrip_second :
    ∃ result, replayTrace ⟨true, true⟩ secondDeviates 4 (traceBytes [openRecord, openRecord, openRecord])
        (BitVec.ofNat 64 (traceBytes [openRecord, openRecord, openRecord]).length) 0 = some result ∧
      result.state.visits.length = 2 ∧
      LeavesAtDeviation ⟨true, true⟩ secondDeviates 0 [openRecord, openRecord, openRecord] result := by
  have content : ContentFirst [openRecord, openRecord, openRecord] := contentFirst_of_no_write (by decide)
  obtain ⟨result, ran, outcome⟩ := replayTrace_roundTrip ⟨true, true⟩ secondDeviates 0
    [openRecord, openRecord, openRecord] 4 (by decide) (by decide) fun _ => ⟨fun _ _ _ => rfl, content⟩
  have seen : (replayTrace ⟨true, true⟩ secondDeviates 4 (traceBytes [openRecord, openRecord, openRecord])
      (BitVec.ofNat 64 (traceBytes [openRecord, openRecord, openRecord]).length) 0).map
        (fun result => (result.state.visits.length, result.ending)) = some (2, .deviated) := by decide +kernel
  rw [ran] at seen
  obtain ⟨two, ending⟩ := Prod.mk.inj (Option.some.inj seen)
  rcases outcome with through | leaves
  · rw [through.all.ending] at ending
    cases ending
  · exact ⟨result, ran, two, leaves⟩

/-- With `-s` the loop leaves after the first record whose replay deviates. -/
theorem replayTrace_not_visitsAll :
    ¬ ∀ (mode : Mode) (replayRecord : Visit → Unit → Option (Unit × Bool)) (records : List FramedRecord) (fuel : Nat),
      (traceBytes records).length ≤ 0x7ffff000 → records.length < fuel →
      ∃ result, replayTrace mode replayRecord fuel (traceBytes records)
          (BitVec.ofNat 64 (traceBytes records).length) () = some result ∧ VisitsAll records result := by
  intro visitsAll
  obtain ⟨result, ran, all⟩ := visitsAll ⟨true, true⟩ (fun _ world => some (world, false))
    [openRecord, openRecord] 3 (by decide) (by decide)
  have stopped : (replayTrace ⟨true, true⟩ (fun _ world => some (world, false)) 3
      (traceBytes [openRecord, openRecord])
      (BitVec.ofNat 64 (traceBytes [openRecord, openRecord]).length) ()).map
        (fun result => result.state.visits.length) = some 1 := by decide
  rw [ran] at stopped
  have one : result.state.visits.length = 1 := by simpa using stopped
  have two := all.visits.length_eq
  rw [one] at two
  exact absurd two (by decide)

end Trfs.Replay
