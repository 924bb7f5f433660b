import Trfs.Proof.Replay.RecordLoop

namespace Trfs.Replay
open Bytes Trace Iteration

/-- The second path of a record, if it has one. -/
def secondPath (record : FramedRecord) : Option (List Byte) :=
  if record.header.pathLen2 ≠ 0 then some record.path2 else none

/-- The content of a record, if it has one. -/
def writtenContent (record : FramedRecord) : Option (List Byte) :=
  if record.header.writeLen ≠ 0 then some record.content else none

/-- What a buffer of the loop holds after some records: the part of the last one that has this part. -/
def held (part : FramedRecord → Option (List Byte)) (start : Option (List Byte)) (records : List FramedRecord) :
    Option (List Byte) :=
  records.foldl (fun kept record => (part record).or kept) start

/-- A record without content has the length 0. -/
theorem writtenContent_eq_none (record : FramedRecord) :
    writtenContent record = none ↔ record.header.writeLen = 0 := by
  unfold writtenContent
  split <;> simp_all

section
variable {part : FramedRecord → Option (List Byte)} {start : Option (List Byte)}

/-- A buffer is empty when no record has filled it. -/
theorem held_eq_none (records : List FramedRecord) :
    held part start records = none ↔ start = none ∧ ∀ record ∈ records, part record = none := by
  induction records generalizing start with
  | nil => simp [held]
  | cons record records ih =>
      have step : held part start (record :: records) = held part ((part record).or start) records := rfl
      rw [step, ih, Option.or_eq_none_iff, List.forall_mem_cons]
      exact ⟨fun ⟨⟨own, kept⟩, rest⟩ => ⟨kept, own, rest⟩, fun ⟨kept, own, rest⟩ => ⟨⟨own, kept⟩, rest⟩⟩

end

section
variable {World : Type} {mode : Mode} {replayRecord : Visit → World → Option (World × Bool)} {buffer : List Byte}
  {stSize : BitVec 64} {state : LoopState World} {result : Result World}

/-- The rounds only add visits. -/
theorem iterate_visits_prefix {fuel : Nat}
    (ran : iterate (recordRound mode replayRecord buffer stSize) fuel state = some result) :
    state.visits <+: result.state.visits := by
  induction fuel generalizing state with
  | zero => cases ran
  | succ fuel ih =>
      have grows : (∃ next, recordRound mode replayRecord buffer stSize state = .again next ∧
            state.visits <+: next.visits) ∨
          ∃ last, recordRound mode replayRecord buffer stSize state = .stop last ∧
            state.visits <+: last.state.visits := by
        unfold recordRound
        split
        · split
          · exact .inr ⟨_, rfl, List.prefix_rfl⟩
          · rename_i visit _
            generalize (if mode.replay then replayRecord visit state.world else some (state.world, true)) = replayed
            cases replayed with
            | none => exact .inr ⟨_, rfl, List.prefix_append _ _⟩
            | some outcome =>
                obtain ⟨world, replayRes⟩ := outcome
                by_cases leaves : mode.replay ∧ mode.abort ∧ ¬ replayRes
                · simp only [if_pos leaves]
                  exact .inr ⟨_, rfl, List.prefix_append _ _⟩
                · simp only [if_neg leaves]
                  exact .inl ⟨_, rfl, List.prefix_append _ _⟩
        · exact .inr ⟨_, rfl, List.prefix_rfl⟩
      rcases grows with ⟨next, continues, more⟩ | ⟨last, stops, more⟩
      · rw [iterate_again continues] at ran
        exact more.trans (ih ran)
      · rw [iterate_stop stops] at ran
        obtain rfl := Option.some.inj ran
        exact more

/-- What the visit of a record sees depends on the records before it. -/
theorem iterate_visit {fuel : Nat} {front : List Byte} {before : List FramedRecord} {record : FramedRecord}
    {rest : List Byte} {visit : Visit}
    (near : (front ++ traceBytes (before ++ [record])).length < 2 ^ 31)
    (layout : buffer = front ++ (traceBytes (before ++ [record]) ++ rest)) (size : buffer.length < 2 ^ 63)
    (cursor : state.prevRecSize = BitVec.ofNat 32 front.length)
    (ran : iterate (recordRound mode replayRecord buffer (BitVec.ofNat 64 buffer.length)) fuel state = some result)
    (visited : result.state.visits[state.visits.length + before.length]? = some visit) :
    visit.pathbuf2 = (secondPath record).or (held secondPath state.pathbuf2 before) ∧
      visit.content = (writtenContent record).or (held writtenContent state.content before) := by
  have parts (state : LoopState World) (record : FramedRecord) :
      (expectedVisit state record).pathbuf2 = (secondPath record).or state.pathbuf2 ∧
        (expectedVisit state record).content = (writtenContent record).or state.content := by
    unfold expectedVisit secondPath writtenContent
    constructor <;> dsimp only <;> split <;> rfl
  induction before generalizing fuel front state with
  | nil =>
      cases fuel with
      | zero => cases ran
      | succ fuel =>
          simp only [List.nil_append, traceBytes_cons, traceBytes_nil, List.append_nil] at near layout
          subst layout
          have start : front.length < 2 ^ 31 := by
            rw [List.length_append] at near
            omega
          have shown : state.visits ++ [expectedVisit state record] <+: result.state.visits := by
            have round := recordRound_at mode replayRecord rest near cursor (guard_framed start size cursor)
            cases made : recordRound mode replayRecord (front ++ (record.bytes ++ rest))
                (BitVec.ofNat 64 (front ++ (record.bytes ++ rest)).length) state with
            | again next =>
                rw [made] at round
                obtain ⟨_, added, _⟩ := round
                rw [iterate_again made] at ran
                exact added ▸ iterate_visits_prefix ran
            | stop last =>
                rw [made] at round
                rw [iterate_stop made] at ran
                obtain rfl := Option.some.inj ran
                exact round.stopped ▸ List.prefix_rfl
          obtain ⟨later, all⟩ := shown
          rw [← all] at visited
          simp only [List.length_nil, Nat.add_zero, List.append_assoc, List.singleton_append,
            List.getElem?_append_right (Nat.le_refl _), Nat.sub_self,
            List.getElem?_cons_zero, Option.some.injEq] at visited
          rw [← visited]
          exact parts state record
  | cons first before ih =>
      cases fuel with
      | zero => cases ran
      | succ fuel =>
          have step : traceBytes (first :: before ++ [record]) =
              first.bytes ++ traceBytes (before ++ [record]) := rfl
          rw [step, ← List.append_assoc] at near
          have regroup : buffer = front ++ (first.bytes ++ (traceBytes (before ++ [record]) ++ rest)) := by
            rw [layout, step, List.append_assoc first.bytes]
          have short : (front ++ first.bytes).length < 2 ^ 31 := by
            rw [List.length_append] at near
            omega
          have start : front.length < 2 ^ 31 := by
            rw [List.length_append] at short
            omega
          have whole : (front ++ (first.bytes ++ (traceBytes (before ++ [record]) ++ rest))).length < 2 ^ 63 :=
            regroup ▸ size
          have round := recordRound_at mode replayRecord (traceBytes (before ++ [record]) ++ rest) short cursor
            (guard_framed start whole cursor)
          rw [← regroup] at round
          cases made : recordRound mode replayRecord buffer (BitVec.ofNat 64 buffer.length) state with
          | again next =>
                rw [made] at round
                obtain ⟨_, added, path2, content, moved⟩ := round
                rw [iterate_again made] at ran
                obtain ⟨seenPath, seenContent⟩ := parts state first
                have result := ih near (by rw [regroup, List.append_assoc]) moved ran (by
                  rw [added, List.length_append, List.length_singleton]
                  rw [List.length_cons] at visited
                  rw [← visited]
                  congr 1
                  omega)
                rw [path2, content, seenPath, seenContent] at result
                exact result
          | stop last =>
                rw [made] at round
                rw [iterate_stop made] at ran
                obtain rfl := Option.some.inj ran
                rw [round.stopped, List.getElem?_eq_none (by simp)] at visited
                cases visited

end

end Trfs.Replay
