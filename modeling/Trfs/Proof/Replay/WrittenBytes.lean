import Trfs.Construction.Replay.Arguments
import Trfs.Proof.Replay.Issued
import Trfs.Proof.Replay.RecordLoop

namespace Trfs.Replay
open Bytes Effect Trace

/-- On every such system the program makes one system call, which writes these bytes. -/
def WritesExactly {α : Type} (program : UserProg α) (fd : BitVec 32) (bytes : List Byte) : Prop :=
  ∀ {σ : Type} (handler : Handler SystemCall.Reply σ) (state : σ), Answers handler →
    ∃ done reply, program.exec handler state = some done ∧
      done.events.filter isSystem = [⟨.write fd bytes, reply⟩]

/-- The two path strings of a round end within the memory. -/
def Visit.PathsEnd (visit : Visit) (beyond : Beyond) : Prop :=
  0 ∈ visit.pathbuf1 ++ beyond.pathbuf1 ∧ ∀ bytes ∈ visit.pathbuf2, 0 ∈ bytes ++ beyond.pathbuf2

section
variable {args : ReplayArgs} {fd : BitVec 32} {visit : Visit} {beyond : Beyond}

/-- A write record writes the bytes of its string. -/
theorem replayRecord_writes (kind : args.kind = some .write) (bytes : List Byte) :
    WritesExactly (replayRecord fd args) fd bytes ↔ args.content.map CString.bytes = some bytes := by
  constructor
  · intro writes
    obtain ⟨done, reply, ran, events⟩ := writes obliging () obliging_answers
    cases replayRecord_replays ran with
    | silent unknown _ _ =>
        rw [kind] at unknown
        cases unknown
    | call c answer request made _ =>
        simp only [ReplayArgs.request, kind] at request
        obtain ⟨content, present, rfl⟩ := Option.map_eq_some_iff.mp request
        have same := congrArg Event.call (List.singleton_inj.mp (made.symm.trans events))
        simp only [SystemCall.write.injEq, true_and] at same
        rw [present, Option.map_some, same]
  · intro same σ handler state answers
    obtain ⟨content, present, rfl⟩ := Option.map_eq_some_iff.mp same
    have request : args.request fd = some (.write fd content.bytes) := by
      simp only [ReplayArgs.request, kind, present, Option.map_some]
    exact replayRecord_answered request (by simp) answers state

/-- A round without its strings does nothing. -/
theorem segfault_not_writes {bytes : List Byte} :
    ¬ WritesExactly (segfault : UserProg (BitVec 32 × Bool)) fd bytes := by
  intro writes
  obtain ⟨done, _, ran, _⟩ := writes obliging () obliging_answers
  cases ran

/-- The arguments of a round are its record and its three strings. -/
theorem Visit.args_eq_some : visit.args beyond = some args ↔
    visit.tracer = args.tracer ∧ stringAt (visit.pathbuf1 ++ beyond.pathbuf1) = some args.path1 ∧
      pointedString visit.pathbuf2 beyond.pathbuf2 = some args.path2 ∧
      pointedString visit.content beyond.content = some args.content := by
  unfold Visit.args
  simp only [Option.bind_eq_bind, Option.bind_eq_some_iff, Option.some.injEq]
  constructor
  · rintro ⟨path1, one, path2, two, content, three, rfl⟩
    exact ⟨rfl, one, two, three⟩
  · rintro ⟨tracer, one, two, three⟩
    refine ⟨_, one, _, two, _, three, ?_⟩
    rw [tracer]

theorem pointedString_isSome (buffer : Option (List Byte)) (beyond : List Byte) :
    (pointedString buffer beyond).isSome ↔ ∀ bytes ∈ buffer, 0 ∈ bytes ++ beyond := by
  cases buffer with
  | none => simp [pointedString]
  | some bytes => simp [pointedString, stringAt_isSome]

/-- The replay of a write record writes the content of the record exactly when the paths end, no byte of the
content is zero and the byte after the content's buffer is zero. -/
theorem Visit.replay_writesExactly_iff (record : FramedRecord) (visit : Visit) (beyond : Beyond) (fd : BitVec 32)
    (kind : CallKind.ofRecordType record.header.recordType = some .write) (positive : 0 < record.content.length)
    (shows : Shows record visit) :
    WritesExactly (visit.replay fd beyond) fd record.content ↔
      visit.PathsEnd beyond ∧ (∀ byte ∈ record.content, byte ≠ 0) ∧ beyond.content.head? = some 0 := by
  have stored : record.header.writeLen ≠ 0 := by
    intro zero
    have length := record.writeLen
    change record.header.writeLen.toInt = _ at length
    rw [zero] at length
    change (0 : Int) = _ at length
    omega
  have content := shows.content stored
  rw [← stringAt_exact]
  unfold Visit.replay
  cases strings : visit.args beyond with
  | none =>
      refine iff_of_false segfault_not_writes ?_
      rintro ⟨⟨one, two⟩, exact⟩
      obtain ⟨path1, first⟩ := Option.isSome_iff_exists.mp ((stringAt_isSome _).mpr one)
      obtain ⟨path2, second⟩ := Option.isSome_iff_exists.mp ((pointedString_isSome _ _).mpr two)
      obtain ⟨text, third, _⟩ := Option.map_eq_some_iff.mp exact
      have pointed : pointedString visit.content beyond.content = some (some text) := by
        rw [content, pointedString, third, Option.map_some]
      have whole : visit.args beyond = some ⟨visit.tracer, path1, path2, some text⟩ :=
        Visit.args_eq_some.mpr ⟨rfl, first, second, pointed⟩
      rw [strings] at whole
      cases whole
  | some args =>
      obtain ⟨tracer, one, two, three⟩ := Visit.args_eq_some.mp strings
      have write : args.kind = some .write := by rw [ReplayArgs.kind, ← tracer, shows.tracer, kind]
      have ends : visit.PathsEnd beyond := by
        constructor
        · rw [← stringAt_isSome, one, Option.isSome_some]
        · rw [← pointedString_isSome, two, Option.isSome_some]
      rw [content, pointedString] at three
      obtain ⟨text, found, same⟩ := Option.map_eq_some_iff.mp three
      rw [replayRecord_writes write, and_iff_right ends, ← same, found]

end

/-- This record writes the three bytes `a`, NUL and `b` to the file `/a`. -/
def zeroByteRecord : FramedRecord where
  image := TraceDs.assign ⟨2, 0, 3, 0, CallKind.write.recordType, 0, 0, 3⟩ (List.replicate sizeofTraceDs 0)
  path1 := [0x2f, 0x61]
  path2 := []
  content := [0x61, 0, 0x62]
  imageSize := by decide
  pathLen1 := by decide
  pathLen2 := by decide
  writeLen := by decide

/-- The visit of the loop to this record. -/
def zeroByteVisit : Visit := ⟨zeroByteRecord.header, zeroByteRecord.path1, none, some zeroByteRecord.content⟩

theorem zeroByteVisit_shows : Shows zeroByteRecord zeroByteVisit where
  tracer := rfl
  path1 := rfl
  path2 present := absurd rfl present
  content _ := rfl

theorem Visit.replay_writesExactly_iff_zeroByte :
    WritesExactly (zeroByteVisit.replay 3 ⟨[0], [0], [0]⟩) 3 zeroByteRecord.content ↔
      zeroByteVisit.PathsEnd ⟨[0], [0], [0]⟩ ∧ (∀ byte ∈ zeroByteRecord.content, byte ≠ 0) ∧
        ([0] : List Byte).head? = some 0 :=
  Visit.replay_writesExactly_iff zeroByteRecord zeroByteVisit ⟨[0], [0], [0]⟩ 3 (by decide) (by decide)
    zeroByteVisit_shows

/-- The replay of this record writes its first byte only. -/
theorem zeroByteVisit_not_writesExactly :
    ¬ WritesExactly (zeroByteVisit.replay 3 ⟨[0], [0], [0]⟩) 3 zeroByteRecord.content := by
  intro writes
  obtain ⟨done, reply, ran, events⟩ := writes obliging () obliging_answers
  have made : ((zeroByteVisit.replay 3 ⟨[0], [0], [0]⟩).exec obliging ()).map (fun done =>
      (done.events.filter isSystem).map Event.call) = some [.write 3 [0x61]] := by decide +kernel
  rw [ran, Option.map_some, events] at made
  obtain ⟨_, short⟩ := SystemCall.write.inj (List.singleton_inj.mp (Option.some.inj made))
  exact absurd short (by decide)

end Trfs.Replay
