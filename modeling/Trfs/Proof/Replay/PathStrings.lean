import Trfs.Construction.Replay.PathStrings
import Trfs.Proof.Replay.RecordLocal

namespace Trfs.Replay
open Bytes Heaps Trace

/-- The block begins with the string `/usr/src/replay`, the bytes of the path and one NUL. -/
def HoldsPath (heap : Heap) (fullpath : Nat) (path : List Byte) : Prop :=
  ∃ rest, heap.block fullpath = some (replayPath.bytes ++ path ++ 0 :: rest) ∧ 0 ∉ path

/-- The paths that a function built for a record. -/
structure BuildsPaths (record : FramedRecord) (built : FullPaths) : Prop where
  fullpath1 : HoldsPath built.heap built.fullpath1 record.path1
  fullpath2 : record.header.pathLen2 ≠ 0 → ∃ fullpath2 ∈ built.fullpath2, HoldsPath built.heap fullpath2 record.path2

/-- The string operations of a round stay within their buffers and build the paths of the record. -/
structure StringsSafe (mode : Mode) (garbage : Nat → Byte) (record : FramedRecord) (buffers : Buffers) : Prop where
  printed : ∃ built, printStrings garbage buffers = some built ∧ BuildsPaths record built
  replayed : mode.replay = true → ∃ built, replayStrings garbage buffers = some built ∧ BuildsPaths record built

/-- The path has no terminator in its own block, or the block for the result has no room for it. -/
theorem buildPath_none (garbage : Nat → Byte) (heap : Heap) (path : Nat) : buildPath garbage heap path = none := by
  cases measured : heap.string path with
  | none => simp [buildPath, measured]
  | some text =>
      have size := uninitialized_length garbage (replayPath.length + text.length)
      have copied : (replayPath.bytes ++ [(0 : Byte)]).length = replayPath.length + 1 := by
        rw [List.length_append]
        rfl
      simp only [buildPath, measured, Option.bind_eq_bind, Option.bind_some, Heap.write_alloc]
      split
      · rename_i fits
        rw [Option.bind_some]
        generalize uninitialized garbage (replayPath.length + text.length) = memory at size fits ⊢
        have start : store memory 0 (replayPath.bytes ++ [0]) =
            replayPath.bytes ++ 0 :: memory.drop (replayPath.length + 1) := by
          rw [store_start _ _ (by omega), copied, List.append_assoc, List.singleton_append]
        have block := heap.alloc_block_self (store memory 0 (replayPath.bytes ++ [0]))
        have again := heap.string_alloc (store memory 0 (replayPath.bytes ++ [0])) measured
        have front : (heap.alloc (store memory 0 (replayPath.bytes ++ [0]))).string heap.next = some replayPath := by
          rw [Heap.string_eq block, start, stringAt_append]
        have full : (heap.alloc (store memory 0 (replayPath.bytes ++ [0]))).write heap.next replayPath.length
            (text.bytes ++ [0]) = none := by
          apply Heap.write_outside block
          have terminated : (text.bytes ++ [(0 : Byte)]).length = text.length + 1 := by
            rw [List.length_append]
            rfl
          rw [store_length, size, terminated]
          omega
        rw [front, Option.bind_some, again, Option.bind_some, full]
        rfl
      · rfl

theorem printStrings_none (garbage : Nat → Byte) (buffers : Buffers) : printStrings garbage buffers = none := by
  simp [printStrings, buildPath_none]

theorem not_stringsSafe (mode : Mode) (garbage : Nat → Byte) (record : FramedRecord) (buffers : Buffers) :
    ¬ StringsSafe mode garbage record buffers := by
  intro safe
  obtain ⟨built, ran, _⟩ := safe.printed
  rw [printStrings_none] at ran
  cases ran

/-- In no round of a run are the paths built within their buffers, whatever the memory looks like. -/
theorem strings_never_safe {records : List FramedRecord} (run : LoopRun records) :
    ∀ visit ∈ run.result.state.visits, ∀ (record : FramedRecord) (garbage : Nat → Byte) (heap : Heap),
      ¬ StringsSafe run.mode garbage record (visit.buffers heap) :=
  fun visit _ record garbage heap => not_stringsSafe run.mode garbage record (visit.buffers heap)

/-- The run of `treplay -n` over one record has a round, and the round shows the record. -/
theorem open_visited : ∃ (run : LoopRun [openRecord]) (visit : Visit),
    visit ∈ run.result.state.visits ∧ Shows openRecord visit := by
  obtain ⟨result, ran, outcome⟩ := replayTrace_framed ⟨false, false⟩ (fun _ (world : Unit) => some (world, true)) ()
    [openRecord] 2 (by decide) (by decide)
  have all : VisitsAll [openRecord] result := by
    rcases outcome with through | leaves | dies
    · exact through.all
    · cases leaves.replays
    · cases dies.replays
  have shown := all.visits
  cases visited : result.state.visits with
  | nil =>
      rw [visited] at shown
      cases shown
  | cons visit rest =>
      rw [visited] at shown
      cases shown with
      | cons shows _ =>
          refine ⟨printRun [openRecord] 2 result (by decide) ran, visit, ?_, shows⟩
          change visit ∈ result.state.visits
          rw [visited]
          exact List.mem_cons_self

theorem strings_never_safe_open : ∃ (run : LoopRun [openRecord]) (visit : Visit),
    visit ∈ run.result.state.visits ∧ ¬ StringsSafe run.mode (fun _ => 0) openRecord (visit.buffers Heap.empty) := by
  obtain ⟨run, visit, visited, _⟩ := open_visited
  exact ⟨run, visit, visited, strings_never_safe run visit visited _ _ _⟩

/-- The two bytes `/a` of a record have no terminator in their buffer. -/
theorem open_strings_unsafe :
    ¬ ∀ (records : List FramedRecord) (run : LoopRun records) (record : FramedRecord) (visit : Visit),
      record ∈ records → visit ∈ run.result.state.visits → Shows record visit → ∀ garbage heap,
        StringsSafe run.mode garbage record (visit.buffers heap) := by
  intro safe
  obtain ⟨run, visit, visited, shows⟩ := open_visited
  exact not_stringsSafe _ _ _ _ (safe [openRecord] run openRecord visit List.mem_cons_self visited shows
    (fun _ => 0) Heap.empty)

end Trfs.Replay
