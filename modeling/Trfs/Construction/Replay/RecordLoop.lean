/-
This file models the record loop of `main` in `treplay.c`.
-/

import Trfs.Construction.Trace.Format
import Trfs.Library.Iteration

namespace Trfs.Replay
open Bytes Trace Iteration

/-- The arguments of one call of `print_record` and `replay_record`. -/
structure Visit where
  tracer : TraceDs
  pathbuf1 : List Byte
  pathbuf2 : Option (List Byte)
  content : Option (List Byte)
deriving DecidableEq, Repr

/-- The two flags that `main` derives from its options. -/
structure Mode where
  replay : Bool
  abort : Bool
deriving DecidableEq, Repr

/-- The locals of `main` that live across the rounds, and the calls that it has made so far. -/
structure LoopState (World : Type) where
  prevRecSize : BitVec 32
  pathbuf2 : Option (List Byte)
  content : Option (List Byte)
  visits : List Visit
  world : World

/-- The process is killed inside `replay_record`, or by a copy that leaves the read buffer. -/
inductive Ending where
  | finished | deviated | crashed | fault
deriving DecidableEq, Repr

structure Result (World : Type) where
  ending : Ending
  state : LoopState World

/-- `memcpy` from the read buffer. It fails when the source range leaves the buffer. -/
def copyRange (buffer : List Byte) (offset count : Int) : Option (List Byte) :=
  if 0 ≤ offset ∧ 0 ≤ count ∧ offset + count ≤ buffer.length then
    some (load buffer offset.toNat count.toNat)
  else none

section
variable {World : Type}

/-- The copies of one round. `pathbuf2` and `content` keep their old value when their length is 0. -/
def readRecord (buffer : List Byte) (state : LoopState World) : Option Visit := do
  let start := state.prevRecSize.toInt
  let object ← copyRange buffer start sizeofTraceDs
  let tracer := TraceDs.view object
  let pathbuf1 ← copyRange buffer (start + sizeofTraceDs) tracer.pathLen1.toInt
  let pathbuf2 ←
    if tracer.pathLen2 ≠ 0 then
      (copyRange buffer (start + sizeofTraceDs + tracer.pathLen1.toInt) tracer.pathLen2.toInt).map some
    else some state.pathbuf2
  let content ←
    if tracer.writeLen ≠ 0 then
      (copyRange buffer (start + sizeofTraceDs + tracer.pathLen1.toInt + tracer.pathLen2.toInt)
        tracer.writeLen.toInt).map some
    else some state.content
  some ⟨tracer, pathbuf1, pathbuf2, content⟩

/-- The sum is computed in `size_t` and stored into an `int`. -/
def nextRecSize (prevRecSize : BitVec 32) (tracer : TraceDs) : BitVec 32 :=
  (prevRecSize.signExtend 64 + BitVec.ofNat 64 sizeofTraceDs + tracer.pathLen1.signExtend 64 +
    tracer.pathLen2.signExtend 64 + tracer.writeLen.signExtend 64).setWidth 32

/-- The locals of a round that has read its record. -/
def LoopState.visiting (state : LoopState World) (visit : Visit) : LoopState World :=
  { state with
    pathbuf2 := visit.pathbuf2
    content := visit.content
    visits := state.visits ++ [visit] }

/-- One round of the loop. `replayRecord` stands for the effect and the result of `replay_record`, which has none when
the process is killed there. -/
def recordRound (mode : Mode) (replayRecord : Visit → World → Option (World × Bool)) (buffer : List Byte)
    (stSize : BitVec 64) (state : LoopState World) : Round (LoopState World) (Result World) :=
  if (state.prevRecSize.signExtend 64).slt (stSize - 1) then
    match readRecord buffer state with
    | none => .stop ⟨.fault, state⟩
    | some visit =>
        let visited := state.visiting visit
        match if mode.replay then replayRecord visit state.world else some (state.world, true) with
        | none => .stop ⟨.crashed, visited⟩
        | some (world, replayRes) =>
            if mode.replay ∧ mode.abort ∧ ¬ replayRes then .stop ⟨.deviated, { visited with world := world }⟩
            else .again { visited with
              world := world
              prevRecSize := nextRecSize state.prevRecSize visit.tracer }
  else .stop ⟨.finished, state⟩

def startState (world : World) : LoopState World := ⟨0, none, none, [], world⟩

/-- `main` after `stat`: an empty file has no rounds. -/
def replayTrace (mode : Mode) (replayRecord : Visit → World → Option (World × Bool)) (fuel : Nat)
    (buffer : List Byte) (stSize : BitVec 64) (world : World) : Option (Result World) :=
  if stSize = 0 then some ⟨.finished, startState world⟩
  else iterate (recordRound mode replayRecord buffer stSize) fuel (startState world)

end

end Trfs.Replay
