/-
This file models how `main` hands the buffers of a round to `replay_record`, and its process over the rounds.
-/

import Trfs.Construction.Replay.RecordLoop
import Trfs.Construction.Replay.ReplayRecord

namespace Trfs.Replay
open Bytes Effect Trace

/-- The memory after each of the three buffers. They are as long as their contents and have no NUL of their own. -/
structure Beyond where
  pathbuf1 : List Byte
  pathbuf2 : List Byte
  content : List Byte
deriving DecidableEq, Repr

/-- `NULL`, or the string that begins at a buffer. -/
def pointedString (buffer : Option (List Byte)) (beyond : List Byte) : Option (Option CString) :=
  match buffer with
  | none => some none
  | some bytes => (stringAt (bytes ++ beyond)).map some

/-- The three strings of a round. One without a NUL is read to the end of the memory. -/
def Visit.args (visit : Visit) (beyond : Beyond) : Option ReplayArgs := do
  let path1 ← stringAt (visit.pathbuf1 ++ beyond.pathbuf1)
  let path2 ← pointedString visit.pathbuf2 beyond.pathbuf2
  let content ← pointedString visit.content beyond.content
  some ⟨visit.tracer, path1, path2, content⟩

/-- The call of `replay_record` in a round. It measures its strings before all else. -/
def Visit.replay (visit : Visit) (fd : BitVec 32) (beyond : Beyond) : UserProg (BitVec 32 × Bool) :=
  match visit.args beyond with
  | none => segfault
  | some args => replayRecord fd args

/-- The process of `main` between two rounds: its global `fd`, the system, and the records replayed so far. -/
structure Process (σ : Type) where
  fd : BitVec 32
  system : σ
  log : List (Replayed σ)

/-- The call of `replay_record` on a system, as the record loop sees it. It has no result when the process is killed. -/
def Process.replay {σ : Type} (handler : Handler SystemCall.Reply σ) (beyond : Nat → Beyond) (visit : Visit)
    (process : Process σ) : Option (Process σ × Bool) := do
  let args ← visit.args (beyond process.log.length)
  let done ← (replayRecord process.fd args).exec handler process.system
  some (⟨done.value.1, done.state, process.log ++ [⟨args, process.fd, process.system, done⟩]⟩, done.value.2)

end Trfs.Replay
