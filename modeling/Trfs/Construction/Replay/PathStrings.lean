/-
This file models the string operations of `print_record` and `replay_record` on the buffers of `main`.
-/

import Trfs.Construction.Replay.RecordLoop
import Trfs.Construction.Replay.ReplayRecord
import Trfs.Library.Heap

namespace Trfs.Replay
open Bytes Heaps

/-- The buffers of a round. A missing one is `NULL`. -/
structure Buffers where
  heap : Heap
  pathbuf1 : Nat
  pathbuf2 : Option Nat
  content : Option Nat

/-- A buffer of `main` is as long as what is copied into it. -/
def allocOptional (heap : Heap) : Option (List Byte) → Heap × Option Nat
  | none => (heap, none)
  | some bytes => (heap.alloc bytes, some heap.next)

def Visit.buffers (visit : Visit) (heap : Heap) : Buffers :=
  let pathbuf1 := heap.next
  let (heap, pathbuf2) := allocOptional (heap.alloc visit.pathbuf1) visit.pathbuf2
  let (heap, content) := allocOptional heap visit.content
  ⟨heap, pathbuf1, pathbuf2, content⟩

/-- `malloc(strlen(replay_path) + strlen(path))` with the `strcpy` and the `strcat` into it. -/
def buildPath (garbage : Nat → Byte) (heap : Heap) (path : Nat) : Option (Heap × Nat) := do
  let measured ← heap.string path
  let fullpath := heap.next
  let heap := heap.alloc (uninitialized garbage (replayPath.length + measured.length))
  let heap ← heap.write fullpath 0 (replayPath.bytes ++ [0])
  let copied ← heap.string fullpath
  let appended ← heap.string path
  let heap ← heap.write fullpath copied.length (appended.bytes ++ [0])
  some (heap, fullpath)

def buildOptional (garbage : Nat → Byte) (heap : Heap) : Option Nat → Option (Heap × Option Nat)
  | none => some (heap, none)
  | some path => (buildPath garbage heap path).map fun (heap, fullpath) => (heap, some fullpath)

/-- `writer_content` is one byte longer than the string. -/
def copyContent (garbage : Nat → Byte) (heap : Heap) : Option Nat → Option Heap
  | none => some heap
  | some content => do
      let measured ← heap.string content
      let writerContent := heap.next
      let heap := heap.alloc (uninitialized garbage (measured.length + 1))
      let copied ← heap.string content
      heap.write writerContent 0 (copied.bytes ++ [0])

/-- The two paths that a function has built. -/
structure FullPaths where
  heap : Heap
  fullpath1 : Nat
  fullpath2 : Option Nat

/-- The string operations of `print_record`. -/
def printStrings (garbage : Nat → Byte) (buffers : Buffers) : Option FullPaths := do
  let (heap, fullpath1) ← buildPath garbage buffers.heap buffers.pathbuf1
  let (heap, fullpath2) ← buildOptional garbage heap buffers.pathbuf2
  some ⟨heap, fullpath1, fullpath2⟩

/-- The string operations of `replay_record`. -/
def replayStrings (garbage : Nat → Byte) (buffers : Buffers) : Option FullPaths := do
  let (heap, fullpath1) ← buildPath garbage buffers.heap buffers.pathbuf1
  let (heap, fullpath2) ← buildOptional garbage heap buffers.pathbuf2
  let heap ← copyContent garbage heap buffers.content
  some ⟨heap, fullpath1, fullpath2⟩

end Trfs.Replay
