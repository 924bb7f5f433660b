/-
This file stacks mounts of the filesystem on one another.
-/

import Trfs.Construction.Kernel.Machine
import Trfs.Library.Bits

namespace Trfs.Control
open Bits Bytes Effect Trace Kernel

/-- The state of this many mounts, each on the one below it, over the state of a bottom filesystem. -/
def Stack (L : Type) : Nat → Type
  | 0 => L
  | depth + 1 => Machine (Stack L depth)

/-- The bits of a word whose last bytes a copy does not get to. -/
def keptBits (left : Nat) : BitVec 64 := BitVec.allOnes 64 <<< (64 - 8 * left)

/-- The filesystem below all mounts and the memory of the caller. Reading an inode's members changes nothing.
`copy_to_user` returns the number of bytes that are left. It copies those before them, and what can be written stays
so. -/
structure Bottom (L : Type) where
  env : Environment L
  peek : L → BitVec 64 → BitVec 64
  left : L → BitVec 64 → Nat
  reads : ∀ inode state, (env.lower (.attributes inode) state).2 = state
  returns : ∀ address value state, (env.copyToUser address value state).1 = left state address
  copies : ∀ address value state, peek (env.copyToUser address value state).2 address =
    blend (keptBits (left state address)) value (peek state address)
  stays : ∀ address value state, left (env.copyToUser address value state).2 address = left state address

/-- How a mount appears to the mount above it: its files and inodes, and its answers to the other calls. -/
structure Layer (S : Type) where
  file : LowerFile → File
  inode : LowerInode → Inode
  rest : Environment S

section
variable {S : Type}

def Layer.lower (layer : Layer (Machine S)) (env : Environment S) (helpers : Helpers) :
    (c : LowerCall) → Machine S → c.Reply × Machine S
  | .unlockedIoctl file cmd arg, state =>
      match (trfsUnlockedIoctl (layer.file file) (layer.inode file.inode) cmd arg).exec (handle env helpers) state with
      | some done => (some done.value, done.state)
      | none => (none, state)
  | .attributes inode, state => (state.visible.upper.attributes (layer.inode inode), state)
  | c, state => layer.rest.lower c state

/-- All mounts copy to the same caller. -/
def copyBelow (env : Environment S) (address value : BitVec 64) (state : Machine S) : BitVec 64 × Machine S :=
  let (reply, after) := env.copyToUser address value state.visible.lower
  (reply, { state with visible := { state.visible with lower := after } })

end

section
variable {L : Type} (bottom : Bottom L) (helpers : Nat → Helpers) (layers : (depth : Nat) → Layer (Machine (Stack L depth)))

/-- What a mount on top of this many mounts calls its lower filesystem. -/
def stackEnv : (depth : Nat) → Environment (Stack L depth)
  | 0 => bottom.env
  | depth + 1 =>
      { (layers depth).rest with
        lower := (layers depth).lower (stackEnv depth) (helpers depth)
        copyToUser := copyBelow (stackEnv depth) }

/-- A control request to the topmost mount. -/
def stackIoctl (depth : Nat) (file : File) (fileInode : Inode) (cmd : BitVec 32) (arg : BitVec 64)
    (state : Machine (Stack L depth)) : Option (Execution Call.Reply (Machine (Stack L depth)) (BitVec 64)) :=
  (trfsUnlockedIoctl file fileInode cmd arg).exec (handle (stackEnv bottom helpers layers depth) (helpers depth)) state

end

/-- The masks of the mounts from the topmost one down. -/
def Stack.masks {L : Type} : (depth : Nat) → Stack L depth → List (BitVec 64)
  | 0, _ => []
  | depth + 1, state => state.mask :: masks depth state.visible.lower

/-- The state of the bottom filesystem. -/
def Stack.bottom {L : Type} : (depth : Nat) → Stack L depth → L
  | 0, state => state
  | depth + 1, state => bottom depth state.visible.lower

end Trfs.Control
