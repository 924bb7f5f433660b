/-
This file models `trfs_file_llseek` and `trfs_readdir` on the positions of a directory and of its lower file.
-/

import Trfs.Construction.Kernel.Calls
import Trfs.Library.Transitions

namespace Trfs.Kernel
open Effect

/-- The open directory of the mount and its lower file. -/
inductive DirFile where
  | upper | lower
deriving DecidableEq

/-- The calls of the two functions. `iterateDir` is `iterate_dir` on the lower file. -/
inductive PositionCall where
  | genericFileLlseek (file : DirFile) (offset : BitVec 64) (whence : BitVec 32)
  | iterateDir
  | position (file : DirFile)
  | setPosition (file : DirFile) (value : BitVec 64)
  | copyAttrAtime

@[reducible] def PositionCall.Reply : PositionCall → Type
  | .genericFileLlseek .. | .position _ => BitVec 64
  | .iterateDir => BitVec 32
  | .setPosition .. | .copyAttrAtime => Unit

abbrev PositionProg := Program PositionCall.Reply

/-- Both results go through the `int` variable `err`. -/
def trfsFileLlseek (offset : BitVec 64) (whence : BitVec 32) : PositionProg (BitVec 64) := do
  let reached ← perform (PositionCall.genericFileLlseek .upper offset whence)
  let err : BitVec 32 := reached.setWidth 32
  if err.toInt < 0 then pure (err.signExtend 64)
  else do
    let reached ← perform (PositionCall.genericFileLlseek .lower offset whence)
    let err : BitVec 32 := reached.setWidth 32
    pure (err.signExtend 64)

def trfsReaddir : PositionProg (BitVec 32) := do
  let err ← perform PositionCall.iterateDir
  let position ← perform (PositionCall.position .lower)
  perform (PositionCall.setPosition .upper position)
  if 0 ≤ err.toInt then do
    perform PositionCall.copyAttrAtime
    pure err
  else pure err

/-- `generic_file_llseek` on files of one size and one limit: a new position, or an error. -/
structure GenericSeek where
  seek : BitVec 64 → BitVec 64 → BitVec 32 → Except Errno (BitVec 64)
  nonneg : ∀ {position offset whence reached}, seek position offset whence = .ok reached → 0 ≤ reached.toInt

/-- `f_pos` of both files. -/
structure Positions where
  upper : BitVec 64
  lower : BitVec 64
deriving DecidableEq

def Positions.get (positions : Positions) : DirFile → BitVec 64
  | .upper => positions.upper
  | .lower => positions.lower

def Positions.set (positions : Positions) (value : BitVec 64) : DirFile → Positions
  | .upper => { positions with upper := value }
  | .lower => { positions with lower := value }

/-- What `iterate_dir` returns, and the position at which it leaves the lower file. -/
structure Listing where
  err : BitVec 32
  position : BitVec 64

/-- A seek that fails leaves the position as it was. -/
def handlePositions (generic : GenericSeek) (listing : Listing) : Handler PositionCall.Reply Positions
  | .genericFileLlseek file offset whence, positions =>
      match generic.seek (positions.get file) offset whence with
      | .ok reached => some (reached, positions.set reached file)
      | .error errno => some (errno.code.signExtend 64, positions)
  | .iterateDir, positions => some (listing.err, positions.set listing.position .lower)
  | .position file, positions => some (positions.get file, positions)
  | .setPosition file value, positions => some ((), positions.set value file)
  | .copyAttrAtime, positions => some ((), positions)

/-- One call on the directory. -/
inductive DirAction where
  | llseek (offset : BitVec 64) (whence : BitVec 32)
  | readdir (listing : Listing)

/-- A completed call with the positions around it. The result of a seek is a `loff_t`. -/
structure DirCall where
  action : DirAction
  before : Positions
  result : BitVec 64
  after : Positions

/-- The positions with the calls so far. -/
structure DirState where
  positions : Positions
  calls : List DirCall

/-- The result and the positions of a call. -/
def DirAction.exec (generic : GenericSeek) (positions : Positions) : DirAction → Option (BitVec 64 × Positions)
  | .llseek offset whence =>
      ((trfsFileLlseek offset whence).exec (handlePositions generic ⟨0, 0⟩) positions).map fun done =>
        (done.value, done.state)
  | .readdir listing =>
      (trfsReaddir.exec (handlePositions generic listing) positions).map fun done =>
        (done.value.signExtend 64, done.state)

def dirStep (generic : GenericSeek) (action : DirAction) (state : DirState) : Option DirState :=
  (action.exec generic state.positions).map fun (result, after) =>
    ⟨after, state.calls ++ [⟨action, state.positions, result, after⟩]⟩

end Trfs.Kernel
