import Trfs.Construction.Kernel.Session
import Trfs.Library.Cursor
import Trfs.Proof.Kernel.Iterator

namespace Trfs.Kernel
open Bytes Effect Trace Files

/-- The number of bytes that an `int` result stands for. -/
def moved (err : BitVec 32) : Nat := err.toInt.toNat

/-- The position of an open file whose size the lower filesystem knows. -/
def cursorAt {L : Type} (append : Bool) (size : L → Nat) (state : L) (position : BitVec 64) : Cursor :=
  ⟨append, size state, position.toNat⟩

/-- The lower file is a regular file. Its position moves by what was transferred, and reading the attributes of
inodes does not change its size. -/
structure Regular {L : Type} (env : Environment L) (lowerFile : LowerFile) (append : Bool) (size : L → Nat) : Prop where
  read : ∀ buf count pos state, let answer := env.lower (.vfsRead lowerFile buf count pos) state
    cursorAt append size answer.2 answer.1.position =
      (cursorAt append size state pos).read (moved (answer.1.result.setWidth 32))
  write : ∀ buf count pos state, let answer := env.lower (.vfsWrite lowerFile buf count pos) state
    cursorAt append size answer.2 answer.1.position =
      (cursorAt append size state pos).write (moved (answer.1.result.setWidth 32))
  copies : ∀ inode state, size (env.lower (.attributes inode) state).2 = size state

def Session.cursor {L : Type} (append : Bool) (size : L → Nat) (session : Session L) : Cursor :=
  cursorAt append size session.machine.visible.lower session.position

/-- How a call of the session moves the position. -/
def FileCall.move (call : FileCall) (cursor : Cursor) (count : Nat) : Cursor :=
  match call with
  | .read .. => cursor.read count
  | .write .. => cursor.write count

/-- The calls with which a transfer copies attributes. -/
def Copying : Call → Prop
  | .lower (.attributes _) | .upper (.dInode _) | .upper (.attributes _) | .upper (.setAttributes ..) => True
  | _ => False

/-- The open file of the mount has this lower file. -/
def Opens {L : Type} (file : File) (lowerFile : LowerFile) (state : Machine L) : Prop :=
  state.visible.upper.lowerFile file.address = some lowerFile

section
variable {L : Type} {env : Environment L} {helpers : Helpers} {append : Bool} {size : L → Nat} {file : File}
  {lowerFile : LowerFile}

/-- Copying attributes keeps the size of the file and its lower file. -/
theorem copying_keeps {α : Type} (regular : Regular env lowerFile append size) {program : Prog α}
    (calls : program.Calls Copying) {state : Machine L} {done : Execution Call.Reply (Machine L) α}
    (ran : program.exec (handle env helpers) state = some done) :
    size done.state.visible.lower = size state.visible.lower ∧
      done.state.visible.upper.lowerFile = state.visible.upper.lowerFile := by
  have kept : ∀ c (before : Machine L) reply after, Copying c →
      (size before.visible.lower = size state.visible.lower ∧
        before.visible.upper.lowerFile = state.visible.upper.lowerFile) →
      handle env helpers c before = some (reply, after) →
      size after.visible.lower = size state.visible.lower ∧
        after.visible.upper.lowerFile = state.visible.upper.lowerFile := by
    intro c before reply after copying same answered
    cases c with
    | lower c =>
        cases c with
        | attributes inode =>
            obtain ⟨_, rfl⟩ := Prod.mk.inj (Option.some.inj answered)
            exact ⟨(regular.copies inode before.visible.lower).trans same.1, same.2⟩
        | _ => exact copying.elim
    | upper c =>
        cases c with
        | dInode dentry =>
            obtain ⟨_, rfl⟩ := Prod.mk.inj (Option.some.inj answered)
            exact same
        | attributes inode =>
            obtain ⟨_, rfl⟩ := Prod.mk.inj (Option.some.inj answered)
            exact same
        | setAttributes inode value =>
            obtain ⟨_, rfl⟩ := Prod.mk.inj (Option.some.inj answered)
            exact same
        | _ => exact copying.elim
    | _ => exact copying.elim
  exact calls.exec_keeps kept ⟨rfl, rfl⟩ ran

/-- The tracing block does not touch the lower filesystem. -/
theorem block_visible {block : TraceBlock} (flags : block.openFlags.Calls IsRead) (mode : block.permMode.Calls IsRead)
    {state : Machine L} {done : Execution Call.Reply (Machine L) TraceBuffers}
    (ran : block.run.exec (handle env helpers) state = some done) : done.state.visible = state.visible :=
  (run_silent .none flags mode ran).1

/-- The end of a transfer returns its outcome. -/
theorem returnFile_exec {outcome : Outcome} {buffers : TraceBuffers} {state : Machine L} {done : Done L}
    (ran : (buffers.returnFile outcome).exec (handle env helpers) state = some done) :
    done.value = outcome ∧ done.state.visible = state.visible := by
  obtain ⟨freed, last, ranFree, ran, value, state', _⟩ := Program.exec_bind_eq_some ran
  obtain rfl := Option.some.inj ran
  have kept : ∀ c (before : Machine L) reply after, IsKfree c → before.visible = state.visible →
      handle env helpers c before = some (reply, after) → after.visible = state.visible := by
    intro c before reply after frees same answered
    have hidden : Hidden c := by
      cases c with
      | tracer c => trivial
      | _ => exact frees.elim
    exact (handle_hidden hidden answered).trans same
  have free := (freeFile_frees buffers).exec_keeps kept rfl ranFree
  exact ⟨value, (congrArg Machine.visible state').trans free⟩

theorem runIf_copying {condition : Prop} [Decidable condition] {action : Prog Unit} (calls : action.Calls Copying) :
    (runIf condition action).Calls Copying := by
  unfold runIf
  split
  · exact calls
  · trivial

/-- The position that a call leaves in `*ppos`. -/
structure Moves (append : Bool) (size : L → Nat) (call : FileCall) (before : Machine L) (pos : BitVec 64)
    (done : Done L) : Prop where
  position : ∃ position, done.value.ppos = some position ∧ cursorAt append size done.state.visible.lower position =
    call.move (cursorAt append size before.visible.lower pos) (moved done.value.err)
  lowerFile : done.state.visible.upper.lowerFile = before.visible.upper.lowerFile

/-- A traced read moves the position by its result and leaves the size alone. -/
theorem trfsRead_moves (regular : Regular env lowerFile append size) {buf : Nat} {count pos : BitVec 64}
    {state : Machine L} {done : Done L} (opens : Opens file lowerFile state)
    (ran : (trfsRead file buf count pos).exec (handle env helpers) state = some done) :
    Moves append size (.read buf count) state pos done := by
  simp only [trfsRead, lower, perform_bind] at ran
  obtain ⟨opened, rest, ranOpen, ran, value, last, _⟩ := Program.exec_bind_eq_some ran
  obtain ⟨found, same⟩ := openLowerFile_exec ranOpen
  rw [same] at ran
  obtain rfl := Option.some.inj (opens.symm.trans found)
  obtain ⟨io, moved, more, answered, ran, value₂, last₂, _⟩ := Program.exec_call_eq_some ran
  obtain ⟨rfl, rfl⟩ := Prod.mk.inj (Option.some.inj answered)
  obtain ⟨copied, end1, ranCopy, ran, value₃, last₃, _⟩ := Program.exec_bind_eq_some ran
  obtain ⟨blocked, end2, ranBlock, ran, value₄, last₄, _⟩ := Program.exec_bind_eq_some ran
  obtain ⟨sized, lowerFile⟩ := copying_keeps regular (runIf_copying (by simp [Program.Calls, Copying,
    fsstackCopyAttrAtime, fsstackCopy])) ranCopy
  have block := block_visible (dInodeMember_reads _ _) (dInodeMember_reads _ _) ranBlock
  obtain ⟨returned, kept⟩ := returnFile_exec ran
  have position := regular.read buf count pos state.visible.lower
  constructor
  · rw [value, value₂, value₃, value₄, returned, last, last₂, last₃, last₄, kept, block]
    refine ⟨_, rfl, ?_⟩
    rw [cursorAt, sized]
    exact position
  · rw [last, last₂, last₃, last₄, kept, block, lowerFile]

/-- A traced write moves the position and grows the file as the lower write did. -/
theorem trfsWrite_moves (regular : Regular env lowerFile append size) {buf : UserMemory} {count pos : BitVec 64}
    {state : Machine L} {done : Done L} (opens : Opens file lowerFile state)
    (ran : (trfsWrite file buf count pos).exec (handle env helpers) state = some done) :
    Moves append size (.write buf count) state pos done := by
  simp only [trfsWrite, lower, perform_bind] at ran
  obtain ⟨opened, rest, ranOpen, ran, value, last, _⟩ := Program.exec_bind_eq_some ran
  obtain ⟨found, same⟩ := openLowerFile_exec ranOpen
  rw [same] at ran
  obtain rfl := Option.some.inj (opens.symm.trans found)
  obtain ⟨io, moved, more, answered, ran, value₂, last₂, _⟩ := Program.exec_call_eq_some ran
  obtain ⟨rfl, rfl⟩ := Prod.mk.inj (Option.some.inj answered)
  obtain ⟨blocked, end1, ranBlock, ran, value₃, last₃, _⟩ := Program.exec_bind_eq_some ran
  obtain ⟨copied, end2, ranCopy, ran, value₄, last₄, _⟩ := Program.exec_bind_eq_some ran
  obtain ⟨sized, lowerFile⟩ := copying_keeps regular (runIf_copying (by simp [Program.Calls, Copying,
    fsstackCopyInodeSize, fsstackCopyAttrTimes, fsstackCopy])) ranCopy
  have block := block_visible (dInodeMember_reads _ _) (dInodeMember_reads _ _) ranBlock
  obtain ⟨returned, kept⟩ := returnFile_exec ran
  have position := regular.write buf count pos state.visible.lower
  constructor
  · rw [value, value₂, value₃, value₄, returned, last, last₂, last₃, last₄, kept]
    refine ⟨_, rfl, ?_⟩
    rw [cursorAt, sized, block]
    exact position
  · rw [last, last₂, last₃, last₄, kept, lowerFile, block]

theorem FileCall.move_zero (call : FileCall) (cursor : Cursor) : call.move cursor 0 = cursor := by
  cases call <;> rfl

theorem FileCall.exec_moves (regular : Regular env lowerFile append size) {call : FileCall} {pos : BitVec 64}
    {state : Machine L} {done : Done L} (opens : Opens file lowerFile state)
    (ran : (call.op file pos).exec env helpers state = some done) : Moves append size call state pos done := by
  cases call with
  | read buf count => exact trfsRead_moves regular opens ran
  | write buf count => exact trfsWrite_moves regular opens ran

/-- A call of a session moves the position of the open file by its result. -/
theorem Transferred.after_cursor (regular : Regular env lowerFile append size) {step : Transferred L}
    (opens : Opens file lowerFile step.before.machine)
    (ran : (step.call.op file step.before.position).exec env helpers step.before.machine = some step.done) :
    step.after.cursor append size = step.call.move (step.before.cursor append size) (moved step.done.value.err) ∧
      Opens file lowerFile step.after.machine := by
  obtain ⟨⟨position, stored, cursor⟩, kept⟩ := FileCall.exec_moves regular opens ran
  refine ⟨?_, (congrFun kept file.address).trans opens⟩
  by_cases positive : 0 ≤ step.done.value.err.toInt
  · simpa only [Session.cursor, Transferred.after, positive, if_true, stored, Option.getD_some] using cursor
  · have nothing : moved step.done.value.err = 0 := by
      simp only [moved, Int.toNat_eq_zero]
      omega
    rw [nothing, FileCall.move_zero] at cursor ⊢
    have sized := congrArg Cursor.size cursor
    simp only [cursorAt] at sized
    simp only [Session.cursor, Transferred.after, positive, if_false, cursorAt, sized]

end

end Trfs.Kernel
