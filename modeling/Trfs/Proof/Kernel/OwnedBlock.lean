import Mathlib.Tactic.Abel
import Trfs.Proof.Kernel.Ownership

namespace Trfs.Kernel
open Bytes Effect Trace

/-- The memory behind a pointer. -/
def addressTokens : Option Nat → Multiset Token
  | none => 0
  | some address => {.buffer address}

def blockTokens {size : Nat} (pointer : Option (Block size)) : Multiset Token :=
  addressTokens (pointer.map Block.address)

def openedTokens : Except Errno TraceFile → Multiset Token
  | .error _ => 0
  | .ok file => {.traceFile file}

/-- The three buffers of a tracing block that has run. -/
def TraceBuffers.tokens (buffers : TraceBuffers) : Multiset Token :=
  addressTokens buffers.traceStr + addressTokens buffers.buffer + addressTokens buffers.writer

/-- Null pointers hold nothing. -/
@[simp] theorem TraceBuffers.tokens_null : TraceBuffers.null.tokens = 0 := rfl

attribute [local simp] Program.Calls Neutral

section
variable {block : TraceBlock}

/-- A call that only reads is neutral. -/
theorem IsRead.neutral (c : Call) (read : IsRead c) : Neutral c := by
  cases c with
  | upper c => cases c <;> first | exact trivial | exact read.elim
  | _ => exact read.elim

/-- Reading the memory of a path is neutral. -/
theorem pathMemory_neutral {size : Nat} (buffer : Block size) (pathName : Except Errno Nat) :
    (pathMemory buffer pathName).Calls Neutral := by
  cases pathName <;> simp [pathMemory, oops]

/-- Reading the length of a path is neutral. -/
theorem pathLength_neutral {size : Nat} (buffer : Block size) (pathName : Except Errno Nat) :
    (pathLength buffer pathName).Calls Neutral :=
  (pathMemory_neutral buffer pathName).bind fun _ => trivial

/-- A write to the trace file is neutral. -/
theorem vfsWrite_neutral (fileOp : Except Errno TraceFile) (source : List Byte) (count : BitVec 64) :
    (vfsWrite fileOp source count).Calls Neutral := by
  cases fileOp <;> simp [vfsWrite, oops]

/-- The write of the second path is neutral. -/
theorem writePath2_neutral (fileOp : Except Errno TraceFile) (buffer : Block pathBufferSize)
    (pathName2 : Except Errno Nat) (lenPath2 : BitVec 16) :
    (block.writePath2 fileOp buffer pathName2 lenPath2).Calls Neutral := by
  unfold TraceBlock.writePath2
  split
  · trivial
  · exact (vfsWrite_neutral _ _ _).bind fun _ => trivial
  · exact (pathMemory_neutral _ _).bind fun _ => (vfsWrite_neutral _ _ _).bind fun _ => trivial

/-- The write of the content is neutral. -/
theorem writeContent_neutral (fileOp : Except Errno TraceFile) : (block.writeContent fileOp).Calls Neutral := by
  unfold TraceBlock.writeContent
  split
  · trivial
  · exact (vfsWrite_neutral _ _ _).bind fun _ => trivial

end

section
variable {L : Type} {env : Environment L} {helpers : Helpers} {referenced : L → LowerDentry → Prop}
  {held rest : Multiset Token} {pinned : List (LowerDentry × LowerInode)} {holdings : Holdings} {state after : Mounted L}
  {progress : Option (Multiset Token)} {α β : Type} {block : TraceBlock}

/-- Nothing is left to prove after an oops. -/
theorem oops_owns {next : β → Prog α} {post : α → Mounted L → Option (Multiset Token) → Prop} :
    ((oops : Prog β) >>= next).Ensures (handleOwned env helpers) callLedger.account post state progress :=
  fun reply => reply.elim

/-- `dentry_path_raw` writes into the buffer that it was given. -/
theorem dentryPathRaw_owns {size : Nat} {dentry : Dentry} {allocated : Option (Block size)}
    {next : Block size × Except Errno Nat → Prog α} {post : α → Mounted L → Option (Multiset Token) → Prop}
    (continues : ∀ (buffer : Block size) pathName, allocated.map Block.address = some buffer.address →
      (next (buffer, pathName)).Ensures (handleOwned env helpers) callLedger.account post state progress) :
    (dentryPathRaw dentry allocated >>= next).Ensures (handleOwned env helpers) callLedger.account post state progress := by
  cases allocated with
  | none => exact oops_owns
  | some buffer =>
      by_cases fits : dentry.path.length < size
      · have stored : dentryPathRaw dentry (some buffer) =
            pure (buffer.storePath dentry.path, .ok (size - 1 - dentry.path.length)) := if_pos fits
        rw [stored]
        exact continues (buffer.storePath dentry.path) _ rfl
      · have refused : dentryPathRaw dentry (some buffer) = pure (buffer, .error ENAMETOOLONG) := if_neg fits
        rw [refused]
        exact continues buffer _ rfl

/-- The second path is made with the account unchanged. -/
theorem secondPath_owns (pinning : Pinning env referenced) {buffer : Block pathBufferSize}
    {next : Block pathBufferSize × Except Errno Nat × BitVec 16 → Prog α}
    {post : α → Mounted L → Option (Multiset Token) → Prop}
    (owns : Owns env referenced held pinned holdings state progress)
    (continues : ∀ (other : Block pathBufferSize) pathName length after progress, other.address = buffer.address →
      Owns env referenced held pinned holdings after progress →
      (next (other, pathName, length)).Ensures (handleOwned env helpers) callLedger.account post after progress) :
    (block.secondPath buffer >>= next).Ensures (handleOwned env helpers) callLedger.account post state progress := by
  unfold TraceBlock.secondPath
  split
  · exact continues buffer _ _ state progress rfl owns
  · exact continues buffer _ _ state progress rfl owns
  · rename_i dentry _
    rw [Program.ensures_bind]
    apply dentryPathRaw_owns
    intro stored pathName same
    apply neutral_ensures pinning (pathLength_neutral stored pathName) owns
    intro length after progress owns
    exact continues stored pathName length after progress (Option.some.inj same).symm owns

/-- An allocated block is added to what the task holds. -/
theorem kmalloc_owns (pinning : Pinning env referenced) {size : Nat} {next : Option (Block size) → Prog α}
    {post : α → Mounted L → Option (Multiset Token) → Prop}
    (owns : Owns env referenced held pinned holdings state progress)
    (continues : ∀ pointer after progress, Owns env referenced (held + blockTokens pointer) pinned holdings after progress →
      (next pointer).Ensures (handleOwned env helpers) callLedger.account post after progress) :
    (tracer (.kmalloc size) >>= next).Ensures (handleOwned env helpers) callLedger.account post state progress := by
  refine gain_ensures pinning (.tracer (.kmalloc size)) trivial rfl (fun _ => id) owns ?_
  intro pointer after progress _ owns
  apply continues pointer after progress
  cases pointer <;> exact owns

/-- A pointer that is followed is not null. -/
theorem deref_owns {size : Nat} {pointer : Option (Block size)} {next : Block size → Prog α}
    {post : α → Mounted L → Option (Multiset Token) → Prop}
    (continues : ∀ object, pointer = some object →
      (next object).Ensures (handleOwned env helpers) callLedger.account post state progress) :
    (deref pointer >>= next).Ensures (handleOwned env helpers) callLedger.account post state progress := by
  cases pointer with
  | none => exact oops_owns
  | some object => exact continues object rfl

/-- An opened trace file is added to what the task holds. -/
theorem filpOpen_owns (pinning : Pinning env referenced) {filename : CString} {flags : BitVec 32}
    {next : Except Errno TraceFile → Prog α} {post : α → Mounted L → Option (Multiset Token) → Prop}
    (owns : Owns env referenced held pinned holdings state progress)
    (continues : ∀ fileOp after progress, Owns env referenced (held + openedTokens fileOp) pinned holdings after progress →
      (next fileOp).Ensures (handleOwned env helpers) callLedger.account post after progress) :
    (tracer (.filpOpen filename flags) >>= next).Ensures (handleOwned env helpers) callLedger.account post state progress := by
  refine gain_ensures pinning (.tracer (.filpOpen filename flags)) trivial rfl (fun _ => id) owns ?_
  intro fileOp after progress _ owns
  apply continues fileOp after progress
  cases fileOp <;> exact owns

/-- A closed trace file is taken from what the task holds. -/
theorem filpClose_owns (pinning : Pinning env referenced) {fileOp : Except Errno TraceFile} {next : Unit → Prog α}
    {post : α → Mounted L → Option (Multiset Token) → Prop}
    (owns : Owns env referenced held pinned holdings state progress)
    (enough : held = openedTokens fileOp + rest)
    (continues : ∀ after progress, Owns env referenced rest pinned holdings after progress →
      (next ()).Ensures (handleOwned env helpers) callLedger.account post after progress) :
    (filpClose fileOp >>= next).Ensures (handleOwned env helpers) callLedger.account post state progress := by
  cases fileOp with
  | error errno => exact oops_owns
  | ok file =>
      have stays : ∀ pair ∈ pinned, pair ∈ pinned ∧ ¬ CallPuts pair.1 (.tracer (.filpClose file)) :=
        fun _ member => ⟨member, id⟩
      refine spend_ensures pinning (.tracer (.filpClose file)) trivial (fun _ => rfl) owns enough stays ?_
      exact fun _ after progress owns => continues after progress owns

/-- A tracing block that has run leaves its three buffers allocated and its file closed. -/
theorem body_owns (pinning : Pinning env referenced) {next : TraceBuffers → Prog α}
    {post : α → Mounted L → Option (Multiset Token) → Prop}
    (owns : Owns env referenced held pinned holdings state progress)
    (flags : block.openFlags.Calls IsRead) (mode : block.permMode.Calls IsRead)
    (continues : ∀ buffers after progress,
      Owns env referenced (held + buffers.tokens) pinned holdings after progress →
      (next buffers).Ensures (handleOwned env helpers) callLedger.account post after progress) :
    (block.body >>= next).Ensures (handleOwned env helpers) callLedger.account post state progress := by
  rw [Program.ensures_bind]
  unfold TraceBlock.body
  have name : (tracer .tfilePath).Calls Neutral := ⟨trivial, fun _ => trivial⟩
  apply neutral_ensures pinning name owns
  intro filename state progress owns
  have counter : (tracer .recordId).Calls Neutral := ⟨trivial, fun _ => trivial⟩
  apply neutral_ensures pinning counter owns
  intro recId state progress owns
  apply neutral_ensures pinning (flags.mono IsRead.neutral) owns
  intro openFlags state progress owns
  apply neutral_ensures pinning (mode.mono IsRead.neutral) owns
  intro permMode state progress owns
  apply kmalloc_owns pinning owns
  intro allocated state progress owns
  apply dentryPathRaw_owns
  intro buffer pathName1 same
  apply neutral_ensures pinning (pathLength_neutral buffer pathName1) owns
  intro lenPath1 state progress owns
  apply secondPath_owns pinning owns
  intro other pathName2 lenPath2 state progress still owns
  apply filpOpen_owns pinning owns
  intro fileOp state progress owns
  apply kmalloc_owns pinning owns
  intro traceStr state progress owns
  apply deref_owns
  rintro object rfl
  apply kmalloc_owns pinning owns
  intro writer state progress owns
  apply deref_owns
  rintro copy rfl
  apply neutral_ensures pinning (vfsWrite_neutral fileOp _ _) owns
  intro _ state progress owns
  apply neutral_ensures pinning (pathMemory_neutral other pathName1) owns
  intro memory1 state progress owns
  apply neutral_ensures pinning (vfsWrite_neutral fileOp memory1 _) owns
  intro _ state progress owns
  apply neutral_ensures pinning (writePath2_neutral fileOp other pathName2 lenPath2) owns
  intro _ state progress owns
  apply neutral_ensures pinning (writeContent_neutral fileOp) owns
  intro _ state progress owns
  let buffers : TraceBuffers := ⟨some object.address, some other.address, some copy.address⟩
  have enough : held + blockTokens allocated + openedTokens fileOp + blockTokens (some object) + blockTokens (some copy) =
      openedTokens fileOp + (held + buffers.tokens) := by
    have given : blockTokens allocated = addressTokens (some other.address) := by
      unfold blockTokens
      rw [same, still]
    rw [given]
    change held + addressTokens (some other.address) + openedTokens fileOp + addressTokens (some object.address) +
      addressTokens (some copy.address) = openedTokens fileOp + (held + (addressTokens (some object.address) +
      addressTokens (some other.address) + addressTokens (some copy.address)))
    abel
  apply filpClose_owns pinning owns enough
  intro state progress owns
  have counts : (tracer (.setRecordId (recId + 1))).Calls Neutral := ⟨trivial, fun _ => trivial⟩
  apply neutral_ensures pinning counts owns
  intro _ state progress owns
  exact continues buffers state progress owns

/-- The block ends holding exactly the buffers it returns. -/
theorem run_owns (pinning : Pinning env referenced) {next : TraceBuffers → Prog α}
    {post : α → Mounted L → Option (Multiset Token) → Prop}
    (owns : Owns env referenced held pinned holdings state progress)
    (flags : block.openFlags.Calls IsRead) (mode : block.permMode.Calls IsRead)
    (continues : ∀ buffers after progress,
      Owns env referenced (held + buffers.tokens) pinned holdings after progress →
      (next buffers).Ensures (handleOwned env helpers) callLedger.account post after progress) :
    (block.run >>= next).Ensures (handleOwned env helpers) callLedger.account post state progress := by
  have reads : (tracer .mask).Calls Neutral := ⟨trivial, fun _ => trivial⟩
  change (tracer .mask >>= fun mask =>
    ite ((mask >>> block.kind.recordType.toNat) &&& 1 = 1) block.body (pure .null) >>= next).Ensures _ _ _ _ _
  apply neutral_ensures pinning reads owns
  intro mask state progress owns
  by_cases traced : (mask >>> block.kind.recordType.toNat) &&& 1 = 1
  · rw [if_pos traced]
    exact body_owns pinning owns flags mode continues
  · rw [if_neg traced]
    apply continues .null state progress
    rw [TraceBuffers.tokens_null, add_zero]
    exact owns

/-- Freeing a pointer that is set gives its block back. -/
theorem kfreeSet_owns (pinning : Pinning env referenced) {pointer : Option Nat}
    (owns : Owns env referenced (addressTokens pointer + rest) pinned holdings state progress) :
    (kfreeSet pointer).Ensures (handleOwned env helpers) callLedger.account
      (fun _ after progress => Owns env referenced rest pinned holdings after progress) state progress := by
  cases pointer with
  | none =>
      have nothing : addressTokens none + rest = rest := zero_add rest
      rw [nothing] at owns
      exact owns
  | some address =>
      have stays : ∀ pair ∈ pinned, pair ∈ pinned ∧ ¬ CallPuts pair.1 (.tracer (.kfree address)) :=
        fun _ member => ⟨member, id⟩
      exact spend_ensures pinning (.tracer (.kfree address)) trivial (fun _ => rfl) owns rfl stays
        fun _ after progress owns => owns

/-- Three frees give back the memory behind three pointers. -/
theorem frees_owns (pinning : Pinning env referenced) {first second third : Option Nat}
    (owns : Owns env referenced (addressTokens first + (addressTokens second + (addressTokens third + rest))) pinned
      holdings state progress) :
    (kfreeSet first >>= fun _ => kfreeSet second >>= fun _ => kfreeSet third).Ensures (handleOwned env helpers)
      callLedger.account (fun _ after progress => Owns env referenced rest pinned holdings after progress) state
      progress := by
  rw [Program.ensures_bind]
  apply Program.Ensures.mono _ (kfreeSet_owns pinning owns)
  intro _ state progress owns
  rw [Program.ensures_bind]
  apply Program.Ensures.mono _ (kfreeSet_owns pinning owns)
  intro _ state progress owns
  exact kfreeSet_owns pinning owns

/-- The functions in `file.c` free the buffers at their end. -/
theorem returnFile_owns (pinning : Pinning env referenced) {buffers : TraceBuffers} {outcome : Outcome}
    (owns : Owns env referenced (buffers.tokens + rest) pinned holdings state progress) :
    (buffers.returnFile outcome).Ensures (handleOwned env helpers) callLedger.account
      (fun _ after progress => Owns env referenced rest pinned holdings after progress) state progress := by
  have order : buffers.tokens + rest =
      addressTokens buffers.traceStr + (addressTokens buffers.buffer + (addressTokens buffers.writer + rest)) := by
    unfold TraceBuffers.tokens
    abel
  rw [order] at owns
  unfold TraceBuffers.returnFile
  rw [Program.ensures_bind]
  exact frees_owns pinning owns

/-- The functions in `inode.c` undo the locks and references first. -/
theorem out_owns (pinning : Pinning env referenced) {leave : Prog Unit} {err : BitVec 32} {buffers : TraceBuffers}
    (leaves : leave.Ensures (handleOwned env helpers) callLedger.account
      (fun _ after progress => Owns env referenced (buffers.tokens + rest) pinned holdings after progress) state
      progress) :
    (buffers.out leave err).Ensures (handleOwned env helpers) callLedger.account
      (fun _ after progress => Owns env referenced rest pinned holdings after progress) state progress := by
  unfold TraceBuffers.out
  rw [Program.ensures_bind]
  apply Program.Ensures.mono _ leaves
  intro _ state progress owns
  have order : buffers.tokens + rest =
      addressTokens buffers.traceStr + (addressTokens buffers.writer + (addressTokens buffers.buffer + rest)) := by
    unfold TraceBuffers.tokens
    abel
  rw [order] at owns
  rw [Program.ensures_bind]
  exact frees_owns pinning owns

end

end Trfs.Kernel
