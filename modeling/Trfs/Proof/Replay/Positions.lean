import Trfs.Construction.Replay.RegularFile
import Trfs.Proof.Kernel.Transfer
import Trfs.Proof.Replay.Traced

namespace Trfs.Replay
open Bytes Effect Trace Kernel Files

/-- The replay of the record moves as many bytes as the record says. A read asks for none, and a write takes its
number of bytes from `strlen`. -/
def ReplayArgs.KeepsPace (args : ReplayArgs) : Prop :=
  match args.kind with
  | some .read => args.tracer.err.toInt ≤ 0
  | some .write => ∃ content, args.content = some content ∧ min content.length maxRwCount = moved args.tracer.err
  | _ => True

/-- The VFS lets a call through when the file is open for it. -/
def Permits (flags : BitVec 32) : FileCall → Prop
  | .read .. => readable flags = true
  | .write .. => writable flags = true

/-- After the record the replay's descriptor is at the position of the original file, and the replay wrote where the
original did. -/
structure SamePlace {L σ : Type} (opened : σ → BitVec 32 → Option Cursor) (append : Bool) (size : L → Nat)
    (step : Transferred L) (replayed : Replayed σ) : Prop where
  offset : (opened replayed.done.state replayed.done.value.1).map Cursor.offset = some step.after.position.toNat
  place : (opened replayed.before replayed.fd).map Cursor.place = some (step.before.cursor append size).place

/-- The replay of a session gets to the position of the original after each record. -/
def SamePositions {L σ : Type} (handler : Handler SystemCall.Reply σ) (opened : σ → BitVec 32 → Option Cursor)
    (append : Bool) (size : L → Nat) (steps : List (Transferred L)) (trace : List ReplayArgs) (fd : BitVec 32)
    (system : σ) : Prop :=
  ∃ later, replayRun handler trace fd system = some later ∧ List.Forall₂ (SamePlace opened append size) steps later

section
variable {L σ : Type} {env : Environment L} {helpers : Helpers} {append : Bool} {size : L → Nat} {file : File}
  {lowerFile : LowerFile} {args : ReplayArgs} {fd : BitVec 32} {system : σ} {handler : Handler SystemCall.Reply σ}
  {path : CString} {flags : BitVec 32} {present : σ → Option Nat} {opened : σ → BitVec 32 → Option Cursor}

/-- The number of bytes that the replay of a transfer moves. A write without content faults. -/
def ReplayArgs.transferred (args : ReplayArgs) : FileCall → Option Nat
  | .read .. => some 0
  | .write .. => args.content.map fun content => min content.length maxRwCount

/-- A record keeps pace if and only if its replay moves the position as far as the session did. -/
theorem keepsPace_iff {call : FileCall} {position : BitVec 64} (kind : args.kind = some (call.op file position).kind) :
    args.KeepsPace ↔ args.transferred call = some (moved args.tracer.err) := by
  cases call with
  | read buf count =>
      have none : args.tracer.err.toInt ≤ 0 ↔ 0 = moved args.tracer.err := by
        rw [moved]
        omega
      simpa [ReplayArgs.KeepsPace, kind, FileCall.op, TracedOp.kind, ReplayArgs.transferred] using none
  | write buf count =>
      simp [ReplayArgs.KeepsPace, kind, FileCall.op, TracedOp.kind, ReplayArgs.transferred]

/-- The replay of a transfer moves the position of the file by its own count. -/
theorem CopyCalls.moves (calls : CopyCalls handler path flags present opened) {call : FileCall} {position : BitVec 64}
    {count : Nat} {cursor : Cursor} (kind : args.kind = some (call.op file position).kind)
    (permits : Permits flags call) (here : opened system fd = some cursor)
    (some_count : args.transferred call = some count) :
    ∃ done, (replayRecord fd args).exec handler system = some done ∧ done.value.1 = fd ∧
      opened done.state fd = some (call.move cursor count) := by
  have keeps : ∀ c, args.request fd = some c → args.kind ≠ some .open → (∀ state, opened state fd = some cursor →
      ∃ reply after, handler c state = some (reply, after) ∧ opened after fd = some (call.move cursor count)) →
      ∃ done, (replayRecord fd args).exec handler system = some done ∧ done.value.1 = fd ∧
        opened done.state fd = some (call.move cursor count) := by
    intro c request other answers
    obtain ⟨middle, same, completes⟩ := replayRecord_shows request calls.prints system
    have there : opened middle fd = some cursor := (congrFun (Prod.mk.inj same).2 fd).trans here
    obtain ⟨reply, after, answered, moved⟩ := answers middle there
    obtain ⟨done, ran, kept, value⟩ := completes reply after answered
    refine ⟨done, ran, ?_, (congrFun (Prod.mk.inj kept).2 fd).trans moved⟩
    rw [value, ReplayArgs.outcome, if_neg other]
  cases call with
  | read buf size =>
      obtain rfl := Option.some.inj some_count
      apply keeps (.read fd 0)
      · simp only [ReplayArgs.request, kind, FileCall.op, TracedOp.kind]
      · simp [kind, FileCall.op, TracedOp.kind]
      · intro state there
        obtain ⟨result, after, answered, few, moved⟩ := calls.reads state fd 0 cursor there
        have none : result.toInt.toNat = 0 := by
          simp at few
          omega
        rw [none] at moved
        exact ⟨result, after, answered, moved⟩
  | write buf size =>
      obtain ⟨content, given, rfl⟩ := Option.map_eq_some_iff.mp some_count
      apply keeps (.write fd content.bytes)
      · simp only [ReplayArgs.request, kind, FileCall.op, TracedOp.kind, given, Option.map_some]
      · simp [kind, FileCall.op, TracedOp.kind]
      · intro state there
        obtain ⟨after, answered, moved⟩ := calls.writes permits state fd content.bytes cursor there
        exact ⟨_, after, answered, moved⟩

/-- A record without a transfer to make is not replayed to an end. -/
theorem replayRecord_stops {call : FileCall} {position : BitVec 64}
    (kind : args.kind = some (call.op file position).kind) (nothing : args.transferred call = none) :
    (replayRecord fd args).exec handler system = none := by
  cases call with
  | read buf size => exact nomatch nothing
  | write buf size => exact replayRecord_faults kind (Option.map_eq_none_iff.mp nothing)

/-- Ahead of the end of the file, different counts lead to different offsets. -/
theorem FileCall.move_offset_inj {cursor : Cursor} (ahead : cursor.Ahead) (call : FileCall) {first second : Nat} :
    (call.move cursor first).offset = (call.move cursor second).offset ↔ first = second := by
  cases call with
  | read buf count => exact Cursor.read_offset_inj
  | write buf count => exact Cursor.write_offset_inj ahead

/-- The records of a transfer hold what the call returned. -/
theorem Traced.err {call : FileCall} {position : BitVec 64} {before : Machine L} {done : Done L}
    (full : helpers.WriteFully) (ran : (call.op file position).exec env helpers before = some done)
    (traced : Traced (call.op file position) before done.state args) : args.tracer.err = done.value.err := by
  obtain ⟨record, appends, tracer, _⟩ := traced
  obtain ⟨reaches, _, flags, mode, view⟩ := appends.of_exec full ran
  have recorded : record.header.err = (call.op file position).recordedErr (answersOf done.events) :=
    congrArg TraceDs.err view
  rw [tracer, recorded]
  apply (TracedOp.recordedErr_eq_iff reaches (TracedOp.exec_effect ran).1).mpr
  cases call <;> trivial

/-- The replay's descriptor and the original file are at one place. -/
structure Level (opened : σ → BitVec 32 → Option Cursor) (append : Bool) (size : L → Nat) (file : File)
    (lowerFile : LowerFile) (session : Session L) (fd : BitVec 32) (system : σ) : Prop where
  opens : Opens file lowerFile session.machine
  cursor : opened system fd = some (session.cursor append size)
  ahead : (session.cursor append size).Ahead

/-- A step keeps both at one place when the record keeps pace, and gets them apart otherwise. -/
theorem Level.step (step : Transferred L) (regular : Regular env lowerFile append size) (full : helpers.WriteFully)
    (calls : CopyCalls handler path flags present opened) (permits : Permits flags step.call)
    (level : Level opened append size file lowerFile step.before fd system)
    (ran : (step.call.op file step.before.position).exec env helpers step.before.machine = some step.done)
    (traced : Traced (step.call.op file step.before.position) step.before.machine step.done.state args) :
    (args.KeepsPace ∧ ∃ done, (replayRecord fd args).exec handler system = some done ∧ done.value.1 = fd ∧
        SamePlace opened append size step ⟨args, fd, system, done⟩ ∧
          Level opened append size file lowerFile step.after fd done.state) ∨
      (¬ args.KeepsPace ∧ ∀ done, (replayRecord fd args).exec handler system = some done →
        ¬ SamePlace opened append size step ⟨args, fd, system, done⟩) := by
  obtain ⟨opens, cursor, ahead⟩ := level
  obtain ⟨moves, opens⟩ := Transferred.after_cursor regular opens ran
  have offset : step.after.position.toNat =
      (step.call.move (step.before.cursor append size) (moved step.done.value.err)).offset :=
    congrArg Cursor.offset moves
  rw [keepsPace_iff traced.kind, traced.err full ran]
  cases count : args.transferred step.call with
  | none =>
      refine .inr ⟨nofun, fun done completed => ?_⟩
      exact nomatch (replayRecord_stops traced.kind count).symm.trans completed
  | some count' =>
      obtain ⟨done, completed, value, reached⟩ := calls.moves traced.kind permits cursor count
      by_cases same : count' = moved step.done.value.err
      · rw [same, ← moves] at reached
        refine .inl ⟨congrArg some same, done, completed, value, ⟨?_, ?_⟩, opens, reached, ?_⟩
        · show (opened done.state done.value.1).map Cursor.offset = some step.after.position.toNat
          rw [value, reached]
          rfl
        · show (opened system fd).map Cursor.place = _
          rw [cursor]
          rfl
        · rw [moves, ← same]
          cases kind : step.call with
          | read buf size =>
              rw [kind] at count
              obtain rfl := Option.some.inj count
              exact ahead
          | write buf size => exact ahead.write _
      · refine .inr ⟨fun agrees => same (Option.some.inj agrees), fun other completed' place => same ?_⟩
        obtain rfl := Option.some.inj (completed.symm.trans completed')
        have there : (opened done.state done.value.1).map Cursor.offset = some step.after.position.toNat := place.offset
        rw [value, reached, offset] at there
        exact (FileCall.move_offset_inj ahead step.call).mp (Option.some.inj there)

/-- The records of a session. -/
def TracedSession (file : File) : List (Transferred L) → List ReplayArgs → Prop :=
  List.Forall₂ fun step args => Traced (step.call.op file step.before.position) step.before.machine step.done.state args

/-- From one place on, a session and its replay stay together exactly when all records keep pace. -/
theorem Level.run (regular : Regular env lowerFile append size) (full : helpers.WriteFully)
    (copies : CopyCalls handler path flags present opened) {calls : List FileCall}
    (permits : ∀ call ∈ calls, Permits flags call) {session : Session L} {steps : List (Transferred L)}
    {trace : List ReplayArgs} (level : Level opened append size file lowerFile session fd system)
    (ran : runSession env helpers file calls session = some steps) (traced : TracedSession file steps trace) :
    SamePositions handler opened append size steps trace fd system ↔ ∀ args ∈ trace, args.KeepsPace := by
  induction calls generalizing session steps trace fd system with
  | nil =>
      obtain rfl := Option.some.inj ran
      cases traced
      exact iff_of_true ⟨[], rfl, .nil⟩ nofun
  | cons call calls ih =>
      simp only [runSession] at ran
      obtain ⟨done, here, rest⟩ := Option.bind_eq_some_iff.mp ran
      obtain ⟨later, continued, rfl⟩ := Option.map_eq_some_iff.mp rest
      obtain ⟨now, others⟩ := List.forall_mem_cons.mp permits
      cases traced with
      | cons head tail =>
          rename_i args trace
          rw [List.forall_mem_cons]
          have next := Level.step ⟨call, session, done⟩ regular full copies now level here head
          constructor
          · rintro ⟨reports, completed, places⟩
            simp only [replayRun] at completed
            obtain ⟨replayed, ranHead, more⟩ := Option.bind_eq_some_iff.mp completed
            obtain ⟨reports, ranTail, rfl⟩ := Option.map_eq_some_iff.mp more
            cases places with
            | cons place places =>
                rcases next with ⟨pace, other, completed, value, _, level⟩ | ⟨_, apart⟩
                · obtain rfl := Option.some.inj (completed.symm.trans ranHead)
                  rw [value] at ranTail
                  exact ⟨pace, (ih others level continued tail).mp ⟨reports, ranTail, places⟩⟩
                · exact absurd place (apart replayed ranHead)
          · rintro ⟨pace, all⟩
            rcases next with ⟨_, replayed, ranHead, value, place, level⟩ | ⟨slow, _⟩
            · obtain ⟨reports, ranTail, places⟩ := (ih others level continued tail).mpr all
              refine ⟨⟨args, fd, system, replayed⟩ :: reports, ?_, .cons place places⟩
              simp only [replayRun, ranHead, Option.bind_some, value, ranTail, Option.map_some]
            · exact absurd pace slow

/-- The replay of the record of an open calls open with the flags of the original. -/
theorem replayOpen_request (fd : BitVec 32) {inode : Inode} {before : Machine L} {opening : Done L}
    (full : helpers.WriteFully) (ranOpen : (TracedOp.open inode file).exec env helpers before = some opening)
    (traced : Traced (.open inode file) before opening.state args) :
    args.kind = some .open ∧ args.request fd = some (.open (fullPath file.dentry.path) file.flags none) := by
  have kind : args.kind = some .open := traced.kind
  have path1 := traced.path1 full ranOpen nofun
  obtain ⟨record, appended, tracer, _⟩ := traced
  have flags : args.tracer.openFlags = file.flags := by
    rw [tracer]
    exact (appended.marked full (fun _ => trivial) (trfsOpen_heading inode file) ranOpen).1
  refine ⟨kind, ?_⟩
  simp only [ReplayArgs.request, kind, flags, path1, TracedOp.path1]

/-- The replay has the file open where the original has, or its descriptor is not of this file. -/
theorem CopyCalls.opening {openArgs : ReplayArgs} {bytes : Nat} (calls : CopyCalls handler path flags present opened)
    (kind : openArgs.kind = some .open) (request : openArgs.request fd = some (.open path flags none))
    (there : present system = some bytes) (closed : ∀ number, opened system number = none) :
    ∃ done, (replayRecord fd openArgs).exec handler system = some done ∧
      opened done.state done.value.1 = if exclusive flags then none else some (openedCursor flags bytes) := by
  obtain ⟨middle, same, completes⟩ := replayRecord_shows request calls.prints system
  obtain ⟨sized, kept⟩ := Prod.mk.inj same
  have stillThere : present middle = some bytes := sized.trans there
  have stillClosed : ∀ number, opened middle number = none := fun number => (congrFun kept number).trans (closed number)
  cases new : exclusive flags with
  | true =>
      obtain ⟨err, after, answered, failed, same⟩ := calls.excludes new middle bytes stillThere
      obtain ⟨done, ran, kept, value⟩ := completes err after answered
      refine ⟨done, ran, ?_⟩
      rw [(Prod.mk.inj kept).2, same, stillClosed]
      rfl
  | false =>
      obtain ⟨number, after, answered, valid, open_⟩ := calls.opens new middle bytes stillThere stillClosed
      obtain ⟨done, ran, kept, value⟩ := completes number after answered
      refine ⟨done, ran, ?_⟩
      have positive : ¬ number.toInt < 0 := by omega
      have descriptor : done.value.1 = number := by
        rw [value, ReplayArgs.outcome, if_pos kind]
        exact if_neg positive
      rw [descriptor, (Prod.mk.inj kept).2, open_]
      rfl

/-- The replay of a session continues from where its open left the file. -/
theorem replayRun_opened {openArgs : ReplayArgs} {trace : List ReplayArgs} {steps : List (Transferred L)}
    {done : Execution SystemCall.Reply σ (BitVec 32 × Bool)} {start : Nat}
    (ran : (replayRecord fd openArgs).exec handler system = some done) :
    (∃ first later, replayRun handler (openArgs :: trace) fd system = some (first :: later) ∧
        (opened first.done.state first.done.value.1).map Cursor.offset = some start ∧
        List.Forall₂ (SamePlace opened append size) steps later) ↔
      (opened done.state done.value.1).map Cursor.offset = some start ∧
        SamePositions handler opened append size steps trace done.value.1 done.state := by
  simp only [replayRun, ran, Option.bind_some, SamePositions]
  constructor
  · rintro ⟨first, later, completed, offset, places⟩
    obtain ⟨later, rest, same⟩ := Option.map_eq_some_iff.mp completed
    obtain ⟨rfl, rfl⟩ := List.cons.inj same
    exact ⟨offset, later, rest, places⟩
  · rintro ⟨offset, later, rest, places⟩
    exact ⟨_, later, congrArg _ rest, offset, places⟩

/-- After an open that does not ask for a new file both are at the beginning. -/
theorem Level.opening {start : Session L} {number : BitVec 32} {bytes : Nat} (opens : Opens file lowerFile start.machine)
    (beginning : start.cursor append size = openedCursor flags bytes)
    (reached : opened system number = some (openedCursor flags bytes)) :
    Level opened append size file lowerFile start number system := by
  refine ⟨opens, reached.trans (congrArg some beginning.symm), ?_⟩
  rw [beginning]
  exact Nat.zero_le _

/-- The replay of a session from the record of its open on, in a process that has not opened the file, is at the
position of the original file after each record exactly when the open does not ask for a new file and each record keeps
pace with its call. -/
theorem samePositions_iff {inode : Inode} {before : Machine L} {opening : Done L} {openArgs : ReplayArgs}
    {start : Session L} {calls : List FileCall} {steps : List (Transferred L)} {trace : List ReplayArgs} {bytes : Nat}
    (full : helpers.WriteFully) (ranOpen : (TracedOp.open inode file).exec env helpers before = some opening)
    (tracedOpen : Traced (.open inode file) before opening.state openArgs)
    (regular : Regular env lowerFile (appends file.flags) size) (opens : Opens file lowerFile start.machine)
    (beginning : start.cursor (appends file.flags) size = openedCursor file.flags bytes)
    (copies : CopyCalls handler (fullPath file.dentry.path) file.flags present opened)
    (there : present system = some bytes) (closed : ∀ number, opened system number = none)
    (permits : ∀ call ∈ calls, Permits file.flags call)
    (ran : runSession env helpers file calls start = some steps) (traced : TracedSession file steps trace) :
    (∃ first later, replayRun handler (openArgs :: trace) fd system = some (first :: later) ∧
        (opened first.done.state first.done.value.1).map Cursor.offset = some start.position.toNat ∧
        List.Forall₂ (SamePlace opened (appends file.flags) size) steps later) ↔
      exclusive file.flags = false ∧ ∀ args ∈ trace, args.KeepsPace := by
  obtain ⟨kind, request⟩ := replayOpen_request fd full ranOpen tracedOpen
  obtain ⟨done, ranFirst, reached⟩ := copies.opening kind request there closed
  have position : start.position.toNat = 0 := congrArg Cursor.offset beginning
  rw [replayRun_opened ranFirst, reached, position]
  cases new : exclusive file.flags with
  | true => exact iff_of_false (fun both => nomatch both.1) (fun both => nomatch both.1)
  | false =>
      rw [new] at reached
      have level : Level opened (appends file.flags) size file lowerFile start done.value.1 done.state :=
        Level.opening opens beginning reached
      rw [level.run regular full copies permits ran traced]
      exact and_congr_left' (iff_of_true rfl rfl)

end

/-- One regular file as the lower filesystem. Its state is the size of the file. -/
def oneFile (append : Bool) : Environment Nat where
  lower c size := match c with
    | .vfsRead _ _ count pos =>
        let read := min (min count.toNat 0x7ffff000) (min size (2 ^ 63) - pos.toNat)
        (⟨BitVec.ofNat 64 read, BitVec.ofNat 64 (pos.toNat + read)⟩, size)
    | .vfsWrite _ _ count pos =>
        let cursor := cursorAt append id size pos
        let written := min (min count.toNat 0x7ffff000) (2 ^ 63 - cursor.place)
        (⟨BitVec.ofNat 64 written, BitVec.ofNat 64 (cursor.write written).offset⟩, (cursor.write written).size)
    | c => (steadyLower 0 0 c, size)
  iget5Locked _ size := (some (⟨2⟩, false), size)
  dSpliceAlias _ _ size := (0, size)
  kzalloc size := (true, size)
  copyToUser _ _ size := (0, size)

/-- A small count is what a result of that many bytes moves. -/
theorem moved_ofNat {count : Nat} (small : count < 2 ^ 31) :
    moved ((BitVec.ofNat 64 count).setWidth 32) = count := by
  have same : (BitVec.ofNat 64 count).setWidth 32 = BitVec.ofNat 32 count := by
    apply BitVec.eq_of_toNat_eq
    simp only [BitVec.toNat_setWidth, BitVec.toNat_ofNat]
    omega
  rw [same, moved, toInt_ofNat_of_lt count (by omega), Int.toNat_natCast]

/-- The file system of one file behaves as a regular file does. -/
theorem oneFile_regular (append : Bool) (lowerFile : LowerFile) : Regular (oneFile append) lowerFile append id where
  read buf count pos size := by
    have position := pos.isLt
    simp only [oneFile, cursorAt, Cursor.read, id]
    rw [moved_ofNat (by omega), BitVec.toNat_ofNat, Nat.mod_eq_of_lt (by omega)]
  write buf count pos size := by
    have position := pos.isLt
    simp only [oneFile, cursorAt, id]
    generalize start : Cursor.mk append size pos.toNat = cursor
    have offset : cursor.offset < 2 ^ 64 := start ▸ position
    have mode : append = cursor.append := by rw [← start]
    generalize room : min (min count.toNat 0x7ffff000) (2 ^ 63 - cursor.place) = written
    have below : (cursor.write written).offset < 2 ^ 64 := by
      rw [cursor.write_offset]
      split <;> omega
    rw [moved_ofNat (by omega), BitVec.toNat_ofNat, Nat.mod_eq_of_lt below, mode, ← cursor.write_append written]
  copies _ _ := rfl

/-- A fresh mount over one file of the given size. -/
def mountOneFile (size : Nat) : Machine Nat :=
  mounted { lower := size, upper := freshMount.visible.upper, lowerSb := 0 } freshMount.tfilePath

/-- The file `/a`, opened with `O_RDWR`. -/
def fileRW : File := ⟨1, dentryA, 2⟩

/-- A file below the replay directory, and whether the replay has it open at descriptor 4. -/
structure Copy where
  cursor : Cursor
  isOpen : Bool

/-- A system with one file, which a process opens once with one set of flags. -/
def copySystem (path : CString) (flags : BitVec 32) : Handler SystemCall.Reply Copy
  | .fault, _ => none
  | .printf _, copy => some ((), copy)
  | .open given wanted _, copy =>
      if given = path ∧ wanted = flags ∧ exclusive flags = false ∧ copy.isOpen = false then
        some ((4 : BitVec 32), ⟨openedCursor flags copy.cursor.size, true⟩)
      else some ((-1 : BitVec 32), copy)
  | .read fd count, copy =>
      if fd = 4 ∧ copy.isOpen = true ∧ readable flags = true then
        let read := min (min count.toNat maxRwCount) (copy.cursor.size - copy.cursor.offset)
        some (BitVec.ofNat 64 read, { copy with cursor := copy.cursor.read read })
      else some ((-1 : BitVec 64), copy)
  | .write fd bytes, copy =>
      if fd = 4 ∧ copy.isOpen = true ∧ writable flags = true then
        let written := min bytes.length maxRwCount
        some (BitVec.ofNat 64 written, { copy with cursor := copy.cursor.write written })
      else some ((-1 : BitVec 64), copy)
  | .close fd, copy =>
      if fd = 4 ∧ copy.isOpen = true then some ((0 : BitVec 32), { copy with isOpen := false })
      else some ((-1 : BitVec 32), copy)
  | .link .., copy | .unlink _, copy | .symlink .., copy | .mkdir .., copy | .rmdir _, copy | .mknod .., copy
  | .rename .., copy => some ((-1 : BitVec 32), copy)

def Copy.opened (copy : Copy) (fd : BitVec 32) : Option Cursor :=
  if fd = 4 ∧ copy.isOpen = true then some copy.cursor else none

/-- A file that is not open. -/
def closedCopy (size : Nat) : Copy := ⟨⟨false, size, 0⟩, false⟩

/-- The copy is open under its one descriptor. -/
theorem Copy.opened_eq_some {copy : Copy} {fd : BitVec 32} {cursor : Cursor} :
    copy.opened fd = some cursor ↔ (fd = 4 ∧ copy.isOpen = true) ∧ copy.cursor = cursor := by
  unfold Copy.opened
  split <;> simp_all

/-- The system with the one copy meets the contract of the calls. -/
theorem copySystem_calls (path : CString) (flags : BitVec 32) :
    CopyCalls (copySystem path flags) path flags (fun copy => some copy.cursor.size) Copy.opened where
  prints text copy := ⟨copy, rfl, rfl⟩
  opens old copy bytes there closed := by
    have free : copy.isOpen = false := by
      by_contra isOpen
      have here : copy.opened 4 = some copy.cursor := Copy.opened_eq_some.mpr ⟨⟨rfl, by simpa using isOpen⟩, rfl⟩
      rw [closed 4] at here
      cases here
    obtain rfl := Option.some.inj there
    refine ⟨4, ⟨openedCursor flags copy.cursor.size, true⟩, ?_, by decide, rfl⟩
    simp [copySystem, old, free]
  excludes new copy bytes there := by
    refine ⟨-1, copy, ?_, by decide, rfl⟩
    simp [copySystem, new]
  reads copy fd count cursor here := by
    obtain ⟨⟨rfl, isOpen⟩, rfl⟩ := Copy.opened_eq_some.mp here
    by_cases mode : readable flags = true
    · have bound : 2 * min (min count.toNat maxRwCount) (copy.cursor.size - copy.cursor.offset) < 2 ^ 64 := by
        unfold maxRwCount
        omega
      refine ⟨_, _, if_pos ⟨rfl, isOpen, mode⟩, ?_, ?_⟩
      · rw [toInt_ofNat_of_lt _ bound]
        omega
      · rw [toInt_ofNat_of_lt _ bound]
        exact Copy.opened_eq_some.mpr ⟨⟨rfl, isOpen⟩, rfl⟩
    · refine ⟨-1, copy, if_neg fun all => mode all.2.2, ?_, here⟩
      have negative : (-1 : BitVec 64).toInt = -1 := by decide
      omega
  writes mode copy fd bytes cursor here := by
    obtain ⟨⟨rfl, isOpen⟩, rfl⟩ := Copy.opened_eq_some.mp here
    exact ⟨_, if_pos ⟨rfl, isOpen, mode⟩, Copy.opened_eq_some.mpr ⟨⟨rfl, isOpen⟩, rfl⟩⟩

/-- Before it is opened no descriptor has the copy. -/
theorem closedCopy_closed (size : Nat) (fd : BitVec 32) : (closedCopy size).opened fd = none := by
  simp [Copy.opened, closedCopy]

/-- An open and one call, both traced. -/
structure OneCall (size : Nat) (call : FileCall) (content : Option CString) (opening done : Done Nat)
    (openArgs args : ReplayArgs) : Prop where
  opened : (TracedOp.open ⟨1⟩ fileRW).exec (oneFile false) reliable (mountOneFile size) = some opening
  tracedOpen : Traced (.open ⟨1⟩ fileRW) (mountOneFile size) opening.state openArgs
  opens : Opens fileRW ⟨1, ⟨1⟩⟩ opening.state
  beginning : (⟨opening.state, 0⟩ : Session Nat).cursor (appends fileRW.flags) id = openedCursor fileRW.flags size
  ran : runSession (oneFile false) reliable fileRW [call] ⟨opening.state, 0⟩ =
    some [⟨call, ⟨opening.state, 0⟩, done⟩]
  traced : TracedSession fileRW [⟨call, ⟨opening.state, 0⟩, done⟩] [args]
  content : args.content = content

/-- What the evaluation of an open and one call shows. -/
def oneCallShows (size : Nat) (call : FileCall) : Option (Nat × Option LowerFile × Nat × Nat × BitVec 32) :=
  ((TracedOp.open ⟨1⟩ fileRW).exec (oneFile false) reliable (mountOneFile size)).bind fun opening =>
    ((call.op fileRW 0).exec (oneFile false) reliable opening.state).map fun done =>
      (opening.state.traceFile.length, opening.state.visible.upper.lowerFile 1, opening.state.visible.lower,
        done.state.traceFile.length, done.value.err)

/-- A session of one call whose replay moves another position. -/
theorem oneCall {size first second : Nat} {call : FileCall} {err : BitVec 32} (content : Option CString)
    (positive : 0 < first) (longer : first < second)
    (shows : oneCallShows size call = some (first, some ⟨1, ⟨1⟩⟩, size, second, err)) :
    ∃ opening done openArgs args, OneCall size call content opening done openArgs args ∧ args.tracer.err = err := by
  obtain ⟨opening, opened, rest⟩ := Option.bind_eq_some_iff.mp shows
  obtain ⟨done, ran, seen⟩ := Option.map_eq_some_iff.mp rest
  obtain ⟨one, seen⟩ := Prod.mk.inj seen
  obtain ⟨opens, seen⟩ := Prod.mk.inj seen
  obtain ⟨sized, seen⟩ := Prod.mk.inj seen
  obtain ⟨two, returned⟩ := Prod.mk.inj seen
  have grownOpen : opening.state.traceFile ≠ (mountOneFile size).traceFile := by
    intro same
    have length : opening.state.traceFile.length = 0 := congrArg List.length same
    omega
  have grown : done.state.traceFile ≠ opening.state.traceFile := by
    intro same
    have length := congrArg List.length same
    omega
  obtain ⟨openArgs, tracedOpen, _⟩ := traced_of_grown reliable_full opened nofun grownOpen none
  obtain ⟨args, traced, here⟩ := traced_of_grown reliable_full ran (by cases call <;> nofun) grown content
  refine ⟨opening, done, openArgs, args, ⟨opened, tracedOpen, opens, ?_, ?_, .cons traced .nil, here⟩, ?_⟩
  · show (⟨_, opening.state.visible.lower, _⟩ : Cursor) = openedCursor fileRW.flags size
    rw [sized]
    rfl
  · simp only [runSession, ran, Option.bind_some, Option.map_some]
  · rw [traced.err reliable_full ran, returned]

/-- A write of the two bytes `hh` is recorded with these bytes, and its replay moves the file to the same position. -/
theorem samePositions_write : ∃ opening done openArgs args,
    OneCall 0 (.write (fun _ => 0x68) 2) (some ⟨ascii "hh", by decide⟩) opening done openArgs args ∧
      ∃ first later,
        replayRun (copySystem (fullPath dentryA.path) 2) [openArgs, args] (-1) (closedCopy 0) = some (first :: later) ∧
        (first.done.state.opened first.done.value.1).map Cursor.offset = some 0 ∧
        List.Forall₂ (SamePlace Copy.opened false id) [⟨.write (fun _ => 0x68) 2, ⟨opening.state, 0⟩, done⟩] later := by
  have shows : oneCallShows 0 (.write (fun _ => 0x68) 2) = some (30, some ⟨1, ⟨1⟩⟩, 0, 62, 2) := by
    decide +kernel
  obtain ⟨opening, done, openArgs, args, one, err⟩ :=
    oneCall (some ⟨ascii "hh", by decide⟩) (by decide) (by decide) shows
  refine ⟨opening, done, openArgs, args, one, ?_⟩
  apply (samePositions_iff reliable_full one.opened one.tracedOpen (oneFile_regular _ _) one.opens one.beginning
    (copySystem_calls _ _) rfl (closedCopy_closed 0) (by simp [Permits]; decide) one.ran one.traced).mpr
  refine ⟨by decide, fun other member => ?_⟩
  obtain rfl := List.mem_singleton.mp member
  have kind : other.kind = some .write := (List.forall₂_cons.mp one.traced).1.kind
  rw [ReplayArgs.KeepsPace, kind, one.content, err]
  exact ⟨_, rfl, by decide⟩

/-- A read returns two bytes. Its replay reads none. -/
theorem samePositions_read_fails : ∃ opening done openArgs args,
    OneCall 2 (.read 0 2) none opening done openArgs args ∧
      ¬ ∃ first later,
        replayRun (copySystem (fullPath dentryA.path) 2) [openArgs, args] (-1) (closedCopy 2) = some (first :: later) ∧
        (first.done.state.opened first.done.value.1).map Cursor.offset = some 0 ∧
        List.Forall₂ (SamePlace Copy.opened false id) [⟨.read 0 2, ⟨opening.state, 0⟩, done⟩] later := by
  have shows : oneCallShows 2 (.read 0 2) = some (30, some ⟨1, ⟨1⟩⟩, 2, 60, 2) := by
    decide +kernel
  obtain ⟨opening, done, openArgs, args, one, err⟩ := oneCall none (by decide) (by decide) shows
  refine ⟨opening, done, openArgs, args, one, ?_⟩
  obtain ⟨kind, request⟩ := replayOpen_request (-1) reliable_full one.opened one.tracedOpen
  obtain ⟨replayed, ran, reached⟩ :=
    (copySystem_calls (fullPath dentryA.path) 2).opening kind request rfl (closedCopy_closed 2)
  have level : Level Copy.opened false id fileRW ⟨1, ⟨1⟩⟩ ⟨opening.state, 0⟩ replayed.value.1 replayed.state :=
    Level.opening one.opens one.beginning reached
  rw [replayRun_opened ran]
  rintro ⟨_, same⟩
  have pace := (level.run (oneFile_regular _ _) reliable_full (copySystem_calls _ _) (by simp [Permits]; decide) one.ran
    one.traced).mp same args List.mem_cons_self
  have kind : args.kind = some .read := (List.forall₂_cons.mp one.traced).1.kind
  rw [ReplayArgs.KeepsPace, kind, err] at pace
  have none : (2 : BitVec 32).toInt ≤ 0 := pace
  exact absurd none (by decide)

end Trfs.Replay
