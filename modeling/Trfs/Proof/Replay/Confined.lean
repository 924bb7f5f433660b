import Trfs.Proof.Replay.Issued

namespace Trfs.Replay
open Bytes Effect Trace

/-- The names at which a call opens, makes, removes or renames something. -/
def SystemCall.names : SystemCall → List CString
  | .open path _ _ | .unlink path | .mkdir path _ | .rmdir path | .mknod path _ _ => [path]
  | .link oldpath newpath | .rename oldpath newpath => oldpath :: newpath.toList
  | .symlink _ linkpath => linkpath.toList
  | .printf _ | .read .. | .write .. | .close _ | .fault => []

/-- The paths that a record holds for objects of the mount. The target of a symbolic link is not one. -/
def ReplayArgs.objects (args : ReplayArgs) : List CString :=
  args.path1 :: match args.kind with
    | some .link | some .rename => args.path2.toList
    | _ => []

/-- The name is the replay directory followed by a path that the trace holds for an object. -/
def Replayable (trace : List ReplayArgs) (name : CString) : Prop :=
  ∃ args ∈ trace, ∃ path ∈ args.objects, name = fullPath path

def Confined (trace : List ReplayArgs) (c : SystemCall) : Prop := ∀ name ∈ c.names, Replayable trace name

section
variable {trace : List ReplayArgs} {args : ReplayArgs}

/-- Printing touches no name. -/
theorem confined_prints (text : String) : Confined trace (.printf text) := nofun

/-- A single name is one of its list. -/
theorem confined_one {name : CString} (replayable : Replayable trace name) :
    ∀ other ∈ [name], Replayable trace other :=
  fun _ member => List.mem_singleton.mp member ▸ replayable

/-- The first path of a record in the trace may be replayed. -/
theorem replayable_path1 (member : args ∈ trace) : Replayable trace (fullPath args.path1) :=
  ⟨args, member, args.path1, List.mem_cons_self, rfl⟩

/-- A confined call is confined where it is made. -/
theorem confined_call {c : SystemCall} (confined : Confined trace c) : ∀ other ∈ some c, Confined trace other :=
  fun _ member => Option.some.inj member ▸ confined

/-- The second name of a link or a rename is a path of the trace. -/
theorem confined_two (member : args ∈ trace) (kind : args.kind = some .link ∨ args.kind = some .rename) :
    ∀ name ∈ fullPath args.path1 :: (args.path2.map fullPath).toList, Replayable trace name := by
  intro name listed
  rcases List.mem_cons.mp listed with rfl | second
  · exact replayable_path1 member
  · obtain ⟨path, present, rfl⟩ := Option.map_eq_some_iff.mp (Option.mem_toList.mp second)
    have object : path ∈ args.objects := by
      rcases kind with kind | kind <;> simp [ReplayArgs.objects, kind, present]
    exact ⟨args, member, path, object, rfl⟩

/-- The replay of one record stays inside unless it is a symbolic link with another target. -/
theorem replayRecord_confined (member : args ∈ trace) (fd : BitVec 32) :
    (replayRecord fd args).Calls (Confined trace) ↔
      (args.kind = some .symlink → ∀ target ∈ args.path2, Replayable trace target) := by
  have path1 := confined_one (replayable_path1 member)
  rw [replayRecord_calls confined_prints nofun, ReplayArgs.request]
  cases kind : args.kind with
  | none => simp
  | some call =>
      have silent : call ≠ .symlink → some call = some .symlink → ∀ target ∈ args.path2, Replayable trace target :=
        fun other same => absurd (Option.some.inj same) other
      cases call with
      | read => simp [Confined, SystemCall.names]
      | release => simp [Confined, SystemCall.names]
      | write => simp [Confined, SystemCall.names]
      | symlink =>
          have named : ∀ target, target ∈ args.path2.toList ↔ target ∈ args.path2 := fun _ => Option.mem_toList
          simp [Confined, SystemCall.names, named]
      | link => exact iff_of_true (confined_call (confined_two member (.inl kind))) (silent (by decide))
      | rename => exact iff_of_true (confined_call (confined_two member (.inr kind))) (silent (by decide))
      | _ => exact iff_of_true (confined_call path1) (silent (by decide))

/-- A replay stays inside the replay directory exactly when the target of each symbolic link is a path inside. -/
theorem confined_iff (trace : List ReplayArgs) :
    (∀ args ∈ trace, ∀ fd, (replayRecord fd args).Calls (Confined trace)) ↔
      ∀ args ∈ trace, args.kind = some .symlink → ∀ target ∈ args.path2, Replayable trace target := by
  constructor
  · intro confined args member
    exact (replayRecord_confined member 0).mp (confined args member 0)
  · intro targets args member fd
    exact (replayRecord_confined member fd).mpr (targets args member)

end

/-- The record of a symbolic link `/s` to `/etc`. -/
def symlinkRecord : ReplayArgs where
  tracer := ⟨2, 4, 0, 0, CallKind.symlink.recordType, 0, 0, 0⟩
  path1 := ⟨ascii "/s", by decide⟩
  path2 := some ⟨ascii "/etc", by decide⟩
  content := none

/-- The replay of that record makes `/etc`. -/
theorem confined_symlink_fails :
    ¬ ∀ args ∈ [symlinkRecord], ∀ fd, (replayRecord fd args).Calls (Confined [symlinkRecord]) := by
  intro confined
  have calls := confined symlinkRecord List.mem_cons_self 0
  have named : Confined [symlinkRecord] (.symlink (fullPath symlinkRecord.path1) symlinkRecord.path2) :=
    (replayRecord_calls confined_prints nofun).mp calls _ rfl
  obtain ⟨args, member, path, object, same⟩ := named ⟨ascii "/etc", by decide⟩ (by decide)
  have longer := congrArg CString.length same
  simp [fullPath, CString.append, CString.length, replayPath, ascii] at longer

end Trfs.Replay
