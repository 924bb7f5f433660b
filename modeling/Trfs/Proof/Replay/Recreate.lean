import Trfs.Construction.Kernel.Run
import Trfs.Proof.Replay.Descriptors
import Trfs.Proof.Replay.Traced

namespace Trfs.Replay
open Bytes Effect Trace Kernel

/-- A new name: a regular file with its mode, or a symbolic link with its target. -/
inductive Entry where
  | regular (path : CString) (mode : BitVec 32)
  | symlink (path target : CString)
deriving DecidableEq

/-- `O_CREAT` in the flags of an open. -/
def creates (flags : BitVec 32) : Bool := flags &&& 0o100 ≠ 0

/-- What an open or a symlink makes when it succeeds. -/
def SystemCall.makes : SystemCall → Option Entry
  | .open path flags (some mode) => if creates flags then some (.regular path mode) else none
  | .symlink target (some linkpath) => some (.symlink linkpath target)
  | _ => none

/-- The object that the recorded call made, below the replay directory. -/
def ReplayArgs.entry (args : ReplayArgs) : Option Entry :=
  match args.kind with
  | some .create => some (.regular (fullPath args.path1) (args.tracer.permissionMode.setWidth 32))
  | some .symlink => args.path2.map (Entry.symlink (fullPath args.path1))
  | _ => none

/-- The replay of the record issued a call that makes the object. -/
def Replayed.Recreates {σ : Type} (replayed : Replayed σ) : Prop :=
  ∃ entry, replayed.args.entry = some entry ∧ ∃ event ∈ replayed.done.events, event.call.makes = some entry

/-- A successful create or symlink and its record. `IOP_FASTPERM`, `IOP_LOOKUP` and `IOP_NOFOLLOW` are the only
lookup flags of inodes. -/
structure Made {L : Type} (env : Environment L) (helpers : Helpers) (report : Report L) (args : ReplayArgs) : Prop where
  ran : report.op.exec env helpers report.before = some report.done
  kind : report.op.kind = .create ∨ report.op.kind = .symlink
  succeeded : report.done.value.err = 0
  opflags : ∀ inode, (report.before.visible.upper.attributes inode).opflags.toNat < 8
  traced : Traced report.op report.before report.done.state args

section
variable {σ L : Type} {handler : Handler SystemCall.Reply σ} {env : Environment L} {helpers : Helpers}
  {report : Report L} {args : ReplayArgs} {fd : BitVec 32} {state : σ}

/-- The lookup flags of a directory do not contain `O_CREAT`. -/
theorem creates_opflags {opflags : BitVec 16} (small : opflags.toNat < 8) : creates (opflags.setWidth 32) = false := by
  have low : ∀ number < 8, number &&& 64 = 0 := by decide
  have mask : (opflags.setWidth 32) &&& (0o100 : BitVec 32) = 0 := by
    apply BitVec.eq_of_toNat_eq
    rw [BitVec.toNat_and, BitVec.toNat_setWidth, Nat.mod_eq_of_lt (by omega)]
    exact low opflags.toNat small
  exact decide_eq_false (not_not.mpr mask)

/-- The record of a create holds the lookup flags of the directory where the replay expects the flags of an open. -/
theorem Made.creates (full : helpers.WriteFully) (made : Made env helpers report args)
    (create : report.op.kind = .create) : creates args.tracer.openFlags = false := by
  obtain ⟨ran, _, _, opflags, traced⟩ := made
  obtain ⟨record, appends, tracer, _⟩ := traced
  obtain ⟨op, before, done⟩ := report
  cases op with
  | create dir dentry mode wantExcl =>
      obtain ⟨⟨flags, small, same⟩, _⟩ := appends.marked full opflags
        (trfsCreate_heading dir dentry mode wantExcl fun opflags => opflags.toNat < 8) ran
      rw [tracer, same]
      exact creates_opflags small
  | _ => exact nomatch create

/-- The only call of a replay that can make something is the one of its record. -/
theorem recreates_request {done : Execution SystemCall.Reply σ (BitVec 32 × Bool)} {c : SystemCall}
    (request : args.request fd = some c) (ran : (replayRecord fd args).exec handler state = some done) :
    (⟨args, fd, state, done⟩ : Replayed σ).Recreates ↔ ∃ entry, args.entry = some entry ∧ c.makes = some entry := by
  have issued : ∀ entry, (∃ event ∈ done.events, event.call.makes = some entry) ↔ c.makes = some entry := by
    intro entry
    cases replayRecord_replays ran with
    | silent kind => simp [ReplayArgs.request, kind] at request
    | call other reply requested events =>
        obtain rfl := Option.some.inj (request.symm.trans requested)
        have member : ∀ event, event ∈ done.events ∧ isSystem event = true ↔ event = ⟨c, reply⟩ := by
          intro event
          rw [← List.mem_filter, events, List.mem_singleton]
        constructor
        · rintro ⟨event, here, makes⟩
          have system : isSystem event = true := by
            obtain ⟨call, reply⟩ := event
            cases call <;> first | rfl | cases makes
          obtain rfl := (member event).mp ⟨here, system⟩
          exact makes
        · intro makes
          exact ⟨⟨c, reply⟩, ((member _).mpr rfl).1, makes⟩
  exact exists_congr fun entry => and_congr_right fun _ => issued entry

/-- A create is never made again. A symbolic link is made at its target and points to its own name. -/
theorem Made.ownTarget_iff {done : Execution SystemCall.Reply σ (BitVec 32 × Bool)} (full : helpers.WriteFully)
    (made : Made env helpers report args) (ran : (replayRecord fd args).exec handler state = some done) :
    (⟨args, fd, state, done⟩ : Replayed σ).Recreates ↔
      args.kind = some .symlink ∧ args.path2 = some (fullPath args.path1) := by
  have kind := made.traced.kind
  rcases made.kind with create | symlink
  · rw [create] at kind
    have request : args.request fd = some (.open (fullPath args.path1) args.tracer.openFlags
        (some (args.tracer.permissionMode.setWidth 32))) := by simp only [ReplayArgs.request, kind]
    rw [recreates_request request ran]
    simp [SystemCall.makes, made.creates full create, kind]
  · rw [symlink] at kind
    have request : args.request fd = some (.symlink (fullPath args.path1) args.path2) := by
      simp only [ReplayArgs.request, kind]
    obtain ⟨target, present⟩ : ∃ target, args.path2 = some target := by
      obtain ⟨_, _, _, _, path2⟩ := made.traced
      have second : report.op.path2 ≠ .absent := by
        obtain ⟨op, before, done⟩ := report
        cases op <;> simp_all [TracedOp.path2, TracedOp.kind]
      obtain ⟨target, present, _⟩ := Option.map_eq_some_iff.mp (path2 second)
      exact ⟨target, present⟩
    rw [recreates_request request ran]
    simp only [ReplayArgs.entry, kind, present, SystemCall.makes, Option.map_some, Option.some.injEq, true_and]
    constructor
    · rintro ⟨entry, rfl, same⟩
      exact (Entry.symlink.inj same).1
    · rintro rfl
      exact ⟨_, rfl, rfl⟩

/-- The replay of successful creates and symlinks makes their objects again exactly when all of them are symbolic
links that point to their own names below the replay directory. -/
theorem recreates_iff {reports : List (Report L)} {trace : List ReplayArgs} {replayed : List (Replayed σ)}
    (full : helpers.WriteFully) (made : List.Forall₂ (Made env helpers) reports trace)
    (ran : replayRun handler trace fd state = some replayed) :
    (∀ each ∈ replayed, each.Recreates) ↔
      ∀ args ∈ trace, args.kind = some .symlink ∧ args.path2 = some (fullPath args.path1) := by
  induction made generalizing fd state replayed with
  | nil =>
      obtain rfl := Option.some.inj ran
      simp
  | cons head _ ih =>
      simp only [replayRun] at ran
      obtain ⟨done, here, rest⟩ := Option.bind_eq_some_iff.mp ran
      obtain ⟨later, continued, rfl⟩ := Option.map_eq_some_iff.mp rest
      rw [List.forall_mem_cons, List.forall_mem_cons, head.ownTarget_iff full here, ih continued]

end

/-- A fresh mount on which each directory can be searched and looked up in. -/
def lookupMount : Machine Unit :=
  mounted
    { lower := ()
      upper := { freshMount.visible.upper with attributes := fun _ => ⟨0, 3, 0, 0, 0, 0, 0, 0, 0, 0, 0, 0, 0⟩ }
      lowerSb := 0 }
    freshMount.tfilePath

theorem made_of_grown {op : TracedOp} {done : Done Unit} (kind : op.kind = .create ∨ op.kind = .symlink)
    (ran : op.exec (steady 0 0) reliable lookupMount = some done)
    (seen : done.state.traceFile.length ≠ 0 ∧ done.value.err = 0) :
    ∃ args, Made (steady 0 0) reliable ⟨op, lookupMount, done⟩ args := by
  have grown : done.state.traceFile ≠ lookupMount.traceFile := fun same => seen.1 (congrArg List.length same)
  have alone : ∀ dentry, op.path2 ≠ .dentry dentry := by
    cases op <;> simp_all [TracedOp.path2, TracedOp.kind]
  obtain ⟨args, traced, _⟩ := traced_of_grown reliable_full ran alone grown none
  have small : (3 : BitVec 16).toNat < 8 := by decide
  exact ⟨args, ran, kind, seen.2, fun _ => small, traced⟩

/-- The replay of one record with an answered call completes. -/
theorem replayRun_one {args : ReplayArgs} {c : SystemCall} {reply : c.Reply} {after : BitVec 32}
    (request : args.request (-1) = some c) (answered : openSystem c 4 = some (reply, after)) :
    ∃ done, (replayRecord (-1) args).exec openSystem 4 = some done ∧
      replayRun openSystem [args] (-1) 4 = some [⟨args, -1, 4, done⟩] := by
  obtain ⟨done, ran, _⟩ := replayRecord_exec request (fun _ _ => rfl) answered
  exact ⟨done, ran, by simp only [replayRun, ran, Option.bind_some, Option.map_some]⟩

/-- The replay of a symbolic link `/a` to `/usr/src/replay/a` makes that link. -/
theorem recreates_ownTarget : ∃ done args replayed,
    Made (steady 0 0) reliable ⟨.symlink ⟨1⟩ dentryA (fullPath dentryA.path), lookupMount, done⟩ args ∧
      replayRun openSystem [args] (-1) 4 = some replayed ∧ ∀ each ∈ replayed, each.Recreates := by
  have shows : ((TracedOp.symlink ⟨1⟩ dentryA (fullPath dentryA.path)).exec (steady 0 0) reliable lookupMount).map
      (fun done => (done.state.traceFile.length, done.value.err)) = some (47, 0) := by decide +kernel
  obtain ⟨done, ran, seen⟩ := Option.map_eq_some_iff.mp shows
  obtain ⟨size, succeeded⟩ := Prod.mk.inj seen
  obtain ⟨args, made⟩ := made_of_grown (.inr rfl) ran ⟨by omega, succeeded⟩
  have kind : args.kind = some .symlink := made.traced.kind
  have path1 : args.path1 = dentryA.path := made.traced.path1 reliable_full ran nofun
  have path2 : args.path2 = some (fullPath args.path1) := by
    rw [path1]
    exact made.traced.target reliable_full ran (by decide)
  have request : args.request (-1) = some (.symlink (fullPath args.path1) args.path2) := by
    simp only [ReplayArgs.request, kind]
  have answered : openSystem (.symlink (fullPath args.path1) args.path2) 4 = some (0, 4) := rfl
  obtain ⟨replay, _, replayed⟩ := replayRun_one request answered
  refine ⟨done, args, _, made, replayed, ?_⟩
  apply (recreates_iff reliable_full (.cons made .nil) replayed).mpr
  intro other member
  obtain rfl := List.mem_singleton.mp member
  exact ⟨kind, path2⟩

/-- The replay of the record of a create opens a file that does not exist and makes none. -/
theorem recreates_create_fails : ∃ done args replayed,
    Made (steady 0 0) reliable ⟨.create ⟨1⟩ dentryA 0x1a4 true, lookupMount, done⟩ args ∧
      replayRun openSystem [args] (-1) 4 = some replayed ∧ ¬ ∀ each ∈ replayed, each.Recreates := by
  have shows : ((TracedOp.create ⟨1⟩ dentryA 0x1a4 true).exec (steady 0 0) reliable lookupMount).map
      (fun done => (done.state.traceFile.length, done.value.err)) = some (30, 0) := by decide +kernel
  obtain ⟨done, ran, seen⟩ := Option.map_eq_some_iff.mp shows
  obtain ⟨size, succeeded⟩ := Prod.mk.inj seen
  obtain ⟨args, made⟩ := made_of_grown (.inl rfl) ran ⟨by omega, succeeded⟩
  have kind : args.kind = some .create := made.traced.kind
  have request : args.request (-1) = some (.open (fullPath args.path1) args.tracer.openFlags
      (some (args.tracer.permissionMode.setWidth 32))) := by simp only [ReplayArgs.request, kind]
  have answered : openSystem (.open (fullPath args.path1) args.tracer.openFlags
      (some (args.tracer.permissionMode.setWidth 32))) 4 = some (4, 5) := rfl
  obtain ⟨replay, completed, replayed⟩ := replayRun_one request answered
  refine ⟨done, args, _, made, replayed, fun all => ?_⟩
  obtain ⟨symlink, _⟩ := (made.ownTarget_iff reliable_full completed).mp (all _ List.mem_cons_self)
  cases kind.symm.trans symlink

end Trfs.Replay
