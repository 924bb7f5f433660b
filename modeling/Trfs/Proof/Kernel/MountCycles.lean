import Trfs.Library.Transitions
import Trfs.Proof.Kernel.MountCleanup

namespace Trfs.Kernel
open Bytes Effect

/-- Nothing is mounted. Memory holds whatever earlier mounts have left in it. -/
structure SuperState.Idle (state : SuperState) : Prop extends state.CleanedUp where
  next : state.next ≠ 0
  fsInfo : state.fsInfo = 0
  root : state.root = 0

section
variable {cycle : Cycle} {cycles : List Cycle} {state first after last : SuperState}

/-- A mount whose steps succeed can be unmounted, and that gives everything back exactly once. -/
theorem mountCycle_returns {outcomes : MountOutcomes} {request : MountRequest} (succeeds : outcomes.Succeeds request)
    (number : Nat) (word : Nat → PointerMember → Nat) (text : Nat → CString) :
    ∃ done, (mountCycle request).exec (handleSuper outcomes) ⟨[], number + 1, word, text, 0, 0, 0, 0, 0⟩ = some done ∧
      done.state.Idle := by
  obtain ⟨data, beyond, devName, rfl, mountPath, tfilePath, devicePath, fills⟩ := succeeds
  have cleaned : ∀ word text, SuperState.Idle ⟨[], number + 7, word, text, 0, 0, 0, 0, 0⟩ :=
    fun _ _ => ⟨⟨rfl, rfl, rfl, rfl⟩, Nat.succ_ne_zero _, rfl, rfl⟩
  simp [mountCycle, trfsMount, prepareMount, copyInto, mountNodev, trfsReadSuper, trfsSetLowerSuper, dMakeRoot,
    newDentryPrivateData, trfsSetLowerPath, Program.exec, handleSuper, SuperState.Valid, perform, lowerPathPointer,
    rootInodePointer, lowerSbPointer, mountPath, tfilePath, devicePath, fills.kernPath, fills.sbInfo, fills.filpOpen,
    fills.trfsIget, fills.dentry, fills.dentryInfo, trfsShutdownSuper, kfreeMember, genericShutdownSuper, dputRoot,
    trfsDRelease, trfsPutResetLowerPath, freeDentryPrivateData, trfsPutSuper, release, cleaned]

theorem cycleStep_idle (idle : state.Idle) (succeeds : cycle.outcomes.Succeeds cycle.request) :
    ∃ after, cycleStep cycle state = some after ∧ after.Idle := by
  obtain ⟨live, next, word, text, fsInfo, root, lowerPath, active, rootInode⟩ := state
  obtain ⟨⟨rfl, rfl, rfl, rfl⟩, there, rfl, rfl⟩ := idle
  obtain ⟨number, rfl⟩ := Nat.exists_eq_succ_of_ne_zero there
  obtain ⟨done, ran, kept⟩ := mountCycle_returns succeeds number word text
  exact ⟨done.state, Option.map_eq_some_iff.mpr ⟨done, ran, rfl⟩, kept⟩

/-- A mount that does not fault has had all its steps succeed. -/
theorem cycleStep_succeeds (idle : state.Idle) (stepped : cycleStep cycle state = some after) :
    cycle.outcomes.Succeeds cycle.request := by
  obtain ⟨done, ran, _⟩ := Option.map_eq_some_iff.mp stepped
  obtain ⟨mounted, _, mounts, _⟩ := Program.exec_bind_eq_some ran
  have ensures : (trfsMount cycle.request).Ensures (handleSuper cycle.outcomes) silent
      (fun err _ _ => err = 0 ∧ cycle.outcomes.Succeeds cycle.request) state () := mount_ensures cycle.request idle.fsInfo
  exact (ensures.exec mounts).2

theorem cycleStep_kept (idle : state.Idle) (stepped : cycleStep cycle state = some after) : after.Idle := by
  obtain ⟨found, same, kept⟩ := cycleStep_idle idle (cycleStep_succeeds idle stepped)
  obtain rfl := Option.some.inj (stepped.symm.trans same)
  exact kept

/-- One mount after the other: none of them faults exactly when all their steps succeed. Then each unmount has given
back all memory and all references. -/
theorem cycles_cleanUp_iff (idle : first.Idle) :
    ((∃ last, runActions cycleStep cycles first = some last) ↔
      ∀ cycle ∈ cycles, cycle.outcomes.Succeeds cycle.request) ∧
    ∀ last, runActions cycleStep cycles first = some last → last.Idle := by
  induction cycles generalizing first with
  | nil =>
      refine ⟨⟨fun _ cycle member => absurd member List.not_mem_nil, fun _ => ⟨first, rfl⟩⟩, fun last ran => ?_⟩
      obtain rfl := Option.some.inj ran
      exact idle
  | cons cycle rest ih =>
      refine ⟨⟨?_, fun all => ?_⟩, fun last ran => ?_⟩
      · rintro ⟨last, ran⟩
        obtain ⟨next, stepped, continued⟩ := Option.bind_eq_some_iff.mp ran
        have later := (ih (cycleStep_kept idle stepped)).1.mp ⟨last, continued⟩
        exact List.forall_mem_cons.mpr ⟨cycleStep_succeeds idle stepped, later⟩
      · obtain ⟨now, later⟩ := List.forall_mem_cons.mp all
        obtain ⟨next, stepped, kept⟩ := cycleStep_idle idle now
        obtain ⟨last, continued⟩ := (ih kept).1.mpr later
        exact ⟨last, Option.bind_eq_some_iff.mpr ⟨next, stepped, continued⟩⟩
      · obtain ⟨next, stepped, continued⟩ := Option.bind_eq_some_iff.mp ran
        exact (ih (cycleStep_kept idle stepped)).2 last continued

end

/-- Every step of the mount works. -/
def allWorks : MountOutcomes := { noDirectory with kernPath := fun _ => none }

/-- The directory is mounted twice, and the third time it is gone. -/
def thirdFails : List Cycle := [⟨mountRequest, allWorks⟩, ⟨mountRequest, allWorks⟩, ⟨mountRequest, noDirectory⟩]

theorem cycles_cleanUp_iff_thirdFails : ((∃ last, runActions cycleStep thirdFails (.start allWorks) = some last) ↔
      ∀ cycle ∈ thirdFails, cycle.outcomes.Succeeds cycle.request) ∧
    ∀ last, runActions cycleStep thirdFails (.start allWorks) = some last → last.Idle :=
  cycles_cleanUp_iff ⟨⟨rfl, rfl, rfl, rfl⟩, by decide, rfl, rfl⟩

end Trfs.Kernel
