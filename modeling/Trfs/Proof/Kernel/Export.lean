import Trfs.Construction.Kernel.Export
import Trfs.Proof.Kernel.InodeReferences
import Mathlib.Tactic.Ring

namespace Trfs.Kernel
open Effect

section
variable {ι : Type} {host : CacheHost ι} {cached : ι → Nat → LowerInode} {before after : Referenced}
  {call : ExportCall ι} {lowerInode : LowerInode}

/-- The lower inode of a call of `trfs_iget`, with the task. -/
def ExportCall.asks (cached : ι → Nat → LowerInode) : ExportCall ι → Option (ι × LowerInode)
  | .inode (.iget task lowerInode) => some (task, lowerInode)
  | .inode (.evict ..) => none
  | .fileHandle task handle parent => (handle.wanted parent).map fun (ino, _) => (task, cached task ino)

/-- The references that `ilookup` takes on a lower inode in this call. -/
def ExportCall.lookups (cached : ι → Nat → LowerInode) (lowerInode : LowerInode) (call : ExportCall ι) : Int :=
  match call with
  | .inode _ => 0
  | .fileHandle .. => if (call.asks cached).map (fun asked => asked.2) = some lowerInode then 1 else 0

/-- The references that `trfs_iget` drops in this call because there is no memory for a new inode. -/
def ExportCall.dropped (host : CacheHost ι) (cached : ι → Nat → LowerInode) (lowerInode : LowerInode)
    (state : Referenced) (call : ExportCall ι) : Int :=
  match call.asks cached with
  | none => 0
  | some (task, asked) =>
      if asked = lowerInode ∧ (state.cache.find host asked).isNone ∧ (host.allocated task).isNone then 1 else 0

theorem surplus_ilookup (present : lowerInode ≠ .null) (found : LowerInode) (state : Referenced) :
    (state.ilookup found).surplus lowerInode =
      state.surplus lowerInode + if found = lowerInode then 1 else 0 := by
  by_cases missing : found = .null
  · have other : ¬ found = lowerInode := fun same => present (same.symm.trans missing)
    rw [Referenced.ilookup, if_pos missing, if_neg other, add_zero]
  · rw [Referenced.ilookup, if_neg missing, surplus_igrab]

theorem ilookup_cache (found : LowerInode) (state : Referenced) : (state.ilookup found).cache = state.cache := by
  unfold Referenced.ilookup
  split <;> rfl

theorem iget_exhausted {task : ι} {asked : LowerInode}
    {done : Execution Call.Reply Referenced (Except (BitVec 32) Inode)} (missing : before.cache.find host asked = none)
    (exhausted : host.allocated task = none) (ran : before.iget host task asked = some done) :
    done.value = .error EACCES := by
  unfold Referenced.iget at ran
  split at ran
  · cases ran
  · simp only [trfsIget, upper, lower, perform, Program.call_bind, Program.pure_bind, Program.exec, handleReferences,
      handleCache, iget5Locked, missing, exhausted, Option.map_some] at ran
    rw [← Option.some.inj ran]

/-- `trfs_iget` changes the surplus of a lower inode only when there is no memory. -/
theorem iget_surplus {task : ι} {asked : LowerInode}
    {done : Execution Call.Reply Referenced (Except (BitVec 32) Inode)} (present : lowerInode ≠ .null)
    (distinct : (before.cache.map CachedInode.inode).Nodup) (ran : before.iget host task asked = some done) :
    (done.state.cache.map CachedInode.inode).Nodup ∧
      done.state.surplus lowerInode + (if asked = lowerInode ∧ (before.cache.find host asked).isNone ∧
        (host.allocated task).isNone then 1 else 0) = before.surplus lowerInode := by
  have accounts := iget_accounts distinct ran
  refine ⟨accounts.distinct, ?_⟩
  by_cases served : Served host before.cache (.iget task asked)
  · rw [(accounts.served served).1 lowerInode present, if_neg, add_zero]
    rintro ⟨_, missing, exhausted⟩
    rcases served with found | ⟨allocated, _⟩
    · exact found (Option.isNone_iff_eq_none.mp missing)
    · exact allocated (Option.isNone_iff_eq_none.mp exhausted)
  · obtain ⟨wanted, moves⟩ := iget_moves ran
    have failing := fun missing exhausted => iget_exhausted missing exhausted ran
    obtain ⟨value, state, events⟩ := done
    simp only at moves failing ⊢
    cases moves with
    | found found => exact absurd (.inl (by rw [found]; exact Option.some_ne_none _)) served
    | exhausted missing exhausted =>
        rw [surplus_iput wanted]
        simp [missing, exhausted]
    | @refused entry missing unused new blank refused =>
        have allocated : ¬ (host.allocated task).isNone := by
          intro exhausted
          exact absurd (Except.error.inj (failing missing (Option.isNone_iff_eq_none.mp exhausted))) (by decide)
        rw [surplus_cons, if_neg (by rw [blank]; exact present.symm), if_neg (fun all => allocated all.2.2)]
        omega
    | made entry allocated grabbed unused ready stands => exact absurd (.inr ⟨allocated, grabbed⟩) served

/-- One call changes the surplus of a lower inode by what `ilookup` takes and what `trfs_iget` drops. -/
theorem serve_surplus (present : lowerInode ≠ .null) (distinct : (before.cache.map CachedInode.inode).Nodup)
    (served : before.serve host cached call = some after) :
    (after.cache.map CachedInode.inode).Nodup ∧
      after.surplus lowerInode + call.dropped host cached lowerInode before =
        before.surplus lowerInode + call.lookups cached lowerInode := by
  cases call with
  | inode call =>
      cases call with
      | iget task asked =>
          obtain ⟨done, ran, rfl⟩ := Option.map_eq_some_iff.mp served
          obtain ⟨nodup, surplus⟩ := iget_surplus present distinct ran
          exact ⟨nodup, surplus.trans (add_zero _).symm⟩
      | evict task inode =>
          have accounts := step_accounts distinct
            (show Referenced.step host (.evict task inode) before = some after from served)
          refine ⟨accounts.distinct, ?_⟩
          simp only [ExportCall.dropped, ExportCall.asks, ExportCall.lookups, add_zero]
          exact (accounts.served trivial).1 lowerInode present
  | fileHandle task handle parent =>
      simp only [Referenced.serve] at served
      cases wanted : handle.wanted parent with
      | none =>
          rw [wanted] at served
          obtain rfl := Option.some.inj served
          simp [ExportCall.dropped, ExportCall.asks, ExportCall.lookups, wanted, distinct]
      | some number =>
          rw [wanted] at served
          obtain ⟨done, ran, rfl⟩ := Option.map_eq_some_iff.mp served
          have same := ilookup_cache (cached task number.1) before
          obtain ⟨nodup, surplus⟩ := iget_surplus present (by rw [same]; exact distinct) ran
          refine ⟨nodup, ?_⟩
          rw [same, surplus_ilookup present] at surplus
          simpa [ExportCall.dropped, ExportCall.asks, ExportCall.lookups, wanted] using surplus

/-- The references that the mount holds on a lower inode, together with those that `trfs_iget` dropped for lack of
memory, are one for each inode that stands for it and one for each file handle that was looked up. No other call ever
gives back the reference of a file handle. -/
theorem exports_account (host : CacheHost ι) (cached : ι → Nat → LowerInode) {calls : List (ExportCall ι)}
    {last : Referenced} (ran : runActions (Referenced.serve host cached) calls .begin = some last)
    (lowerInode : LowerInode) (present : lowerInode ≠ .null) :
    last.references lowerInode + totalActions (Referenced.serve host cached)
        (fun state call => call.dropped host cached lowerInode state) calls .begin =
      last.cache.live lowerInode + totalActions (Referenced.serve host cached)
        (fun _ call => call.lookups cached lowerInode) calls .begin := by
  have each : ∀ state (call : ExportCall ι) next, (state.cache.map CachedInode.inode).Nodup →
      Referenced.serve host cached call state = some next → (next.cache.map CachedInode.inode).Nodup ∧
        next.surplus lowerInode + call.dropped host cached lowerInode state =
          state.surplus lowerInode + call.lookups cached lowerInode :=
    fun _ _ _ distinct served => serve_surplus present distinct served
  have empty : (Referenced.begin.cache.map CachedInode.inode).Nodup := List.nodup_nil
  have balance := runActions_balance each empty ran
  have start : Referenced.begin.surplus lowerInode = 0 := rfl
  rw [start, Referenced.surplus, zero_add] at balance
  rw [← balance]
  ring

end

/-- A handle for the lower inode 5. -/
def handleFive : FileHandle := ⟨⟨5, 0, 0, 0⟩, 2, FILEID_INO32_GEN⟩

/-- One lookup by name and two by handle, then the inode is evicted. Two references stay. -/
theorem exports_account_handles : ∃ last, runActions (Referenced.serve twoTasks fun _ ino => ⟨ino⟩)
      [.inode (.iget false ⟨5⟩), .fileHandle false handleFive false, .fileHandle true handleFive false,
        .inode (.evict false ⟨1⟩)] .begin = some last ∧
    last.references ⟨5⟩ + 0 = last.cache.live ⟨5⟩ + 2 := by
  have ends : (runActions (Referenced.serve twoTasks fun _ ino => ⟨ino⟩)
      [.inode (.iget false ⟨5⟩), .fileHandle false handleFive false, .fileHandle true handleFive false,
        .inode (.evict false ⟨1⟩)] .begin).isSome := by decide +kernel
  obtain ⟨last, ran⟩ := Option.isSome_iff_exists.mp ends
  have account := exports_account twoTasks (fun _ ino => ⟨ino⟩) ran ⟨5⟩ (by decide)
  refine ⟨last, ran, ?_⟩
  convert account using 2
  · decide +kernel
  · decide +kernel

end Trfs.Kernel
