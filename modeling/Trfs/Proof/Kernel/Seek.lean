import Trfs.Construction.Kernel.Seek

namespace Trfs.Kernel
open Effect

/-- The call leaves equal positions. A seek returns the position that it reached, or its error and no movement. -/
structure DirCall.Right (generic : GenericSeek) (made : DirCall) : Prop where
  equal : made.after.upper = made.after.lower
  reached : ∀ offset whence reached, made.action = .llseek offset whence →
    generic.seek made.before.upper offset whence = .ok reached → made.result = reached ∧ made.after.upper = reached
  failed : ∀ offset whence errno, made.action = .llseek offset whence →
    generic.seek made.before.upper offset whence = .error errno →
      made.result = errno.code.signExtend 64 ∧ made.after = made.before

/-- The positions are equal, and every call so far was right. -/
structure InStep (generic : GenericSeek) (state : DirState) : Prop where
  equal : state.positions.upper = state.positions.lower
  right : ∀ made ∈ state.calls, made.Right generic

/-- The position that a seek reaches fits into an `int`. -/
def Narrow (generic : GenericSeek) (state : DirState) : DirAction → Prop
  | .llseek offset whence => ∀ reached, generic.seek state.positions.upper offset whence = .ok reached →
      reached.toNat < 2 ^ 31
  | .readdir _ => True

/-- A position survives the `int` exactly when it fits. -/
theorem truncated_eq_iff {position : BitVec 64} (nonneg : 0 ≤ position.toInt) :
    (position.setWidth 32).signExtend 64 = position ↔ position.toNat < 2 ^ 31 := by
  have value := BitVec.toInt_signExtend_of_le (x := position.setWidth 32) (show 32 ≤ 64 by decide)
  have wide : (position.setWidth 32).toNat = position.toNat % 2 ^ 32 := BitVec.toNat_setWidth ..
  have low := BitVec.toInt_eq_toNat_cond (position.setWidth 32)
  have whole := BitVec.toInt_eq_toNat_cond position
  rw [← BitVec.toInt_inj, value]
  constructor
  · intro same
    rw [low, wide] at same
    split at same <;> split at whole <;> omega
  · intro small
    rw [low, wide]
    split <;> split at whole <;> omega

section
variable {generic : GenericSeek} {state next : DirState} {offset position : BitVec 64} {whence : BitVec 32}

/-- A seek that fails above does not touch the lower file. -/
theorem llseek_failed {errno : Errno} (refused : generic.seek state.positions.upper offset whence = .error errno) :
    (DirAction.llseek offset whence).exec generic state.positions =
      some (errno.code.signExtend 64, state.positions) := by
  have seek : generic.seek (state.positions.get .upper) offset whence = .error errno := refused
  have back : ((errno.code.signExtend 64).setWidth 32 : BitVec 32) = errno.code := by
    apply BitVec.eq_of_getLsbD_eq
    intro index inside
    rw [BitVec.getLsbD_setWidth, BitVec.getLsbD_signExtend]
    simp [inside, show index < 64 by omega]
  simp only [DirAction.exec, trfsFileLlseek, perform_bind, Program.exec, handlePositions, seek, back,
    if_pos errno.isErr.2, Program.pure_eq, Option.map_some]

/-- A seek that succeeds above is repeated below, unless its truncated position is negative. -/
theorem llseek_reached (equal : state.positions.upper = state.positions.lower)
    (reached : generic.seek state.positions.upper offset whence = .ok position) :
    (DirAction.llseek offset whence).exec generic state.positions =
      some ((position.setWidth 32).signExtend 64,
        if (position.setWidth 32).toInt < 0 then ⟨position, state.positions.lower⟩ else ⟨position, position⟩) := by
  have above : generic.seek (state.positions.get .upper) offset whence = .ok position := reached
  have below : generic.seek ((state.positions.set position .upper).get .lower) offset whence = .ok position := by
    change generic.seek state.positions.lower offset whence = .ok position
    rw [← equal, reached]
  simp only [DirAction.exec, trfsFileLlseek, perform_bind, Program.exec, handlePositions, above]
  split
  · rfl
  · simp only [Program.exec, handlePositions, below]
    rfl

theorem readdir_exec (listing : Listing) :
    (DirAction.readdir listing).exec generic state.positions =
      some (listing.err.signExtend 64, ⟨listing.position, listing.position⟩) := by
  simp only [DirAction.exec, trfsReaddir, perform_bind, Program.exec, handlePositions]
  split <;> rfl

/-- The entry of one call in the record of the run. -/
theorem dirStep_eq_some {action : DirAction} (stepped : dirStep generic action state = some next) :
    ∃ result after, action.exec generic state.positions = some (result, after) ∧
      next = ⟨after, state.calls ++ [⟨action, state.positions, result, after⟩]⟩ := by
  obtain ⟨⟨result, after⟩, ran, same⟩ := Option.map_eq_some_iff.mp stepped
  exact ⟨result, after, ran, same.symm⟩

/-- From equal positions a call is right exactly when it is narrow. -/
theorem dirStep_right_iff {action : DirAction} (equal : state.positions.upper = state.positions.lower)
    {result : BitVec 64} {after : Positions} (ran : action.exec generic state.positions = some (result, after)) :
    DirCall.Right generic ⟨action, state.positions, result, after⟩ ↔ Narrow generic state action := by
  cases action with
  | readdir listing =>
      rw [readdir_exec] at ran
      obtain ⟨rfl, rfl⟩ := Prod.mk.inj (Option.some.inj ran)
      refine iff_of_true ⟨rfl, ?_, ?_⟩ trivial
      · intro offset whence reached same
        cases same
      · intro offset whence errno same
        cases same
  | llseek offset whence =>
      cases seek : generic.seek state.positions.upper offset whence with
      | error errno =>
          rw [llseek_failed seek] at ran
          obtain ⟨rfl, rfl⟩ := Prod.mk.inj (Option.some.inj ran)
          refine iff_of_true ⟨equal, ?_, ?_⟩ ?_
          · intro offset' whence' reached same found
            cases same
            rw [seek] at found
            cases found
          · intro offset' whence' errno' same found
            cases same
            rw [seek] at found
            cases found
            exact ⟨rfl, rfl⟩
          · intro reached found
            rw [seek] at found
            cases found
      | ok position =>
          have nonneg := generic.nonneg seek
          rw [llseek_reached equal seek] at ran
          obtain ⟨rfl, rfl⟩ := Prod.mk.inj (Option.some.inj ran)
          constructor
          · intro right reached found
            have returned := (right.reached offset whence reached rfl found).1
            rw [seek] at found
            cases found
            exact (truncated_eq_iff nonneg).mp returned
          · intro narrow
            have small := narrow position seek
            have kept := (truncated_eq_iff nonneg).mpr small
            have positive : ¬ (position.setWidth 32).toInt < 0 := by
              rw [← kept, BitVec.toInt_signExtend_of_le (show 32 ≤ 64 by decide)] at nonneg
              omega
            rw [if_neg positive, kept]
            refine ⟨rfl, ?_, ?_⟩
            · intro offset' whence' reached same found
              cases same
              rw [seek] at found
              cases found
              exact ⟨rfl, rfl⟩
            · intro offset' whence' errno same found
              cases same
              rw [seek] at found
              cases found

/-- One narrow call keeps the positions in step. -/
theorem InStep.step {action : DirAction} (before : InStep generic state) (narrow : Narrow generic state action)
    (stepped : dirStep generic action state = some next) : InStep generic next := by
  obtain ⟨result, after, ran, rfl⟩ := dirStep_eq_some stepped
  have right := (dirStep_right_iff before.equal ran).mpr narrow
  refine ⟨right.equal, ?_⟩
  intro made member
  rcases List.mem_append.mp member with earlier | last
  · exact before.right made earlier
  · rw [List.mem_singleton.mp last]
    exact right

/-- The record only grows, so that a wrong call stays in it. -/
theorem dirStep_calls {action : DirAction} (stepped : dirStep generic action state = some next) :
    state.calls <+: next.calls := by
  obtain ⟨result, after, _, rfl⟩ := dirStep_eq_some stepped
  exact List.prefix_append _ _

/-- The positions stay in step, and every result is right, exactly in the runs of narrow calls. -/
theorem run_inStep_iff (before : InStep generic state) {actions : List DirAction} {last : DirState}
    (ran : runActions (dirStep generic) actions state = some last) :
    InStep generic last ↔ ObeyActions (dirStep generic) (Narrow generic) actions state := by
  have keeps : ∀ state action next, InStep generic state → Narrow generic state action →
      dirStep generic action state = some next → InStep generic next :=
    fun _ _ _ before narrow stepped => before.step narrow stepped
  have harms : ∀ state action next, InStep generic state → ¬ Narrow generic state action →
      dirStep generic action state = some next → ∃ made ∈ next.calls, ¬ made.Right generic := by
    intro state action next before wide stepped
    obtain ⟨result, after, executed, rfl⟩ := dirStep_eq_some stepped
    have wrong := mt (dirStep_right_iff before.equal executed).mp wide
    exact ⟨_, List.mem_append_right _ (List.mem_singleton_self _), wrong⟩
  have stays : ∀ state action next, (∃ made ∈ state.calls, ¬ made.Right generic) →
      dirStep generic action state = some next → ∃ made ∈ next.calls, ¬ made.Right generic := by
    intro state action next ⟨made, member, wrong⟩ stepped
    exact ⟨made, (dirStep_calls stepped).subset member, wrong⟩
  have apart : ∀ state : DirState, (∃ made ∈ state.calls, ¬ made.Right generic) → ¬ InStep generic state :=
    fun state ⟨made, member, wrong⟩ inStep => wrong (inStep.right made member)
  exact runActions_sound_iff keeps harms stays apart before ran

/-- From equal positions and an empty record the positions stay in step exactly in the runs of narrow calls. -/
theorem directory_inStep_iff (generic : GenericSeek) (position : BitVec 64) (actions : List DirAction)
    {last : DirState} (ran : runActions (dirStep generic) actions ⟨⟨position, position⟩, []⟩ = some last) :
    InStep generic last ↔
      ObeyActions (dirStep generic) (Narrow generic) actions ⟨⟨position, position⟩, []⟩ := by
  refine run_inStep_iff ⟨rfl, ?_⟩ ran
  intro made member
  cases member

end

/-- `generic_file_llseek` for `SEEK_SET`, `SEEK_CUR` and `SEEK_END` on a directory of 4096 bytes. -/
def plainTarget (position offset : BitVec 64) (whence : BitVec 32) : BitVec 64 :=
  if whence = 0 then offset else if whence = 1 then position + offset else 4096 + offset

def plainSeek : GenericSeek where
  seek position offset whence :=
    if 0 ≤ (plainTarget position offset whence).toInt then .ok (plainTarget position offset whence)
    else .error ⟨-22, by decide⟩
  nonneg found := by
    split at found
    · cases found
      assumption
    · cases found

theorem directory_inStep_iff_rewind :
    ∃ last, runActions (dirStep plainSeek) [.readdir ⟨0, 70⟩, .llseek 0 0] ⟨⟨0, 0⟩, []⟩ = some last ∧
      (InStep plainSeek last ↔ ObeyActions (dirStep plainSeek) (Narrow plainSeek)
        [.readdir ⟨0, 70⟩, .llseek 0 0] ⟨⟨0, 0⟩, []⟩) := by
  have ends : (runActions (dirStep plainSeek) [.readdir ⟨0, 70⟩, .llseek 0 0] ⟨⟨0, 0⟩, []⟩).isSome := by
    decide +kernel
  obtain ⟨last, ran⟩ := Option.isSome_iff_exists.mp ends
  exact ⟨last, ran, directory_inStep_iff plainSeek 0 _ ran⟩

/-- A seek to `0x80000000` moves the upper file only. -/
theorem wide_seek_separates :
    ¬ ∀ (generic : GenericSeek) (position : BitVec 64) (actions : List DirAction) (last : DirState),
      runActions (dirStep generic) actions ⟨⟨position, position⟩, []⟩ = some last → InStep generic last := by
  intro inStep
  have shows : (runActions (dirStep plainSeek) [.llseek 0x80000000 0] ⟨⟨0, 0⟩, []⟩).map DirState.positions =
      some ⟨0x80000000, 0⟩ := by decide +kernel
  obtain ⟨last, ran, apart⟩ := Option.map_eq_some_iff.mp shows
  have equal := (inStep plainSeek 0 _ last ran).equal
  rw [apart] at equal
  exact absurd equal (by decide)

end Trfs.Kernel
