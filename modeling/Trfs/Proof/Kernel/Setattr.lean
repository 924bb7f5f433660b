import Trfs.Construction.Kernel.Setattr

namespace Trfs.Kernel
open Bytes Effect

/-- A lower request that fails leaves the lower inode as it was. -/
def SetattrHost.Atomic (host : SetattrHost) : Prop := ∀ ia old, host.failing ia old = old

/-- A failed call keeps the upper inode, and over an atomic lower filesystem the sizes are equal after any call. -/
structure SetattrSafe (host : SetattrHost) (dentry : Dentry) (ia : Iattr (Option File)) (state : SetattrState) :
    Prop where
  unchanged : ∀ done, (trfsSetattr dentry ia).exec (handleSetattr host) state = some done → done.value ≠ 0 →
    done.state.upper host.inode = state.upper host.inode
  equal : ∀ done, (trfsSetattr dentry ia).exec (handleSetattr host) state = some done → host.Atomic →
    (done.state.upper host.inode).size = (done.state.lower host.lowerInode).size

/-- A request with a file has one. -/
def FileGiven (ia : Iattr (Option File)) : Prop := ia.valid &&& ATTR_FILE ≠ 0 → ia.file ≠ none

/-- The upper inode was given another size before the lower request failed. -/
structure Overtaken (host : SetattrHost) (ia : Iattr (Option File)) (state : SetattrState) : Prop where
  changeOk : host.changeOk = 0
  fileGiven : FileGiven ia
  resizes : ia.valid &&& ATTR_SIZE ≠ 0
  newsizeOk : host.newsizeOk = 0
  notify : host.notify ≠ 0
  other : ia.size ≠ (state.upper host.inode).size

section
variable {host : SetattrHost} {dentry : Dentry} {ia : Iattr (Option File)} {state : SetattrState}

/-- The upper inode with the size of the request. -/
def SetattrState.resized (state : SetattrState) (host : SetattrHost) (ia : Iattr (Option File)) : SetattrState :=
  if ia.valid &&& ATTR_SIZE ≠ 0 then
    { state with upper := Function.update state.upper host.inode { state.upper host.inode with size := ia.size } }
  else state

/-- The request to the lower inode. -/
def lowerRequest (host : SetattrHost) (ia : Iattr (Option File)) : Iattr (Option LowerFile) :=
  { ia with
    valid := lowerValid ia.valid
    file := if ia.valid &&& ATTR_FILE ≠ 0 then ia.file.bind host.lowerFile else none }

variable (host state) in
/-- The lower file of a request is found where the request gives a file. -/
theorem lowerFileOf_exec (given : FileGiven ia) :
    ∃ events, (kernel (lowerFileOf ia)).exec (handleSetattr host) state =
      some ⟨(lowerRequest host ia).file, state, events⟩ := by
  unfold lowerFileOf lowerRequest
  by_cases flagged : ia.valid &&& ATTR_FILE ≠ 0
  · cases file : ia.file with
    | none => exact absurd file (given flagged)
    | some file =>
        simp only [if_pos flagged]
        exact ⟨_, rfl⟩
  · simp only [if_neg flagged]
    exact ⟨_, rfl⟩

/-- A request that promises a file and gives none faults. -/
theorem lowerFileOf_faults (missing : ¬ FileGiven ia) :
    (kernel (lowerFileOf ia)).exec (handleSetattr host) state = none := by
  unfold FileGiven at missing
  rw [Classical.not_imp, not_not] at missing
  unfold lowerFileOf
  rw [if_pos missing.1, missing.2]
  rfl

/-- What `trfs_setattr` returns and leaves. -/
inductive SetattrOutcome (host : SetattrHost) (ia : Iattr (Option File)) (state : SetattrState) :
    BitVec 32 → SetattrState → Prop where
  | refused (err : BitVec 32) : err ≠ 0 →
      host.changeOk ≠ 0 ∨ ia.valid &&& ATTR_SIZE ≠ 0 ∧ host.newsizeOk ≠ 0 → SetattrOutcome host ia state err state
  | failed (after : SetattrState) : host.changeOk = 0 → FileGiven ia →
      (ia.valid &&& ATTR_SIZE ≠ 0 → host.newsizeOk = 0) → host.notify ≠ 0 → after.upper = (state.resized host ia).upper →
      after.lower host.lowerInode = host.failing (lowerRequest host ia) (state.lower host.lowerInode) →
      SetattrOutcome host ia state host.notify after
  | succeeded (after : SetattrState) : host.notify = 0 →
      (after.upper host.inode).size = ((state.resized host ia).upper host.inode).size →
      after.lower host.lowerInode = host.applied (lowerRequest host ia) (state.lower host.lowerInode) →
      SetattrOutcome host ia state 0 after

variable (host ia state) in
/-- The check refuses the size and changes nothing, or sets it in the upper inode. -/
theorem checkSize_exec :
    ∃ done, (checkSize host.inode ia).exec (handleSetattr host) state = some done ∧
      (ia.valid &&& ATTR_SIZE ≠ 0 ∧ host.newsizeOk ≠ 0 ∧ done.value ≠ 0 ∧ done.state = state ∨
        (ia.valid &&& ATTR_SIZE ≠ 0 → host.newsizeOk = 0) ∧ done.value = 0 ∧ done.state = state.resized host ia) := by
  unfold checkSize SetattrState.resized
  by_cases flagged : ia.valid &&& ATTR_SIZE ≠ 0
  · simp only [if_pos flagged, perform_bind, Program.exec, handleSetattr]
    by_cases refused : host.newsizeOk ≠ 0
    · rw [if_pos refused]
      exact ⟨_, rfl, .inl ⟨flagged, refused, refused, rfl⟩⟩
    · rw [if_neg refused]
      exact ⟨_, rfl, .inr ⟨fun _ => not_not.mp refused, rfl, rfl⟩⟩
  · simp only [if_neg flagged]
    exact ⟨_, rfl, .inr ⟨fun given => absurd given flagged, rfl, rfl⟩⟩

/-- Setting the upper size leaves the lower file. -/
theorem resized_lower : (state.resized host ia).lower = state.lower := by
  unfold SetattrState.resized
  split <;> rfl

variable (host state) in
/-- The request to the lower inode between its locks. -/
theorem notifyLower_exec (path : LowerPath) (request : Iattr (Option LowerFile)) :
    ∃ done, (notifyLower path.dentry request).exec (handleSetattr host) state = some done ∧ done.value = host.notify ∧
      done.state.upper = state.upper ∧ done.state.lower host.lowerInode =
        (if host.notify = 0 then host.applied request else host.failing request) (state.lower host.lowerInode) := by
  refine ⟨_, rfl, rfl, rfl, ?_⟩
  exact Function.update_self _ _ _

variable (host state) in
/-- The copy of the attributes leaves all sizes. -/
theorem copyAttr_exec :
    ∃ done, (kernel (fsstackCopyAttrAll host.inode host.lowerInode)).exec (handleSetattr host) state = some done ∧
      (done.state.upper host.inode).size = (state.upper host.inode).size ∧ done.state.lower = state.lower := by
  refine ⟨_, rfl, ?_, rfl⟩
  change (Function.update state.upper host.inode _ host.inode).size = _
  rw [Function.update_self]

variable (dentry state) in
/-- Setattr ends in one of its outcomes. -/
theorem trfsSetattr_exec (given : host.changeOk = 0 → FileGiven ia) :
    ∃ done, (trfsSetattr dentry ia).exec (handleSetattr host) state = some done ∧
      SetattrOutcome host ia state done.value done.state := by
  by_cases denied : host.changeOk ≠ 0
  · simp only [trfsSetattr, kernel, upper, perform, vfs, Program.call_bind, Program.pure_bind, Program.exec,
      handleSetattr, if_pos denied]
    exact ⟨_, rfl, .refused _ denied (.inl denied)⟩
  · obtain ⟨events, file⟩ := lowerFileOf_exec host state (given (not_not.mp denied))
    obtain ⟨checked, check, outcome⟩ := checkSize_exec host ia state
    simp only [trfsSetattr, trfsGetLowerPath, trfsPutLowerPath, kernel, upper, lower, perform, vfs, Program.call_bind,
      Program.pure_bind, Program.pure_eq, Program.exec, handleSetattr, if_neg denied, Program.exec_bind, file, check,
      Option.bind_some]
    rcases outcome with ⟨flagged, refused, failed, same⟩ | ⟨accepted, passed, resized⟩
    · simp only [if_pos failed, Program.exec, handleSetattr, same]
      exact ⟨_, rfl, .refused _ failed (.inr ⟨flagged, refused⟩)⟩
    · obtain ⟨notified, ran, value, upper, lower⟩ :=
        notifyLower_exec host (state.resized host ia) host.lowerPath (lowerRequest host ia)
      have request : { ia with valid := lowerValid ia.valid, file := (lowerRequest host ia).file } =
          lowerRequest host ia := rfl
      rw [resized_lower] at lower
      simp only [passed, resized, ne_eq, not_true_eq_false, if_false, Program.exec_bind, request, ran,
        Option.bind_some, value]
      by_cases notify : host.notify = 0
      · obtain ⟨copied, copy, size, kept⟩ := copyAttr_exec host notified.state
        simp only [notify, not_true_eq_false, if_false, Program.exec_bind, copy, Option.bind_some, Program.exec,
          handleSetattr]
        rw [if_pos notify] at lower
        exact ⟨_, rfl, .succeeded _ notify (by rw [size, upper]) (by rw [kept, lower])⟩
      · simp only [notify, not_false_eq_true, if_true, Program.exec, handleSetattr]
        rw [if_neg notify] at lower
        exact ⟨_, rfl, .failed _ (not_not.mp denied) (given (not_not.mp denied)) accepted notify upper lower⟩

/-- Without a file behind `ATTR_FILE` the call faults once the change is allowed. -/
theorem trfsSetattr_faults (allowed : host.changeOk = 0) (missing : ¬ FileGiven ia) :
    (trfsSetattr dentry ia).exec (handleSetattr host) state = none := by
  simp only [trfsSetattr, trfsGetLowerPath, kernel, upper, lower, perform, vfs, Program.call_bind, Program.pure_bind,
    Program.pure_eq, Program.exec, handleSetattr, allowed, ne_eq, not_true_eq_false, if_false, Program.exec_bind,
    lowerFileOf_faults missing, Option.bind_none, Option.map_none]

/-- The lower request asks for the size if and only if the request does. -/
theorem lowerValid_size (valid : BitVec 32) : lowerValid valid &&& ATTR_SIZE = valid &&& ATTR_SIZE := by
  have apart : ~~~ATTR_MODE &&& ATTR_SIZE = ATTR_SIZE := by decide
  unfold lowerValid
  split
  · rw [BitVec.and_assoc, apart]
  · rfl

/-- The upper size after the check. -/
theorem resized_size : ((state.resized host ia).upper host.inode).size =
    if ia.valid &&& ATTR_SIZE ≠ 0 then ia.size else (state.upper host.inode).size := by
  unfold SetattrState.resized
  split
  · dsimp only
    rw [Function.update_self]
  · rfl

/-- A request for the size that the inode has already changes nothing. -/
theorem resized_same (same : ia.valid &&& ATTR_SIZE ≠ 0 → ia.size = (state.upper host.inode).size) :
    (state.resized host ia).upper host.inode = state.upper host.inode := by
  unfold SetattrState.resized
  split
  · rename_i flagged
    dsimp only
    rw [Function.update_self, same flagged]
  · rfl

end

/-- A call is safe exactly when it does not resize the upper inode before its lower request fails. -/
theorem setattrSafe_iff (host : SetattrHost) (dentry : Dentry) (ia : Iattr (Option File)) (state : SetattrState)
    (equal : (state.upper host.inode).size = (state.lower host.lowerInode).size) :
    SetattrSafe host dentry ia state ↔ ¬ Overtaken host ia state := by
  constructor
  · intro safe overtaken
    obtain ⟨done, ran, outcome⟩ := trfsSetattr_exec dentry state fun _ => overtaken.fileGiven
    have kept := safe.unchanged done ran
    generalize done.value = err, done.state = after at outcome kept
    cases outcome with
    | refused _ _ why =>
        rcases why with denied | ⟨_, refused⟩
        · exact denied overtaken.changeOk
        · exact refused overtaken.newsizeOk
    | failed _ _ _ _ notify upper _ =>
        have size := congrArg Attributes.size (kept notify)
        rw [upper, resized_size, if_pos overtaken.resizes] at size
        exact overtaken.other size
    | succeeded _ notify _ _ => exact overtaken.notify notify
  · intro never
    have outcomes (done : Execution MountCall.Reply SetattrState (BitVec 32))
        (ran : (trfsSetattr dentry ia).exec (handleSetattr host) state = some done) :
        SetattrOutcome host ia state done.value done.state := by
      by_cases given : host.changeOk = 0 → FileGiven ia
      · obtain ⟨done', ran', outcome⟩ := trfsSetattr_exec dentry state given
        obtain rfl := Option.some.inj (ran.symm.trans ran')
        exact outcome
      · rw [Classical.not_imp] at given
        rw [trfsSetattr_faults given.1 given.2] at ran
        cases ran
    have still {after : SetattrState} (changeOk : host.changeOk = 0) (given : FileGiven ia)
        (newsizeOk : ia.valid &&& ATTR_SIZE ≠ 0 → host.newsizeOk = 0) (notify : host.notify ≠ 0)
        (upper : after.upper = (state.resized host ia).upper) :
        after.upper host.inode = state.upper host.inode := by
      rw [upper]
      apply resized_same
      intro flagged
      by_contra other
      exact never ⟨changeOk, given, flagged, newsizeOk flagged, notify, other⟩
    constructor
    · intro done ran
      have outcome := outcomes done ran
      generalize done.value = err, done.state = after at outcome
      intro error
      cases outcome with
      | refused => rfl
      | failed _ changeOk given newsizeOk notify upper _ => exact still changeOk given newsizeOk notify upper
      | succeeded => exact absurd rfl error
    · intro done ran atomic
      have outcome := outcomes done ran
      generalize done.value = err, done.state = after at outcome
      cases outcome with
      | refused => exact equal
      | failed _ changeOk given newsizeOk notify upper lower =>
          rw [still changeOk given newsizeOk notify upper, lower, atomic]
          exact equal
      | succeeded _ _ size lower =>
          rw [size, lower, resized_size, host.sized]
          simp only [lowerRequest, lowerValid_size, equal]

/-- `truncate` of a file to the given size, when the lower request returns this. -/
def truncating (notify : BitVec 32) : SetattrHost where
  inode := ⟨1⟩
  lowerPath := ⟨⟨1⟩, 1⟩
  lowerInode := ⟨1⟩
  lowerFile _ := none
  changeOk := 0
  newsizeOk := 0
  notify := notify
  applied ia old := if ia.valid &&& ATTR_SIZE ≠ 0 then { old with size := ia.size } else old
  failing _ old := old
  sized ia old := by split <;> rfl

def sizeRequest (size : BitVec 64) : Iattr (Option File) := ⟨ATTR_SIZE, 0, 0, 0, size, 0, 0, 0, none⟩

/-- Both inodes have 8 bytes. -/
def eightBytes : SetattrState where
  upper _ := ⟨0, 0, 0, 0, 0, 0, 0, 0, 0, 0, 0, 8, 0⟩
  lower _ := ⟨0, 0, 0, 0, 0, 0, 0, 0, 0, 0, 0, 8, 0⟩

def truncated : Dentry := ⟨1, ⟨ascii "/cut", by decide⟩⟩

/-- A request that succeeds below is safe. -/
theorem setattrSafe_iff_succeeding :
    SetattrSafe (truncating 0) truncated (sizeRequest 3) eightBytes ↔
      ¬ Overtaken (truncating 0) (sizeRequest 3) eightBytes :=
  setattrSafe_iff (truncating 0) truncated (sizeRequest 3) eightBytes rfl

/-- After a lower request that fails with `-EINVAL` the upper inode has 3 bytes and the lower one has 8. -/
theorem failed_truncate_resizes :
    ¬ ∀ (host : SetattrHost) (dentry : Dentry) (ia : Iattr (Option File)) (state : SetattrState),
      (state.upper host.inode).size = (state.lower host.lowerInode).size → SetattrSafe host dentry ia state := by
  intro safe
  have shows : ((trfsSetattr truncated (sizeRequest 3)).exec (handleSetattr (truncating EINVAL)) eightBytes).map
      (fun done => (done.value, (done.state.upper ⟨1⟩).size, (done.state.lower ⟨1⟩).size)) =
        some (EINVAL, 3, 8) := by decide +kernel
  obtain ⟨done, ran, seen⟩ := Option.map_eq_some_iff.mp shows
  obtain ⟨value, upper, lower⟩ : done.value = EINVAL ∧ (done.state.upper ⟨1⟩).size = 3 ∧
      (done.state.lower ⟨1⟩).size = 8 := by simpa [Prod.ext_iff] using seen
  have equal := (safe (truncating EINVAL) truncated (sizeRequest 3) eightBytes rfl).equal done ran fun _ _ => rfl
  have sizes : (3 : BitVec 64) = 8 := upper.symm.trans (equal.trans lower)
  exact absurd sizes (by decide)

end Trfs.Kernel
