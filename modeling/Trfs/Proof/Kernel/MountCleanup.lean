import Trfs.Construction.Kernel.Super
import Trfs.Library.Ensures

namespace Trfs.Kernel
open Bytes Effect

/-- Nothing is left of a mount: every block is free and every reference was given back. -/
structure SuperState.CleanedUp (state : SuperState) : Prop where
  live : state.live = []
  lowerPath : state.lowerPath = 0
  active : state.active = 0
  rootInode : state.rootInode = 0

/-- The mount returns without a fault, and when it fails it has cleaned up. -/
def MountRequest.CleansUp (request : MountRequest) (outcomes : MountOutcomes) : Prop :=
  ∃ done, (trfsMount request).exec (handleSuper outcomes) (.start outcomes) = some done ∧
    (done.value ≠ 0 → done.state.CleanedUp)

/-- The fallible steps of `trfs_read_super` succeed for these two names. -/
structure MountOutcomes.Fills (outcomes : MountOutcomes) (devName tfilePath : CString) : Prop where
  kernPath : outcomes.kernPath devName = none
  sbInfo : outcomes.kmalloc .sbInfo = true
  filpOpen : outcomes.filpOpen tfilePath = none
  trfsIget : outcomes.trfsIget = none
  dentry : outcomes.kmalloc .dentry = true
  dentryInfo : outcomes.kmalloc .dentryInfo = true

/-- There are data and a device name, and all fallible steps succeed. -/
def MountOutcomes.Succeeds (outcomes : MountOutcomes) (request : MountRequest) : Prop :=
  ∃ data beyond devName, request = ⟨some (data, beyond), some devName⟩ ∧ outcomes.kmalloc .mountPath = true ∧
    outcomes.kmalloc .tfilePath = true ∧ outcomes.kmalloc .devicePath = true ∧
    outcomes.Fills devName (MountRequest.tracker data beyond)

/-- The memory for the structure and its two paths is there. -/
structure MountOutcomes.Allocates (outcomes : MountOutcomes) : Prop where
  mountPath : outcomes.kmalloc .mountPath = true
  tfilePath : outcomes.kmalloc .tfilePath = true
  devicePath : outcomes.kmalloc .devicePath = true

/-- The members of the structure that goes to `trfs_read_super`. -/
structure PassesOn (state : SuperState) (mountPath : Nat) (tfilePath devicePath : CString) : Prop where
  tfilePath : state.text (state.word mountPath .tfilePath) = tfilePath
  devicePath : state.text (state.word mountPath .devicePath) = devicePath

/-- The execution needs no memory of its events. -/
def silent : Monitor SuperCall.Reply Unit where
  permits _ _ := True
  next _ _ _ := ()

section
variable {outcomes : MountOutcomes} {state after : SuperState} {α β : Type} {progress : Unit}

/-- A part of a program about which nothing is needed. -/
theorem skip_ensures {program : SuperProg β} {next : β → SuperProg α} {post : α → SuperState → Unit → Prop}
    (rest : ∀ value state progress, (next value).Ensures (handleSuper outcomes) silent post state progress) :
    (program >>= next).Ensures (handleSuper outcomes) silent post state progress := by
  rw [Program.ensures_bind]
  induction program generalizing state progress with
  | pure value => exact rest value state progress
  | call c continued ih => exact fun reply after answered => ih reply

/-- A load reads the member of a valid pointer. -/
theorem load_answered {pointer : Nat} {member : PointerMember} {value : Nat}
    (answered : handleSuper outcomes (.load pointer member) state = some (value, after)) :
    state.Valid pointer ∧ value = state.word pointer member ∧ after = state := by
  simp only [handleSuper] at answered
  split at answered
  · rename_i valid
    obtain ⟨rfl, rfl⟩ := Prod.mk.inj (Option.some.inj answered)
    exact ⟨valid, rfl, rfl⟩
  · cases answered

/-- `trfs_shutdown_super` faults on a superblock without private data. -/
theorem trfsShutdownSuper_faults (empty : state.fsInfo = 0) {post : Unit → SuperState → Unit → Prop} :
    trfsShutdownSuper.Ensures (handleSuper outcomes) silent post state progress := by
  intro info reached answered
  obtain ⟨rfl, rfl⟩ := Prod.mk.inj (Option.some.inj answered)
  intro mountPath last loaded
  exact absurd empty (load_answered loaded).1.1

/-- What `trfs_read_super` leaves when it returns: it fails with no private data, or nothing went wrong. -/
def Filled (outcomes : MountOutcomes) (devName tfilePath : CString) (err : BitVec 32) (state : SuperState) : Prop :=
  (err ≠ 0 ∧ state.fsInfo = 0) ∨ (err = 0 ∧ outcomes.Fills devName tfilePath)

/-- An error code is not 0. -/
theorem Errno.code_ne_zero (errno : Errno) : errno.code ≠ 0 := by
  intro zero
  have range := errno.isErr
  rw [zero] at range
  exact absurd range (by decide)

/-- A step that gives a reference back. -/
theorem pathPut_fsInfo {path : Nat} {reply : Unit}
    (answered : handleSuper outcomes (.pathPut path) state = some (reply, after)) : after.fsInfo = state.fsInfo := by
  simp only [handleSuper] at answered
  split at answered
  · obtain ⟨_, rfl⟩ := Prod.mk.inj (Option.some.inj answered)
    rfl
  · obtain ⟨count, _, same⟩ := Option.map_eq_some_iff.mp answered
    obtain ⟨_, rfl⟩ := Prod.mk.inj same
    rfl

/-- The failing exits from `out_sput` on leave no private data. -/
theorem outSput_ensures {lowerSb path : Nat} {err : BitVec 32} (failed : err ≠ 0) {devName tfilePath : CString} :
    (outSput lowerSb path >>= fun _ => Program.pure err).Ensures (handleSuper outcomes) silent
      (fun err state _ => Filled outcomes devName tfilePath err state) state progress := by
  intro _ first _ info second _ _ third _ _ fourth set _ last put
  obtain ⟨_, rfl⟩ := Prod.mk.inj (Option.some.inj set)
  exact .inl ⟨failed, pathPut_fsInfo put⟩

/-- A path that is found had no failure set for it. -/
theorem kernPath_answered {name : Nat} {found : Except Errno Nat}
    (answered : handleSuper outcomes (.kernPath name) state = some (found, after)) :
    after.word = state.word ∧ after.text = state.text ∧ after.fsInfo = state.fsInfo ∧
      ∀ path, found = .ok path → outcomes.kernPath (state.text name) = none := by
  simp only [handleSuper] at answered
  split at answered
  · split at answered
    · obtain ⟨rfl, rfl⟩ := Prod.mk.inj (Option.some.inj answered)
      exact ⟨rfl, rfl, rfl, fun path same => by cases same⟩
    · rename_i found
      obtain ⟨rfl, rfl⟩ := Prod.mk.inj (Option.some.inj answered)
      exact ⟨rfl, rfl, rfl, fun _ _ => found⟩
  · cases answered

/-- An allocation that returns memory was set to succeed. -/
theorem kmalloc_answered {what : Allocation} {pointer : Nat}
    (answered : handleSuper outcomes (.kmalloc what) state = some (pointer, after)) :
    after.word = state.word ∧ after.text = state.text ∧ after.fsInfo = state.fsInfo ∧
      (pointer ≠ 0 → outcomes.kmalloc what = true) := by
  simp only [handleSuper] at answered
  split at answered
  · rename_i allocated
    obtain ⟨rfl, rfl⟩ := Prod.mk.inj (Option.some.inj answered)
    exact ⟨rfl, rfl, rfl, fun _ => allocated⟩
  · obtain ⟨rfl, rfl⟩ := Prod.mk.inj (Option.some.inj answered)
    exact ⟨rfl, rfl, rfl, fun nonzero => absurd rfl nonzero⟩

/-- The result of `filp_open` goes into `filp_close` without a test, which faults on an error pointer. -/
theorem filpOpen_closed {filename : Nat} {file : Except Errno Nat} {closed : Unit} {last : SuperState}
    (opened : handleSuper outcomes (.filpOpen filename) state = some (file, after))
    (answered : handleSuper outcomes (.filpClose file) after = some (closed, last)) :
    outcomes.filpOpen (state.text filename) = none := by
  simp only [handleSuper] at opened
  split at opened
  · split at opened
    · obtain ⟨rfl, rfl⟩ := Prod.mk.inj (Option.some.inj opened)
      cases answered
    · assumption
  · cases opened

/-- An inode that is returned had no failure set for it. -/
theorem trfsIget_answered {path : Nat} {made : Except Errno Nat}
    (answered : handleSuper outcomes (.trfsIget path) state = some (made, after)) :
    ∀ inode, made = .ok inode → outcomes.trfsIget = none := by
  simp only [handleSuper] at answered
  split at answered
  · obtain ⟨rfl, rfl⟩ := Prod.mk.inj (Option.some.inj answered)
    exact fun inode same => by cases same
  · exact fun _ _ => by assumption

/-- The root dentry is there only when its memory was. -/
theorem dMakeRoot_ensures {inode : Nat} {next : Nat → SuperProg α} {post : α → SuperState → Unit → Prop}
    (rest : ∀ root state progress, (root ≠ 0 → outcomes.kmalloc .dentry = true) →
      (next root).Ensures (handleSuper outcomes) silent post state progress) :
    (dMakeRoot inode >>= next).Ensures (handleSuper outcomes) silent post state progress := by
  intro dentry first allocated
  have some := (kmalloc_answered allocated).2.2.2
  by_cases null : dentry = 0
  · subst null
    intro _ second _
    exact rest 0 _ _ fun nonzero => absurd rfl nonzero
  · change (Program.bind (ite (dentry = 0) _ _) next).Ensures _ _ _ _ _
    rw [if_neg null]
    intro _ second _
    exact rest dentry _ _ some

/-- Private data without an error means a successful allocation. -/
theorem newDentryPrivateData_ensures {dentry : Nat} {next : BitVec 32 → SuperProg α}
    {post : α → SuperState → Unit → Prop}
    (rest : ∀ err state progress, (err = 0 → outcomes.kmalloc .dentryInfo = true) →
      (next err).Ensures (handleSuper outcomes) silent post state progress) :
    (newDentryPrivateData dentry >>= next).Ensures (handleSuper outcomes) silent post state progress := by
  intro info first allocated
  have some := (kmalloc_answered allocated).2.2.2
  by_cases null : info = 0
  · subst null
    exact rest ENOMEM _ _ fun zero => absurd zero (by decide)
  · change (Program.bind (ite (info = 0) _ _) next).Ensures _ _ _ _ _
    rw [if_neg null]
    intro _ second _ _ third _
    exact rest 0 _ _ fun _ => some null

/-- `trfs_read_super` fills the superblock or returns its error. -/
theorem trfsReadSuper_ensures {mountPath : Nat} (empty : state.fsInfo = 0) :
    (trfsReadSuper mountPath).Ensures (handleSuper outcomes) silent
      (fun err after _ => Filled outcomes (state.text (state.word mountPath .devicePath))
        (state.text (state.word mountPath .tfilePath)) err after) state progress := by
  unfold trfsReadSuper
  by_cases null : mountPath = 0
  · rw [if_pos null]
    exact .inl ⟨by decide, empty⟩
  rw [if_neg null]
  intro devName loaded_state loaded
  obtain ⟨_, rfl, rfl⟩ := load_answered loaded
  intro found looked answered
  obtain ⟨word, text, fsInfo, kernPath⟩ := kernPath_answered answered
  cases found with
  | error errno => exact .inl ⟨errno.code_ne_zero, fsInfo.trans empty⟩
  | ok lowerPath =>
      intro info allocated_state allocated
      obtain ⟨word', text', _, sbInfo⟩ := kmalloc_answered allocated
      intro _ set_state set
      obtain ⟨_, rfl⟩ := Prod.mk.inj (Option.some.inj set)
      by_cases none : info = 0
      · subst none
        intro _ put_state put
        exact .inl ⟨by decide, pathPut_fsInfo put⟩
      change Program.Ensures _ _ _ (ite (info = 0) _ _) _ _
      rw [if_neg none]
      intro tfilePath reached loaded
      obtain ⟨_, rfl, rfl⟩ := load_answered loaded
      intro fileOp opened_state opened _ closed_state closed
      have filpOpen := filpOpen_closed opened closed
      intro lowerSb _ _ _ _ _ _ _ _ _ _ _ _ _ _ made made_state answered
      have trfsIget := trfsIget_answered answered
      cases made with
      | error errno => exact outSput_ensures errno.code_ne_zero
      | ok inode =>
          apply dMakeRoot_ensures
          intro root state progress dentry _ _ _
          by_cases absent : root = 0
          · subst absent
            intro _ _ _
            exact outSput_ensures (by decide)
          change Program.Ensures _ _ _ (ite (root = 0) _ _) _ _
          rw [if_neg absent]
          intro _ _ _
          apply newDentryPrivateData_ensures
          intro err state progress dentryInfo
          by_cases failed : err ≠ 0
          · rw [if_pos failed]
            apply skip_ensures
            intro _ _ _ _ _ _
            exact outSput_ensures failed
          · rw [if_neg failed]
            intro _ _ _ _ _ _
            refine .inr ⟨rfl, ?_⟩
            simp only [word, text, word', text'] at kernPath filpOpen
            exact ⟨kernPath _ rfl, sbInfo none, filpOpen, trfsIget _ rfl, dentry absent, dentryInfo (not_not.mp failed)⟩

/-- A mount that returns has succeeded, since the other ones fault in `trfs_shutdown_super`. -/
theorem mountNodev_ensures {mountPath : Nat} (empty : state.fsInfo = 0) :
    (mountNodev mountPath).Ensures (handleSuper outcomes) silent
      (fun err _ _ => err = 0 ∧ outcomes.Fills (state.text (state.word mountPath .devicePath))
        (state.text (state.word mountPath .tfilePath))) state progress := by
  unfold mountNodev
  rw [Program.ensures_bind]
  apply Program.Ensures.mono _ (trfsReadSuper_ensures empty)
  rintro err after progress (⟨failed, nothing⟩ | ⟨rfl, fills⟩)
  · rw [if_pos failed, Program.ensures_bind]
    exact trfsShutdownSuper_faults nothing
  · exact ⟨rfl, fills⟩

/-- What a copy into a new block leaves. -/
structure CopiedInto (outcomes : MountOutcomes) (mountPath : Nat) (member : PointerMember) (what : Allocation)
    (copy : CString) (before after : SuperState) : Prop where
  allocated : outcomes.kmalloc what = true
  here : after.word mountPath member = before.next
  text : after.text before.next = copy
  others : ∀ slot, slot ≠ member → after.word mountPath slot = before.word mountPath slot
  texts : ∀ block, block ≠ before.next → after.text block = before.text block
  next : after.next = before.next + 1
  fsInfo : after.fsInfo = before.fsInfo

/-- A copied name is in the member that was asked for. -/
theorem copyInto_ensures {mountPath : Nat} {member : PointerMember} {what : Allocation} {copy : CString}
    {next : Unit → SuperProg α} {post : α → SuperState → Unit → Prop}
    (rest : ∀ after progress, CopiedInto outcomes mountPath member what copy state after →
      (next ()).Ensures (handleSuper outcomes) silent post after progress) :
    (copyInto mountPath member what copy >>= next).Ensures (handleSuper outcomes) silent post state progress := by
  intro block first allocated _ second stored dest third loaded _ last copied
  obtain ⟨_, rfl, rfl⟩ := load_answered loaded
  simp only [handleSuper] at allocated stored copied
  split at stored
  · obtain ⟨_, rfl⟩ := Prod.mk.inj (Option.some.inj stored)
    split at copied
    · rename_i valid
      obtain ⟨_, rfl⟩ := Prod.mk.inj (Option.some.inj copied)
      split at allocated
      · rename_i succeeded
        obtain ⟨rfl, rfl⟩ := Prod.mk.inj (Option.some.inj allocated)
        apply rest
        constructor
        · exact succeeded
        · simp
        · simp
        · intro slot other
          simp [other]
        · intro other different
          simp [different]
        · rfl
        · rfl
      · obtain ⟨rfl, rfl⟩ := Prod.mk.inj (Option.some.inj allocated)
        have nonzero := valid.1
        simp at nonzero
    · cases copied
  · cases stored

/-- The structure that a mount passes on has memory and the two paths. -/
theorem prepareMount_ensures (request : MountRequest) :
    (prepareMount request).Ensures (handleSuper outcomes) silent
      (fun mountPath after _ => after.fsInfo = state.fsInfo ∧ (mountPath ≠ 0 →
        ∃ data beyond devName, request = ⟨some (data, beyond), some devName⟩ ∧ outcomes.Allocates ∧
          PassesOn after mountPath (MountRequest.tracker data beyond) devName)) state progress := by
  obtain ⟨rawData, devName⟩ := request
  cases rawData with
  | none => exact ⟨rfl, fun nonzero => absurd rfl nonzero⟩
  | some rawData =>
      cases devName with
      | none => exact ⟨rfl, fun nonzero => absurd rfl nonzero⟩
      | some devName =>
          obtain ⟨data, beyond⟩ := rawData
          intro mountPath first allocated
          obtain ⟨_, _, fsInfo, succeeded⟩ := kmalloc_answered allocated
          by_cases absent : mountPath = 0
          · subst absent
            exact ⟨fsInfo, fun nonzero => absurd rfl nonzero⟩
          change Program.Ensures _ _ _ (ite (mountPath = 0) _ _) _ _
          rw [if_neg absent]
          apply copyInto_ensures
          intro second progress tfile
          apply copyInto_ensures
          intro third progress device
          refine ⟨device.fsInfo.trans (tfile.fsInfo.trans fsInfo), fun _ => ⟨data, beyond, devName, rfl, ?_, ?_, ?_⟩⟩
          · exact ⟨succeeded absent, tfile.allocated, device.allocated⟩
          · have older : first.next ≠ second.next := by
              rw [tfile.next]
              omega
            rw [device.others .tfilePath (by decide), tfile.here, device.texts _ older, tfile.text]
          · rw [device.here, device.text]

/-- A mount that returns has succeeded. -/
theorem mount_ensures (request : MountRequest) (empty : state.fsInfo = 0) :
    (trfsMount request).Ensures (handleSuper outcomes) silent
      (fun err _ _ => err = 0 ∧ outcomes.Succeeds request) state progress := by
  unfold trfsMount
  rw [Program.ensures_bind]
  apply Program.Ensures.mono _ (prepareMount_ensures request)
  rintro mountPath after progress ⟨fsInfo, passes⟩
  have nothing : after.fsInfo = 0 := fsInfo.trans empty
  by_cases absent : mountPath = 0
  · subst absent
    change (trfsShutdownSuper >>= fun _ => Program.pure EINVAL).Ensures _ _ _ _ _
    rw [Program.ensures_bind]
    exact trfsShutdownSuper_faults nothing
  · obtain ⟨data, beyond, devName, rfl, allocates, passes⟩ := passes absent
    apply Program.Ensures.mono _ (mountNodev_ensures nothing)
    rintro err _ _ ⟨zero, fills⟩
    rw [passes.devicePath, passes.tfilePath] at fills
    exact ⟨zero, data, beyond, devName, rfl, allocates.mountPath, allocates.tfilePath, allocates.devicePath, fills⟩

/-- So it is from the state before the mount. -/
theorem trfsMount_ensures (request : MountRequest) : (trfsMount request).Ensures (handleSuper outcomes) silent
    (fun err _ _ => err = 0 ∧ outcomes.Succeeds request) (.start outcomes) progress := mount_ensures request rfl

/-- A mount whose steps succeed returns 0. -/
theorem trfsMount_succeeds {request : MountRequest} (succeeds : outcomes.Succeeds request) :
    ∃ done, (trfsMount request).exec (handleSuper outcomes) (.start outcomes) = some done ∧ done.value = 0 := by
  obtain ⟨data, beyond, devName, rfl, mountPath, tfilePath, devicePath, fills⟩ := succeeds
  simp [trfsMount, prepareMount, copyInto, mountNodev, trfsReadSuper, trfsSetLowerSuper, dMakeRoot, newDentryPrivateData,
    trfsSetLowerPath, Program.exec, handleSuper, SuperState.start, SuperState.Valid, perform, lowerPathPointer,
    rootInodePointer, lowerSbPointer, mountPath, tfilePath, devicePath, fills.kernPath, fills.sbInfo, fills.filpOpen,
    fills.trfsIget, fills.dentry, fills.dentryInfo]

/-- A mount is safe exactly when none of its steps fails: every failure ends in a fault. -/
theorem trfsMount_cleansUp_iff (request : MountRequest) (outcomes : MountOutcomes) :
    request.CleansUp outcomes ↔ outcomes.Succeeds request := by
  constructor
  · rintro ⟨done, ran, _⟩
    have ensures : (trfsMount request).Ensures (handleSuper outcomes) silent
      (fun err _ _ => err = 0 ∧ outcomes.Succeeds request) (.start outcomes) () := trfsMount_ensures request
    exact (ensures.exec ran).2
  · intro succeeds
    obtain ⟨done, ran, zero⟩ := trfsMount_succeeds succeeds
    exact ⟨done, ran, fun failed => absurd zero failed⟩

end

/-- Every step of the mount works, but there is no such directory. -/
def noDirectory : MountOutcomes where
  kmalloc _ := true
  kernPath _ := some ⟨ENOENT, by decide⟩
  filpOpen _ := none
  trfsIget := none
  garbage _ _ := 0
  uninitialized _ := ⟨ascii "", by decide⟩

/-- `mount -t trfs -o tfile=/t /x` -/
def mountRequest : MountRequest where
  rawData := some (⟨ascii "tfile=/t", by decide⟩, ⟨ascii "", by decide⟩)
  devName := some ⟨ascii "/x", by decide⟩

/-- A mount of a directory that is missing faults. -/
theorem missing_directory_faults :
    (trfsMount mountRequest).exec (handleSuper noDirectory) (.start noDirectory) = none ∧
      ¬ mountRequest.CleansUp noDirectory := by
  have faults : ((trfsMount mountRequest).exec (handleSuper noDirectory) (.start noDirectory)).isNone := by
    decide +kernel
  have nothing := Option.isNone_iff_eq_none.mp faults
  refine ⟨nothing, ?_⟩
  rintro ⟨done, ran, _⟩
  cases nothing.symm.trans ran

end Trfs.Kernel
