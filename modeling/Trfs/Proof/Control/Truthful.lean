import Trfs.Construction.Control.Stack
import Trfs.Proof.Kernel.Records

namespace Trfs.Control
open Bits Bytes Effect Trace Kernel

/-- The requests that set the mask. -/
abbrev Sets (cmd : BitVec 32) : Prop := cmd = ALL ∨ cmd = NONE ∨ cmd = HEX

/-- A request that sets the mask is not the one that returns it. -/
theorem sets_ne_RET {cmd : BitVec 32} (sets : Sets cmd) : cmd ≠ RET := by
  rcases sets with rfl | rfl | rfl <;> decide

section
variable {S : Type}

/-- The lower file of an open file. -/
def nextFile (state : Machine S) (file : File) : Option LowerFile := state.visible.upper.lowerFile file.address

/-- The effect of the `switch` of a request. -/
def switched (env : Environment S) (cmd : BitVec 32) (arg : BitVec 64) (state : Machine S) : Machine S :=
  if Sets cmd then { state with mask := arg }
  else if cmd = RET then
    { state with visible := { state.visible with lower := (env.copyToUser arg state.mask state.visible.lower).2 } }
  else state

/-- What `trfs_unlocked_ioctl` does, said with the handler of the file below. -/
structure Forwards (env : Environment S) (file : File) (cmd : BitVec 32) (arg : BitVec 64) (state : Machine S)
    (done : Execution Call.Reply (Machine S) (BitVec 64)) : Prop where
  mask : done.state.mask = (switched env cmd arg state).mask
  closed : nextFile state file = none →
    done.value = ENOTTY.signExtend 64 ∧ done.state.visible.lower = (switched env cmd arg state).visible.lower
  forwarded : ∀ next, nextFile state file = some next →
    done.value = (env.lower (.unlockedIoctl next cmd arg) (switched env cmd arg state).visible.lower).1.getD
        (ENOTTY.signExtend 64) ∧
      done.state.visible.lower =
        (env.lower (.unlockedIoctl next cmd arg) (switched env cmd arg state).visible.lower).2

/-- The mask request always returns, with the mask switched. -/
theorem maskRequest_exec (env : Environment S) (helpers : Helpers) (cmd : BitVec 32) (arg : BitVec 64)
    (state : Machine S) : ∃ done, (maskRequest cmd arg).exec (handle env helpers) state = some done ∧
      done.state = switched env cmd arg state := by
  unfold maskRequest switched
  by_cases sets : Sets cmd
  · rw [if_pos sets, if_pos sets]
    exact ⟨_, rfl, rfl⟩
  · rw [if_neg sets, if_neg sets]
    by_cases ret : cmd = RET
    · rw [if_pos ret, if_pos ret]
      exact ⟨_, rfl, rfl⟩
    · rw [if_neg ret, if_neg ret]
      exact ⟨_, rfl, rfl⟩

/-- The switch keeps the lower files. -/
theorem nextFile_switched (env : Environment S) (cmd : BitVec 32) (arg : BitVec 64) (state : Machine S)
    (file : File) : nextFile (switched env cmd arg state) file = nextFile state file := by
  unfold switched
  split
  · rfl
  · split <;> rfl

/-- Copying the attributes of the lower file leaves the mask and the filesystem below as they are. -/
theorem copyAll_exec {env : Environment S} (reads : ∀ inode state, (env.lower (.attributes inode) state).2 = state)
    (helpers : Helpers) (value : BitVec 64) (fileInode : Inode) (inode : LowerInode) (state : Machine S) :
    ∃ done, (runIf (value = 0) (fsstackCopyAttrAll fileInode inode)).exec (handle env helpers) state = some done ∧
      done.state.mask = state.mask ∧ done.state.visible.lower = state.visible.lower := by
  unfold runIf
  split
  · exact ⟨_, rfl, rfl, reads inode state.visible.lower⟩
  · exact ⟨_, rfl, rfl, rfl⟩

/-- A request is executed on the mount and handed to the file below. -/
theorem ioctl_forwards {env : Environment S} (reads : ∀ inode state, (env.lower (.attributes inode) state).2 = state)
    (helpers : Helpers) (file : File) (fileInode : Inode) (cmd : BitVec 32) (arg : BitVec 64) (state : Machine S) :
    ∃ done, (trfsUnlockedIoctl file fileInode cmd arg).exec (handle env helpers) state = some done ∧
      Forwards env file cmd arg state done := by
  obtain ⟨asked, ran, same⟩ := maskRequest_exec env helpers cmd arg state
  have opened := nextFile_switched env cmd arg state file
  rw [← same] at opened
  simp only [trfsUnlockedIoctl, upper, lower, perform_bind]
  rw [Program.exec_bind, ran, Option.bind_some]
  simp only [Program.exec, handle, Visible.answer]
  change asked.state.visible.upper.lowerFile file.address = _ at opened
  rw [opened]
  cases next : nextFile state file with
  | none =>
      refine ⟨_, rfl, congrArg Machine.mask same, fun _ => ⟨rfl, ?_⟩, fun other found => ?_⟩
      · rw [← same]
      · rw [next] at found
        cases found
  | some lowerFile =>
      have copies := copyAll_exec reads helpers
        ((env.lower (.unlockedIoctl lowerFile cmd arg) asked.state.visible.lower).1.getD (ENOTTY.signExtend 64))
        fileInode lowerFile.inode
        { asked.state with
          visible := { asked.state.visible with
            lower := (env.lower (.unlockedIoctl lowerFile cmd arg) asked.state.visible.lower).2 } }
      obtain ⟨copied, finished, mask, kept⟩ := copies
      simp only [Program.exec, handle]
      rw [Program.exec_bind, finished]
      simp only [Option.bind_some, Program.pure_eq, Program.exec, Option.map_some]
      refine ⟨_, rfl, ?_, fun none => ?_, fun other found => ?_⟩
      · have asks : asked.state.mask = (switched env cmd arg state).mask := congrArg Machine.mask same
        exact mask.trans asks
      · rw [next] at none
        cases none
      · rw [next] at found
        obtain rfl := Option.some.inj found
        rw [← same]
        exact ⟨rfl, kept⟩

end

section
variable {L : Type} {bottom : Bottom L} {helpers : Nat → Helpers}
  {layers : (depth : Nat) → Layer (Machine (Stack L depth))}

/-- The bottom file that a request to a file of the topmost mount gets to. -/
def bottomFile (layers : (depth : Nat) → Layer (Machine (Stack L depth))) :
    (depth : Nat) → Machine (Stack L depth) → File → Option LowerFile
  | 0, state, file => nextFile state file
  | depth + 1, state, file =>
      (nextFile state file).bind fun next => bottomFile layers depth state.visible.lower ((layers depth).file next)

/-- The masks below the topmost mount when the request sets the mask of each mount that it gets to. -/
def setBelow (layers : (depth : Nat) → Layer (Machine (Stack L depth))) (arg : BitVec 64) :
    (depth : Nat) → Machine (Stack L depth) → File → List (BitVec 64)
  | 0, _, _ => []
  | depth + 1, state, file =>
      match nextFile state file with
      | none => Stack.masks (depth + 1) state.visible.lower
      | some next => arg :: setBelow layers arg depth state.visible.lower ((layers depth).file next)

/-- The bottom filesystem after the mounts that the request gets to have copied their masks, the topmost one first. -/
def copied (bottom : Bottom L) (layers : (depth : Nat) → Layer (Machine (Stack L depth))) (address : BitVec 64) :
    (depth : Nat) → Machine (Stack L depth) → File → L → L
  | 0, state, _, below => (bottom.env.copyToUser address state.mask below).2
  | depth + 1, state, file, below =>
      let after := (bottom.env.copyToUser address state.mask below).2
      match nextFile state file with
      | none => after
      | some next => copied bottom layers address depth state.visible.lower ((layers depth).file next) after

/-- The bottom filesystem when its handler is called. -/
def bottomBefore (bottom : Bottom L) (layers : (depth : Nat) → Layer (Machine (Stack L depth))) (cmd : BitVec 32)
    (arg : BitVec 64) (depth : Nat) (state : Machine (Stack L depth)) (file : File) : L :=
  let below := Stack.bottom (depth + 1) state
  if cmd = RET then copied bottom layers arg depth state file below else below

/-- The answer of the bottom filesystem's handler and the state that it leaves. A request that does not get there
is refused. -/
def bottomAnswer (bottom : Bottom L) (layers : (depth : Nat) → Layer (Machine (Stack L depth))) (cmd : BitVec 32)
    (arg : BitVec 64) (depth : Nat) (state : Machine (Stack L depth)) (file : File) : BitVec 64 × L :=
  let below := bottomBefore bottom layers cmd arg depth state file
  match bottomFile layers depth state file with
  | none => (ENOTTY.signExtend 64, below)
  | some next =>
      let (reply, after) := bottom.env.lower (.unlockedIoctl next cmd arg) below
      (reply.getD (ENOTTY.signExtend 64), after)

/-- A stack over another bottom filesystem. -/
def withBottom : (depth : Nat) → Stack L depth → L → Stack L depth
  | 0, _, below => below
  | depth + 1, state, below =>
      { state with visible := { state.visible with lower := withBottom depth state.visible.lower below } }

/-- A change at the bottom keeps the masks of all levels. -/
theorem masks_withBottom (depth : Nat) (state : Stack L depth) (below : L) :
    Stack.masks depth (withBottom depth state below) = Stack.masks depth state := by
  induction depth with
  | zero => rfl
  | succ depth ih => exact congrArg (_ :: ·) (ih state.visible.lower)

/-- The bottom is what was put there. -/
theorem bottom_withBottom (depth : Nat) (state : Stack L depth) (below : L) :
    Stack.bottom depth (withBottom depth state below) = below := by
  induction depth with
  | zero => rfl
  | succ depth ih => exact ih state.visible.lower

/-- A change at the bottom keeps the file that is reached there. -/
theorem bottomFile_withBottom (depth : Nat) (state : Machine (Stack L depth)) (file : File) (below : L) :
    bottomFile layers depth (withBottom (depth + 1) state below) file = bottomFile layers depth state file := by
  induction depth generalizing file with
  | zero => rfl
  | succ depth ih => exact congrArg _ (funext fun next => ih state.visible.lower _)

/-- What the copies leave does not depend on the bottom they replace. -/
theorem copied_withBottom (address : BitVec 64) (depth : Nat) (state : Machine (Stack L depth)) (file : File)
    (old below : L) : copied bottom layers address depth (withBottom (depth + 1) state old) file below =
      copied bottom layers address depth state file below := by
  induction depth generalizing file below with
  | zero => rfl
  | succ depth ih =>
      simp only [copied]
      have same : nextFile (withBottom (depth + 1 + 1) state old) file = nextFile state file := rfl
      rw [same]
      cases nextFile state file with
      | none => rfl
      | some next => exact ih state.visible.lower _ _

/-- Every mount copies to the caller through the bottom filesystem. -/
theorem stackEnv_copyToUser (depth : Nat) (address value : BitVec 64) (state : Stack L depth) :
    (stackEnv bottom helpers layers depth).copyToUser address value state =
      ((bottom.env.copyToUser address value (Stack.bottom depth state)).1,
        withBottom depth state (bottom.env.copyToUser address value (Stack.bottom depth state)).2) := by
  induction depth with
  | zero => rfl
  | succ depth ih =>
      change copyBelow _ address value state = _
      simp only [copyBelow, ih]
      rfl

/-- Reading attributes keeps the state of a stack. -/
theorem stackEnv_reads (depth : Nat) (inode : LowerInode) (state : Stack L depth) :
    ((stackEnv bottom helpers layers depth).lower (.attributes inode) state).2 = state := by
  cases depth with
  | zero => exact bottom.reads inode state
  | succ depth => rfl

/-- What a request does to a stack: the reply comes from the bottom, and every mount on the way sets its mask. -/
structure StackEffect (bottom : Bottom L) (layers : (depth : Nat) → Layer (Machine (Stack L depth)))
    (cmd : BitVec 32) (arg : BitVec 64) (depth : Nat) (state : Machine (Stack L depth)) (file : File)
    (done : Execution Call.Reply (Machine (Stack L depth)) (BitVec 64)) : Prop where
  value : done.value = (bottomAnswer bottom layers cmd arg depth state file).1
  below : Stack.bottom (depth + 1) done.state = (bottomAnswer bottom layers cmd arg depth state file).2
  mask : done.state.mask = if Sets cmd then arg else state.mask
  masks : Stack.masks depth done.state.visible.lower =
    if Sets cmd then setBelow layers arg depth state file else Stack.masks depth state.visible.lower

/-- A setting request leaves its argument, any other leaves the mask. -/
theorem switched_mask {S : Type} (env : Environment S) (cmd : BitVec 32) (arg : BitVec 64) (state : Machine S) :
    (switched env cmd arg state).mask = if Sets cmd then arg else state.mask := by
  unfold switched
  split
  · rfl
  · split <;> rfl

variable (bottom) in
/-- The stack below the mount when the request is handed to it. -/
def handed (cmd : BitVec 32) (arg : BitVec 64) (depth : Nat) (state : Machine (Stack L depth)) : Stack L depth :=
  if cmd = RET then
    withBottom depth state.visible.lower
      (bottom.env.copyToUser arg state.mask (Stack.bottom depth state.visible.lower)).2
  else state.visible.lower

/-- The stack below the mount after its `switch`. -/
theorem switched_lower (cmd : BitVec 32) (arg : BitVec 64) (depth : Nat) (state : Machine (Stack L depth)) :
    (switched (stackEnv bottom helpers layers depth) cmd arg state).visible.lower =
      handed bottom cmd arg depth state := by
  unfold switched handed
  by_cases sets : Sets cmd
  · rw [if_pos sets, if_neg (sets_ne_RET sets)]
  · rw [if_neg sets]
    split
    · rw [stackEnv_copyToUser]
    · rfl

/-- A level hands down what the copy of its mask left. -/
theorem bottom_handed (cmd : BitVec 32) (arg : BitVec 64) (depth : Nat) (state : Machine (Stack L depth)) :
    Stack.bottom depth (handed bottom cmd arg depth state) =
      if cmd = RET then (bottom.env.copyToUser arg state.mask (Stack.bottom depth state.visible.lower)).2
      else Stack.bottom depth state.visible.lower := by
  unfold handed
  split
  · exact bottom_withBottom depth _ _
  · rfl

variable (bottom) in
/-- Handing down keeps the masks of the levels below. -/
theorem masks_handed (cmd : BitVec 32) (arg : BitVec 64) (depth : Nat) (state : Machine (Stack L depth)) :
    Stack.masks depth (handed bottom cmd arg depth state) = Stack.masks depth state.visible.lower := by
  unfold handed
  split
  · exact masks_withBottom depth _ _
  · rfl

section
variable (bottom layers) (cmd : BitVec 32) (arg : BitVec 64)

/-- A request that stops at a mount without a lower file is refused there. -/
theorem bottomAnswer_closed {depth : Nat} {state : Machine (Stack L depth)} {file : File}
    (closed : nextFile state file = none) :
    bottomAnswer bottom layers cmd arg depth state file =
      (ENOTTY.signExtend 64, Stack.bottom depth (handed bottom cmd arg depth state)) := by
  rw [bottom_handed]
  cases depth with
  | zero =>
      simp only [bottomAnswer, bottomFile, closed, bottomBefore, copied]
      rfl
  | succ depth =>
      simp only [bottomAnswer, bottomFile, closed, bottomBefore, copied, Option.bind_none]
      rfl

/-- A request that is handed to the mount below is answered there. -/
theorem bottomAnswer_next {depth : Nat} {state : Machine (Stack L (depth + 1))} {file : File} {next : LowerFile}
    (opened : nextFile state file = some next) :
    bottomAnswer bottom layers cmd arg (depth + 1) state file =
      bottomAnswer bottom layers cmd arg depth (handed bottom cmd arg (depth + 1) state) ((layers depth).file next) := by
  have files : bottomFile layers (depth + 1) state file =
      bottomFile layers depth (handed bottom cmd arg (depth + 1) state) ((layers depth).file next) := by
    simp only [bottomFile, opened, Option.bind_some]
    unfold handed
    split
    · exact (bottomFile_withBottom depth _ _ _).symm
    · rfl
  have below : bottomBefore bottom layers cmd arg (depth + 1) state file =
      bottomBefore bottom layers cmd arg depth (handed bottom cmd arg (depth + 1) state) ((layers depth).file next) := by
    simp only [bottomBefore]
    rw [bottom_handed]
    unfold handed
    split
    · simp only [copied, opened]
      exact (copied_withBottom arg depth state.visible.lower _ _ _).symm
    · rfl
  simp only [bottomAnswer, files, below]

/-- The masks below after the request was handed down from a mount. -/
theorem masks_handed_closed {depth : Nat} {state : Machine (Stack L depth)}
    {file : File} (closed : nextFile state file = none) :
    Stack.masks depth (handed bottom cmd arg depth state) =
      if Sets cmd then setBelow layers arg depth state file else Stack.masks depth state.visible.lower := by
  rw [masks_handed]
  split
  · cases depth with
    | zero => rfl
    | succ depth =>
        simp only [setBelow, closed]
  · rfl

end

variable (bottom helpers layers) in
/-- Every request that a stack gets has its effect, by induction over the mounts. -/
theorem stackIoctl_effect (depth : Nat) (state : Machine (Stack L depth)) (file : File) (fileInode : Inode)
    (cmd : BitVec 32) (arg : BitVec 64) :
    ∃ done, stackIoctl bottom helpers layers depth file fileInode cmd arg state = some done ∧
      StackEffect bottom layers cmd arg depth state file done := by
  induction depth generalizing file fileInode with
  | zero =>
      obtain ⟨done, ran, forwards⟩ := ioctl_forwards (stackEnv_reads 0) (helpers 0) file fileInode cmd arg state
      have mask := forwards.mask.trans (switched_mask _ cmd arg state)
      have masks : ([] : List (BitVec 64)) = if Sets cmd then [] else [] := by split <;> rfl
      refine ⟨done, ran, ?_⟩
      cases opened : nextFile state file with
      | none =>
          obtain ⟨value, below⟩ := forwards.closed opened
          rw [switched_lower] at below
          have refused := bottomAnswer_closed bottom layers cmd arg opened
          exact ⟨value.trans (congrArg Prod.fst refused).symm, below.trans (congrArg Prod.snd refused).symm, mask, masks⟩
      | some next =>
          obtain ⟨value, below⟩ := forwards.forwarded next opened
          rw [switched_lower] at value below
          have reached : bottomAnswer bottom layers cmd arg 0 state file =
              ((bottom.env.lower (.unlockedIoctl next cmd arg) (handed bottom cmd arg 0 state)).1.getD
                (ENOTTY.signExtend 64),
              (bottom.env.lower (.unlockedIoctl next cmd arg) (handed bottom cmd arg 0 state)).2) := by
            simp only [bottomAnswer, bottomFile, opened, bottomBefore, copied, handed]
            rfl
          exact ⟨value.trans (congrArg Prod.fst reached).symm, below.trans (congrArg Prod.snd reached).symm, mask, masks⟩
  | succ depth ih =>
      obtain ⟨done, ran, forwards⟩ := ioctl_forwards (stackEnv_reads (depth + 1)) (helpers (depth + 1)) file fileInode
        cmd arg state
      have mask := forwards.mask.trans (switched_mask _ cmd arg state)
      refine ⟨done, ran, ?_⟩
      cases opened : nextFile state file with
      | none =>
          obtain ⟨value, below⟩ := forwards.closed opened
          rw [switched_lower] at below
          have refused := bottomAnswer_closed bottom layers cmd arg opened
          have masks := masks_handed_closed bottom layers cmd arg opened
          rw [← below] at refused masks
          exact ⟨value.trans (congrArg Prod.fst refused).symm, (congrArg Prod.snd refused).symm, mask, masks⟩
      | some next =>
          obtain ⟨value, below⟩ := forwards.forwarded next opened
          rw [switched_lower] at value below
          obtain ⟨inner, innerRan, effect⟩ := ih (handed bottom cmd arg (depth + 1) state) ((layers depth).file next)
            ((layers depth).inode next.inode)
          have forwarded : (stackEnv bottom helpers layers (depth + 1)).lower (.unlockedIoctl next cmd arg)
              (handed bottom cmd arg (depth + 1) state) = (some inner.value, inner.state) := by
            change (layers depth).lower (stackEnv bottom helpers layers depth) (helpers depth)
              (.unlockedIoctl next cmd arg) _ = _
            unfold stackIoctl at innerRan
            simp only [Layer.lower, innerRan]
          rw [forwarded] at value below
          have there := bottomAnswer_next bottom layers cmd arg opened
          have inside : done.state.visible.lower = inner.state := below
          refine ⟨?_, ?_, mask, ?_⟩
          · exact value.trans (effect.value.trans (congrArg Prod.fst there).symm)
          · have bottoms := congrArg (Stack.bottom (depth + 1)) inside
            exact bottoms.trans (effect.below.trans (congrArg Prod.snd there).symm)
          · have masks : Stack.masks (depth + 1) done.state.visible.lower =
                inner.state.mask :: Stack.masks depth inner.state.visible.lower := by rw [inside]; rfl
            have kept := masks_handed bottom cmd arg (depth + 1) state
            rw [masks, effect.mask, effect.masks]
            by_cases sets : Sets cmd
            · have same : handed bottom cmd arg (depth + 1) state = state.visible.lower := if_neg (sets_ne_RET sets)
              rw [if_pos sets, if_pos sets, if_pos sets, same]
              simp only [setBelow, opened]
            · rw [if_neg sets, if_neg sets, if_neg sets]
              exact kept

/-- The masks of the mounts below the topmost one that the request gets to. -/
def reachedBelow (layers : (depth : Nat) → Layer (Machine (Stack L depth))) :
    (depth : Nat) → Machine (Stack L depth) → File → List (BitVec 64)
  | 0, _, _ => []
  | depth + 1, state, file =>
      match nextFile state file with
      | none => []
      | some next =>
          let below : Machine (Stack L depth) := state.visible.lower
          below.mask :: reachedBelow layers depth below ((layers depth).file next)

/-- The masks below stay as they are exactly when all that the request gets to have its value already. -/
theorem setBelow_eq_masks (arg : BitVec 64) (depth : Nat) (state : Machine (Stack L depth)) (file : File) :
    setBelow layers arg depth state file = Stack.masks depth state.visible.lower ↔
      ∀ mask ∈ reachedBelow layers depth state file, mask = arg := by
  induction depth generalizing file with
  | zero => exact iff_of_true rfl nofun
  | succ depth ih =>
      simp only [setBelow, reachedBelow]
      cases nextFile state file with
      | none => exact iff_of_true rfl nofun
      | some next =>
          have masks : Stack.masks (depth + 1) state.visible.lower =
              Machine.mask (L := Stack L depth) state.visible.lower ::
                Stack.masks depth (Machine.visible (L := Stack L depth) state.visible.lower).lower := rfl
          rw [masks, List.cons_eq_cons, List.forall_mem_cons, ← ih state.visible.lower]
          exact and_congr_left' eq_comm

/-- The mask of the lowest mount that the request gets to. -/
def lowestMask (layers : (depth : Nat) → Layer (Machine (Stack L depth))) :
    (depth : Nat) → Machine (Stack L depth) → File → BitVec 64
  | 0, state, _ => state.mask
  | depth + 1, state, file =>
      match nextFile state file with
      | none => state.mask
      | some next => lowestMask layers depth state.visible.lower ((layers depth).file next)

/-- Of the masks that are copied to the caller the lowest one stays, as far as the memory can be written. -/
theorem copied_peek (address : BitVec 64) (depth : Nat) (state : Machine (Stack L depth)) (file : File) (below : L) :
    bottom.peek (copied bottom layers address depth state file below) address =
      blend (keptBits (bottom.left below address)) (lowestMask layers depth state file)
        (bottom.peek below address) := by
  induction depth generalizing file below with
  | zero => exact bottom.copies address state.mask below
  | succ depth ih =>
      simp only [copied, lowestMask]
      cases nextFile state file with
      | none => exact bottom.copies address state.mask below
      | some next =>
          have later := ih state.visible.lower ((layers depth).file next) (bottom.env.copyToUser address state.mask below).2
          rw [bottom.stays, bottom.copies, blend_blend] at later
          exact later

/-- What a caller may rely on after a request to the topmost mount of a stack. -/
structure Truthful (bottom : Bottom L) (helpers : Nat → Helpers)
    (layers : (depth : Nat) → Layer (Machine (Stack L depth))) (depth : Nat) (file : File) (cmd : BitVec 32)
    (arg : BitVec 64) (state : Machine (Stack L depth))
    (done : Execution Call.Reply (Machine (Stack L depth)) (BitVec 64)) : Prop where
  sets : Sets cmd → (done.value = 0 ↔ done.state.mask = arg) ∧ (done.value ≠ 0 → done.state.mask = state.mask)
  delivers : cmd = RET →
    (done.value = 0 ↔ bottom.peek (Stack.bottom (depth + 1) done.state) arg = state.mask) ∧
      done.state.mask = state.mask
  others : ¬ Sets cmd → cmd ≠ RET → done.state.mask = state.mask ∧
    ∀ next reply, nextFile state file = some next →
      ((stackEnv bottom helpers layers depth).lower (.unlockedIoctl next cmd arg) state.visible.lower).1 = some reply →
        done.value = reply
  local_ : Stack.masks depth done.state.visible.lower = Stack.masks depth state.visible.lower

section
variable (bottom layers) (cmd : BitVec 32) (arg : BitVec 64) (depth : Nat) (state : Machine (Stack L depth)) (file : File)

/-- The answer of the bottom filesystem's handler for an open file there and the state that it leaves. -/
def bottomHandler (next : LowerFile) : Option (BitVec 64) × L :=
  bottom.env.lower (.unlockedIoctl next cmd arg) (bottomBefore bottom layers cmd arg depth state file)

/-- The request gets to a handler of the bottom filesystem, and this returns 0. -/
def Accepted : Prop :=
  ∃ next, bottomFile layers depth state file = some next ∧
    (bottomHandler bottom layers cmd arg depth state file next).1 = some 0

/-- Of the bytes of the caller's word those that can be written come from the lowest mask, which has the bytes of the
topmost one there, and the others had their value before. -/
structure Copied : Prop where
  written : lowestMask layers depth state file &&& ~~~keptBits (bottom.left (Stack.bottom (depth + 1) state) arg) =
    state.mask &&& ~~~keptBits (bottom.left (Stack.bottom (depth + 1) state) arg)
  kept : bottom.peek (Stack.bottom (depth + 1) state) arg &&&
      keptBits (bottom.left (Stack.bottom (depth + 1) state) arg) =
    state.mask &&& keptBits (bottom.left (Stack.bottom (depth + 1) state) arg)

/-- The copies bring the topmost mask to the caller and the bottom handler leaves it there, or the handler writes it. -/
def Delivered : Prop :=
  match bottomFile layers depth state file with
  | none => Copied bottom layers arg depth state file
  | some next =>
      let word := bottom.peek (bottomHandler bottom layers RET arg depth state file next).2 arg
      if word = bottom.peek (bottomBefore bottom layers RET arg depth state file) arg then
        Copied bottom layers arg depth state file
      else word = state.mask

/-- When a request is answered truthfully. One that sets the mask must be accepted by the bottom filesystem, and the
mounts below must have this mask already. `RET` must be accepted and deliver the mask, or do neither. -/
structure Answerable : Prop where
  sets : Sets cmd → Accepted bottom layers cmd arg depth state file ∧
    ∀ mask ∈ reachedBelow layers depth state file, mask = arg
  delivers : cmd = RET →
    Accepted bottom layers RET arg depth state file ∧ Delivered bottom layers arg depth state file ∨
      ¬ Accepted bottom layers RET arg depth state file ∧ ¬ Delivered bottom layers arg depth state file

variable {bottom layers cmd arg depth state file}

/-- A request is answered with 0 only by a handler of the bottom filesystem. -/
theorem bottomAnswer_accepted : (bottomAnswer bottom layers cmd arg depth state file).1 = 0 ↔
    Accepted bottom layers cmd arg depth state file := by
  have refused : ENOTTY.signExtend 64 ≠ 0 := by decide
  unfold bottomAnswer Accepted bottomHandler
  cases bottomFile layers depth state file with
  | none => exact iff_of_false refused fun ⟨_, reached, _⟩ => nomatch reached
  | some next =>
      dsimp only
      cases answer : (bottom.env.lower (.unlockedIoctl next cmd arg)
          (bottomBefore bottom layers cmd arg depth state file)).1 with
      | none =>
          apply iff_of_false refused
          rintro ⟨_, ⟨⟩, accepted⟩
          rw [answer] at accepted
          cases accepted
      | some reply =>
          constructor
          · rintro rfl
            exact ⟨next, rfl, answer⟩
          · rintro ⟨_, ⟨⟩, accepted⟩
            rw [answer] at accepted
            exact Option.some.inj accepted

/-- The word that the caller has when the bottom handler is called. -/
theorem bottomBefore_peek : bottom.peek (bottomBefore bottom layers RET arg depth state file) arg = state.mask ↔
    Copied bottom layers arg depth state file := by
  have before : bottomBefore bottom layers RET arg depth state file =
      copied bottom layers arg depth state file (Stack.bottom (depth + 1) state) := by
    unfold bottomBefore
    exact if_pos rfl
  rw [before, copied_peek, blend_eq_iff]
  exact ⟨fun ⟨written, kept⟩ => ⟨written, kept⟩, fun ⟨written, kept⟩ => ⟨written, kept⟩⟩

/-- The mask is in the caller's word in the end exactly when it is delivered. -/
theorem bottomAnswer_delivered : bottom.peek (bottomAnswer bottom layers RET arg depth state file).2 arg = state.mask ↔
    Delivered bottom layers arg depth state file := by
  unfold bottomAnswer Delivered bottomHandler
  cases bottomFile layers depth state file with
  | none => exact bottomBefore_peek
  | some next =>
      dsimp only
      split
      · rename_i same
        rw [same]
        exact bottomBefore_peek
      · rfl

end

end

/-- On every stack of mounts a control request is answered truthfully exactly when it is answerable. -/
theorem truthful_iff {L : Type} (bottom : Bottom L) (helpers : Nat → Helpers)
    (layers : (depth : Nat) → Layer (Machine (Stack L depth))) (depth : Nat) (file : File) (fileInode : Inode)
    (cmd : BitVec 32) (arg : BitVec 64) (state : Machine (Stack L depth)) :
    ∃ done, stackIoctl bottom helpers layers depth file fileInode cmd arg state = some done ∧
      (Truthful bottom helpers layers depth file cmd arg state done ↔
        Answerable bottom layers cmd arg depth state file) := by
  obtain ⟨done, ran, effect⟩ := stackIoctl_effect bottom helpers layers depth state file fileInode cmd arg
  obtain ⟨value, below, mask, masks⟩ := effect
  refine ⟨done, ran, ?_⟩
  constructor
  · rintro ⟨sets, delivers, _, kept⟩
    constructor
    · intro setting
      rw [if_pos setting] at mask masks
      constructor
      · rw [← bottomAnswer_accepted, ← value]
        exact (sets setting).1.mpr mask
      · rw [← setBelow_eq_masks, ← masks]
        exact kept
    · rintro rfl
      have told := (delivers rfl).1
      rw [value, below, bottomAnswer_accepted, bottomAnswer_delivered] at told
      exact iff_iff_and_or_not_and_not.mp told
  · rintro ⟨sets, delivers⟩
    constructor
    · intro setting
      rw [if_pos setting] at mask
      obtain ⟨accepted, _⟩ := sets setting
      rw [← bottomAnswer_accepted, ← value] at accepted
      exact ⟨iff_of_true accepted mask, fun refused => absurd accepted refused⟩
    · rintro rfl
      rw [value, below, bottomAnswer_accepted, bottomAnswer_delivered]
      rw [if_neg fun setting => sets_ne_RET setting rfl] at mask
      exact ⟨iff_iff_and_or_not_and_not.mpr (delivers rfl), mask⟩
    · intro other notRet
      rw [if_neg other] at mask
      refine ⟨mask, fun next reply opened replied => ?_⟩
      obtain ⟨same, again, forwards⟩ :=
        ioctl_forwards (stackEnv_reads depth) (helpers depth) file fileInode cmd arg state
      obtain rfl := Option.some.inj (again.symm.trans ran)
      have unchanged : switched (stackEnv bottom helpers layers depth) cmd arg state = state := by
        rw [switched, if_neg other, if_neg notRet]
      obtain ⟨forwarded, _⟩ := forwards.forwarded next opened
      rw [unchanged, replied, Option.getD_some] at forwarded
      exact forwarded
    · rw [masks]
      split
      · rename_i setting
        exact (setBelow_eq_masks arg depth state file).mpr (sets setting).2
      · rfl

/-- A bottom filesystem whose files have no handler for requests, and a caller whose memory cannot be written. -/
def plainBottom : Bottom Unit where
  env := { steady 0 0 with copyToUser := fun _ _ _ => (8, ()) }
  peek _ _ := 0
  left _ _ := 8
  reads _ _ := rfl
  returns _ _ _ := rfl
  copies _ _ _ := by
    rw [keptBits]
    simp [blend]
  stays _ _ _ := rfl

/-- A mount that shows one file to the mount above it. -/
def plainLayer (S : Type) : Layer S where
  file _ := fileA
  inode _ := ⟨1⟩
  rest :=
    { lower := fun c state => (steadyLower 0 0 c, state)
      iget5Locked := fun _ state => (none, state)
      dSpliceAlias := fun _ _ state => (0, state)
      kzalloc := fun state => (true, state)
      copyToUser := fun _ _ state => (0, state) }

/-- A request to set the mask of a single mount is refused by the filesystem below after the mask has been set. -/
theorem refused_not_truthful :
    ∃ done, stackIoctl plainBottom (fun _ => reliable) (fun _ => plainLayer _) 0 fileA ⟨1⟩ HEX 5 freshMount =
        some done ∧ done.value = ENOTTY.signExtend 64 ∧ done.state.mask = 5 ∧ freshMount.mask = 0xfff ∧
      ¬ Truthful plainBottom (fun _ => reliable) (fun _ => plainLayer _) 0 fileA HEX 5 freshMount done := by
  refine ⟨_, rfl, rfl, rfl, rfl, ?_⟩
  intro truthful
  exact absurd ((truthful.sets (.inr (.inr rfl))).1.mpr rfl) (by decide)

end Trfs.Control
