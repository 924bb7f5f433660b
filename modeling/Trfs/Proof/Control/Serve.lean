import Trfs.Construction.Control.Mount
import Trfs.Library.Bits

namespace Trfs.Control
open Bytes Bits Effect Trace Kernel

/-- The requests of `trctl`. -/
def IsRequest (cmd : BitVec 32) : Prop := cmd = ALL ∨ cmd = NONE ∨ cmd = HEX ∨ cmd = RET

/-- The copy to the caller succeeds, and the lower filesystem ignores the requests of `trctl`. -/
structure Serves {L : Type} (env : Environment L) (peek : L → BitVec 64 → BitVec 64) : Prop where
  copies : ∀ address value state, (env.copyToUser address value state).1 = 0 ∧
    peek (env.copyToUser address value state).2 address = value
  ignores : ∀ file cmd arg state, IsRequest cmd →
    (env.lower (.unlockedIoctl file cmd arg) state).2 = state ∧
      (env.lower (.unlockedIoctl file cmd arg) state).1.getD (ENOTTY.signExtend 64) = ENOTTY.signExtend 64

section
variable {L : Type} {env : Environment L} {helpers : Helpers} {peek : L → BitVec 64 → BitVec 64}
  {client : Client}

/-- What follows the `switch` leaves the state alone when the lower filesystem ignores the request. -/
theorem ioctl_exec (serves : Serves env peek) {cmd : BitVec 32} (request : IsRequest cmd) (file : File)
    (fileInode : Inode) {arg : BitVec 64} {state : Machine L} {asked : Execution Call.Reply (Machine L) Unit}
    (ran : (maskRequest cmd arg).exec (handle env helpers) state = some asked) :
    ∃ done, (trfsUnlockedIoctl file fileInode cmd arg).exec (handle env helpers) state = some done ∧
      done.state = asked.state := by
  simp only [trfsUnlockedIoctl, upper, lower, perform_bind]
  rw [Program.exec_bind, ran, Option.bind_some]
  simp only [Program.exec, handle, Visible.answer]
  cases asked.state.visible.upper.lowerFile file.address with
  | none => exact ⟨_, rfl, rfl⟩
  | some lowerFile =>
      obtain ⟨kept, refused⟩ := serves.ignores lowerFile cmd arg asked.state.visible.lower request
      have skipped : runIf ((env.lower (.unlockedIoctl lowerFile cmd arg) asked.state.visible.lower).1.getD
          (ENOTTY.signExtend 64) = 0) (fsstackCopyAttrAll fileInode lowerFile.inode) = .pure () := by
        rw [refused]
        rfl
      simp only [Program.exec, handle, kept, skipped, Program.pure_bind, Program.pure_eq, Option.map_some]
      exact ⟨_, rfl, rfl⟩

variable (helpers) in
/-- A request that sets the mask sets it to its argument. -/
theorem setMask_exec (serves : Serves env peek) {cmd : BitVec 32} (sets : cmd = ALL ∨ cmd = NONE ∨ cmd = HEX)
    (file : File) (fileInode : Inode) (arg : BitVec 64) (state : Machine L) :
    ∃ done, (trfsUnlockedIoctl file fileInode cmd arg).exec (handle env helpers) state = some done ∧
      done.state = { state with mask := arg } := by
  have asked : (maskRequest cmd arg).exec (handle env helpers) state =
      some ⟨(), { state with mask := arg }, [⟨Call.setMask arg, ()⟩]⟩ := by
    rw [maskRequest, if_pos sets]
    rfl
  have request : IsRequest cmd := sets.imp id fun rest => rest.imp id Or.inl
  exact ioctl_exec serves request file fileInode asked

variable (helpers) in
/-- `RET` delivers the mask and keeps it. -/
theorem ret_exec (serves : Serves env peek) (file : File) (fileInode : Inode) (address : BitVec 64)
    (state : Machine L) :
    ∃ done, (trfsUnlockedIoctl file fileInode RET address).exec (handle env helpers) state = some done ∧
      done.state.mask = state.mask ∧ peek done.state.visible.lower address = state.mask := by
  obtain ⟨_, delivered⟩ := serves.copies address state.mask state.visible.lower
  have asked : ∃ asked, (maskRequest RET address).exec (handle env helpers) state = some asked ∧
      asked.state.mask = state.mask ∧ peek asked.state.visible.lower address = state.mask := by
    rw [maskRequest, if_neg (by decide), if_pos rfl]
    exact ⟨_, rfl, rfl, delivered⟩
  obtain ⟨asked, ran, kept, told⟩ := asked
  obtain ⟨done, finished, last⟩ := ioctl_exec serves (.inr (.inr (.inr rfl))) file fileInode ran
  refine ⟨done, finished, ?_, ?_⟩
  · rw [last, kept]
  · rw [last, told]

/-- What one request of a run does to the mask. -/
def nextMask (mask : BitVec 64) : (c : ControlCall) → c.Reply → BitVec 64
  | .ioctl _ _ arg, _ => arg
  | _, _ => mask

/-- The requests that `trctl` makes with an argument. -/
def SetsMask : ControlCall → Prop
  | .ioctl _ cmd _ => cmd = ALL ∨ cmd = NONE ∨ cmd = HEX
  | _ => True

variable (helpers client) in
/-- The mount answers every request of a run. -/
theorem serve_answers (serves : Serves env peek) (c : ControlCall) (state : Machine L) (sets : SetsMask c) :
    ∃ reply after, serve env helpers peek client c state = some (reply, after) := by
  cases c with
  | printf text => exact ⟨_, _, rfl⟩
  | «open» path flags => exact ⟨_, _, rfl⟩
  | close fd => exact ⟨_, _, rfl⟩
  | ioctl fd cmd arg =>
      obtain ⟨done, ran, _⟩ := setMask_exec helpers serves sets client.file client.fileInode arg state
      exact ⟨_, _, by rw [serve, ran]; rfl⟩
  | ioctlRet fd =>
      obtain ⟨done, ran, _⟩ := ret_exec helpers serves client.file client.fileInode client.retmapval state
      exact ⟨_, _, by rw [serve, ran]; rfl⟩

theorem serve_mask (serves : Serves env peek) {c : ControlCall} {state after : Machine L} {reply : c.Reply}
    (sets : SetsMask c) (answered : serve env helpers peek client c state = some (reply, after)) :
    after.mask = nextMask state.mask c reply := by
  cases c with
  | printf text => rw [← (Prod.mk.inj (Option.some.inj answered)).2]; rfl
  | «open» path flags => rw [← (Prod.mk.inj (Option.some.inj answered)).2]; rfl
  | close fd => rw [← (Prod.mk.inj (Option.some.inj answered)).2]; rfl
  | ioctl fd cmd arg =>
      obtain ⟨done, ran, last⟩ := setMask_exec helpers serves sets client.file client.fileInode arg state
      rw [serve, ran] at answered
      rw [← (Prod.mk.inj (Option.some.inj answered)).2, last]
      rfl
  | ioctlRet fd =>
      obtain ⟨done, ran, kept, _⟩ := ret_exec helpers serves client.file client.fileInode client.retmapval state
      rw [serve, ran] at answered
      rw [← (Prod.mk.inj (Option.some.inj answered)).2, kept]
      rfl

/-- The reply to `RET` holds the mask. -/
theorem serve_ret (serves : Serves env peek) {fd : BitVec 32} {state after : Machine L}
    {reply : BitVec 32 × BitVec 64}
    (answered : serve env helpers peek client (.ioctlRet fd) state = some (reply, after)) :
    reply.2 = state.mask := by
  obtain ⟨done, ran, _, told⟩ := ret_exec helpers serves client.file client.fileInode client.retmapval state
  rw [serve, ran] at answered
  rw [← (Prod.mk.inj (Option.some.inj answered)).1]
  exact told

end

end Trfs.Control
