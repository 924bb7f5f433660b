import Trfs.Library.Bits
import Trfs.Proof.Kernel.Naming
import Trfs.Proof.Kernel.Stamped
import Trfs.Proof.Replay.Traced

namespace Trfs.Replay
open Bytes Effect Trace Kernel

/-- A device number has a major and a minor part. -/
structure Device where
  major : Nat
  minor : Nat
deriving DecidableEq, Repr

/-- The device number of the kernel has the minor part in its low 20 bits. -/
def Device.mkdev (device : Device) : BitVec 32 := BitVec.ofNat 32 (device.major <<< 20 ||| device.minor)

def kernelDevice (dev : BitVec 32) : Device := ⟨(dev >>> 20).toNat, (dev &&& 0xfffff).toNat⟩

/-- The system call `mknod` takes 32 bits and has the major part in the middle of them. -/
def systemDevice (dev : BitVec 64) : Device :=
  let dev : BitVec 32 := dev.setWidth 32
  ⟨((dev &&& (0xfff00 : BitVec 32)) >>> 8).toNat,
    (dev &&& (0xff : BitVec 32) ||| dev >>> 12 &&& (0xfff00 : BitVec 32)).toNat⟩

/-- The node that a call asks the lower filesystem for, and the one that a replay asks the system for. -/
def lowerNode : Call → Option Device
  | .lower (.vfsMknod _ _ _ dev) => some (kernelDevice dev)
  | _ => none

def replayedNode : SystemCall → Option Device
  | .mknod _ _ dev => some (systemDevice dev)
  | _ => none

def lowerNodes (events : List (Event Call.Reply)) : List Device := events.filterMap fun event => lowerNode event.call

def replayedNodes (events : List (Event SystemCall.Reply)) : List Device :=
  events.filterMap fun event => replayedNode event.call

/-- The parts fit into their fields. -/
def Device.Fits (device : Device) : Prop := device.major < 2 ^ 12 ∧ device.minor < 2 ^ 20

instance (device : Device) : Decidable device.Fits := inferInstanceAs (Decidable (_ ∧ _))

section
variable {device : Device}

/-- The number of a device that fits. -/
theorem Device.mkdev_toNat (fits : device.Fits) : device.mkdev.toNat = device.major * 2 ^ 20 + device.minor := by
  obtain ⟨major, minor⟩ := fits
  have apart : device.major <<< 20 ||| device.minor = device.major * 2 ^ 20 + device.minor := by
    rw [← Nat.shiftLeft_add_eq_or_of_lt minor, Nat.shiftLeft_eq]
  rw [mkdev, BitVec.toNat_ofNat, apart]
  exact Nat.mod_eq_of_lt (by omega)

/-- The kernel reads back the device that was made. -/
theorem kernelDevice_mkdev (fits : device.Fits) : kernelDevice device.mkdev = device := by
  have value := Device.mkdev_toNat fits
  obtain ⟨_, minor⟩ := fits
  have mask : (0xfffff : BitVec 32).toNat = 2 ^ 20 - 1 := rfl
  rw [kernelDevice, BitVec.toNat_ushiftRight, BitVec.toNat_and, mask, Nat.and_two_pow_sub_one_eq_mod,
    Nat.shiftRight_eq_div_pow, value]
  congr 1 <;> omega

/-- The system call finds the high bits of the minor part as the major one, and the major part above the low eight
bits. -/
theorem systemDevice_mkdev (fits : device.Fits) : systemDevice (device.mkdev.setWidth 64) =
    ⟨device.minor / 2 ^ 8, device.major * 2 ^ 8 + device.minor % 2 ^ 8⟩ := by
  have value := Device.mkdev_toNat fits
  obtain ⟨major, minor⟩ := fits
  have narrow : (device.mkdev.setWidth 64).setWidth 32 = device.mkdev := by
    rw [BitVec.setWidth_setWidth_of_le _ (by decide), BitVec.setWidth_eq]
  have field (word : BitVec 32) : (word &&& 0xfff00).toNat = word.toNat / 2 ^ 8 % 2 ^ 12 * 2 ^ 8 := by
    rw [BitVec.toNat_and]
    exact Bits.and_field word.toNat 8 12
  have low : (device.mkdev &&& 0xff).toNat = device.mkdev.toNat % 2 ^ 8 := by
    rw [BitVec.toNat_and]
    exact Nat.and_two_pow_sub_one_eq_mod _ 8
  have small : device.mkdev.toNat % 2 ^ 8 < 2 ^ 8 := Nat.mod_lt _ (by decide)
  simp only [systemDevice, narrow]
  congr 1
  · rw [BitVec.toNat_ushiftRight, Nat.shiftRight_eq_div_pow, field, value]
    omega
  · rw [BitVec.toNat_or, low, field, BitVec.toNat_ushiftRight, Nat.shiftRight_eq_div_pow, Nat.or_comm,
      ← Nat.shiftLeft_eq, ← Nat.shiftLeft_add_eq_or_of_lt small, Nat.shiftLeft_eq, value]
    omega

/-- The system call finds the device of the kernel's number exactly when the parts overlap in this way. -/
theorem systemDevice_eq_iff (fits : device.Fits) :
    systemDevice (device.mkdev.setWidth 64) = device ↔ device.minor / 2 ^ 8 = device.major := by
  rw [systemDevice_mkdev fits]
  constructor
  · exact fun same => congrArg Device.major same
  · intro overlap
    rw [← overlap]
    congr 1
    omega

end

/-- The nodes that the calls ask the lower filesystem for. -/
def making : Monitor Call.Reply (List Device) where
  permits _ _ := True
  next nodes c _ := nodes ++ (lowerNode c).toList

/-- The monitor collects the nodes that are made below. -/
theorem making_after (nodes : List Device) (events : List (Event Call.Reply)) :
    making.after nodes events = nodes ++ lowerNodes events := by
  induction events generalizing nodes with
  | nil => exact (List.append_nil nodes).symm
  | cons event events ih =>
      rw [Monitor.after_cons, ih]
      unfold making lowerNodes
      cases made : lowerNode event.call with
      | none => simp [made]
      | some device => simp [made]

section
variable {α : Type} {nodes : List Device}

/-- A tame program makes none. -/
theorem tame_making {program : Prog α} {post : α → List Device → Prop} (tame : program.Calls Tame)
    (ends : ∀ value, post value nodes) : program.Meets making post nodes := by
  apply tame.meets _ ends
  intro c quiet nodes
  have nothing : lowerNode c = none := by
    cases c with
    | lower c => cases c <;> first | rfl | exact absurd trivial quiet
    | _ => rfl
  refine ⟨trivial, fun reply => ?_⟩
  simp only [making, nothing, Option.toList_none, List.append_nil]

/-- `trfs_mknod` asks for one node, with the device number that it was given. -/
theorem trfsMknod_making (dir : Inode) (dentry : Dentry) (mode : BitVec 16) (dev : BitVec 32) :
    (trfsMknod dir dentry mode dev).Meets making (fun _ nodes => nodes = [kernelDevice dev]) [] := by
  unfold trfsMknod
  rw [Program.meets_bind]
  apply tame_making ((trfsGetLowerPath_quiet dentry).mono Quiet.tame)
  intro path
  rw [Program.meets_bind]
  apply tame_making ((lockParent_quiet path.dentry).mono Quiet.tame)
  intro parent
  rw [Program.meets_bind]
  apply tame_making ((lowerDInode_quiet parent).mono Quiet.tame)
  intro inode
  apply meets_perform_bind trivial
  intro err
  have left := leaveParent_quiet parent path
  have made : making.next [] (.lower (.vfsMknod inode path.dentry mode dev)) err = [kernelDevice dev] := rfl
  rw [made]
  refine tame_making ?_ fun _ => rfl
  split
  · exact out_tame left _ _
  · apply (trfsInterpose_tame dentry path).bind
    intro err
    split
    · exact out_tame left _ _
    · apply block_tame
      · trivial
      · trivial
      intro buffers
      apply copyParent_tame
      exact out_tame left _ _

end

section
variable {L σ : Type} {env : Environment L} {helpers : Helpers} {handler : Handler SystemCall.Reply σ} {dir : Inode}
  {dentry : Dentry} {mode : BitVec 16} {dev : BitVec 32} {before : Machine L} {done : Done L} {args : ReplayArgs}
  {fd : BitVec 32} {system : σ} {replayed : Execution SystemCall.Reply σ (BitVec 32 × Bool)} {device : Device}

/-- A mknod makes the one node that was asked for. -/
theorem mknod_lowerNodes (ran : (TracedOp.mknod dir dentry mode dev).exec env helpers before = some done) :
    lowerNodes done.events = [kernelDevice dev] := by
  have made := (trfsMknod_making dir dentry mode dev).exec ran
  rwa [making_after] at made

/-- Output makes no node. -/
theorem replayedNodes_isSystem (events : List (Event SystemCall.Reply)) :
    replayedNodes (events.filter isSystem) = replayedNodes events := by
  unfold replayedNodes
  rw [List.filterMap_filter]
  congr 1
  funext event
  cases event with
  | mk c reply => cases c <;> rfl

/-- The replay asks for a node with the number that the mount was asked for. -/
theorem mknod_replayedNodes (full : helpers.WriteFully)
    (ran : (TracedOp.mknod dir dentry mode dev).exec env helpers before = some done)
    (traced : Traced (.mknod dir dentry mode dev) before done.state args)
    (replays : (replayRecord fd args).exec handler system = some replayed) :
    replayedNodes replayed.events = [systemDevice (dev.setWidth 64)] := by
  have kind : args.kind = some .mknod := traced.kind
  obtain ⟨record, appends, tracer, _⟩ := traced
  have flags : args.tracer.openFlags = dev := by
    rw [tracer]
    exact (appends.stamped full (trfsMknod_stamping dir dentry mode dev) ran).1
  have asked : args.request fd = some (.mknod (fullPath args.path1) (args.tracer.permissionMode.setWidth 32)
      (args.tracer.openFlags.setWidth 64)) := by simp only [ReplayArgs.request, kind]
  cases replayRecord_replays replays with
  | silent unknown _ _ => cases kind.symm.trans unknown
  | call c reply request events _ =>
      obtain rfl := Option.some.inj (asked.symm.trans request)
      rw [← replayedNodes_isSystem, events, flags]
      rfl

/-- A device number survives trace and replay exactly when the high bits of the minor number are the major number. -/
theorem device_survives_iff (full : helpers.WriteFully) (fits : device.Fits)
    (ran : (TracedOp.mknod dir dentry mode device.mkdev).exec env helpers before = some done)
    (traced : Traced (.mknod dir dentry mode device.mkdev) before done.state args)
    (replays : (replayRecord fd args).exec handler system = some replayed) :
    lowerNodes done.events = [device] ∧ replayedNodes replayed.events = [device] ↔
      device.minor / 2 ^ 8 = device.major := by
  rw [mknod_lowerNodes ran, mknod_replayedNodes full ran traced replays, kernelDevice_mkdev fits,
    ← systemDevice_eq_iff fits]
  simp

end

/-- The record of a node that was made with this number, and its replay. -/
theorem traced_node {dev : BitVec 32} {done : Done Unit}
    (ran : (TracedOp.mknod ⟨1⟩ dentryA 0x2180 dev).exec (steady 0 0) reliable freshMount = some done)
    (size : done.state.traceFile.length = 30) : ∃ args replayed,
    Traced (.mknod ⟨1⟩ dentryA 0x2180 dev) freshMount done.state args ∧
      (replayRecord (-1) args).exec obliging () = some replayed := by
  have grown : done.state.traceFile ≠ freshMount.traceFile := by
    intro same
    rw [same] at size
    cases size
  obtain ⟨args, traced, _⟩ := traced_of_grown reliable_full ran (by simp [TracedOp.path2]) grown none
  have kind : args.kind = some .mknod := traced.kind
  have request : args.request (-1) = some (.mknod (fullPath args.path1) (args.tracer.permissionMode.setWidth 32)
      (args.tracer.openFlags.setWidth 64)) := by simp only [ReplayArgs.request, kind]
  have answered : obliging (.mknod (fullPath args.path1) (args.tracer.permissionMode.setWidth 32)
      (args.tracer.openFlags.setWidth 64)) () = some ((0 : BitVec 32), ()) := rfl
  obtain ⟨replayed, completes, _⟩ := replayRecord_exec request (fun _ _ => rfl) answered
  exact ⟨args, replayed, traced, completes⟩

/-- The device 1:259 is the same in both encodings. -/
theorem device_survives_overlap : ∃ done args replayed,
    (TracedOp.mknod ⟨1⟩ dentryA 0x2180 (Device.mkdev ⟨1, 259⟩)).exec (steady 0 0) reliable freshMount = some done ∧
      Traced (.mknod ⟨1⟩ dentryA 0x2180 (Device.mkdev ⟨1, 259⟩)) freshMount done.state args ∧
        (replayRecord (-1) args).exec obliging () = some replayed ∧
          lowerNodes done.events = [⟨1, 259⟩] ∧ replayedNodes replayed.events = [⟨1, 259⟩] := by
  have shows : ((TracedOp.mknod ⟨1⟩ dentryA 0x2180 (Device.mkdev ⟨1, 259⟩)).exec (steady 0 0) reliable freshMount).map
      (fun done => done.state.traceFile.length) = some 30 := by decide +kernel
  obtain ⟨done, ran, size⟩ := Option.map_eq_some_iff.mp shows
  obtain ⟨args, replayed, traced, replays⟩ := traced_node ran size
  exact ⟨done, args, replayed, ran, traced, replays,
    (device_survives_iff reliable_full (by decide) ran traced replays).mpr (by decide)⟩

/-- The replay of a node for `/dev/null`, which is 1:3, makes one for 0:259. -/
theorem device_survives_fails : ∃ done args replayed,
    (TracedOp.mknod ⟨1⟩ dentryA 0x2180 (Device.mkdev ⟨1, 3⟩)).exec (steady 0 0) reliable freshMount = some done ∧
      Traced (.mknod ⟨1⟩ dentryA 0x2180 (Device.mkdev ⟨1, 3⟩)) freshMount done.state args ∧
        (replayRecord (-1) args).exec obliging () = some replayed ∧
          lowerNodes done.events = [⟨1, 3⟩] ∧ replayedNodes replayed.events = [⟨0, 259⟩] := by
  have shows : ((TracedOp.mknod ⟨1⟩ dentryA 0x2180 (Device.mkdev ⟨1, 3⟩)).exec (steady 0 0) reliable freshMount).map
      (fun done => done.state.traceFile.length) = some 30 := by decide +kernel
  obtain ⟨done, ran, size⟩ := Option.map_eq_some_iff.mp shows
  obtain ⟨args, replayed, traced, replays⟩ := traced_node ran size
  refine ⟨done, args, replayed, ran, traced, replays, ?_, ?_⟩
  · rw [mknod_lowerNodes ran]
    decide
  · rw [mknod_replayedNodes reliable_full ran traced replays]
    decide

end Trfs.Replay
