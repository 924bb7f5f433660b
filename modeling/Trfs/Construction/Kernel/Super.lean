/-
This file models the mount and the unmount of `main.c`, `super.c` and `dentry.c` with their memory and references.
-/

import Trfs.Construction.Kernel.Calls

namespace Trfs.Kernel
open Bytes Effect

/-- The pointer members of the structures that a mount allocates. -/
inductive PointerMember where
  | tfilePath
  | devicePath
  | mountPath
  | lowerSb
  | dFsdata
  | dInode
  | lowerPath
deriving DecidableEq

/-- The places where a mount gets memory. The dentry is that of `d_make_root`. -/
inductive Allocation where
  | mountPath
  | tfilePath
  | devicePath
  | sbInfo
  | dentry
  | dentryInfo
deriving DecidableEq

/-- The calls of the mount. Pointers are numbers, and the number 0 is `NULL`. -/
inductive SuperCall where
  | kmalloc (what : Allocation)
  | kfree (pointer : Nat)
  | load (pointer : Nat) (member : PointerMember)
  | store (pointer : Nat) (member : PointerMember) (value : Nat)
  | strcpy (dest : Nat) (source : CString)
  | kernPath (name : Nat)
  | pathPut (path : Nat)
  | filpOpen (filename : Nat)
  | filpClose (file : Except Errno Nat)
  | lowerSuper (path : Nat)
  | incActive (lowerSb : Nat)
  | decActive (lowerSb : Nat)
  | trfsIget (path : Nat)
  | iput (inode : Nat)
  | fsInfo
  | setFsInfo (pointer : Nat)
  | root
  | setRoot (dentry : Nat)

@[reducible] def SuperCall.Reply : SuperCall → Type
  | .kmalloc _ | .load .. | .lowerSuper _ | .fsInfo | .root => Nat
  | .kernPath _ | .filpOpen _ | .trfsIget _ => Except Errno Nat
  | .kfree _ | .store .. | .strcpy .. | .pathPut _ | .filpClose _ | .incActive _ | .decActive _ | .iput _
  | .setFsInfo _ | .setRoot _ => Unit

abbrev SuperProg := Program SuperCall.Reply

abbrev super (c : SuperCall) : SuperProg c.Reply := perform c

/-- `new_dentry_private_data` -/
def newDentryPrivateData (dentry : Nat) : SuperProg (BitVec 32) := do
  let info ← super (.kmalloc .dentryInfo)
  if info = 0 then pure ENOMEM
  else do
    super (.store info .lowerPath 0)
    super (.store dentry .dFsdata info)
    pure 0

/-- `trfs_set_lower_path` writes through `d_fsdata`. -/
def trfsSetLowerPath (dentry path : Nat) : SuperProg Unit := do
  let info ← super (.load dentry .dFsdata)
  super (.store info .lowerPath path)

/-- `trfs_put_reset_lower_path` takes the lock in `d_fsdata` without a test. -/
def trfsPutResetLowerPath (dentry : Nat) : SuperProg Unit := do
  let info ← super (.load dentry .dFsdata)
  let path ← super (.load info .lowerPath)
  super (.store info .lowerPath 0)
  super (.pathPut path)

def freeDentryPrivateData (dentry : Nat) : SuperProg Unit := do
  let info ← super (.load dentry .dFsdata)
  if info = 0 then pure ()
  else do
    super (.kfree info)
    super (.store dentry .dFsdata 0)

def trfsDRelease (dentry : Nat) : SuperProg Unit := do
  trfsPutResetLowerPath dentry
  freeDentryPrivateData dentry

/-- `dput` of the last reference on the root drops its inode and calls `d_release`. -/
def dputRoot (dentry : Nat) : SuperProg Unit := do
  let inode ← super (.load dentry .dInode)
  super (.iput inode)
  trfsDRelease dentry
  super (.kfree dentry)

/-- `d_make_root` takes over the reference on the inode, also when it fails. -/
def dMakeRoot (inode : Nat) : SuperProg Nat := do
  let dentry ← super (.kmalloc .dentry)
  if dentry = 0 then do
    super (.iput inode)
    pure 0
  else do
    super (.store dentry .dInode inode)
    pure dentry

/-- `trfs_set_lower_super` for the pointer members. -/
def trfsSetLowerSuper (lowerSb mountPath : Nat) : SuperProg Unit := do
  let info ← super .fsInfo
  super (.store info .lowerSb lowerSb)
  super (.store info .mountPath mountPath)

/-- The labels `out_sput` and `out_free`. -/
def outSput (lowerSb path : Nat) : SuperProg Unit := do
  super (.decActive lowerSb)
  let info ← super .fsInfo
  super (.kfree info)
  super (.setFsInfo 0)
  super (.pathPut path)

def trfsReadSuper (mountPath : Nat) : SuperProg (BitVec 32) := do
  if mountPath = 0 then pure EINVAL
  else do
    let devName ← super (.load mountPath .devicePath)
    let found ← super (.kernPath devName)
    match found with
    | .error errno => pure errno.code
    | .ok lowerPath => do
        let info ← super (.kmalloc .sbInfo)
        super (.setFsInfo info)
        if info = 0 then do
          super (.pathPut lowerPath)
          pure ENOMEM
        else do
          let tfilePath ← super (.load mountPath .tfilePath)
          let fileOp ← super (.filpOpen tfilePath)
          super (.filpClose fileOp)
          let lowerSb ← super (.lowerSuper lowerPath)
          super (.incActive lowerSb)
          trfsSetLowerSuper lowerSb mountPath
          let made ← super (.trfsIget lowerPath)
          match made with
          | .error errno => do
              outSput lowerSb lowerPath
              pure errno.code
          | .ok inode => do
              let root ← dMakeRoot inode
              super (.setRoot root)
              if root = 0 then do
                super (.iput inode)
                outSput lowerSb lowerPath
                pure ENOMEM
              else do
                super (.store root .dFsdata 0)
                let err ← newDentryPrivateData root
                if err ≠ 0 then do
                  dputRoot root
                  super (.iput inode)
                  outSput lowerSb lowerPath
                  pure err
                else do
                  trfsSetLowerPath root lowerPath
                  pure 0

/-- `trfs_put_super` -/
def trfsPutSuper : SuperProg Unit := do
  let spd ← super .fsInfo
  if spd = 0 then pure ()
  else do
    let lowerSb ← super (.load spd .lowerSb)
    trfsSetLowerSuper 0 0
    super (.decActive lowerSb)
    super (.kfree spd)
    super (.setFsInfo 0)

/-- `generic_shutdown_super` drops the root and calls `put_super` if there is a root. -/
def genericShutdownSuper : SuperProg Unit := do
  let root ← super .root
  if root = 0 then pure ()
  else do
    dputRoot root
    super (.setRoot 0)
    trfsPutSuper

/-- The three tests of `trfs_shutdown_super` read the pointer that they test once more. -/
def kfreeMember (info : Nat) (member : PointerMember) : SuperProg Unit := do
  let mountPath ← super (.load info .mountPath)
  let tested ← super (.load mountPath member)
  if tested = 0 then pure ()
  else do
    let mountPath ← super (.load info .mountPath)
    let pointer ← super (.load mountPath member)
    super (.kfree pointer)

def trfsShutdownSuper : SuperProg Unit := do
  let info ← super .fsInfo
  kfreeMember info .tfilePath
  kfreeMember info .devicePath
  let mountPath ← super (.load info .mountPath)
  if mountPath = 0 then genericShutdownSuper
  else do
    super (.kfree mountPath)
    genericShutdownSuper

/-- `mount_nodev` fills a new superblock. It calls `kill_sb` when that fails. -/
def mountNodev (mountPath : Nat) : SuperProg (BitVec 32) := do
  let err ← trfsReadSuper mountPath
  if err ≠ 0 then do
    trfsShutdownSuper
    pure err
  else pure 0

/-- The arguments of a mount. The data are a string with the string that begins behind its terminator. -/
structure MountRequest where
  rawData : Option (CString × CString)
  devName : Option CString

/-- The string behind the first `=` of the data, or behind the data when there is none. The test for the latter
compares the pointer, which is not `NULL`. -/
def MountRequest.tracker (data beyond : CString) : CString :=
  match dropped : data.bytes.dropWhile fun byte => byte ≠ 0x3d with
  | [] => beyond
  | _ :: rest =>
      { bytes := rest
        noNul := fun byte member => data.noNul byte ((List.dropWhile_sublist _).subset
          (dropped ▸ List.mem_cons_of_mem _ member)) }

/-- `strcpy` into the block that a member points to. -/
def copyInto (mountPath : Nat) (member : PointerMember) (what : Allocation) (text : CString) : SuperProg Unit := do
  let block ← super (.kmalloc what)
  super (.store mountPath member block)
  let dest ← super (.load mountPath member)
  super (.strcpy dest text)

/-- What `trfs_mount` does before the label `errorl`. -/
def prepareMount (request : MountRequest) : SuperProg Nat :=
  match request.rawData, request.devName with
  | none, _ | _, none => pure 0
  | some (data, beyond), some devName => do
      let mountPath ← super (.kmalloc .mountPath)
      if mountPath = 0 then pure 0
      else do
        copyInto mountPath .tfilePath .tfilePath (MountRequest.tracker data beyond)
        copyInto mountPath .devicePath .devicePath devName
        pure mountPath

def trfsMount (request : MountRequest) : SuperProg (BitVec 32) := do
  let mountPath ← prepareMount request
  mountNodev mountPath

/-- The number of steps of the loop over `*tracker`. -/
def trackerStop : List Byte → Nat
  | [] => 0
  | byte :: rest => if byte ≠ 0x3d ∧ byte ≠ 0 then trackerStop rest + 1 else 0

/-- The offset of the last byte of the data that a mount reads. After the scan `strlen` and `strcpy` go on to a NUL,
if there is memory for the paths. -/
def MountRequest.lastRead (memory : List Byte) (allocated : Bool) : Nat :=
  let tracker := trackerStop memory + 1
  if allocated then tracker + strlen (memory.drop tracker) else trackerStop memory

/-- Which of the fallible steps fail. -/
structure MountOutcomes where
  kmalloc : Allocation → Bool
  kernPath : CString → Option Errno
  filpOpen : CString → Option Errno
  trfsIget : Option Errno
  garbage : Nat → PointerMember → Nat
  uninitialized : Nat → CString

/-- The blocks in use with their contents, the new superblock, and the references that are held. -/
structure SuperState where
  live : List Nat
  next : Nat
  word : Nat → PointerMember → Nat
  text : Nat → CString
  fsInfo : Nat
  root : Nat
  lowerPath : Nat
  active : Nat
  rootInode : Nat

def SuperState.start (outcomes : MountOutcomes) : SuperState where
  live := []
  next := 1
  word := outcomes.garbage
  text := outcomes.uninitialized
  fsInfo := 0
  root := 0
  lowerPath := 0
  active := 0
  rootInode := 0

/-- The objects of the lower filesystem that the mount refers to, and the root inode. They are not blocks. -/
def lowerPathPointer : Nat := 1
def lowerSbPointer : Nat := 2
def rootInodePointer : Nat := 3

/-- A release takes a reference away. Without one there is nothing to take. -/
def release (count : Nat) : Option Nat := if count = 0 then none else some (count - 1)

/-- A pointer to a block in use. -/
def SuperState.Valid (state : SuperState) (pointer : Nat) : Prop := pointer ≠ 0 ∧ pointer ∈ state.live

instance (state : SuperState) (pointer : Nat) : Decidable (state.Valid pointer) := inferInstanceAs (Decidable (_ ∧ _))

/-- A call on a `NULL`, error or freed pointer has no answer, and neither has a release without a reference. -/
def handleSuper (outcomes : MountOutcomes) : Handler SuperCall.Reply SuperState
  | .kmalloc what, state =>
      if outcomes.kmalloc what then
        some (state.next, { state with live := state.next :: state.live, next := state.next + 1 })
      else some (0, state)
  | .kfree pointer, state =>
      if pointer = 0 then some ((), state)
      else if state.Valid pointer then some ((), { state with live := state.live.erase pointer })
      else none
  | .load pointer member, state => if state.Valid pointer then some (state.word pointer member, state) else none
  | .store pointer member value, state =>
      if state.Valid pointer then
        some ((), { state with word := fun other slot =>
          if other = pointer ∧ slot = member then value else state.word other slot })
      else none
  | .strcpy dest source, state =>
      if state.Valid dest then
        some ((), { state with text := fun other => if other = dest then source else state.text other })
      else none
  | .kernPath name, state =>
      if state.Valid name then
        match outcomes.kernPath (state.text name) with
        | some errno => some (.error errno, state)
        | none => some (.ok lowerPathPointer, { state with lowerPath := state.lowerPath + 1 })
      else none
  | .pathPut path, state =>
      if path = 0 then some ((), state)
      else (release state.lowerPath).map fun count => ((), { state with lowerPath := count })
  | .filpOpen filename, state =>
      if state.Valid filename then
        match outcomes.filpOpen (state.text filename) with
        | some errno => some (.error errno, state)
        | none => some (.ok 0, state)
      else none
  | .filpClose (.error _), _ => none
  | .filpClose (.ok _), state => some ((), state)
  | .lowerSuper _, state => some (lowerSbPointer, state)
  | .incActive _, state => some ((), { state with active := state.active + 1 })
  | .decActive lowerSb, state =>
      if lowerSb = 0 then none
      else (release state.active).map fun count => ((), { state with active := count })
  | .trfsIget _, state =>
      match outcomes.trfsIget with
      | some errno => some (.error errno, state)
      | none => some (.ok rootInodePointer, { state with rootInode := state.rootInode + 1 })
  | .iput inode, state =>
      if inode = 0 then some ((), state)
      else (release state.rootInode).map fun count => ((), { state with rootInode := count })
  | .fsInfo, state => some (state.fsInfo, state)
  | .setFsInfo pointer, state => some ((), { state with fsInfo := pointer })
  | .root, state => some (state.root, state)
  | .setRoot dentry, state => some ((), { state with root := dentry })

/-- A mount and, if it succeeded, its unmount. -/
def mountCycle (request : MountRequest) : SuperProg (BitVec 32) := do
  let err ← trfsMount request
  if err ≠ 0 then pure err
  else do
    trfsShutdownSuper
    pure 0

/-- The outcomes of the fallible steps may be others for each mount. -/
structure Cycle where
  request : MountRequest
  outcomes : MountOutcomes

/-- A mount that faults ends the run. -/
def cycleStep (cycle : Cycle) (state : SuperState) : Option SuperState :=
  ((mountCycle cycle.request).exec (handleSuper cycle.outcomes) state).map fun done => done.state

end Trfs.Kernel
