/-
This file models `trfs_mmap` and `mmap.c`, whose calls may run in parallel on the mappings of one file.
-/

import Trfs.Construction.Kernel.Calls
import Trfs.Library.Interleaving

namespace Trfs.Kernel.Mmap
open Effect

/-- `struct vm_operations_struct`: its address and which of its two methods it has. -/
structure VmOps where
  address : Nat
  fault : Bool
  pageMkwrite : Bool
deriving DecidableEq, Repr

/-- `trfs_vm_ops` has both. -/
def trfsVmOps : VmOps := ⟨1, true, true⟩

/-- A file of the mount or a lower one. -/
inductive MappedFile where
  | upper (file : Nat)
  | lower (file : LowerFile)
deriving DecidableEq, Repr

/-- `struct vm_area_struct`. No operations are `NULL`. -/
structure Vma where
  start : BitVec 64
  stop : BitVec 64
  pgoff : BitVec 64
  flags : BitVec 64
  file : MappedFile
  ops : Option VmOps
deriving DecidableEq, Repr

/-- The single accesses and calls. The memory manager makes a vma, links it when it has been mapped, and finds it when a
page is missing. `bug` and `oops` have no answer. -/
inductive MapCall where
  | newVma (vma : Nat) (value : Vma)
  | linkVma (vma : Nat)
  | findVma (vma : Nat)
  | loadVma (vma : Nat)
  | vmFlags (vma : Nat)
  | vmOps (vma : Nat)
  | setVmOps (vma : Nat) (value : Option VmOps)
  | lowerVmOps (file : Nat)
  | setLowerVmOps (file : Nat) (value : Option VmOps)
  | lowerFile (file : Nat)
  | writepage (lowerFile : LowerFile)
  | lowerMmap (lowerFile : LowerFile) (vma : Nat)
  | fileAccessed (file : Nat)
  | setAops (file : Nat)
  | lowerFault (ops : VmOps) (vma : Vma) (vmf : Nat)
  | lowerPageMkwrite (ops : VmOps) (vma : Vma) (vmf : Nat)
  | bug
  | oops

@[reducible] def MapCall.Reply : MapCall → Type
  | .loadVma _ => Vma
  | .vmFlags _ => BitVec 64
  | .vmOps _ | .lowerVmOps _ => Option VmOps
  | .lowerFile _ => LowerFile
  | .writepage _ => Bool
  | .lowerMmap .. | .lowerFault .. | .lowerPageMkwrite .. => BitVec 32
  | .newVma .. | .linkVma _ | .findVma _ | .setVmOps .. | .setLowerVmOps .. | .fileAccessed _ | .setAops _ => Unit
  | .bug | .oops => Empty

abbrev MapProg := Program MapCall.Reply

/-- `BUG_ON(!ops)` -/
def bugOn (ops : Option VmOps) : MapProg VmOps :=
  match ops with
  | none => .call .bug Empty.elim
  | some ops => pure ops

/-- The private data of a file of the mount. Those of another file are not what the code takes them for. -/
def asUpper (file : MappedFile) : MapProg Nat :=
  match file with
  | .upper file => pure file
  | .lower _ => .call .oops Empty.elim

/-- `lower_vm_ops->fault`, which is called without a test. -/
def callFault (ops : VmOps) (vma : Vma) (vmf : Nat) : MapProg (BitVec 32) :=
  if ops.fault then perform (MapCall.lowerFault ops vma vmf) else .call .oops Empty.elim

def trfsFault (vma vmf : Nat) : MapProg (BitVec 32) := do
  let lowerVma ← perform (MapCall.loadVma vma)
  let file ← asUpper lowerVma.file
  let found ← perform (MapCall.lowerVmOps file)
  let lowerVmOps ← bugOn found
  let lowerFile ← perform (MapCall.lowerFile file)
  callFault lowerVmOps { lowerVma with file := .lower lowerFile } vmf

def trfsPageMkwrite (vma vmf : Nat) : MapProg (BitVec 32) := do
  let lowerVma ← perform (MapCall.loadVma vma)
  let file ← asUpper lowerVma.file
  let found ← perform (MapCall.lowerVmOps file)
  let lowerVmOps ← bugOn found
  if !lowerVmOps.pageMkwrite then pure 0
  else do
    let lowerFile ← perform (MapCall.lowerFile file)
    perform (MapCall.lowerPageMkwrite lowerVmOps { lowerVma with file := .lower lowerFile } vmf)

def VM_WRITE : BitVec 64 := 0x2
def VM_SHARED : BitVec 64 := 0x8

/-- `willwrite` -/
def willWrite (flags : BitVec 64) : Bool := flags ||| VM_SHARED ||| VM_WRITE = flags

/-- The lower `mmap` and the operations that it leaves in the vma. -/
def mapLower (lowerFile : LowerFile) (vma : Nat) : MapProg (BitVec 32 × Option VmOps) := do
  let err ← perform (MapCall.lowerMmap lowerFile vma)
  if err ≠ 0 then pure (err, none)
  else do
    let savedVmOps ← perform (MapCall.vmOps vma)
    pure (0, savedVmOps)

/-- The last part of `trfs_mmap`. -/
def settleMmap (file vma : Nat) (savedVmOps : Option VmOps) : MapProg (BitVec 32) := do
  perform (MapCall.fileAccessed file)
  perform (MapCall.setVmOps vma (some trfsVmOps))
  perform (MapCall.setAops file)
  let current ← perform (MapCall.lowerVmOps file)
  if current = none then do
    perform (MapCall.setLowerVmOps file savedVmOps)
    pure 0
  else pure 0

def trfsMmap (file vma : Nat) : MapProg (BitVec 32) := do
  let flags ← perform (MapCall.vmFlags vma)
  let lowerFile ← perform (MapCall.lowerFile file)
  let writable ← if willWrite flags then perform (MapCall.writepage lowerFile) else pure true
  if !writable then pure EINVAL
  else do
    let current ← perform (MapCall.lowerVmOps file)
    if current = none then do
      let (err, savedVmOps) ← mapLower lowerFile vma
      if err ≠ 0 then pure err
      else settleMmap file vma savedVmOps
    else settleMmap file vma none

/-- What the memory manager does with the files of the mount: a new mapping, a missing or a write-protected page, and
the copy of a mapping for another process. -/
inductive MapRequest where
  | mmap (file vma : Nat) (area : Vma)
  | fault (vma vmf : Nat)
  | pageMkwrite (vma vmf : Nat)
  | dup (old new : Nat)

/-- The vma that a request makes. -/
def MapRequest.makes : MapRequest → Option Nat
  | .mmap _ vma _ => some vma
  | .dup _ new => some new
  | .fault .. | .pageMkwrite .. => none

/-- A vma that `mmap_region` has just made. -/
def Vma.made (area : Vma) (file : Nat) : Vma := { area with file := .upper file, ops := none }

/-- The memory manager calls the methods of the vma that it found. The tables of other filesystems are not modeled. -/
def dispatch (vma : Nat) (method : MapProg (BitVec 32)) : MapProg (BitVec 32) := do
  perform (MapCall.findVma vma)
  let ops ← perform (MapCall.vmOps vma)
  if ops = some trfsVmOps then method else pure 0

def MapRequest.program : MapRequest → MapProg (BitVec 32)
  | .mmap file vma area => do
      perform (MapCall.newVma vma (area.made file))
      let err ← trfsMmap file vma
      if err ≠ 0 then pure err
      else do
        perform (MapCall.linkVma vma)
        pure 0
  | .fault vma vmf => dispatch vma (trfsFault vma vmf)
  | .pageMkwrite vma vmf => dispatch vma (trfsPageMkwrite vma vmf)
  | .dup old new => do
      perform (MapCall.findVma old)
      let value ← perform (MapCall.loadVma old)
      perform (MapCall.newVma new value)
      perform (MapCall.linkVma new)
      pure 0

/-- The vmas, those that can be found, and the private data of the open files. -/
structure Mappings (L : Type) where
  lower : L
  vma : Nat → Vma
  linked : Nat → Bool
  lowerFile : Nat → LowerFile
  lowerVmOps : Nat → Option VmOps

/-- The lower filesystem. Its `mmap` may change the vma, and a file without that method has no answer. -/
structure MapEnvironment (L : Type) where
  writepage : LowerFile → Bool
  mmap : LowerFile → Vma → L → Option (BitVec 32 × Vma × L)
  fault : VmOps → Vma → Nat → L → BitVec 32 × L
  pageMkwrite : VmOps → Vma → Nat → L → BitVec 32 × L

section
variable {L : Type}

/-- Only a vma that has been linked is found. -/
def handleMap (env : MapEnvironment L) : Handler MapCall.Reply (Mappings L)
  | .newVma vma value, state => some ((), { state with vma := Function.update state.vma vma value })
  | .linkVma vma, state => some ((), { state with linked := Function.update state.linked vma true })
  | .findVma vma, state => if state.linked vma then some ((), state) else none
  | .loadVma vma, state => some (state.vma vma, state)
  | .vmFlags vma, state => some ((state.vma vma).flags, state)
  | .vmOps vma, state => some ((state.vma vma).ops, state)
  | .setVmOps vma value, state =>
      some ((), { state with vma := Function.update state.vma vma { state.vma vma with ops := value } })
  | .lowerVmOps file, state => some (state.lowerVmOps file, state)
  | .setLowerVmOps file value, state =>
      some ((), { state with lowerVmOps := Function.update state.lowerVmOps file value })
  | .lowerFile file, state => some (state.lowerFile file, state)
  | .writepage lowerFile, state => some (env.writepage lowerFile, state)
  | .lowerMmap lowerFile vma, state => (env.mmap lowerFile (state.vma vma) state.lower).map fun (err, value, after) =>
      (err, { state with lower := after, vma := Function.update state.vma vma value })
  | .fileAccessed _, state | .setAops _, state => some ((), state)
  | .lowerFault ops vma vmf, state =>
      let (err, after) := env.fault ops vma vmf state.lower
      some (err, { state with lower := after })
  | .lowerPageMkwrite ops vma vmf, state =>
      let (err, after) := env.pageMkwrite ops vma vmf state.lower
      some (err, { state with lower := after })
  | .bug, _ => none
  | .oops, _ => none

/-- Any number of requests in the middle of their calls. -/
abbrev Faulting (ι L : Type) := Config MapCall.Reply ι (Mappings L) (BitVec 32)

/-- Nothing is mapped, and no file has lower operations. -/
def Faulting.begin {ι : Type} (requests : ι → MapRequest) (lower : L) (lowerFile : Nat → LowerFile) (vma : Nat → Vma) :
    Faulting ι L where
  shared := ⟨lower, vma, fun _ => false, lowerFile, fun _ => none⟩
  threads task := (requests task).program
  history := []

def Faulting.run {ι : Type} [DecidableEq ι] (env : MapEnvironment L) (schedule : List ι) (faulting : Faulting ι L) :
    Option (Faulting ι L) := Config.run (fun _ => handleMap env) schedule faulting

end

end Trfs.Kernel.Mmap
