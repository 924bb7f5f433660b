/-
This file lets `trfs_setattr` act on the attributes of one inode and of its lower inode.
-/

import Mathlib.Logic.Function.Basic
import Trfs.Construction.Kernel.Vfs

namespace Trfs.Kernel
open Effect

/-- The inodes behind a dentry, and the outcomes of the calls that can fail. A lower request that succeeds sets the
size that it is asked for. One that fails may have changed some members before. -/
structure SetattrHost where
  inode : Inode
  lowerPath : LowerPath
  lowerInode : LowerInode
  lowerFile : File → Option LowerFile
  changeOk : BitVec 32
  newsizeOk : BitVec 32
  notify : BitVec 32
  applied : Iattr (Option LowerFile) → Attributes → Attributes
  failing : Iattr (Option LowerFile) → Attributes → Attributes
  sized : ∀ ia old, (applied ia old).size = if ia.valid &&& ATTR_SIZE ≠ 0 then ia.size else old.size

structure SetattrState where
  upper : Inode → Attributes
  lower : LowerInode → Attributes

/-- The calls of `trfs_setattr`. `truncate_setsize` writes the size of the upper inode. -/
def handleSetattr (host : SetattrHost) : Handler MountCall.Reply SetattrState
  | .kernel (.upper (.dInode _)), state => some (host.inode, state)
  | .kernel (.upper (.lowerPath _)), state => some (host.lowerPath, state)
  | .kernel (.upper (.lowerInode _)), state => some (host.lowerInode, state)
  | .kernel (.upper (.lowerFile file)), state => some (host.lowerFile file, state)
  | .kernel (.upper (.lock _)), state | .kernel (.upper (.unlock _)), state => some ((), state)
  | .kernel (.upper (.attributes inode)), state => some (state.upper inode, state)
  | .kernel (.upper (.setAttributes inode value)), state =>
      some ((), { state with upper := Function.update state.upper inode value })
  | .kernel (.lower (.dInode _)), state => some (host.lowerInode, state)
  | .kernel (.lower (.pathGet _)), state | .kernel (.lower (.pathPut _)), state => some ((), state)
  | .kernel (.lower (.attributes lowerInode)), state => some (state.lower lowerInode, state)
  | .vfs (.inodeChangeOk _ _), state => some (host.changeOk, state)
  | .vfs (.inodeNewsizeOk _ _), state => some (host.newsizeOk, state)
  | .vfs (.truncateSetsize inode size), state =>
      some ((), { state with upper := Function.update state.upper inode { state.upper inode with size := size } })
  | .vfs (.notifyChange _ ia), state =>
      let change := if host.notify = 0 then host.applied ia else host.failing ia
      some (host.notify, { state with
        lower := Function.update state.lower host.lowerInode (change (state.lower host.lowerInode)) })
  | _, _ => none

end Trfs.Kernel
