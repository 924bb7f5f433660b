import Trfs.Library.Bytes
import Trfs.Library.Bits
import Trfs.Library.CString
import Trfs.Library.Iteration
import Trfs.Library.Program
import Trfs.Library.Interleaving
import Trfs.Library.Cursor
import Trfs.Library.FileTree
import Trfs.Library.Rerooting
import Trfs.Library.Ensures
import Trfs.Library.Ledger
import Trfs.Library.Transitions
import Trfs.Library.Heap
import Trfs.Library.Dentries
import Trfs.Library.Sections
import Trfs.Library.Translation
import Trfs.Library.Leases
import Trfs.Library.Locks
import Trfs.Construction.Trace.Format
import Trfs.Construction.Kernel.Calls
import Trfs.Construction.Kernel.Tracer
import Trfs.Construction.Kernel.Lookup
import Trfs.Construction.Kernel.File
import Trfs.Construction.Kernel.Inode
import Trfs.Construction.Kernel.Machine
import Trfs.Construction.Kernel.Run
import Trfs.Construction.Kernel.Session
import Trfs.Construction.Kernel.Concurrent
import Trfs.Construction.Kernel.InodeCache
import Trfs.Construction.Kernel.Super
import Trfs.Construction.Kernel.Vfs
import Trfs.Construction.Kernel.Mounted
import Trfs.Construction.Kernel.GetLink
import Trfs.Construction.Kernel.Setattr
import Trfs.Construction.Kernel.Seek
import Trfs.Construction.Kernel.InodeReferences
import Trfs.Construction.Kernel.Dcache
import Trfs.Construction.Kernel.LowerPaths
import Trfs.Construction.Kernel.Mmap
import Trfs.Construction.Kernel.Export
import Trfs.Construction.Kernel.Methods
import Trfs.Construction.Kernel.Tasks
import Trfs.Construction.Control.Trctl
import Trfs.Construction.Control.Mount
import Trfs.Construction.Control.Stack
import Trfs.Construction.Control.Monitored
import Trfs.Construction.Replay.RecordLoop
import Trfs.Construction.Replay.ReplayRecord
import Trfs.Construction.Replay.RegularFile
import Trfs.Construction.Replay.Arguments
import Trfs.Construction.Replay.Options
import Trfs.Construction.Replay.PathStrings
import Trfs.Proof.Kernel.Staged
import Trfs.Proof.Kernel.Operations
import Trfs.Proof.Kernel.Block
import Trfs.Proof.Kernel.Protocol
import Trfs.Proof.Kernel.SingleCall
import Trfs.Proof.Replay.RecordLoop
import Trfs.Proof.Kernel.Records
import Trfs.Proof.Kernel.Log
import Trfs.Proof.Kernel.Hidden
import Trfs.Proof.Kernel.Transparent
import Trfs.Proof.Kernel.Interleaved
import Trfs.Proof.Kernel.WholeRecords
import Trfs.Proof.Kernel.RecordOrder
import Trfs.Proof.Kernel.Results
import Trfs.Proof.Kernel.Iterator
import Trfs.Proof.Kernel.Header
import Trfs.Proof.Kernel.Transfer
import Trfs.Proof.Kernel.Naming
import Trfs.Proof.Kernel.Padding
import Trfs.Proof.Kernel.Attributes
import Trfs.Proof.Kernel.ParentAttributes
import Trfs.Proof.Kernel.Coherence
import Trfs.Proof.Kernel.InodeCache
import Trfs.Proof.Kernel.MountCleanup
import Trfs.Proof.Kernel.Ownership
import Trfs.Proof.Kernel.OwnedBlock
import Trfs.Proof.Kernel.OwnedOperations
import Trfs.Proof.Kernel.OwnedFiles
import Trfs.Proof.Kernel.OwnedRequests
import Trfs.Proof.Kernel.Balanced
import Trfs.Proof.Kernel.Stamped
import Trfs.Proof.Kernel.MountOptions
import Trfs.Proof.Kernel.GetLink
import Trfs.Proof.Kernel.Setattr
import Trfs.Proof.Kernel.Seek
import Trfs.Proof.Kernel.InodeReferences
import Trfs.Proof.Kernel.Corresponding
import Trfs.Proof.Kernel.TreeCalls
import Trfs.Proof.Kernel.Looking
import Trfs.Proof.Kernel.LookupCalls
import Trfs.Proof.Kernel.TreeOperations
import Trfs.Proof.Kernel.TreeLookup
import Trfs.Proof.Kernel.TreeRun
import Trfs.Proof.Kernel.LowerPaths
import Trfs.Proof.Kernel.Mmap
import Trfs.Proof.Kernel.Export
import Trfs.Proof.Kernel.MethodTable
import Trfs.Proof.Kernel.Leased
import Trfs.Proof.Kernel.LeasedOperations
import Trfs.Proof.Kernel.LeasedFiles
import Trfs.Proof.Kernel.LeasedRequests
import Trfs.Proof.Kernel.LeasedTable
import Trfs.Proof.Kernel.HeldCalls
import Trfs.Proof.Kernel.MountCycles
import Trfs.Proof.Kernel.LockOrder
import Trfs.Proof.Kernel.LockedRequests
import Trfs.Proof.Kernel.TaskLocks
import Trfs.Proof.Control.Serve
import Trfs.Proof.Control.Update
import Trfs.Proof.Control.Bound
import Trfs.Proof.Control.LostUpdate
import Trfs.Proof.Control.Truthful
import Trfs.Proof.Control.Numeral
import Trfs.Proof.Control.Grammar
import Trfs.Proof.Replay.HeldParts
import Trfs.Proof.Replay.RoundTrip
import Trfs.Proof.Control.Monitored
import Trfs.Proof.Replay.Issued
import Trfs.Proof.Replay.Confined
import Trfs.Proof.Replay.Descriptors
import Trfs.Proof.Replay.Traced
import Trfs.Proof.Replay.Positions
import Trfs.Proof.Replay.Recreate
import Trfs.Proof.Replay.Structural
import Trfs.Proof.Replay.WrittenBytes
import Trfs.Proof.Replay.RecordLocal
import Trfs.Proof.Replay.Verdict
import Trfs.Proof.Replay.DeviceNumbers
import Trfs.Proof.Replay.Options
import Trfs.Proof.Replay.PathStrings
import Trfs.Proof.Replay.Decoding
import Trfs.Proof.Replay.Copied
