import Trfs.Construction.Kernel.GetLink

namespace Trfs.Kernel
open Bytes Effect Heaps

/-- The pointers that were passed to `kfree`. -/
def kfreed : List (Event LinkCall.Reply) → List Pointer
  | [] => []
  | ⟨.kfree pointer, _⟩ :: events => pointer :: kfreed events
  | _ :: events => kfreed events

/-- The blocks that were allocated. -/
def kmalloced : List (Event LinkCall.Reply) → List Pointer
  | [] => []
  | ⟨.kmalloc _, .block number⟩ :: events => .block number :: kmalloced events
  | _ :: events => kmalloced events

/-- The result is an error pointer, or a block that holds the link and its terminator. -/
def Delivers (host : LinkHost) (heap : Heap) (pointer : Pointer) : Prop :=
  (∃ err, pointer = .errPtr err) ∨
    ∃ number body rest, pointer = .block number ∧ host.readlink = .ok body ∧
      heap.block number = some (body.bytes ++ 0 :: rest)

/-- The link is delivered without an access outside of its memory, and after the delayed call each block that was
allocated has been freed once, and nothing else has. -/
structure FollowsLink (host : LinkHost) (dentry : Option Dentry) (heap : Heap) : Prop where
  safe : ∃ got, (trfsGetLink dentry).exec (handleLink host) ⟨heap, none⟩ = some got ∧
    Delivers host got.state.heap got.value ∧
    ∃ ended, doDelayedCall.exec (handleLink host) got.state = some ended ∧
      ended.state.heap.block = heap.block ∧ kfreed (got.events ++ ended.events) = kmalloced got.events

/-- The lower `readlink` is not reached for want of a dentry or memory, or it leaves room for the terminator. -/
def LeavesRoom (host : LinkHost) (dentry : Option Dentry) : Prop :=
  dentry = none ∨ host.memory = none ∨
    (host.hasReadlink = true ∧ ∃ body, host.readlink = .ok body ∧ body.bytes.length < pageSize)

section
variable {host : LinkHost} {dentry : Option Dentry} {heap : Heap} {garbage : Nat → Byte} {body : LinkBody}

/-- The length of a link body fits in 32 bits. -/
theorem length_mod (body : LinkBody) : body.bytes.length % 4294967296 = body.bytes.length := by
  have fits := body.fits
  simp only [pageSize] at fits
  omega

/-- The length of a link body is no negative result. -/
theorem length_nonneg (body : LinkBody) : ¬ (BitVec.ofNat 32 body.bytes.length).toInt < 0 := by
  have fits := body.fits
  simp only [pageSize] at fits
  have value : (BitVec.ofNat 32 body.bytes.length).toNat = body.bytes.length := by
    rw [BitVec.toNat_ofNat]
    exact length_mod body
  rw [BitVec.toInt_eq_toNat_of_lt (by rw [value]; omega), value]
  omega

variable (host heap) in
/-- What is known about an execution of `trfs_readlink` on the new block. -/
structure Read (contents : List Byte) (err : BitVec 32) (after : List Byte)
    (done : Execution LinkCall.Reply LinkState (BitVec 32)) : Prop where
  ran : (trfsReadlink (.block heap.next) pageSize).exec (handleLink host) ⟨heap.alloc contents, none⟩ = some done
  value : done.value = err
  state : done.state = ⟨heap.alloc after, none⟩
  kfreed : kfreed done.events = []
  kmalloced : kmalloced done.events = []

variable (heap) in
/-- `trfs_readlink` stores the link at the start of the new block. -/
theorem readlink_stores (there : host.hasReadlink = true) (read : host.readlink = .ok body) {contents : List Byte}
    (size : contents.length = pageSize) :
    ∃ done, Read host heap contents (BitVec.ofNat 32 body.bytes.length) (store contents 0 body.bytes) done := by
  have fits : body.bytes.length ≤ contents.length := by
    rw [size]
    exact body.fits
  have ran : (trfsReadlink (.block heap.next) pageSize).exec (handleLink host) ⟨heap.alloc contents, none⟩ =
      some ⟨BitVec.ofNat 32 body.bytes.length, ⟨heap.alloc (store contents 0 body.bytes), none⟩,
        [⟨.getLowerPath, ()⟩, ⟨.lowerHasReadlink, true⟩,
          ⟨.lowerReadlink (.block heap.next) pageSize, BitVec.ofNat 32 body.bytes.length⟩, ⟨.copyAttrAtime, ()⟩,
          ⟨.putLowerPath, ()⟩]⟩ := by
    simp [trfsReadlink, Program.exec, handleLink, perform, there, read, body.fits, Heap.write_alloc, fits,
      length_nonneg]
  exact ⟨_, ran, rfl, rfl, rfl, rfl⟩

variable (heap) in
/-- Without a link `trfs_readlink` leaves the new block alone. -/
theorem readlink_fails (missing : ¬ (host.hasReadlink = true ∧ ∃ body, host.readlink = .ok body))
    (contents : List Byte) :
    ∃ err done, err.toInt < 0 ∧ Read host heap contents err contents done := by
  cases there : host.hasReadlink with
  | false =>
      have ran : (trfsReadlink (.block heap.next) pageSize).exec (handleLink host) ⟨heap.alloc contents, none⟩ =
          some ⟨EINVAL, ⟨heap.alloc contents, none⟩,
            [⟨.getLowerPath, ()⟩, ⟨.lowerHasReadlink, false⟩, ⟨.putLowerPath, ()⟩]⟩ := by
        simp [trfsReadlink, Program.exec, handleLink, perform, there]
      exact ⟨EINVAL, _, by decide, ran, rfl, rfl, rfl, rfl⟩
  | true =>
      cases read : host.readlink with
      | ok body => exact absurd ⟨there, body, read⟩ missing
      | error errno =>
          have negative := errno.isErr.2
          have ran : (trfsReadlink (.block heap.next) pageSize).exec (handleLink host) ⟨heap.alloc contents, none⟩ =
              some ⟨errno.code, ⟨heap.alloc contents, none⟩,
                [⟨.getLowerPath, ()⟩, ⟨.lowerHasReadlink, true⟩,
                  ⟨.lowerReadlink (.block heap.next) pageSize, errno.code⟩, ⟨.putLowerPath, ()⟩]⟩ := by
            simp [trfsReadlink, Program.exec, handleLink, perform, there, read, negative]
          exact ⟨errno.code, _, negative, ran, rfl, rfl, rfl, rfl⟩

/-- What is freed in two lists of events. -/
theorem kfreed_append (first second : List (Event LinkCall.Reply)) :
    kfreed (first ++ second) = kfreed first ++ kfreed second := by
  induction first with
  | nil => rfl
  | cons event first ih =>
      obtain ⟨c, reply⟩ := event
      cases c <;> simp [kfreed, ih]

/-- What is allocated in two lists of events. -/
theorem kmalloced_append (first second : List (Event LinkCall.Reply)) :
    kmalloced (first ++ second) = kmalloced first ++ kmalloced second := by
  induction first with
  | nil => rfl
  | cons event first ih =>
      obtain ⟨c, reply⟩ := event
      cases c with
      | kmalloc size => cases reply <;> simp [kmalloced, ih]
      | _ => simp [kmalloced, ih]

/-- The end of `trfs_get_link` after `trfs_readlink` has returned. -/
def finishLink (buf : Pointer) (err : BitVec 32) : LinkProg Pointer :=
  if err.toInt < 0 then do
    link (.kfree buf)
    let buf := .errPtr err
    link (.setDelayedCall buf)
    pure buf
  else do
    link (.storeByte buf err 0)
    link (.setDelayedCall buf)
    pure buf

/-- After the read the link is finished. -/
theorem getLink_exec (walked : dentry ≠ none) (memory : host.memory = some garbage) {err : BitVec 32}
    {after : List Byte} {part : Execution LinkCall.Reply LinkState (BitVec 32)}
    (reads : Read host heap (uninitialized garbage pageSize) err after part) :
    (trfsGetLink dentry).exec (handleLink host) ⟨heap, none⟩ =
      ((finishLink (.block heap.next) err).exec (handleLink host) ⟨heap.alloc after, none⟩).map fun done =>
        { done with events := ⟨.kmalloc pageSize, .block heap.next⟩ :: (part.events ++ done.events) } := by
  have allocated : handleLink host (.kmalloc pageSize) ⟨heap, none⟩ =
      some (.block heap.next, ⟨heap.alloc (uninitialized garbage pageSize), none⟩) := by
    simp only [handleLink, memory]
  have block : Pointer.block heap.next ≠ .null := by simp
  rw [trfsGetLink, if_neg walked, perform_bind, Program.exec, allocated]
  simp only [if_neg block]
  rw [Program.exec_bind, reads.ran, Option.bind_some, reads.value, reads.state, Option.map_map]
  rfl

/-- A body with room for its end is followed. -/
theorem followsLink_stored (walked : dentry ≠ none) (memory : host.memory = some garbage)
    (there : host.hasReadlink = true) (read : host.readlink = .ok body) (room : body.bytes.length < pageSize) :
    FollowsLink host dentry heap := by
  have size := uninitialized_length garbage pageSize
  obtain ⟨part, reads⟩ := readlink_stores heap there read size
  obtain ⟨contents, terminated, rest, holds⟩ : ∃ contents, store (store (uninitialized garbage pageSize) 0 body.bytes)
      body.bytes.length [0] = contents ∧ ∃ rest, contents = body.bytes ++ 0 :: rest := by
    have left : 1 ≤ ((uninitialized garbage pageSize).drop body.bytes.length).length := by
      rw [List.length_drop]
      omega
    rw [store_start _ _ (by omega), store_append body.bytes _ [0] left]
    exact ⟨_, rfl, _, rfl⟩
  have fits : body.bytes.length + 1 ≤ pageSize := room
  have finished : (finishLink (.block heap.next) (BitVec.ofNat 32 body.bytes.length)).exec (handleLink host)
      ⟨heap.alloc (store (uninitialized garbage pageSize) 0 body.bytes), none⟩ =
        some ⟨.block heap.next, ⟨heap.alloc contents, some (.block heap.next)⟩,
          [⟨.storeByte (.block heap.next) (BitVec.ofNat 32 body.bytes.length) 0, ()⟩,
            ⟨.setDelayedCall (.block heap.next), ()⟩]⟩ := by
    rw [← terminated]
    simp [finishLink, Program.exec, handleLink, perform, length_nonneg, length_mod, Heap.write_alloc, fits]
  have ran := getLink_exec walked memory reads
  rw [finished, Option.map_some] at ran
  obtain ⟨left, freed, same⟩ := Option.map_eq_some_iff.mp (heap.free_alloc contents)
  have ended : doDelayedCall.exec (handleLink host)
      ⟨heap.alloc contents, some (.block heap.next)⟩ =
        some ⟨(), ⟨left, some (.block heap.next)⟩,
          [⟨.delayedCall, some (.block heap.next)⟩, ⟨.kfree (.block heap.next), ()⟩]⟩ := by
    simp [doDelayedCall, Program.exec, handleLink, perform, freed]
  have block := heap.alloc_block_self contents
  rw [holds] at block
  have delivers : Delivers host (heap.alloc contents) (.block heap.next) :=
    .inr ⟨heap.next, body, rest, rfl, read, by rw [holds]; exact block⟩
  refine ⟨_, ran, delivers, _, ended, same, ?_⟩
  simp [kfreed, kmalloced, kfreed_append, kmalloced_append, reads.kfreed, reads.kmalloced]

/-- A link of a whole page has its terminator behind the block. -/
theorem getLink_full (walked : dentry ≠ none) (memory : host.memory = some garbage) (there : host.hasReadlink = true)
    (read : host.readlink = .ok body) (full : body.bytes.length = pageSize) :
    (trfsGetLink dentry).exec (handleLink host) ⟨heap, none⟩ = none := by
  obtain ⟨part, reads⟩ := readlink_stores heap there read (uninitialized_length garbage pageSize)
  have outside : ¬ body.bytes.length + 1 ≤ pageSize := by omega
  rw [getLink_exec walked memory reads]
  simp [finishLink, Program.exec, handleLink, perform, length_nonneg, length_mod, Heap.write_alloc, outside]

/-- After an error the delayed call gets the error pointer. -/
theorem getLink_failed (walked : dentry ≠ none) (memory : host.memory = some garbage)
    (missing : ¬ (host.hasReadlink = true ∧ ∃ body, host.readlink = .ok body))
    {got : Execution LinkCall.Reply LinkState Pointer}
    (ran : (trfsGetLink dentry).exec (handleLink host) ⟨heap, none⟩ = some got) :
    doDelayedCall.exec (handleLink host) got.state = none := by
  obtain ⟨err, part, negative, reads⟩ := readlink_fails heap missing (uninitialized garbage pageSize)
  rw [getLink_exec walked memory reads] at ran
  obtain ⟨left, freed, _⟩ := Option.map_eq_some_iff.mp (heap.free_alloc (uninitialized garbage pageSize))
  simp only [finishLink, if_pos negative, perform_bind, Program.exec, handleLink, freed, Option.map_some,
    Program.pure_eq] at ran
  obtain rfl := Option.some.inj ran
  simp [doDelayedCall, Program.exec, handleLink, perform]

end

/-- The link is safe exactly when the lower `readlink` succeeds and leaves room for the terminator. -/
theorem followsLink_iff (host : LinkHost) (dentry : Option Dentry) (heap : Heap) :
    FollowsLink host dentry heap ↔ LeavesRoom host dentry := by
  by_cases walked : dentry = none
  · refine iff_of_true ⟨⟨.errPtr ECHILD, ⟨heap, none⟩, []⟩, ?_, .inl ⟨ECHILD, rfl⟩,
      ⟨(), ⟨heap, none⟩, [⟨.delayedCall, none⟩]⟩, rfl, rfl, rfl⟩ (.inl walked)
    rw [trfsGetLink, if_pos walked]
    rfl
  · cases memory : host.memory with
    | none =>
        refine iff_of_true ⟨⟨.errPtr ENOMEM, ⟨heap, none⟩, [⟨.kmalloc pageSize, .null⟩]⟩, ?_, .inl ⟨ENOMEM, rfl⟩,
          ⟨(), ⟨heap, none⟩, [⟨.delayedCall, none⟩]⟩, rfl, rfl, rfl⟩ (.inr (.inl memory))
        simp [trfsGetLink, walked, Program.exec, handleLink, memory]
    | some garbage =>
        have left : LeavesRoom host dentry ↔
            host.hasReadlink = true ∧ ∃ body, host.readlink = .ok body ∧ body.bytes.length < pageSize := by
          simp [LeavesRoom, walked, memory]
        rw [left]
        constructor
        · rintro ⟨got, ran, _, ended, freed, _⟩
          by_cases read : host.hasReadlink = true ∧ ∃ body, host.readlink = .ok body
          · obtain ⟨there, body, read⟩ := read
            refine ⟨there, body, read, Nat.lt_of_le_of_ne body.fits ?_⟩
            intro full
            rw [getLink_full walked memory there read full] at ran
            cases ran
          · rw [getLink_failed walked memory read ran] at freed
            cases freed
        · rintro ⟨there, body, read, room⟩
          exact followsLink_stored walked memory there read room

/-- The lower `readlink` fails with `-ESTALE`. -/
def failingLink : LinkHost := ⟨some fun _ => 0, true, .error ⟨ESTALE, by decide⟩⟩

def brokenLink : Dentry := ⟨1, ⟨ascii "/broken", by decide⟩⟩

/-- The error pointer of a failed `readlink` is passed to `kfree`. -/
theorem errPtr_kfreed :
    ¬ ∀ (host : LinkHost) (dentry : Option Dentry) (heap : Heap), FollowsLink host dentry heap := by
  intro follows
  have walked : some brokenLink ≠ none := Option.some_ne_none _
  obtain ⟨got, ran, _, ended, freed, _⟩ := follows failingLink (some brokenLink) Heap.empty
  have missing : ¬ (failingLink.hasReadlink = true ∧ ∃ body, failingLink.readlink = .ok body) := by
    rintro ⟨_, body, read⟩
    cases read
  rw [getLink_failed walked (show failingLink.memory = some fun _ => 0 from rfl) missing ran] at freed
  cases freed

end Trfs.Kernel
