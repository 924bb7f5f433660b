import Trfs.Construction.Kernel.InodeCache

namespace Trfs.Kernel
open Effect

/-- How far a task has come in `trfs_iget`: from its new inode to the one that it returns. -/
inductive Phase where
  | looking
  | inserted (inode : Inode)
  | grabbed (inode : Inode)
  | stored (inode : Inode)
  | held (inode : Inode)
  | failed
deriving DecidableEq

def Phase.nextUpper (phase : Phase) : (c : UpperCall) → c.Reply → Phase
  | .iget5Locked _, none => .failed
  | .iget5Locked _, some (inode, true) => .inserted inode
  | .iget5Locked _, some (inode, false) => .held inode
  | .setLowerInode inode _, _ => .stored inode
  | .unlockNewInode inode, _ => .held inode
  | _, _ => phase

def Phase.next (phase : Phase) : (c : Call) → c.Reply → Phase
  | .upper c, reply => phase.nextUpper c reply
  | .lower (.igrab _), reply =>
      match phase, reply with
      | .inserted inode, true => .grabbed inode
      | _, _ => .failed
  | _, _ => phase

/-- The calls of `trfs_iget` in each phase. -/
def getting (wanted : LowerInode) : Monitor Call.Reply Phase where
  permits phase
    | .upper (.iget5Locked lowerInode) => phase = .looking ∧ lowerInode = wanted
    | .lower (.igrab _) => ∃ inode, phase = .inserted inode
    | .upper (.setLowerInode inode value) => phase = .grabbed inode ∧ value = wanted
    | .upper (.unlockNewInode inode) => phase = .stored inode
    | .upper (.attributes _) | .upper (.setAttributes ..) | .lower (.attributes _) => ∃ inode, phase = .stored inode
    | .lower (.iput _) => phase = .failed
    | _ => False
  next := Phase.next

/-- The initialization of a grabbed inode holds it back until the end. -/
theorem initInode_meets (inode : Inode) (wanted : LowerInode) {next : Unit → Prog (Except (BitVec 32) Inode)}
    {post : Except (BitVec 32) Inode → Phase → Prop} (rest : (next ()).Meets (getting wanted) post (.held inode)) :
    (initInode inode wanted >>= next).Meets (getting wanted) post (.grabbed inode) := by
  have stored : ∃ other, Phase.stored inode = .stored other := ⟨inode, rfl⟩
  refine ⟨⟨rfl, rfl⟩, fun _ => ⟨stored, fun _ => ⟨stored, fun _ => ?_⟩⟩⟩
  refine ⟨stored, fun _ => ⟨stored, fun _ => ⟨stored, fun _ => ?_⟩⟩⟩
  refine ⟨stored, fun _ => ⟨stored, fun _ => ⟨stored, fun _ => ?_⟩⟩⟩
  exact ⟨rfl, fun _ => rest⟩

/-- The inode that `trfs_iget` returns is the one that it found or initialized. -/
theorem trfsIget_getting (wanted : LowerInode) : (trfsIget wanted).Meets (getting wanted)
    (fun result phase => ∀ inode, result = .ok inode → phase = .held inode) .looking := by
  unfold trfsIget
  refine ⟨⟨rfl, rfl⟩, fun found => ?_⟩
  cases found with
  | none => exact ⟨rfl, fun _ inode same => by cases same⟩
  | some found =>
      obtain ⟨inode, new⟩ := found
      cases new with
      | false =>
          intro other same
          rw [Except.ok.inj same]
          rfl
      | true =>
          refine ⟨⟨inode, rfl⟩, fun grabbed => ?_⟩
          cases grabbed with
          | false =>
              intro other same
              cases same
          | true =>
              apply initInode_meets
              intro other same
              rw [Except.ok.inj same]

/-- A changed cache holds the changed entry of the inode and all others as they were. -/
@[simp] theorem mem_change {cache : InodeCache} {inode : Inode} {update : CachedInode → CachedInode}
    {entry : CachedInode} : entry ∈ cache.change inode update ↔
      ∃ old ∈ cache, (if old.inode = inode then update old else old) = entry := List.mem_map

/-- The inode of this task that is in the cache and not ready. -/
def Phase.Owns (phase : Phase) (inode : Inode) : Prop :=
  phase = .inserted inode ∨ phase = .grabbed inode ∨ phase = .stored inode

/-- The inode of this task is in the cache, and its lower inode is not set. -/
def Phase.Pending (phase : Phase) (inode : Inode) : Prop := phase = .inserted inode ∨ phase = .grabbed inode

/-- A task with an inode in preparation owns it. -/
theorem Phase.Pending.owns {phase : Phase} {inode : Inode} (pending : phase.Pending inode) : phase.Owns inode :=
  pending.imp_right Or.inl

/-- No two inodes in the cache stand for the same lower inode. -/
def InodeCache.Unique (cache : InodeCache) : Prop :=
  ∀ first ∈ cache, ∀ second ∈ cache, first.lowerInode = second.lowerInode →
    first.lowerInode ≠ LowerInode.null → first.inode = second.inode

section
variable {ι : Type} {host : CacheHost ι} {asked : ι → LowerInode} {cache after : InodeCache}
  {phase reached : Phase} {phases : ι → Phase} {task : ι}

/-- Everything that one step of a task does to the cache. -/
inductive CacheMove (host : CacheHost ι) (wanted : LowerInode) (task : ι) :
    InodeCache → Phase → InodeCache → Phase → Prop where
  | finds {cache : InodeCache} {entry : CachedInode} (member : entry ∈ cache) (same : entry.lowerInode = wanted) :
      CacheMove host wanted task cache .looking cache (.held entry.inode)
  | inserts {cache : InodeCache} {entry : CachedInode} (missing : cache.find host wanted = none)
      (unused : ∀ old ∈ cache, old.inode ≠ entry.inode) (new : entry.isNew = true)
      (hashval : entry.hashval = host.ino wanted) (blank : entry.lowerInode = .null) :
      CacheMove host wanted task cache .looking (entry :: cache) (.inserted entry.inode)
  | grabs {cache : InodeCache} {inode : Inode} (alive : host.grabs task = true) :
      CacheMove host wanted task cache (.inserted inode) cache (.grabbed inode)
  | stores {cache : InodeCache} {inode : Inode} : CacheMove host wanted task cache (.grabbed inode)
      (cache.change inode fun entry => { entry with lowerInode := wanted }) (.stored inode)
  | unlocks {cache : InodeCache} {inode : Inode} : CacheMove host wanted task cache (.stored inode)
      (cache.change inode fun entry => { entry with isNew := false }) (.held inode)
  | sets {cache : InodeCache} {owned : Inode} (inode : Inode) (value : Attributes) : CacheMove host wanted task
      cache (.stored owned) (cache.change inode fun entry => { entry with attributes := value }) (.stored owned)
  | reads {cache : InodeCache} {owned : Inode} : CacheMove host wanted task cache (.stored owned) cache (.stored owned)
  | fails {cache : InodeCache} {phase : Phase} : CacheMove host wanted task cache phase cache .failed

/-- A permitted call moves the cache and the phase of its task as `CacheMove` says. -/
theorem handleCache_moves {wanted : LowerInode} {c : Call} {reply : c.Reply} (permitted : (getting wanted).permits phase c)
    (answered : handleCache host task c cache = some (reply, after)) :
    CacheMove host wanted task cache phase after (phase.next c reply) := by
  cases c with
  | upper c =>
      cases c with
      | iget5Locked lowerInode =>
          obtain ⟨rfl, rfl⟩ := permitted
          simp only [handleCache, iget5Locked] at answered
          split at answered
          · rename_i entry found
            split at answered
            · cases answered
            · obtain ⟨rfl, rfl⟩ := Prod.mk.inj (Option.some.inj answered)
              have tested := List.find?_some found
              simp only [trfsInodeTest, Bool.decide_and, Bool.and_eq_true, decide_eq_true_eq] at tested
              exact .finds (List.mem_of_find?_eq_some found) tested.2
          · rename_i missing
            split at answered
            · obtain ⟨rfl, rfl⟩ := Prod.mk.inj (Option.some.inj answered)
              exact .fails
            · split at answered
              · cases answered
              · rename_i unused
                obtain ⟨rfl, rfl⟩ := Prod.mk.inj (Option.some.inj answered)
                apply CacheMove.inserts missing _ rfl rfl rfl
                intro old member same
                exact unused ⟨old, member, same⟩
      | setLowerInode inode value =>
          obtain ⟨rfl, rfl⟩ := permitted
          obtain ⟨_, rfl⟩ := Prod.mk.inj (Option.some.inj answered)
          exact .stores
      | unlockNewInode inode =>
          obtain rfl := permitted
          obtain ⟨_, rfl⟩ := Prod.mk.inj (Option.some.inj answered)
          exact .unlocks
      | attributes inode =>
          obtain ⟨owned, rfl⟩ := permitted
          obtain ⟨entry, _, same⟩ := Option.map_eq_some_iff.mp answered
          obtain ⟨_, rfl⟩ := Prod.mk.inj same
          exact .reads
      | setAttributes inode value =>
          obtain ⟨owned, rfl⟩ := permitted
          obtain ⟨_, rfl⟩ := Prod.mk.inj (Option.some.inj answered)
          exact .sets inode value
      | _ => exact permitted.elim
  | lower c =>
      cases c with
      | igrab lowerInode =>
          obtain ⟨inode, rfl⟩ := permitted
          obtain ⟨same, rfl⟩ := Prod.mk.inj (Option.some.inj answered)
          cases reply with
          | true => exact .grabs same
          | false => exact .fails
      | attributes lowerInode =>
          obtain ⟨owned, rfl⟩ := permitted
          obtain ⟨_, rfl⟩ := Prod.mk.inj (Option.some.inj answered)
          exact .reads
      | iput lowerInode =>
          obtain rfl := permitted
          obtain ⟨_, rfl⟩ := Prod.mk.inj (Option.some.inj answered)
          exact .fails
      | _ => exact permitted.elim
  | _ => exact permitted.elim

/-- A change of one inode keeps the entries of the others. -/
theorem change_kept {entry : CachedInode} {inode : Inode} (update : CachedInode → CachedInode) (member : entry ∈ cache)
    (other : entry.inode ≠ inode) : entry ∈ cache.change inode update :=
  mem_change.mpr ⟨entry, member, if_neg other⟩

/-- A change that keeps the inode keeps the list of inodes. -/
theorem change_inodes {inode : Inode} {update : CachedInode → CachedInode}
    (keeps : ∀ entry, (update entry).inode = entry.inode) :
    (cache.change inode update).map CachedInode.inode = cache.map CachedInode.inode := by
  unfold InodeCache.change
  rw [List.map_map]
  congr 1
  funext entry
  by_cases here : entry.inode = inode
  · simp [here, keeps]
  · simp [here]

/-- The inodes of the cache and the tasks that made them. -/
structure OwnedCache (host : CacheHost ι) (asked : ι → LowerInode) (cache : InodeCache) (phases : ι → Phase) : Prop where
  nodup : (cache.map CachedInode.inode).Nodup
  hashval : ∀ entry ∈ cache, entry.lowerInode ≠ .null → entry.hashval = host.ino entry.lowerInode
  owned : ∀ task inode, (phases task).Owns inode → ∃ entry ∈ cache, entry.inode = inode ∧ entry.isNew = true ∧
    entry.hashval = host.ino (asked task) ∧ (phases task = .stored inode → entry.lowerInode = asked task)
  owner : ∀ first second inode, (phases first).Owns inode → (phases second).Owns inode → first = second
  alive : ∀ task inode, phases task = .grabbed inode → host.grabs task = true

/-- An inode has one entry. -/
theorem OwnedCache.entry_eq (sound : OwnedCache host asked cache phases) {first second : CachedInode} (one : first ∈ cache)
    (two : second ∈ cache) (same : first.inode = second.inode) : first = second :=
  List.inj_on_of_nodup_map sound.nodup one two same

/-- An update that keeps the identity of the inodes, and of the lower inodes where a task waits. -/
theorem OwnedCache.change (sound : OwnedCache host asked cache phases) {inode : Inode} {update : CachedInode → CachedInode}
    (inodes : ∀ entry, (update entry).inode = entry.inode) (hashvals : ∀ entry, (update entry).hashval = entry.hashval)
    (lowers : ∀ entry ∈ cache, entry.inode = inode →
      (update entry).lowerInode ≠ .null → entry.hashval = host.ino (update entry).lowerInode)
    (kept : ∀ task, (phases task).Owns inode → ∀ entry ∈ cache, entry.inode = inode →
      (update entry).isNew = entry.isNew ∧ (phases task = .stored inode → (update entry).lowerInode = asked task)) :
    OwnedCache host asked (cache.change inode update) phases := by
  refine ⟨?_, ?_, ?_, sound.owner, sound.alive⟩
  · rw [change_inodes inodes]
    exact sound.nodup
  · intro entry member set
    obtain ⟨old, before, rfl⟩ := mem_change.mp member
    by_cases here : old.inode = inode
    · rw [if_pos here] at set ⊢
      rw [hashvals]
      exact lowers old before here set
    · rw [if_neg here] at set ⊢
      exact sound.hashval old before set
  · intro task other owns
    obtain ⟨entry, member, rfl, new, hashval, stored⟩ := sound.owned task other owns
    by_cases here : entry.inode = inode
    · subst here
      obtain ⟨same, lower⟩ := kept task owns entry member rfl
      refine ⟨update entry, mem_change.mpr ⟨entry, member, if_pos rfl⟩, inodes entry, same.trans new, ?_, lower⟩
      rw [hashvals, hashval]
    · exact ⟨entry, change_kept update member here, rfl, new, hashval, stored⟩

/-- The entry of a task. -/
theorem OwnedCache.entry (sound : OwnedCache host asked cache phases) {inode : Inode} (owns : (phases task).Owns inode)
    {entry : CachedInode} (member : entry ∈ cache) (same : entry.inode = inode) :
    entry.isNew = true ∧ entry.hashval = host.ino (asked task) ∧
      (phases task = .stored inode → entry.lowerInode = asked task) := by
  obtain ⟨old, before, here, rest⟩ := sound.owned task inode owns
  obtain rfl := sound.entry_eq member before (same.trans here.symm)
  exact rest

/-- When a task gets the inode that it returns, that inode stands for the lower inode. -/
theorem CacheMove.returns (sound : OwnedCache host asked cache phases) (here : phases task = phase)
    (moves : CacheMove host (asked task) task cache phase after reached) {inode : Inode} (held : reached = .held inode) :
    ∃ entry ∈ after, entry.inode = inode ∧ entry.lowerInode = asked task := by
  cases moves with
  | finds member same =>
      obtain rfl := Phase.held.inj held
      exact ⟨_, member, rfl, same⟩
  | unlocks =>
      obtain rfl := Phase.held.inj held
      obtain ⟨entry, member, rfl, _, _, lower⟩ := sound.owned task _ (.inr (.inr here))
      exact ⟨_, mem_change.mpr ⟨entry, member, if_pos rfl⟩, rfl, lower here⟩
  | _ => cases held

/-- Nobody else stands for a lower inode, or is about to, while a task is about to. -/
structure Separate (host : CacheHost ι) (asked : ι → LowerInode) (cache : InodeCache) (phases : ι → Phase) :
    Prop where
  unique : cache.Unique
  alone : ∀ task inode, (phases task).Pending inode → host.grabs task = true →
    ∀ entry ∈ cache, entry.lowerInode ≠ asked task
  apart : ∀ first second one two, (phases first).Pending one → (phases second).Pending two →
    host.grabs first = true → host.grabs second = true → asked first = asked second → first = second

/-- Fewer tasks are pending on a cache with the same inodes. -/
theorem Separate.restrict {later : ι → Phase} (separate : Separate host asked cache phases)
    (cached : ∀ entry ∈ after, ∃ old ∈ cache, entry.inode = old.inode ∧ entry.lowerInode = old.lowerInode)
    (fewer : ∀ task inode, (later task).Pending inode → ∃ old, (phases task).Pending old) :
    Separate host asked after later := by
  refine ⟨?_, ?_, ?_⟩
  · intro first one second two same set
    obtain ⟨old, member, inode, lower⟩ := cached first one
    obtain ⟨other, among, other_inode, other_lower⟩ := cached second two
    rw [inode, other_inode]
    rw [lower, other_lower] at same
    exact separate.unique old member other among same (lower ▸ set)
  · intro task inode pending alive entry member
    obtain ⟨old, before⟩ := fewer task inode pending
    obtain ⟨earlier, among, _, lower⟩ := cached entry member
    rw [lower]
    exact separate.alone task old before alive earlier among
  · intro first second one two pending waiting alive living same
    obtain ⟨old, before⟩ := fewer first one pending
    obtain ⟨other, earlier⟩ := fewer second two waiting
    exact separate.apart first second old other before earlier alive living same

/-- A change that keeps inode and lower inode keeps them for each entry. -/
theorem change_same {inode : Inode} {update : CachedInode → CachedInode}
    (inodes : ∀ entry, (update entry).inode = entry.inode) (lowers : ∀ entry, (update entry).lowerInode = entry.lowerInode) :
    ∀ entry ∈ cache.change inode update, ∃ old ∈ cache, entry.inode = old.inode ∧ entry.lowerInode = old.lowerInode := by
  intro entry member
  obtain ⟨old, before, rfl⟩ := mem_change.mp member
  refine ⟨old, before, ?_⟩
  by_cases here : old.inode = inode
  · rw [if_pos here]
    exact ⟨inodes old, lowers old⟩
  · rw [if_neg here]
    exact ⟨rfl, rfl⟩

variable [DecidableEq ι]

/-- A task that owns no inode any more. -/
theorem OwnedCache.release (sound : OwnedCache host asked cache phases) (free : ∀ inode, ¬ reached.Owns inode) :
    OwnedCache host asked cache (Function.update phases task reached) := by
  have others : ∀ other inode, (Function.update phases task reached other).Owns inode →
      (phases other).Owns inode ∧ Function.update phases task reached other = phases other := by
    intro other inode owns
    by_cases this : other = task
    · subst this
      rw [Function.update_self] at owns
      exact absurd owns (free inode)
    · rw [Function.update_of_ne this] at owns ⊢
      exact ⟨owns, rfl⟩
  refine ⟨sound.nodup, sound.hashval, ?_, ?_, ?_⟩
  · intro other inode owns
    obtain ⟨before, same⟩ := others other inode owns
    rw [same]
    exact sound.owned other inode before
  · intro first second inode one two
    exact sound.owner first second inode (others first inode one).1 (others second inode two).1
  · intro other inode grabbed
    obtain ⟨_, same⟩ := others other inode (.inr (.inl grabbed))
    exact sound.alive other inode (same ▸ grabbed)

/-- A task that owns the same inode one phase later. -/
theorem OwnedCache.advance (sound : OwnedCache host asked cache phases) {inode : Inode} (before : (phases task).Owns inode)
    (only : ∀ other, reached.Owns other → other = inode)
    (stored : reached = .stored inode → ∀ entry ∈ cache, entry.inode = inode → entry.lowerInode = asked task)
    (alive : reached = .grabbed inode → host.grabs task = true) :
    OwnedCache host asked cache (Function.update phases task reached) := by
  have owners : ∀ other owned, (Function.update phases task reached other).Owns owned → (phases other).Owns owned := by
    intro other owned owns
    by_cases this : other = task
    · subst this
      rw [Function.update_self] at owns
      rw [only owned owns]
      exact before
    · rw [Function.update_of_ne this] at owns
      exact owns
  refine ⟨sound.nodup, sound.hashval, ?_, ?_, ?_⟩
  · intro other owned owns
    obtain ⟨entry, member, same, new, hashval, lower⟩ := sound.owned other owned (owners other owned owns)
    refine ⟨entry, member, same, new, hashval, ?_⟩
    by_cases this : other = task
    · subst this
      rw [Function.update_self] at owns ⊢
      obtain rfl := only owned owns
      exact fun here => stored here entry member same
    · rw [Function.update_of_ne this]
      exact lower
  · intro first second owned one two
    exact sound.owner first second owned (owners first owned one) (owners second owned two)
  · intro other owned grabbed
    by_cases this : other = task
    · subst this
      rw [Function.update_self] at grabbed
      obtain rfl := only owned (.inr (.inl grabbed))
      exact alive grabbed
    · rw [Function.update_of_ne this] at grabbed
      exact sound.alive other owned grabbed

/-- A new inode belongs to the task that made it. -/
theorem OwnedCache.insert (sound : OwnedCache host asked cache phases) {entry : CachedInode} (unused : ∀ old ∈ cache,
      old.inode ≠ entry.inode) (new : entry.isNew = true) (hashval : entry.hashval = host.ino (asked task))
    (blank : entry.lowerInode = .null) :
    OwnedCache host asked (entry :: cache) (Function.update phases task (.inserted entry.inode)) := by
  have owners : ∀ other inode, (Function.update phases task (.inserted entry.inode) other).Owns inode →
      (other = task ∧ inode = entry.inode) ∨ (other ≠ task ∧ (phases other).Owns inode) := by
    intro other inode owns
    by_cases this : other = task
    · subst this
      rw [Function.update_self] at owns
      rcases owns with here | here | here
      · exact .inl ⟨rfl, (Phase.inserted.inj here).symm⟩
      · cases here
      · cases here
    · rw [Function.update_of_ne this] at owns
      exact .inr ⟨this, owns⟩
  have absent : ∀ other, ¬ (phases other).Owns entry.inode := by
    intro other owns
    obtain ⟨old, member, same, _⟩ := sound.owned other _ owns
    exact unused old member same
  refine ⟨?_, ?_, ?_, ?_, ?_⟩
  · rw [List.map_cons, List.nodup_cons]
    refine ⟨?_, sound.nodup⟩
    intro member
    obtain ⟨old, before, same⟩ := List.mem_map.mp member
    exact unused old before same
  · intro other member set
    rcases List.mem_cons.mp member with rfl | before
    · exact absurd blank set
    · exact sound.hashval other before set
  · intro other inode owns
    rcases owners other inode owns with ⟨rfl, rfl⟩ | ⟨this, before⟩
    · refine ⟨entry, List.mem_cons_self, rfl, new, hashval, fun stored => ?_⟩
      rw [Function.update_self] at stored
      cases stored
    · obtain ⟨old, member, same, isNew, number, lower⟩ := sound.owned other inode before
      rw [Function.update_of_ne this]
      exact ⟨old, List.mem_cons_of_mem _ member, same, isNew, number, lower⟩
  · intro first second inode one two
    rcases owners first inode one with ⟨rfl, rfl⟩ | ⟨_, before⟩
    · rcases owners second _ two with ⟨same, _⟩ | ⟨_, before⟩
      · exact same.symm
      · exact absurd before (absent second)
    · rcases owners second inode two with ⟨rfl, rfl⟩ | ⟨_, earlier⟩
      · exact absurd before (absent first)
      · exact sound.owner first second inode before earlier
  · intro other inode grabbed
    by_cases this : other = task
    · subst this
      rw [Function.update_self] at grabbed
      cases grabbed
    · rw [Function.update_of_ne this] at grabbed
      exact sound.alive other inode grabbed

/-- A move of one task keeps who owns which entry. -/
theorem OwnedCache.move (sound : OwnedCache host asked cache phases) (here : phases task = phase)
    (moves : CacheMove host (asked task) task cache phase after reached) :
    OwnedCache host asked after (Function.update phases task reached) := by
  cases moves with
  | finds member same => exact sound.release fun inode owns => by rcases owns with h | h | h <;> cases h
  | inserts missing unused new hashval blank => exact sound.insert unused new hashval blank
  | grabs alive =>
      apply sound.advance (.inl here)
      · intro other owns
        rcases owns with h | h | h <;> cases h
        rfl
      · exact fun stored => by cases stored
      · exact fun _ => alive
  | @stores inode =>
      have owns : (phases task).Owns inode := .inr (.inl here)
      have set : OwnedCache host asked (cache.change inode fun entry => { entry with lowerInode := asked task }) phases := by
        refine sound.change (fun _ => rfl) (fun _ => rfl) ?_ ?_
        · intro entry member same _
          exact (sound.entry owns member same).2.1
        · intro other others entry member same
          obtain rfl := sound.owner task other inode owns others
          exact ⟨rfl, fun _ => rfl⟩
      apply set.advance owns
      · intro other owned
        rcases owned with h | h | h <;> cases h
        rfl
      · intro _ entry member same
        obtain ⟨old, before, rfl⟩ := mem_change.mp member
        by_cases this : old.inode = inode
        · rw [if_pos this]
        · rw [if_neg this] at same
          exact absurd same this
      · exact fun grabbed => by cases grabbed
  | @unlocks inode =>
      have free : ∀ other, ¬ (Phase.held inode).Owns other := by
        intro other owns
        rcases owns with h | h | h <;> cases h
      refine (sound.release free).change (fun _ => rfl) (fun _ => rfl) ?_ ?_
      · exact fun entry member _ set => sound.hashval entry member set
      · intro other owns
        by_cases this : other = task
        · subst this
          rw [Function.update_self] at owns
          exact absurd owns (free inode)
        · rw [Function.update_of_ne this] at owns
          exact absurd (sound.owner other task inode owns (.inr (.inr here))) this
  | sets inode value =>
      rw [← here, Function.update_eq_self]
      refine sound.change (fun _ => rfl) (fun _ => rfl) ?_ ?_
      · exact fun entry member _ set => sound.hashval entry member set
      · exact fun other owns entry member same => ⟨rfl, (sound.entry owns member same).2.2⟩
  | reads =>
      rw [← here, Function.update_eq_self]
      exact sound
  | fails => exact sound.release fun inode owns => by rcases owns with h | h | h <;> cases h

/-- The phases in which another task stays as it was and this one is pending only if it was. -/
theorem pending_update (stays : ∀ inode, reached.Pending inode → ∃ old, (phases task).Pending old) :
    ∀ other inode, (Function.update phases task reached other).Pending inode → ∃ old, (phases other).Pending old := by
  intro other inode pending
  by_cases this : other = task
  · subst this
    rw [Function.update_self] at pending
    exact stays inode pending
  · rw [Function.update_of_ne this] at pending
    exact ⟨inode, pending⟩

/-- A new inode is made while no other task is about to stand for its lower inode. -/
theorem Separate.insert (separate : Separate host asked cache phases) (sound : OwnedCache host asked cache phases)
    {entry : CachedInode} (missing : cache.find host (asked task) = none) (blank : entry.lowerInode = .null)
    (present : ∀ task, asked task ≠ .null)
    (quiet : host.grabs task = true → ∀ other inode, (phases other).Pending inode → host.grabs other = true →
      asked other ≠ asked task) :
    Separate host asked (entry :: cache) (Function.update phases task (.inserted entry.inode)) := by
  have absent : ∀ old ∈ cache, old.lowerInode ≠ asked task := by
    intro old member same
    have number := sound.hashval old member (same ▸ present task)
    have failed := List.find?_eq_none.mp missing old member
    simp only [trfsInodeTest, decide_eq_true_eq] at failed
    rw [same] at number
    exact failed ⟨congrArg host.hash number, same⟩
  refine ⟨?_, ?_, ?_⟩
  · intro first one second two same set
    rcases List.mem_cons.mp one with rfl | one
    · exact absurd blank set
    · rcases List.mem_cons.mp two with rfl | two
      · exact absurd (same.trans blank) set
      · exact separate.unique first one second two same set
  · intro other inode pending alive old member
    rcases List.mem_cons.mp member with rfl | member
    · rw [blank]
      exact (present other).symm
    · by_cases this : other = task
      · subst this
        exact absent old member
      · rw [Function.update_of_ne this] at pending
        exact separate.alone other inode pending alive old member
  · intro first second one two pending waiting alive living same
    by_cases here : first = task
    · subst here
      by_cases there : second = first
      · exact there.symm
      · rw [Function.update_of_ne there] at waiting
        exact absurd same.symm (quiet alive second two waiting living)
    · rw [Function.update_of_ne here] at pending
      by_cases there : second = task
      · subst there
        exact absurd same (quiet living first one pending alive)
      · rw [Function.update_of_ne there] at waiting
        exact separate.apart first second one two pending waiting alive living same

/-- A pending task stands for its lower inode from now on. -/
theorem Separate.store (separate : Separate host asked cache phases) {inode : Inode} (here : phases task = .grabbed inode)
    (alive : host.grabs task = true) :
    Separate host asked (cache.change inode fun entry => { entry with lowerInode := asked task })
      (Function.update phases task (.stored inode)) := by
  have pending : (phases task).Pending inode := .inr here
  have cases_of : ∀ entry ∈ cache.change inode fun entry => { entry with lowerInode := asked task },
      (entry.inode = inode ∧ entry.lowerInode = asked task) ∨ entry ∈ cache := by
    intro entry member
    obtain ⟨old, before, rfl⟩ := mem_change.mp member
    by_cases this : old.inode = inode
    · rw [if_pos this]
      exact .inl ⟨this, rfl⟩
    · rw [if_neg this]
      exact .inr before
  have others : ∀ other owned, (Function.update phases task (.stored inode) other).Pending owned →
      other ≠ task ∧ (phases other).Pending owned := by
    intro other owned waiting
    by_cases this : other = task
    · subst this
      rw [Function.update_self] at waiting
      rcases waiting with h | h <;> cases h
    · rw [Function.update_of_ne this] at waiting
      exact ⟨this, waiting⟩
  refine ⟨?_, ?_, ?_⟩
  · intro first one second two same set
    rcases cases_of first one with ⟨firstInode, firstLower⟩ | one
    · rcases cases_of second two with ⟨secondInode, _⟩ | two
      · rw [firstInode, secondInode]
      · exact absurd (same.symm.trans firstLower) (separate.alone task inode pending alive second two)
    · rcases cases_of second two with ⟨_, secondLower⟩ | two
      · exact absurd (same.trans secondLower) (separate.alone task inode pending alive first one)
      · exact separate.unique first one second two same set
  · intro other owned waiting living entry member
    obtain ⟨apart, before⟩ := others other owned waiting
    rcases cases_of entry member with ⟨_, lower⟩ | old
    · rw [lower]
      exact fun same => apart (separate.apart other task owned inode before pending living alive same.symm)
    · exact separate.alone other owned before living entry old
  · intro first second one two waiting second_waiting living second_living same
    exact separate.apart first second one two (others first one waiting).2 (others second two second_waiting).2
      living second_living same

/-- The step of a task keeps the others apart, unless it makes an inode that another task is about to make as well. -/
theorem Separate.move (separate : Separate host asked cache phases) (sound : OwnedCache host asked cache phases)
    (here : phases task = phase) (moves : CacheMove host (asked task) task cache phase after reached)
    (present : ∀ task, asked task ≠ .null)
    (quiet : phase = .looking → host.grabs task = true → ∀ other inode, (phases other).Pending inode →
      host.grabs other = true → asked other ≠ asked task) :
    Separate host asked after (Function.update phases task reached) := by
  have itself : ∀ entry ∈ cache, ∃ old ∈ cache, entry.inode = old.inode ∧ entry.lowerInode = old.lowerInode :=
    fun entry member => ⟨entry, member, rfl, rfl⟩
  cases moves with
  | finds member same =>
      exact separate.restrict itself (pending_update fun inode pending => by rcases pending with h | h <;> cases h)
  | inserts missing unused new hashval blank => exact separate.insert sound missing blank present (quiet rfl)
  | grabs alive => exact separate.restrict itself (pending_update fun _ _ => ⟨_, .inl here⟩)
  | stores => exact separate.store here (sound.alive task _ here)
  | unlocks =>
      refine separate.restrict (change_same (fun _ => rfl) fun _ => rfl) ?_
      exact pending_update fun inode pending => by rcases pending with h | h <;> cases h
  | sets inode value =>
      refine separate.restrict (change_same (fun _ => rfl) fun _ => rfl) ?_
      exact pending_update fun inode pending => by rcases pending with h | h <;> cases h
  | reads => exact separate.restrict itself (pending_update fun inode pending => ⟨inode, here ▸ pending⟩)
  | fails =>
      exact separate.restrict itself (pending_update fun inode pending => by rcases pending with h | h <;> cases h)

omit [DecidableEq ι] in
/-- An inode that leaves the cache belongs to no task. -/
theorem OwnedCache.evict (sound : OwnedCache host asked cache phases) {inode : Inode} (evicted : cache.evict inode = some after) :
    OwnedCache host asked after phases := by
  unfold InodeCache.evict at evicted
  split at evicted
  · rename_i found
    obtain ⟨gone, among, rfl, old⟩ := found
    obtain rfl := Option.some.inj evicted
    refine ⟨(List.filter_sublist.map _).nodup sound.nodup, ?_, ?_, sound.owner, sound.alive⟩
    · intro entry member set
      exact sound.hashval entry (List.mem_of_mem_filter member) set
    · intro task other owns
      obtain ⟨entry, member, same, new, rest⟩ := sound.owned task other owns
      refine ⟨entry, List.mem_filter.mpr ⟨member, ?_⟩, same, new, rest⟩
      apply decide_eq_true
      intro here
      obtain rfl := sound.entry_eq member among here
      exact Bool.noConfusion (new.symm.trans old)
  · cases evicted

omit [DecidableEq ι] in
/-- Dropping an entry keeps the tasks separate. -/
theorem Separate.evict (separate : Separate host asked cache phases) {inode : Inode}
    (evicted : cache.evict inode = some after) : Separate host asked after phases := by
  unfold InodeCache.evict at evicted
  split at evicted
  · obtain rfl := Option.some.inj evicted
    apply separate.restrict
    · exact fun entry member => ⟨entry, List.mem_of_mem_filter member, rfl, rfl⟩
    · exact fun _ inode pending => ⟨inode, pending⟩
  · cases evicted

/-- How far a task has come. -/
def CacheWorld.stage (asked : ι → LowerInode) (world : CacheWorld ι) (task : ι) : Phase :=
  world.progress (fun task => getting (asked task)) (fun _ => .looking) task

/-- Every task keeps to the calls of `trfs_iget`, and the inodes of the cache are those that they made. -/
structure CacheWorld.Sound (host : CacheHost ι) (asked : ι → LowerInode) (world : CacheWorld ι) : Prop where
  follows : world.Follows (fun task => getting (asked task))
    (fun _ result phase => ∀ inode, result = .ok inode → phase = .held inode) fun _ => .looking
  cache : OwnedCache host asked world.shared (world.stage asked)

/-- The empty cache is sound. -/
theorem CacheWorld.Sound.begin (host : CacheHost ι) (asked : ι → LowerInode) :
    (CacheWorld.begin asked).Sound host asked where
  follows task := trfsIget_getting (asked task)
  cache := by
    refine ⟨List.nodup_nil, nofun, ?_, ?_, ?_⟩
    · intro task inode owns
      rcases owns with h | h | h <;> cases h
    · intro first second inode owns
      rcases owns with h | h | h <;> cases h
    · intro task inode grabbed
      cases grabbed

/-- What a step of one task does to the cache and to the phases. -/
theorem CacheWorld.Sound.step {world next : CacheWorld ι} (sound : world.Sound host asked)
    (stepped : Config.step (handleCache host) task world = some next) :
    (∃ reached, CacheMove host (asked task) task world.shared (world.stage asked task) next.shared reached ∧
      next.stage asked = Function.update (world.stage asked) task reached) ∧ next.Sound host asked := by
  obtain ⟨follows, c, reply, advance⟩ := sound.follows.step stepped
  have moves := handleCache_moves advance.permitted advance.answered
  have phases : next.stage asked = Function.update (world.stage asked) task ((world.stage asked task).next c reply) := by
    funext other
    by_cases this : other = task
    · subst this
      rw [Function.update_self]
      exact advance.here
    · rw [Function.update_of_ne this]
      exact advance.others other this
  refine ⟨⟨_, moves, phases⟩, follows, ?_⟩
  rw [phases]
  exact sound.cache.move rfl moves

/-- An action keeps the cache sound. -/
theorem CacheWorld.Sound.act {world next : CacheWorld ι} (sound : world.Sound host asked) {action : CacheAction ι}
    (acted : world.act host action = some next) : next.Sound host asked := by
  cases action with
  | task task => exact (sound.step acted).2
  | evict inode =>
      obtain ⟨cache, evicted, rfl⟩ := Option.map_eq_some_iff.mp acted
      exact ⟨sound.follows, sound.cache.evict evicted⟩

/-- No task makes an inode while another one that will go on is about to stand for the same lower inode. -/
def NoOverlap (host : CacheHost ι) (asked : ι → LowerInode) (world : CacheWorld ι) : CacheAction ι → Prop
  | .task task => world.stage asked task = .looking → host.grabs task = true →
      ∀ other inode, (world.stage asked other).Pending inode → host.grabs other = true → asked other ≠ asked task
  | .evict _ => True

/-- An action that overlaps no other lookup of its lower inode keeps the tasks separate. -/
theorem CacheWorld.Sound.separate {world next : CacheWorld ι} (sound : world.Sound host asked) {action : CacheAction ι}
    (separate : Separate host asked world.shared (world.stage asked)) (present : ∀ task, asked task ≠ .null)
    (allowed : NoOverlap host asked world action) (acted : world.act host action = some next) :
    Separate host asked next.shared (next.stage asked) := by
  cases action with
  | task task =>
      obtain ⟨⟨last, moves, phases⟩, _⟩ := sound.step acted
      rw [phases]
      exact separate.move sound.cache rfl moves present allowed
  | evict inode =>
      obtain ⟨cache, evicted, rfl⟩ := Option.map_eq_some_iff.mp acted
      exact separate.evict evicted

/-- A lower inode has one inode of the mount if no two tasks make one for it at the same time. The inode that a task
returns stands for the one that it asked for in any case. -/
theorem trfsIget_unique (present : ∀ task, asked task ≠ .null) {actions : List (CacheAction ι)} {world : CacheWorld ι}
    (ran : runActions (CacheWorld.act host) actions (.begin asked) = some world) :
    (ObeyActions (CacheWorld.act host) (NoOverlap host asked) actions (.begin asked) → world.shared.Unique) ∧
    ∀ task next inode, world.act host (.task task) = some next → next.threads task = .pure (.ok inode) →
      ∃ entry ∈ next.shared, entry.inode = inode ∧ entry.lowerInode = asked task := by
  constructor
  · intro obeys
    have keeps : ∀ world action next, world.Sound host asked ∧ Separate host asked world.shared (world.stage asked) →
        NoOverlap host asked world action → CacheWorld.act host action world = some next →
        next.Sound host asked ∧ Separate host asked next.shared (next.stage asked) :=
      fun world action next before allowed acted =>
        ⟨before.1.act acted, before.1.separate before.2 present allowed acted⟩
    have start : Separate host asked (CacheWorld.begin asked).shared ((CacheWorld.begin asked).stage asked) := by
      refine ⟨nofun, nofun, ?_⟩
      intro first second one two pending
      rcases pending with h | h <;> cases h
    exact (runActions_keeps keeps ⟨.begin host asked, start⟩ obeys ran).2.unique
  · intro task next inode acted ended
    have sound : world.Sound host asked :=
      runActions_invariant (fun world action next before acted => before.act acted) (.begin host asked) ran
    obtain ⟨⟨_, moves, phases⟩, later⟩ := sound.step acted
    have held := later.follows task
    rw [ended] at held
    have last : next.stage asked task = .held inode := held inode rfl
    rw [phases, Function.update_self] at last
    exact moves.returns sound.cache rfl last

end

/-- Two tasks that get the inodes 1 and 2 from the allocator. -/
def twoTasks : CacheHost Bool where
  ino lowerInode := lowerInode.address
  hash number := number % 4
  allocated task := some (if task then ⟨2⟩ else ⟨1⟩, ⟨0, 0, 0, 0, 0, 0, 0, 0, 0, 0, 0, 0, 0⟩)
  grabs _ := true
  attributes _ _ := ⟨0, 0, 0, 0, 0, 0, 0, 0, 0, 0, 0, 0, 0⟩

/-- Both tasks make their inodes first. Then each of them runs to its end. -/
def overlapping : List (CacheAction Bool) :=
  .task false :: .task true :: List.replicate 11 (.task false) ++ List.replicate 11 (.task true)

/-- Two tasks with different lower inodes may overlap. -/
theorem trfsIget_unique_distinct : ∃ world,
    runActions (CacheWorld.act twoTasks) overlapping (.begin fun task => if task then ⟨6⟩ else ⟨5⟩) = some world ∧
    world.shared.Unique ∧ ∀ task next inode, world.act twoTasks (.task task) = some next →
      next.threads task = .pure (.ok inode) →
      ∃ entry ∈ next.shared, entry.inode = inode ∧ entry.lowerInode = if task then ⟨6⟩ else ⟨5⟩ := by
  have runs : (runActions (CacheWorld.act twoTasks) overlapping
      (.begin fun task => if task then ⟨6⟩ else ⟨5⟩)).map (fun world => world.shared.length) = some 2 := by
    decide +kernel
  obtain ⟨world, ran, _⟩ := Option.map_eq_some_iff.mp runs
  obtain ⟨unique, returned⟩ := trfsIget_unique (by decide) ran
  refine ⟨world, ran, unique (obeyActions_of_forall ?_ _ _), returned⟩
  intro world action
  cases action with
  | evict inode => trivial
  | task task =>
      intro looking _ other inode pending _ same
      obtain rfl : other = task := by
        revert same
        cases other <;> cases task <;> decide
      rcases pending with h | h <;> cases looking.symm.trans h

/-- Two tasks that ask for the lower inode 5 at the same time get two inodes for it. -/
theorem overlap_not_unique : ∃ world,
    runActions (CacheWorld.act twoTasks) overlapping (.begin fun _ => ⟨5⟩) = some world ∧
    world.shared.map (fun entry => (entry.inode, entry.isNew, entry.lowerInode)) =
      [(⟨2⟩, false, ⟨5⟩), (⟨1⟩, false, ⟨5⟩)] ∧
    ¬ world.shared.Unique := by
  have runs : (runActions (CacheWorld.act twoTasks) overlapping (.begin fun _ => ⟨5⟩)).map (fun world =>
      world.shared) = some
        [⟨⟨2⟩, 5, false, ⟨5⟩, ⟨0, 0, 0, 0, 0, 0, 0, 0, 0, 0, 0, 0, 0⟩⟩,
          ⟨⟨1⟩, 5, false, ⟨5⟩, ⟨0, 0, 0, 0, 0, 0, 0, 0, 0, 0, 0, 0, 0⟩⟩] := by
    decide +kernel
  obtain ⟨world, ran, cached⟩ := Option.map_eq_some_iff.mp runs
  refine ⟨world, ran, ?_, ?_⟩
  · rw [cached]
    rfl
  · rw [cached]
    intro unique
    exact absurd (unique _ List.mem_cons_self _ (List.mem_cons_of_mem _ List.mem_cons_self) rfl (by decide)) (by decide)

end Trfs.Kernel
