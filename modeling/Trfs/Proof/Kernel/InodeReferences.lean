import Trfs.Construction.Kernel.InodeReferences
import Trfs.Proof.Kernel.InodeCache

namespace Trfs.Kernel
open Effect

section
variable {ι : Type} {host : CacheHost ι} {task : ι} {lowerInode : LowerInode} {before after : Referenced}

/-- A change of the newest inode touches the head alone. -/
theorem change_head {entry : CachedInode} {rest : InodeCache} {inode : Inode} (update : CachedInode → CachedInode)
    (same : entry.inode = inode) (unused : ∀ old ∈ rest, old.inode ≠ inode) :
    InodeCache.change (entry :: rest) inode update = update entry :: rest := by
  have others : rest.map (fun old => if old.inode = inode then update old else old) = rest := by
    conv_rhs => rw [← List.map_id rest]
    apply List.map_congr_left
    intro old member
    exact if_neg (unused old member)
  simp [InodeCache.change, others, same]

/-- The initialization makes the first inode of the cache ready. -/
theorem initInode_exec (entry : CachedInode) (rest : InodeCache) (references : LowerInode → Int)
    (unused : ∀ old ∈ rest, old.inode ≠ entry.inode) : ∃ events attributes,
    (initInode entry.inode lowerInode).exec (handleReferences host task) ⟨entry :: rest, references⟩ =
      some ⟨(), ⟨{ entry with isNew := false, lowerInode := lowerInode, attributes := attributes } :: rest,
        references⟩, events⟩ := by
  have head : ∀ (current : CachedInode) (update : CachedInode → CachedInode), current.inode = entry.inode →
      InodeCache.change (current :: rest) entry.inode update = update current :: rest :=
    fun current update same => change_head update same unused
  simp only [initInode, changeAttributes, fsstackCopyAttrAll, fsstackCopyInodeSize, fsstackCopy, upper, lower,
    perform, Program.call_bind, Program.pure_bind, Program.exec, handleReferences, handleCache, head, List.find?_cons,
    decide_true, Option.map_some]
  exact ⟨_, _, rfl⟩

/-- Everything that one call of `trfs_iget` returns and does. -/
inductive IgetMove (host : CacheHost ι) (task : ι) (lowerInode : LowerInode) (before : Referenced) :
    Except (BitVec 32) Inode → Referenced → Prop where
  | found {entry : CachedInode} (found : before.cache.find host lowerInode = some entry) :
      IgetMove host task lowerInode before (.ok entry.inode) before
  | exhausted (missing : before.cache.find host lowerInode = none) (exhausted : host.allocated task = none) :
      IgetMove host task lowerInode before (.error EACCES) (before.iput lowerInode)
  | refused {entry : CachedInode} (missing : before.cache.find host lowerInode = none)
      (unused : ∀ old ∈ before.cache, old.inode ≠ entry.inode) (new : entry.isNew = true)
      (blank : entry.lowerInode = .null) (refused : host.grabs task = false) :
      IgetMove host task lowerInode before (.error ESTALE) { before with cache := entry :: before.cache }
  | made (entry : CachedInode) (allocated : host.allocated task ≠ none) (grabbed : host.grabs task = true)
      (unused : ∀ old ∈ before.cache, old.inode ≠ entry.inode) (ready : entry.isNew = false)
      (stands : entry.lowerInode = lowerInode) :
      IgetMove host task lowerInode before (.ok entry.inode)
        { before.igrab lowerInode with cache := entry :: before.cache }

/-- A run of `trfs_iget` to its end is a move of the references. -/
theorem iget_moves {done : Execution Call.Reply Referenced (Except (BitVec 32) Inode)}
    (ran : before.iget host task lowerInode = some done) :
    lowerInode ≠ .null ∧ IgetMove host task lowerInode before done.value done.state := by
  unfold Referenced.iget at ran
  split at ran
  · cases ran
  · rename_i present
    refine ⟨present, ?_⟩
    obtain ⟨reply, between, rest, answered, continued, value, state, _⟩ := Program.exec_call_eq_some ran
    rw [value, state]
    obtain ⟨answer, looked, same⟩ := Option.map_eq_some_iff.mp answered
    obtain ⟨rfl, rfl⟩ := Prod.mk.inj same
    simp only [handleCache, iget5Locked] at looked
    split at looked
    · rename_i entry found
      split at looked
      · cases looked
      · obtain rfl := Option.some.inj looked
        obtain rfl := Option.some.inj continued
        exact .found found
    · rename_i missing
      split at looked
      · rename_i exhausted
        obtain rfl := Option.some.inj looked
        obtain rfl := Option.some.inj continued
        exact .exhausted missing exhausted
      · rename_i inode attributes allocated
        split at looked
        · cases looked
        · rename_i unused
          have others : ∀ old ∈ before.cache, old.inode ≠ inode := fun old member same => unused ⟨old, member, same⟩
          obtain rfl := Option.some.inj looked
          obtain ⟨grabbed, held, last, grabs, goes, returned, left, _⟩ := Program.exec_call_eq_some continued
          obtain ⟨rfl, rfl⟩ := Prod.mk.inj (Option.some.inj grabs)
          rw [returned, left]
          cases grabbed : host.grabs task with
          | false =>
              rw [grabbed] at goes
              obtain rfl := Option.some.inj goes
              exact .refused missing others rfl rfl grabbed
          | true =>
              rw [grabbed] at goes
              let entry : CachedInode := ⟨inode, host.ino lowerInode, true, .null, attributes⟩
              change (initInode entry.inode lowerInode >>= fun _ => pure (Except.ok inode)).exec
                (handleReferences host task) ⟨entry :: before.cache, (before.igrab lowerInode).references⟩ = _ at goes
              obtain ⟨first, second, initialized, ended, result, reached, _⟩ := Program.exec_bind_eq_some goes
              obtain ⟨events, members, ready⟩ := initInode_exec entry before.cache _ others
              obtain rfl := Option.some.inj (initialized.symm.trans ready)
              obtain rfl := Option.some.inj ended
              rw [result, reached]
              exact .made { entry with isNew := false, lowerInode := lowerInode, attributes := members }
                (by rw [allocated]; exact Option.some_ne_none _) grabbed others rfl rfl

/-- The upper inodes in the cache that stand for a lower inode. -/
def InodeCache.live (cache : InodeCache) (lowerInode : LowerInode) : Nat :=
  cache.countP fun entry => entry.lowerInode = lowerInode

/-- One more entry counts for its lower inode. -/
theorem live_cons (entry : CachedInode) (cache : InodeCache) (lowerInode : LowerInode) :
    InodeCache.live (entry :: cache) lowerInode =
      cache.live lowerInode + if entry.lowerInode = lowerInode then 1 else 0 := by
  simp [InodeCache.live, List.countP_cons]

/-- Without the entry of one inode there is one live inode less for its lower inode. -/
theorem live_filter {cache : InodeCache} {entry : CachedInode} (distinct : (cache.map CachedInode.inode).Nodup)
    (member : entry ∈ cache) (other : LowerInode) :
    cache.live other = InodeCache.live (cache.filter fun old => old.inode ≠ entry.inode) other +
      if entry.lowerInode = other then 1 else 0 := by
  obtain ⟨front, rest, rfl⟩ := List.append_of_mem member
  have apart : ∀ old ∈ front ++ rest, old.inode ≠ entry.inode := by
    intro old among same
    rw [List.map_append, List.map_cons] at distinct
    have alone := (List.nodup_middle.mp distinct).notMem
    rw [← List.map_append] at alone
    exact alone (List.mem_map.mpr ⟨old, among, same⟩)
  have others : (front ++ entry :: rest).filter (fun old => old.inode ≠ entry.inode) = front ++ rest := by
    have kept := List.filter_eq_self.mpr fun old among => decide_eq_true (apart old among)
    rw [← kept]
    simp [List.filter_append]
  rw [others]
  simp only [InodeCache.live, List.countP_append, List.countP_cons, decide_eq_true_eq]
  omega

/-- The references on a lower inode beyond one for each live inode. -/
def Referenced.surplus (state : Referenced) (lowerInode : LowerInode) : Int :=
  state.references lowerInode - state.cache.live lowerInode

/-- An update that keeps the inodes does not change which entries are of other inodes. -/
theorem change_filter (cache : InodeCache) (inode : Inode) (update : CachedInode → CachedInode)
    (keeps : ∀ entry, (update entry).inode = entry.inode) :
    (cache.change inode update).filter (fun old => old.inode ≠ inode) =
      cache.filter fun old => old.inode ≠ inode := by
  induction cache with
  | nil => rfl
  | cons entry rest ih =>
      change List.filter _ ((if entry.inode = inode then update entry else entry) ::
        InodeCache.change rest inode update) = _
      by_cases here : entry.inode = inode
      · simp only [here, if_true, List.filter_cons, keeps, ne_eq, not_true_eq_false, decide_false,
          Bool.false_eq_true, if_false] at ih ⊢
        exact ih
      · simp only [here, if_false, List.filter_cons, ne_eq, not_false_eq_true, decide_true, if_true] at ih ⊢
        rw [ih]

/-- A put does not depend on the cache. -/
theorem iput_with (state : Referenced) (cache : InodeCache) (other : LowerInode) :
    Referenced.iput { state with cache := cache } other = { state.iput other with cache := cache } := by
  unfold Referenced.iput
  split <;> rfl

/-- The evicted inode was ready, and it leaves the cache together with its reference. -/
theorem evict_moves {inode : Inode} (distinct : (before.cache.map CachedInode.inode).Nodup)
    (ran : before.evict host task inode = some after) : ∃ entry ∈ before.cache, entry.inode = inode ∧
      entry.isNew = false ∧ after =
        { before.iput entry.lowerInode with cache := before.cache.filter fun old => old.inode ≠ inode } := by
  obtain ⟨done, executed, removed⟩ := Option.bind_eq_some_iff.mp ran
  obtain ⟨lowerInode, between, rest, looked, continued, _, ended, _⟩ := Program.exec_call_eq_some executed
  obtain ⟨entry, found, same⟩ := Option.map_eq_some_iff.mp looked
  obtain ⟨rfl, rfl⟩ := Prod.mk.inj same
  have reached : done.state = Referenced.iput
      { before with cache := before.cache.change inode fun old => { old with lowerInode := .null } }
      entry.lowerInode := by
    rw [ended]
    exact congrArg Execution.state (Option.some.inj continued).symm
  have here : entry.inode = inode := by simpa using List.find?_some found
  have member := List.mem_of_find?_eq_some found
  rw [reached, iput_with] at removed
  obtain ⟨cache, evicted, rfl⟩ := Option.map_eq_some_iff.mp removed
  unfold InodeCache.evict at evicted
  split at evicted
  · rename_i present
    obtain rfl := Option.some.inj evicted
    refine ⟨entry, member, here, ?_, ?_⟩
    · obtain ⟨changed, among, inodes, ready⟩ := present
      obtain ⟨old, present, rfl⟩ := mem_change.mp among
      have named : old.inode = inode := by
        by_cases own : old.inode = inode
        · exact own
        · rwa [if_neg own] at inodes
      obtain rfl := List.inj_on_of_nodup_map distinct present member (named.trans here.symm)
      rwa [if_pos here] at ready
    · have filtered := change_filter before.cache inode (fun old => { old with lowerInode := .null }) fun _ => rfl
      exact congrArg (fun cache => Referenced.mk cache (before.iput entry.lowerInode).references) filtered
  · cases evicted

/-- A put takes one reference of its inode. -/
@[simp] theorem iput_references (present : lowerInode ≠ .null) (state : Referenced) (other : LowerInode) :
    (state.iput lowerInode).references other = state.references other - if lowerInode = other then 1 else 0 := by
  rw [Referenced.iput, if_neg present]
  by_cases same : lowerInode = other
  · subst same
    simp
  · simp [Ne.symm same, same]

/-- A grab adds one reference of its inode. -/
@[simp] theorem igrab_references (state : Referenced) (other : LowerInode) :
    (state.igrab lowerInode).references other = state.references other + if lowerInode = other then 1 else 0 := by
  by_cases same : lowerInode = other
  · subst same
    simp [Referenced.igrab]
  · simp [Referenced.igrab, Ne.symm same, same]

/-- `iget5_locked` finds an inode, or there is memory for a new one and `igrab` succeeds. -/
def Served (host : CacheHost ι) (cache : InodeCache) : InodeCall ι → Prop
  | .iget task lowerInode =>
      cache.find host lowerInode ≠ none ∨ (host.allocated task ≠ none ∧ host.grabs task = true)
  | .evict .. => True

/-- The call returns an inode that was not in the cache before and now stands for the lower inode. -/
def Makes (before : Referenced) (lowerInode : LowerInode)
    (done : Execution Call.Reply Referenced (Except (BitVec 32) Inode)) : Prop :=
  ∃ inode, done.value = .ok inode ∧ (∀ entry ∈ before.cache, entry.inode ≠ inode) ∧
    ∃ entry ∈ done.state.cache, entry.inode = inode ∧ entry.isNew = false ∧ entry.lowerInode = lowerInode

/-- The call takes a reference exactly when it makes an inode, and an error leaves no locked inode behind. -/
structure KeepsReferences (before : Referenced) (lowerInode : LowerInode)
    (done : Execution Call.Reply Referenced (Except (BitVec 32) Inode)) : Prop where
  raised : Makes before lowerInode done → ∀ other,
    done.state.references other = before.references other + if lowerInode = other then 1 else 0
  kept : ¬ Makes before lowerInode done → ∀ other, done.state.references other = before.references other
  unlocked : ∀ err, done.value = .error err → ∀ entry ∈ done.state.cache, entry.isNew = true → entry ∈ before.cache

/-- One call keeps the references exact exactly when it is served. -/
theorem iget_keepsReferences_iff {done : Execution Call.Reply Referenced (Except (BitVec 32) Inode)}
    (ran : before.iget host task lowerInode = some done) :
    KeepsReferences before lowerInode done ↔ Served host before.cache (.iget task lowerInode) := by
  obtain ⟨present, moves⟩ := iget_moves ran
  obtain ⟨value, state, events⟩ := done
  simp only at moves
  cases moves with
  | found found =>
      have member := List.mem_of_find?_eq_some found
      refine iff_of_true ⟨?_, fun _ _ => rfl, ?_⟩ (.inl (by rw [found]; exact Option.some_ne_none _))
      · intro ⟨inode, same, fresh, _⟩
        exact absurd (Except.ok.inj same) (fresh _ member)
      · intro err failed
        cases failed
  | exhausted missing exhausted =>
      refine iff_of_false ?_ ?_
      · intro keeps
        have failed : ¬ Makes before lowerInode ⟨.error EACCES, before.iput lowerInode, events⟩ := by
          intro ⟨inode, same, _⟩
          cases same
        have kept := keeps.kept failed lowerInode
        simp only [iput_references present, if_true] at kept
        omega
      · intro served
        rcases served with found | ⟨allocated, _⟩
        · exact found missing
        · exact allocated exhausted
  | refused missing unused new blank refused =>
      refine iff_of_false ?_ ?_
      · intro keeps
        have stays := keeps.unlocked _ rfl _ List.mem_cons_self new
        exact unused _ stays rfl
      · intro served
        rcases served with found | ⟨_, grabbed⟩
        · exact found missing
        · rw [refused] at grabbed
          cases grabbed
  | made entry allocated grabbed unused ready stands =>
      refine iff_of_true ⟨?_, ?_, ?_⟩ (.inr ⟨allocated, grabbed⟩)
      · intro _ other
        exact igrab_references before other
      · intro failed
        exact absurd ⟨entry.inode, rfl, unused, entry, List.mem_cons_self, rfl, ready, stands⟩ failed
      · intro err failed
        cases failed

/-- The mount holds one reference for each live inode, and no inode is locked. -/
structure Referenced.Balanced (state : Referenced) : Prop where
  distinct : (state.cache.map CachedInode.inode).Nodup
  references : ∀ lowerInode, lowerInode ≠ .null → state.references lowerInode = state.cache.live lowerInode
  unlocked : ∀ entry ∈ state.cache, entry.isNew = false

/-- A reference is missing, or a locked inode is in the cache. -/
structure Harmed (state : Referenced) : Prop where
  distinct : (state.cache.map CachedInode.inode).Nodup
  harm : (∃ lowerInode, lowerInode ≠ .null ∧ state.surplus lowerInode < 0) ∨ ∃ entry ∈ state.cache, entry.isNew = true

/-- A harmed state is not balanced. -/
theorem Harmed.not_balanced (harmed : Harmed before) : ¬ Referenced.Balanced before := by
  intro balanced
  rcases harmed.harm with ⟨missing, present, negative⟩ | ⟨entry, member, locked⟩
  · rw [Referenced.surplus, balanced.references missing present] at negative
    omega
  · rw [balanced.unlocked entry member] at locked
    cases locked

/-- What a call does to the inodes of the cache, to its locked inodes and to the surplus of each lower inode. -/
structure Accounts (host : CacheHost ι) (call : InodeCall ι) (before after : Referenced) : Prop where
  distinct : (after.cache.map CachedInode.inode).Nodup
  locked : ∀ entry ∈ before.cache, entry.isNew = true → entry ∈ after.cache
  surplus : ∀ other, other ≠ .null → after.surplus other ≤ before.surplus other
  served : Served host before.cache call → (∀ other, other ≠ .null → after.surplus other = before.surplus other) ∧
    ∀ entry ∈ after.cache, entry.isNew = true → entry ∈ before.cache
  unserved : ¬ Served host before.cache call →
    (∃ other, other ≠ .null ∧ after.surplus other < before.surplus other) ∨ ∃ entry ∈ after.cache, entry.isNew = true

variable {call : InodeCall ι}

/-- A put lowers the surplus of its inode by one. -/
theorem surplus_iput (present : lowerInode ≠ .null) (state : Referenced) (other : LowerInode) :
    (state.iput lowerInode).surplus other = state.surplus other - if lowerInode = other then 1 else 0 := by
  have cache : (state.iput lowerInode).cache = state.cache := by rw [Referenced.iput, if_neg present]
  rw [Referenced.surplus, Referenced.surplus, iput_references present, cache]
  omega

/-- A new inode takes one reference out of the surplus of its lower inode. -/
theorem surplus_cons (state : Referenced) (entry : CachedInode) (other : LowerInode) :
    Referenced.surplus { state with cache := entry :: state.cache } other =
      state.surplus other - if entry.lowerInode = other then 1 else 0 := by
  rw [Referenced.surplus, Referenced.surplus, live_cons]
  split <;> simp only [Nat.cast_add, Nat.cast_one, Nat.cast_zero] <;> omega

/-- A grab raises the surplus of its inode by one. -/
theorem surplus_igrab (state : Referenced) (other : LowerInode) :
    (state.igrab lowerInode).surplus other = state.surplus other + if lowerInode = other then 1 else 0 := by
  rw [Referenced.surplus, Referenced.surplus, igrab_references]
  change _ - (state.cache.live other : Int) = _
  omega

/-- A new inode keeps the inodes distinct. -/
theorem nodup_cons {cache : InodeCache} {entry : CachedInode} (distinct : (cache.map CachedInode.inode).Nodup)
    (unused : ∀ old ∈ cache, old.inode ≠ entry.inode) : ((entry :: cache).map CachedInode.inode).Nodup := by
  rw [List.map_cons, List.nodup_cons]
  refine ⟨?_, distinct⟩
  intro among
  obtain ⟨old, member, same⟩ := List.mem_map.mp among
  exact unused old member same

/-- An evicted inode leaves the surplus as it is. -/
theorem surplus_evict {entry : CachedInode} (distinct : (before.cache.map CachedInode.inode).Nodup)
    (member : entry ∈ before.cache) {other : LowerInode} (present : other ≠ .null) :
    Referenced.surplus { before.iput entry.lowerInode with
      cache := before.cache.filter fun old => old.inode ≠ entry.inode } other = before.surplus other := by
  have live := live_filter distinct member other
  have references : (before.iput entry.lowerInode).references other =
      before.references other - if entry.lowerInode = other then 1 else 0 := by
    by_cases blank : entry.lowerInode = .null
    · rw [Referenced.iput, if_pos blank, if_neg (by rw [blank]; exact present.symm)]
      omega
    · exact iput_references blank before other
  rw [Referenced.surplus, Referenced.surplus, live]
  change (before.iput entry.lowerInode).references other - _ = _
  rw [references]
  split <;> simp only [Nat.cast_add, Nat.cast_one, Nat.cast_zero] <;> omega

/-- A run of `trfs_iget` changes the surplus as the account says. -/
theorem iget_accounts {done : Execution Call.Reply Referenced (Except (BitVec 32) Inode)}
    (distinct : (before.cache.map CachedInode.inode).Nodup)
    (ran : before.iget host task lowerInode = some done) :
    Accounts host (.iget task lowerInode) before done.state := by
  obtain ⟨present, moves⟩ := iget_moves ran
  obtain ⟨value, state, events⟩ := done
  simp only at moves ⊢
  cases moves with
  | found found =>
      refine ⟨distinct, fun _ member _ => member, fun _ _ => le_rfl, ?_, ?_⟩
      · intro _
        exact ⟨fun _ _ => rfl, fun _ member _ => member⟩
      · intro unserved
        exact absurd (.inl (by rw [found]; exact Option.some_ne_none _)) unserved
  | exhausted missing exhausted =>
      have cache : (before.iput lowerInode).cache = before.cache := by rw [Referenced.iput, if_neg present]
      have surplus := surplus_iput present before
      refine ⟨by rw [cache]; exact distinct, ?_, ?_, ?_, ?_⟩
      · intro entry member _
        rw [cache]
        exact member
      · intro other _
        rw [surplus]
        split <;> omega
      · intro served
        rcases served with found | ⟨allocated, _⟩
        · exact absurd missing found
        · exact absurd exhausted allocated
      · intro _
        left
        refine ⟨lowerInode, present, ?_⟩
        rw [surplus, if_pos rfl]
        omega
  | @refused entry missing unused new blank refused =>
      have surplus : ∀ other, other ≠ .null →
          Referenced.surplus { before with cache := entry :: before.cache } other = before.surplus other := by
        intro other set
        rw [surplus_cons, if_neg (by rw [blank]; exact set.symm)]
        omega
      refine ⟨nodup_cons distinct unused, ?_, fun other set => (surplus other set).le, ?_, ?_⟩
      · intro old member _
        exact List.mem_cons_of_mem _ member
      · intro served
        rcases served with found | ⟨_, grabbed⟩
        · exact absurd missing found
        · rw [refused] at grabbed
          cases grabbed
      · intro _
        right
        exact ⟨entry, List.mem_cons_self, new⟩
  | made entry allocated grabbed unused ready stands =>
      have surplus : ∀ other,
          Referenced.surplus { before.igrab lowerInode with cache := entry :: before.cache } other =
            before.surplus other := by
        intro other
        have added := surplus_cons (before.igrab lowerInode) entry other
        rw [surplus_igrab, stands] at added
        refine added.trans ?_
        omega
      refine ⟨nodup_cons distinct unused, ?_, fun other _ => (surplus other).le, ?_, ?_⟩
      · intro old member _
        exact List.mem_cons_of_mem _ member
      · intro _
        refine ⟨fun other _ => surplus other, ?_⟩
        intro old member locked
        rcases List.mem_cons.mp member with rfl | earlier
        · rw [ready] at locked
          cases locked
        · exact earlier
      · intro unserved
        exact absurd (.inr ⟨allocated, grabbed⟩) unserved

/-- So does every step. -/
theorem step_accounts (distinct : (before.cache.map CachedInode.inode).Nodup)
    (stepped : before.step host call = some after) : Accounts host call before after := by
  cases call with
  | iget task lowerInode =>
      obtain ⟨done, ran, rfl⟩ := Option.map_eq_some_iff.mp stepped
      exact iget_accounts distinct ran
  | evict task inode =>
      obtain ⟨entry, member, rfl, ready, rfl⟩ := evict_moves distinct stepped
      have surplus := fun other (set : other ≠ LowerInode.null) => surplus_evict distinct member set
      refine ⟨?_, ?_, fun other set => (surplus other set).le, ?_, ?_⟩
      · exact distinct.sublist (List.Sublist.map _ List.filter_sublist)
      · intro old among locked
        refine List.mem_filter.mpr ⟨among, decide_eq_true ?_⟩
        intro same
        obtain rfl := List.inj_on_of_nodup_map distinct among member same
        rw [ready] at locked
        cases locked
      · intro _
        exact ⟨surplus, fun old among _ => (List.mem_filter.mp among).1⟩
      · intro unserved
        exact absurd trivial unserved

/-- A balanced state has no surplus. -/
theorem Referenced.Balanced.surplus_eq_zero (balanced : Referenced.Balanced before) (present : lowerInode ≠ .null) :
    before.surplus lowerInode = 0 := by
  rw [Referenced.surplus, balanced.references lowerInode present]
  omega

/-- A served call keeps the balance. -/
theorem Referenced.Balanced.step (balanced : Referenced.Balanced before) (served : Served host before.cache call)
    (stepped : Referenced.step host call before = some after) : Referenced.Balanced after := by
  have accounts := step_accounts balanced.distinct stepped
  obtain ⟨surplus, unlocked⟩ := accounts.served served
  refine ⟨accounts.distinct, ?_, ?_⟩
  · intro other set
    have zero := (surplus other set).trans (balanced.surplus_eq_zero set)
    rw [Referenced.surplus] at zero
    omega
  · intro entry member
    cases locked : entry.isNew with
    | false => rfl
    | true => rw [← locked, balanced.unlocked entry (unlocked entry member locked)]

/-- Any other call does harm. -/
theorem Referenced.Balanced.harm (balanced : Referenced.Balanced before) (unserved : ¬ Served host before.cache call)
    (stepped : Referenced.step host call before = some after) : Harmed after := by
  have accounts := step_accounts balanced.distinct stepped
  refine ⟨accounts.distinct, ?_⟩
  rcases accounts.unserved unserved with ⟨other, set, fewer⟩ | locked
  · rw [balanced.surplus_eq_zero set] at fewer
    exact .inl ⟨other, set, fewer⟩
  · exact .inr locked

/-- No later call undoes the harm. -/
theorem Harmed.step (harmed : Harmed before) (stepped : Referenced.step host call before = some after) :
    Harmed after := by
  have accounts := step_accounts harmed.distinct stepped
  refine ⟨accounts.distinct, ?_⟩
  rcases harmed.harm with ⟨other, set, fewer⟩ | ⟨entry, member, locked⟩
  · exact .inl ⟨other, set, (accounts.surplus other set).trans_lt fewer⟩
  · exact .inr ⟨entry, accounts.locked entry member locked, locked⟩

/-- A call that is served keeps the references exact, and no other call does. A run from a new mount ends with one
reference for each live inode, and without a locked inode, exactly when all of its calls were served. -/
theorem trfsIget_references_iff (host : CacheHost ι) :
    (∀ task lowerInode before done, Referenced.iget host task lowerInode before = some done →
      (KeepsReferences before lowerInode done ↔ Served host before.cache (.iget task lowerInode))) ∧
    ∀ actions last, runActions (Referenced.step host) actions .begin = some last →
      (Referenced.Balanced last ↔
        ObeyActions (Referenced.step host) (fun state call => Served host state.cache call) actions .begin) := by
  constructor
  · intro task lowerInode before done ran
    exact iget_keepsReferences_iff ran
  · intro actions last ran
    have start : Referenced.Balanced .begin := ⟨List.nodup_nil, fun _ _ => rfl, fun _ member => by cases member⟩
    exact runActions_sound_iff (fun _ _ _ balanced served stepped => balanced.step served stepped)
      (fun _ _ _ balanced unserved stepped => balanced.harm unserved stepped)
      (fun _ _ _ harmed stepped => harmed.step stepped) (fun _ harmed => harmed.not_balanced) start ran

end

/-- A run with a hit, a miss and an eviction stays balanced. -/
theorem trfsIget_references_iff_served : ∃ last,
    runActions (Referenced.step twoTasks) [.iget false ⟨5⟩, .iget true ⟨6⟩, .iget true ⟨5⟩, .evict false ⟨1⟩] .begin =
      some last ∧ Referenced.Balanced last := by
  have ends : (runActions (Referenced.step twoTasks)
      [.iget false ⟨5⟩, .iget true ⟨6⟩, .iget true ⟨5⟩, .evict false ⟨1⟩] .begin).isSome := by decide +kernel
  obtain ⟨last, ran⟩ := Option.isSome_iff_exists.mp ends
  refine ⟨last, ran, ((trfsIget_references_iff twoTasks).2 _ last ran).mpr (obeyActions_of_forall ?_ _ _)⟩
  intro state call
  cases call with
  | iget task lowerInode => exact .inr ⟨Option.some_ne_none _, rfl⟩
  | evict task inode => trivial

/-- The first task gets no memory for an inode, and the lower inode of the second one is about to be freed. -/
def underPressure : CacheHost Bool :=
  { twoTasks with
    allocated := fun task => if task then twoTasks.allocated true else none
    grabs := fun _ => false }

/-- Without memory `trfs_iget` drops a reference that it did not take. When `igrab` fails it leaves a locked inode. -/
theorem failed_iget_unbalanced : ∃ exhausted refused,
    runActions (Referenced.step underPressure) [.iget false ⟨5⟩] .begin = some exhausted ∧
    exhausted.references ⟨5⟩ = -1 ∧ exhausted.cache = [] ∧ ¬ Referenced.Balanced exhausted ∧
    runActions (Referenced.step underPressure) [.iget true ⟨5⟩] .begin = some refused ∧
    refused.cache.map (fun entry => (entry.inode, entry.isNew, entry.lowerInode)) = [(⟨2⟩, true, .null)] ∧
    ¬ Referenced.Balanced refused := by
  have first : (runActions (Referenced.step underPressure) [.iget false ⟨5⟩] .begin).map (fun state =>
      (state.references ⟨5⟩, state.cache)) = some (-1, []) := by decide +kernel
  have second : (runActions (Referenced.step underPressure) [.iget true ⟨5⟩] .begin).map (fun state =>
      state.cache.map fun entry => (entry.inode, entry.isNew, entry.lowerInode)) =
        some [(⟨2⟩, true, .null)] := by decide +kernel
  obtain ⟨exhausted, ran, left⟩ := Option.map_eq_some_iff.mp first
  obtain ⟨refused, fails, cached⟩ := Option.map_eq_some_iff.mp second
  obtain ⟨dropped, empty⟩ := Prod.mk.inj left
  refine ⟨exhausted, refused, ran, dropped, empty, ?_, fails, cached, ?_⟩
  · intro balanced
    have none := balanced.references ⟨5⟩ (by decide)
    rw [dropped, empty] at none
    exact absurd none (by decide)
  · intro balanced
    have locked : (⟨2⟩, true, LowerInode.null) ∈
        refused.cache.map fun entry => (entry.inode, entry.isNew, entry.lowerInode) := by
      rw [cached]
      exact List.mem_singleton_self _
    obtain ⟨entry, member, same⟩ := List.mem_map.mp locked
    have new : entry.isNew = true := congrArg (fun triple => triple.2.1) same
    rw [balanced.unlocked entry member] at new
    cases new

end Trfs.Kernel
