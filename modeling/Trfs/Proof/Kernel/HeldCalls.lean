import Mathlib.Algebra.Order.BigOperators.Group.Finset
import Trfs.Proof.Kernel.LeasedTable

namespace Trfs.Kernel
open Bytes Effect

section
variable {L : Type} {env : Environment L} {helpers : Helpers} {referenced : L → LowerDentry → Prop}
  {state after : Mounted L} {known : Knowledge} {part : Multiset Token} {dentry : LowerDentry} {inode : LowerInode}

/-- What a request knows is so: the mount holds what it lends, and the dentries have their inodes. -/
structure Truly (env : Environment L) (referenced : L → LowerDentry → Prop) (state : Mounted L) (known : Knowledge) :
    Prop where
  lent : ∀ part ∈ known.lent, known.intact = true ∧ part ≤ state.holdings.tokens
  pinned : ∀ pair ∈ known.pinned, Pins env referenced state.machine.visible.lower pair

/-- At its start a request knows nothing that could be wrong. -/
theorem truly_start : Truly env referenced state .start :=
  ⟨fun _ member => absurd member List.not_mem_nil, fun _ member => absurd member List.not_mem_nil⟩

/-- Neither does one that has changed the private data. -/
theorem truly_altered : Truly env referenced state .altered :=
  ⟨fun _ member => absurd member List.not_mem_nil, fun _ member => absurd member List.not_mem_nil⟩

/-- What a request knows stays true while the private data and the pinned inodes do. -/
theorem Truly.keep (truth : Truly env referenced state known) (same : after.holdings = state.holdings)
    (undisturbed : ∀ dentry, Undisturbed env referenced dentry state.machine.visible.lower after.machine.visible.lower) :
    Truly env referenced after known := by
  refine ⟨fun part member => ?_, fun pair member => (undisturbed pair.1).pins (truth.pinned pair member)⟩
  rw [same]
  exact truth.lent part member

/-- It stays true when the request forgets its pins, -/
theorem Truly.unpin (truth : Truly env referenced state known) (same : after.holdings = state.holdings) :
    Truly env referenced after known.unpin := by
  refine ⟨fun part member => ?_, fun _ member => absurd member List.not_mem_nil⟩
  rw [same]
  exact truth.lent part member

/-- when something that the mount holds is lent to it, -/
theorem Truly.lend (truth : Truly env referenced state known) (part_le : part ≤ state.holdings.tokens) :
    Truly env referenced state (known.lend part) := by
  unfold Knowledge.lend
  split
  · rename_i intact
    refine ⟨fun other member => ?_, truth.pinned⟩
    rcases List.mem_cons.mp member with rfl | before
    · exact ⟨intact, part_le⟩
    · exact truth.lent other before
  · exact truth

/-- and when it pins an inode that is pinned. -/
theorem Truly.pin (truth : Truly env referenced state known)
    (pins : Pins env referenced state.machine.visible.lower (dentry, inode)) :
    Truly env referenced state (known.pin dentry inode) := by
  refine ⟨truth.lent, fun other member => ?_⟩
  rcases List.mem_cons.mp member with rfl | before
  · exact pins
  · exact truth.pinned other before

/-- What is learnt from a call is true afterwards. While the private data are intact they hold no more than before. -/
def Learns (env : Environment L) (referenced : L → LowerDentry → Prop) (state after : Mounted L) (known : Knowledge)
    (found : Option Knowledge) : Prop :=
  ∃ later, found = some later ∧ Truly env referenced after later ∧
    (later.intact = true → known.intact = true ∧ after.holdings.tokens ≤ state.holdings.tokens)

/-- A request learns nothing wrong from a call that leaves the private data alone. -/
theorem Learns.same {later : Knowledge} (truth : Truly env referenced after later)
    (same : after.holdings = state.holdings) (intact : later.intact = known.intact) :
    Learns env referenced state after known (some later) := by
  refine ⟨later, rfl, truth, fun there => ⟨intact.symm.trans there, ?_⟩⟩
  rw [same]

/-- It learns nothing at all from a call that changes them. -/
theorem Learns.altered : Learns env referenced state after known (some .altered) :=
  ⟨_, rfl, truly_altered, fun intact => by cases intact⟩

/-- Lending does not say whether the private data are as before. -/
theorem Knowledge.lend_intact (known : Knowledge) (part : Multiset Token) : (known.lend part).intact = known.intact :=
  known.le_lend.1.symm

/-- A path that is part of the private data of a dentry. -/
theorem Holdings.path_le {holdings : Holdings} {dentry : Nat} (live : dentry ∈ holdings.live) :
    pathTokens (holdings.lowerPath dentry) ≤ holdings.tokens :=
  (Finset.single_le_sum (fun _ _ => Multiset.zero_le _) live).trans (Multiset.le_add_right _ _)

/-- The lower file of an open file is among the references of the mount. -/
theorem Holdings.file_le {holdings : Holdings} {file : Nat} (opened : file ∈ holdings.opened) :
    fileTokens (holdings.lowerFile file) ≤ holdings.tokens :=
  (Finset.single_le_sum (fun _ _ => Multiset.zero_le _) opened).trans (Multiset.le_add_left _ _)

/-- A file whose information is new has no lower file, and the others keep theirs. -/
theorem Holdings.tokens_setFile_none (holdings : Holdings) (file : Nat) :
    (holdings.setFile file none).tokens ≤ holdings.tokens := by
  apply add_le_add le_rfl
  apply Finset.sum_le_sum
  intro other _
  change fileTokens (Function.update holdings.lowerFile file none other) ≤ fileTokens (holdings.lowerFile other)
  by_cases same : other = file
  · rw [same, Function.update_self]
    exact Multiset.zero_le _
  · rw [Function.update_of_ne same]

/-- A file that is opened adds no reference before it has its lower file. -/
theorem Holdings.tokens_openFile_le (holdings : Holdings) (file : Nat) :
    (holdings.openFile file).tokens ≤ holdings.tokens := by
  by_cases opened : file ∈ holdings.opened
  · have same : holdings.openFile file = holdings.setFile file none := by
      unfold Holdings.openFile
      rw [Finset.insert_eq_of_mem opened]
      rfl
    rw [same]
    exact holdings.tokens_setFile_none file
  · exact (tokens_openFile opened).le

/-- The inode that a pinned dentry shows is the one that is known. -/
theorem shown_learns (pinning : Pinning env referenced) (truth : Truly env referenced state known)
    (answered : handleOwned env helpers (.lower (.dInode dentry)) state = some (inode, after)) :
    Learns env referenced state after known (known.shown dentry inode) := by
  obtain ⟨same, undisturbed⟩ := handleOwned_keeps pinning (c := .lower (.dInode dentry)) trivial answered
  have later := truth.keep same fun other => undisturbed other id
  obtain ⟨rfl, rfl⟩ := Prod.mk.inj (Option.some.inj answered)
  unfold Knowledge.shown
  split
  · rename_i contradicted
    obtain ⟨pair, member, rfl, real, other⟩ := contradicted
    exact absurd ((truth.pinned pair member).2 real).symm other
  · split
    · rename_i pinned
      obtain ⟨pair, member, rfl⟩ := pinned
      obtain ⟨stays, shows⟩ := pinning.lower (.dInode pair.1) pair.1 state.machine.visible.lower id
        (truth.pinned pair member).1
      have pins : Pins env referenced (env.lower (.dInode pair.1) state.machine.visible.lower).2
          (pair.1, (env.lower (.dInode pair.1) state.machine.visible.lower).1) := ⟨stays, shows⟩
      exact Learns.same (later.pin pins) same rfl
    · exact Learns.same later same rfl

/-- What a request learns from any call is true. -/
theorem callLearn_learns (pinning : Pinning env referenced) {c : Call} {reply : c.Reply}
    (truth : Truly env referenced state known) (answered : handleOwned env helpers c state = some (reply, after)) :
    Learns env referenced state after known (callLearn known c reply) := by
  -- Most calls teach nothing and put nothing.
  have keeps : Keeps c → (∀ dentry, ¬ CallPuts dentry c) → Learns env referenced state after known (some known) := by
    intro keeps puts
    obtain ⟨same, undisturbed⟩ := handleOwned_keeps pinning keeps answered
    exact Learns.same (truth.keep same fun dentry => undisturbed dentry (puts dentry)) same rfl
  have unpins : Keeps c → Learns env referenced state after known (some known.unpin) := by
    intro keeps
    obtain ⟨same, _⟩ := handleOwned_keeps pinning keeps answered
    exact Learns.same (truth.unpin same) same rfl
  cases c with
  | lower c =>
      cases c with
      | pathGet path =>
          obtain ⟨same, undisturbed⟩ := handleOwned_keeps pinning (c := .lower (.pathGet path)) trivial answered
          have later := truth.keep same fun dentry => undisturbed dentry id
          obtain ⟨_, rfl⟩ := Prod.mk.inj (Option.some.inj answered)
          exact Learns.same (later.pin ⟨pinning.pathGet path _, fun real => absurd rfl real⟩) same rfl
      | dgetParent dentry =>
          obtain ⟨same, undisturbed⟩ := handleOwned_keeps pinning (c := .lower (.dgetParent dentry)) trivial answered
          have later := truth.keep same fun dentry => undisturbed dentry id
          obtain ⟨rfl, rfl⟩ := Prod.mk.inj (Option.some.inj answered)
          exact Learns.same (later.pin ⟨pinning.dgetParent dentry _, fun real => absurd rfl real⟩) same rfl
      | dInode dentry => exact shown_learns pinning truth answered
      | pathPut path => exact unpins trivial
      | dput dentry => exact unpins trivial
      | fput file => exact unpins trivial
      | _ => exact keeps trivial fun _ => id
  | upper c =>
      cases c with
      | lock inodes =>
          have learnt := keeps trivial fun _ => id
          simp only [handleOwned] at answered
          split at answered
          · cases answered
          · rename_i absent
            have same : callLearn known (.upper (.lock inodes)) reply = some known := if_neg absent
            rw [same]
            exact learnt
      | lowerPath dentry =>
          simp only [handleOwned] at answered
          split at answered
          · rename_i live
            obtain ⟨rfl, rfl⟩ := Prod.mk.inj (Option.some.inj answered)
            exact Learns.same (truth.lend (Holdings.path_le live)) rfl (known.lend_intact _)
          · cases answered
      | lowerFile file =>
          simp only [handleOwned] at answered
          split at answered
          · rename_i opened
            obtain ⟨rfl, rfl⟩ := Prod.mk.inj (Option.some.inj answered)
            exact Learns.same (truth.lend (Holdings.file_le opened)) rfl (known.lend_intact _)
          · cases answered
      | kzallocFileInfo file =>
          obtain ⟨same, rfl⟩ := Prod.mk.inj (Option.some.inj answered)
          have undisturbed := fun dentry => pinning.kzalloc dentry state.machine.visible.lower
          have pins : ∀ pair ∈ known.pinned, Pins env referenced (env.kzalloc state.machine.visible.lower).2 pair :=
            fun pair member => (undisturbed pair.1).pins (truth.pinned pair member)
          refine ⟨known.unlent, rfl, ⟨fun _ member => absurd member List.not_mem_nil, pins⟩, fun intact => ⟨intact, ?_⟩⟩
          change (Holdings.mk _ (ite (_ = true) _ _) _ _).tokens ≤ _
          cases reply with
          | false =>
              rw [if_neg (by rw [same]; decide)]
              exact state.holdings.tokens_setFile_none file.address
          | true =>
              rw [if_pos same]
              exact state.holdings.tokens_openFile_le file.address
      | setLowerFile file value => exact Learns.altered
      | kfreeFileInfo file => exact Learns.altered
      | _ => exact keeps trivial fun _ => id
  | tracer c => exact keeps trivial fun _ => id
  | setMask value =>
      obtain ⟨_, rfl⟩ := Prod.mk.inj (Option.some.inj answered)
      exact Learns.same (truth.keep rfl fun dentry => .rfl) rfl rfl
  | copyMaskToUser address =>
      obtain ⟨_, rfl⟩ := Prod.mk.inj (Option.some.inj answered)
      exact Learns.same (truth.unpin rfl) rfl rfl
  | oops => cases answered

end

section
variable {path : LowerPath} {dentry : LowerDentry} {mnt : Nat}

/-- The reference on a dentry is of the lower filesystem, -/
theorem dentryTokens_lower : ∀ token ∈ dentryTokens dentry, token.Lower := by
  intro token member
  unfold dentryTokens at member
  split at member
  · exact absurd member (Multiset.notMem_zero token)
  · obtain rfl := Multiset.mem_singleton.mp member
    trivial

/-- so is one on a mount, -/
theorem mntTokens_lower : ∀ token ∈ mntTokens mnt, token.Lower := by
  intro token member
  unfold mntTokens at member
  split at member
  · exact absurd member (Multiset.notMem_zero token)
  · obtain rfl := Multiset.mem_singleton.mp member
    trivial

/-- and so are those on a path. -/
theorem pathTokens_lower : ∀ token ∈ pathTokens path, token.Lower := by
  intro token member
  rcases Multiset.mem_add.mp member with first | second
  · exact dentryTokens_lower token first
  · exact mntTokens_lower token second

/-- A token of the lower filesystem is followed. -/
theorem filter_singleton_lower (token : Token) (lower : token.Lower) :
    ({token} : Multiset Token).filter Token.Lower = {token} := by
  rw [Multiset.filter_singleton, if_pos lower]

/-- The lease follows all tokens but those of the tracing block. -/
theorem leaseGains_eq (c : Call) (reply : c.Reply) : leaseGains c reply = (callGains c reply).filter Token.Lower := by
  cases c with
  | tracer c =>
      symm
      apply Multiset.filter_eq_nil.mpr
      intro token member
      cases c with
      | kmalloc size =>
          cases reply with
          | none => exact absurd member (Multiset.notMem_zero token)
          | some block =>
              obtain rfl := Multiset.mem_singleton.mp member
              exact id
      | filpOpen filename flags =>
          cases reply with
          | error errno => exact absurd member (Multiset.notMem_zero token)
          | ok file =>
              obtain rfl := Multiset.mem_singleton.mp member
              exact id
      | _ => exact absurd member (Multiset.notMem_zero token)
  | lower c =>
      cases c with
      | pathGet path => exact (Multiset.filter_eq_self.mpr pathTokens_lower).symm
      | dget dentry => exact (Multiset.filter_eq_self.mpr dentryTokens_lower).symm
      | dgetParent dentry => exact (Multiset.filter_eq_self.mpr dentryTokens_lower).symm
      | getFile file => exact (filter_singleton_lower (.file file) trivial).symm
      | dentryOpen path flags =>
          cases reply with
          | error errno => rfl
          | ok file => exact (filter_singleton_lower (.file file) trivial).symm
      | _ => rfl
  | upper c =>
      cases c with
      | lock inodes => exact (filter_singleton_lower (.lock inodes) trivial).symm
      | _ => rfl
  | _ => rfl

/-- The leases follow just the lower part of what a call takes back, -/
theorem leaseSpends_eq (c : Call) : leaseSpends c = (callSpends c).filter Token.Lower := by
  cases c with
  | tracer c =>
      symm
      apply Multiset.filter_eq_nil.mpr
      intro token member
      cases c with
      | kfree address =>
          obtain rfl := Multiset.mem_singleton.mp member
          exact id
      | filpClose file =>
          obtain rfl := Multiset.mem_singleton.mp member
          exact id
      | _ => exact absurd member (Multiset.notMem_zero token)
  | lower c =>
      cases c with
      | pathPut path => exact (Multiset.filter_eq_self.mpr pathTokens_lower).symm
      | dput dentry => exact (Multiset.filter_eq_self.mpr dentryTokens_lower).symm
      | fput file => exact (filter_singleton_lower (.file file) trivial).symm
      | _ => rfl
  | upper c =>
      cases c with
      | unlock inodes => exact (filter_singleton_lower (.lock inodes) trivial).symm
      | _ => rfl
  | _ => rfl

/-- of what a call of the VFS gives, -/
theorem vfsGains_lower (c : VfsCall) (reply : c.Reply) : vfsGains c reply = (vfsGains c reply).filter Token.Lower := by
  cases c with
  | dgetParent dentry => exact (filter_singleton_lower (.upper reply.address) trivial).symm
  | vfsPathLookup dir mnt name =>
      cases reply with
      | error errno => rfl
      | ok path => exact (Multiset.filter_eq_self.mpr pathTokens_lower).symm
  | dLookup dir name =>
      cases reply with
      | none => rfl
      | some dentry => exact (Multiset.filter_eq_self.mpr dentryTokens_lower).symm
  | dAlloc dir name =>
      cases reply with
      | none => rfl
      | some dentry => exact (Multiset.filter_eq_self.mpr dentryTokens_lower).symm
  | mntget mnt => exact (Multiset.filter_eq_self.mpr mntTokens_lower).symm
  | _ => rfl

/-- and of what it takes back. -/
theorem vfsSpends_lower (c : VfsCall) : vfsSpends c = (vfsSpends c).filter Token.Lower := by
  cases c with
  | dput dentry => exact (filter_singleton_lower (.upper dentry.address) trivial).symm
  | _ => rfl

/-- What the mount holds for good is of the lower filesystem. -/
theorem Token.Lasting.lower {token : Token} (lasting : token.Lasting) : token.Lower := by
  cases token <;> first | exact trivial | exact lasting.elim

end

section
variable {L : Type} {env : VfsEnvironment L} {helpers : Helpers} {referenced : L → LowerDentry → Prop}
  {state after : Mounted L} {known : Knowledge}

/-- What a request learns from a call of the VFS is true. -/
theorem vfsLearn_learns (pinning : VfsPinning env referenced) {c : VfsCall} {reply : c.Reply}
    (truth : Truly env.toEnvironment referenced state known)
    (answered : handleMount env helpers (.vfs c) state = some (reply, after)) :
    Learns env.toEnvironment referenced state after known (vfsLearn known c) := by
  have keeps : VfsKeeps c → (∀ other, c ≠ .dput other) →
      Learns env.toEnvironment referenced state after known (some known) := by
    intro keeps puts
    obtain ⟨same, undisturbed⟩ := handleMount_keeps pinning keeps answered
    exact Learns.same (truth.keep same fun dentry => undisturbed dentry puts) same rfl
  cases c with
  | dput dentry =>
      obtain ⟨same, _⟩ := handleMount_keeps pinning (c := .dput dentry) trivial answered
      exact Learns.same (truth.unpin same) same rfl
  | newDentryPrivateData dentry => exact Learns.altered
  | setLowerPath dentry path => exact Learns.altered
  | takeLowerPath dentry => exact Learns.altered
  | freeDentryPrivateData dentry => exact Learns.altered
  | _ => exact keeps trivial (by simp)

end

namespace Methods

section
variable {L : Type} {env : MethodEnvironment L} {helpers : Helpers} {referenced : L → LowerDentry → Prop}

/-- The leases of the table follow the lower part of its account, -/
theorem tableGains_eq (c : TableCall) (reply : c.Reply) :
    tableLeasing.gains c reply = (tableLedger.gains c reply).filter Token.Lower := by
  cases c with
  | mount c =>
      cases c with
      | kernel c => exact leaseGains_eq c reply
      | vfs c => exact vfsGains_lower c reply
  | method c => rfl

/-- in what is given back as well. -/
theorem tableSpends_eq (c : TableCall) : tableLeasing.spends c = (tableLedger.spends c).filter Token.Lower := by
  cases c with
  | mount c =>
      cases c with
      | kernel c => exact leaseSpends_eq c
      | vfs c => exact vfsSpends_lower c
  | method c => rfl

/-- What the requests learn from the calls of the table is so. -/
theorem tableLeasing_sound (pinning : MethodPinning env referenced) :
    tableLeasing.Sound (handleTable env helpers) (fun state => state.holdings.tokens)
      (Truly env.toEnvironment referenced) where
  lent truth member := truth.lent _ member
  learns {c state reply after known} truth answered := by
    cases c with
    | mount c =>
        cases c with
        | kernel c => exact callLearn_learns pinning.toPinning truth answered
        | vfs c => exact vfsLearn_learns pinning.toVfsPinning truth answered
    | method c =>
        obtain ⟨_, rfl⟩ := Prod.mk.inj (Option.some.inj answered)
        exact Learns.same (truth.keep rfl fun dentry => pinning.method c dentry _) rfl rfl

/-- Each call so far has found what it needs. -/
def Held (start : Multiset Token) (events : List (Event TableCall.Reply)) : Prop :=
  ∀ front event back, events = front ++ event :: back →
    ∃ now, tableLedger.account.after (some start) front = some now ∧ event.call.needs ≤ now

/-- One request: its calls find what they need beside what the mount holds. -/
theorem Request.held (pinning : MethodPinning env referenced) {made : Request} {state : Mounted L}
    {done : Execution TableCall.Reply (Mounted L) Unit} {last : Multiset Token}
    (ran : made.program.exec (handleTable env helpers) state = some done)
    (account : tableLedger.account.after (some state.holdings.tokens) done.events = some last) :
    Held state.holdings.tokens done.events := by
  intro front event back split
  have all : state.holdings.tokens.filter Token.Lower = state.holdings.tokens :=
    Multiset.filter_eq_self.mpr fun token member => (state.holdings.tokens_lasting token member).lower
  exact made.leased.exec_within tableGains_eq tableSpends_eq (tableLeasing_sound pinning) ran truly_start all.ge account
    split

/-- The calls of two parts find what they need if each part does from the account that the first one leaves. -/
theorem Held.append {start middle : Multiset Token} {first second : List (Event TableCall.Reply)}
    (account : tableLedger.account.after (some start) first = some middle) (held : Held start first)
    (later : Held middle second) : Held start (first ++ second) := by
  intro front event back split
  rcases List.append_eq_append_iff.mp split with ⟨rest, whole, behind⟩ | ⟨rest, whole, behind⟩
  · obtain ⟨now, reached, enough⟩ := later rest event back behind
    refine ⟨now, ?_, enough⟩
    rw [whole, Monitor.after_append, account]
    exact reached
  · cases rest with
    | nil =>
        rw [List.append_nil] at whole
        obtain ⟨now, reached, enough⟩ := later [] event back behind.symm
        refine ⟨now, ?_, enough⟩
        rw [← whole, account]
        exact reached
    | cons other rest =>
        obtain ⟨rfl, rfl⟩ := List.cons.inj behind
        exact held front event rest whole

/-- After each step the mount is balanced and all calls so far held what they needed. -/
theorem tableStep_held (pinning : MethodPinning env referenced) {start : Multiset Token}
    (reached : Mounted L × List (Event TableCall.Reply)) (action : TableAction L)
    (next : Mounted L × List (Event TableCall.Reply)) (kept : Balanced start reached ∧ Held start reached.2)
    (fresh : action.Fresh reached) (stepped : tableStep env helpers action reached = some next) :
    Balanced start next ∧ Held start next.2 := by
  have balanced := tableStep_balanced pinning reached action next kept.1 fresh stepped
  refine ⟨balanced, ?_⟩
  obtain ⟨⟨account, settled⟩, held⟩ := kept
  obtain ⟨state, events⟩ := reached
  cases action with
  | request made =>
      obtain ⟨done, ran, rfl⟩ := Option.map_eq_some_iff.mp stepped
      have whole := balanced.1
      rw [Monitor.after_append, account] at whole
      exact Held.append account held (Request.held pinning ran whole)
  | outside change mask =>
      obtain rfl := Option.some.inj stepped
      exact held

end

def mkdirRun : List (TableAction Unit) := [.request (.vfs (.traced (.mkdir ⟨1⟩ dentryA 0x1ed)))]

end Methods

end Trfs.Kernel
