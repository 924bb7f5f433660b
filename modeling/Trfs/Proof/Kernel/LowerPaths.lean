import Mathlib.Algebra.Order.BigOperators.Group.Finset
import Mathlib.Data.Fintype.BigOperators
import Mathlib.Tactic.Abel
import Trfs.Construction.Kernel.LowerPaths
import Trfs.Library.Ledger

namespace Trfs.Kernel.Spinlock
open Effect

/-- The private data as whole paths, and the counts. -/
abbrev Paths := Contents Nat LowerPath (Multiset Reference)

section
variable (dentry : Nat) (paths : Paths)

attribute [local simp] Guarding.coarse Guarding.inside sections PathOp.body PathOp.dentry pathcpyFrom pathcpyTo
  pathGuarding PathAccess.answer PathCall.answer perform

/-- A get as one step returns the path and adds a reference to each part. -/
theorem coarse_get : pathGuarding.coarse sections (.whole (.get dentry)) paths =
    if (paths.cell dentry).references ≤ paths.rest then
      some (paths.cell dentry, ⟨paths.cell, paths.rest + (paths.cell dentry).references⟩)
    else none := by
  by_cases alive : (paths.cell dentry).references ≤ paths.rest
  · simp [alive]
  · simp [alive]

/-- A set as one step stores the path. -/
theorem coarse_set (path : LowerPath) : pathGuarding.coarse sections (.whole (.set dentry path)) paths =
    some ((), ⟨Function.update paths.cell dentry path, paths.rest⟩) := by
  simp

/-- A take as one step returns the path and leaves the dentry without one. -/
theorem coarse_take : pathGuarding.coarse sections (.whole (.take dentry)) paths =
    some (paths.cell dentry, ⟨Function.update paths.cell dentry .unset, paths.rest⟩) := by
  simp

end

section
variable {L : Type} {env : VfsEnvironment L} {helpers : Helpers} {state : Mounted L} {dentry : Dentry} {path : LowerPath}
  {counts : Multiset Reference} {after : Paths}

/-- The accessor that the other operations use gives the path of the whole section. -/
theorem getPath_whole {done : Execution Call.Reply (Mounted L) LowerPath}
    (ran : (Kernel.trfsGetLowerPath dentry).exec (handleOwned env.toEnvironment helpers) state = some done)
    (answered : pathGuarding.coarse sections (.whole (.get dentry.address)) ⟨state.lowerPath, counts⟩ =
      some (path, after)) : done.value = path ∧ done.state.lowerPath = after.cell := by
  rw [coarse_get] at answered
  split at answered
  · obtain ⟨rfl, rfl⟩ := Prod.mk.inj (Option.some.inj answered)
    obtain ⟨found, first, rest, loaded, later, value, last, _⟩ := Program.exec_call_eq_some ran
    simp only [handleOwned] at loaded
    split at loaded
    · obtain ⟨rfl, rfl⟩ := Prod.mk.inj (Option.some.inj loaded)
      obtain ⟨_, second, rest, counted, ended, given, final, _⟩ := Program.exec_call_eq_some later
      obtain ⟨rfl⟩ := Option.some.inj ended
      obtain ⟨_, rfl⟩ := Prod.mk.inj (Option.some.inj counted)
      exact ⟨value.trans given, by rw [last, final]; rfl⟩
    · cases loaded
  · cases answered

/-- The release of a dentry takes the path of the whole section out and puts it. -/
theorem putResetPath_whole {done : Execution MountCall.Reply (Mounted L) Unit}
    (ran : (trfsPutResetPath dentry).exec (handleMount env helpers) state = some done)
    (answered : pathGuarding.coarse sections (.whole (.take dentry.address)) ⟨state.lowerPath, counts⟩ =
      some (path, after)) :
    done.state.lowerPath = after.cell ∧ ⟨.kernel (.lower (.pathPut path)), ()⟩ ∈ done.events := by
  rw [coarse_take] at answered
  obtain ⟨rfl, rfl⟩ := Prod.mk.inj (Option.some.inj answered)
  obtain ⟨found, first, rest, taken, later, _, last, events⟩ := Program.exec_call_eq_some ran
  simp only [handleMount] at taken
  split at taken
  · obtain ⟨rfl, rfl⟩ := Prod.mk.inj (Option.some.inj taken)
    obtain ⟨_, second, rest, counted, ended, _, final, made⟩ := Program.exec_call_eq_some later
    obtain ⟨rfl⟩ := Option.some.inj ended
    obtain ⟨_, rfl⟩ := Prod.mk.inj (Option.some.inj counted)
    rw [last, final, events, made]
    exact ⟨rfl, by simp⟩
  · cases taken

end

section
variable {ι α : Type} [DecidableEq ι]

/-- What a task holds: paths on which it has references of its own, and new dentries that only it may connect. -/
structure Custody where
  owned : Multiset LowerPath
  fresh : Finset Nat

/-- The references on a family of paths. -/
def Custody.references (custody : Custody) : Multiset Reference := (custody.owned.map LowerPath.references).sum

/-- A task puts and stores only references of its own, stores only into its new dentries, and never resets
a path without putting it. -/
def custody : Monitor (Coarse.Reply PathOp.Result PathCall.Reply) Custody where
  permits held
    | .whole (.set dentry path) => path ∈ held.owned ∧ dentry ∈ held.fresh
    | .whole (.reset _) => False
    | .outer (.pathGet path) | .outer (.pathPut path) => path ∈ held.owned
    | _ => True
  next held c reply := match c, reply with
    | .whole (.get _), path | .whole (.take _), path => { held with owned := path ::ₘ held.owned }
    | .whole (.set dentry path), _ => ⟨held.owned.erase path, held.fresh.erase dentry⟩
    | .whole (.reset _), _ => held
    | .outer (.found path), _ | .outer (.pathGet path), _ => { held with owned := path ::ₘ held.owned }
    | .outer (.pathPut path), _ => { held with owned := held.owned.erase path }

/-- Every reference is one from outside, one of the private data or one of a task. -/
structure Accounted [Fintype ι] (outside : Multiset Reference) (dentries : Finset Nat) (paths : Paths)
    (held : ι → Custody) : Prop where
  counts : paths.rest = outside + ∑ dentry ∈ dentries, (paths.cell dentry).references + ∑ task, (held task).references
  unset : ∀ dentry, dentry ∉ dentries → paths.cell dentry = .unset
  fresh : ∀ task, ∀ dentry ∈ (held task).fresh, dentry ∈ dentries ∧ paths.cell dentry = .unset
  apart : ∀ task other, task ≠ other → Disjoint (held task).fresh (held other).fresh

/-- A path taken in adds its references. -/
theorem Custody.references_take (owned : Multiset LowerPath) (fresh : Finset Nat) (path : LowerPath) :
    (Custody.mk (path ::ₘ owned) fresh).references = path.references + (Custody.mk owned fresh).references := by
  simp [Custody.references]

/-- A path given away takes its references with it. -/
theorem Custody.references_give {owned : Multiset LowerPath} {path : LowerPath} (member : path ∈ owned)
    (before after : Finset Nat) :
    (Custody.mk owned before).references = path.references + (Custody.mk (owned.erase path) after).references := by
  conv_lhs => rw [← Multiset.cons_erase member]
  simp [Custody.references]

variable [Fintype ι] {outside : Multiset Reference} {dentries : Finset Nat} {paths after : Paths} {held : ι → Custody}
  {task : ι}

omit [DecidableEq ι] in
/-- The account follows from its sum and from what is left unset. -/
theorem Accounted.subset {held' : ι → Custody} {cell : Nat → LowerPath} {rest : Multiset Reference}
    (accounted : Accounted outside dentries paths held)
    (counts : rest = outside + ∑ dentry ∈ dentries, (cell dentry).references + ∑ task, (held' task).references)
    (unset : ∀ dentry, dentry ∉ dentries → cell dentry = .unset)
    (fewer : ∀ task, (held' task).fresh ⊆ (held task).fresh)
    (still : ∀ task, ∀ dentry ∈ (held' task).fresh, paths.cell dentry = .unset → cell dentry = .unset) :
    Accounted outside dentries ⟨cell, rest⟩ held' where
  counts := counts
  unset := unset
  fresh task dentry member := by
    obtain ⟨inside, empty⟩ := accounted.fresh task dentry (fewer task member)
    exact ⟨inside, still task dentry member empty⟩
  apart task other different := (accounted.apart task other different).mono (fewer task) (fewer other)

/-- A task gets references, and the counts grow by them. -/
theorem Accounted.gain (accounted : Accounted outside dentries paths held) (path : LowerPath) :
    Accounted outside dentries ⟨paths.cell, paths.rest + path.references⟩
      (Function.update held task { held task with owned := path ::ₘ (held task).owned }) := by
  have more : ∑ other, (Function.update held task { held task with owned := path ::ₘ (held task).owned } other).references =
      path.references + ∑ other, (held other).references :=
    sum_update_gain (Finset.mem_univ task) (Custody.references_take _ _ path)
  apply accounted.subset
  · rw [more, accounted.counts]
    abel
  · exact accounted.unset
  · intro other
    by_cases same : other = task
    · subst same
      simp
    · simp [same]
  · exact fun _ _ _ empty => empty

/-- A task gives references back, and the counts shrink by them. -/
theorem Accounted.loss (accounted : Accounted outside dentries paths held) {path : LowerPath}
    (member : path ∈ (held task).owned) :
    Accounted outside dentries ⟨paths.cell, paths.rest - path.references⟩
      (Function.update held task { held task with owned := (held task).owned.erase path }) := by
  have less : ∑ other, (held other).references = path.references + ∑ other,
      (Function.update held task { held task with owned := (held task).owned.erase path } other).references :=
    sum_update_loss (Finset.mem_univ task) (Custody.references_give member _ _)
  apply accounted.subset
  · rw [accounted.counts, less]
    have order : ∀ (rest : Multiset Reference), outside + ∑ dentry ∈ dentries, (paths.cell dentry).references +
        (path.references + rest) = path.references +
          (outside + ∑ dentry ∈ dentries, (paths.cell dentry).references + rest) := by
      intro rest
      abel
    rw [order, add_tsub_cancel_left]
  · exact accounted.unset
  · intro other
    by_cases same : other = task
    · subst same
      simp
    · simp [same]
  · exact fun _ _ _ empty => empty

/-- A task hands its references to the private data of a new dentry. -/
theorem Accounted.set (accounted : Accounted outside dentries paths held) {path : LowerPath} {dentry : Nat}
    (member : path ∈ (held task).owned) (new : dentry ∈ (held task).fresh) :
    Accounted outside dentries ⟨Function.update paths.cell dentry path, paths.rest⟩
      (Function.update held task ⟨(held task).owned.erase path, (held task).fresh.erase dentry⟩) := by
  obtain ⟨inside, empty⟩ := accounted.fresh task dentry new
  have more : ∑ other ∈ dentries, (Function.update paths.cell dentry path other).references =
      path.references + ∑ other ∈ dentries, (paths.cell other).references := by
    apply sum_update_gain inside
    rw [empty]
    exact (add_zero _).symm
  have less : ∑ other, (held other).references = path.references + ∑ other, (Function.update held task
      ⟨(held task).owned.erase path, (held task).fresh.erase dentry⟩ other).references :=
    sum_update_loss (Finset.mem_univ task) (Custody.references_give member _ _)
  apply accounted.subset
  · rw [accounted.counts, more, less]
    abel
  · intro other absent
    have apart : other ≠ dentry := fun same => absent (same ▸ inside)
    rw [Function.update_of_ne apart]
    exact accounted.unset other absent
  · intro other
    by_cases same : other = task
    · subst same
      simpa using Finset.erase_subset _ _
    · simp [same]
  · intro other second member empty
    have apart : second ≠ dentry := by
      rintro rfl
      by_cases same : other = task
      · subst same
        simp at member
      · rw [Function.update_of_ne same] at member
        exact Finset.disjoint_left.mp (accounted.apart other task same) member new
    rw [Function.update_of_ne apart]
    exact empty

/-- A task takes the references of the private data over. -/
theorem Accounted.take (accounted : Accounted outside dentries paths held) (dentry : Nat) :
    Accounted outside dentries ⟨Function.update paths.cell dentry .unset, paths.rest⟩
      (Function.update held task { held task with owned := paths.cell dentry ::ₘ (held task).owned }) := by
  have more : ∑ other, (Function.update held task
      { held task with owned := paths.cell dentry ::ₘ (held task).owned } other).references =
      (paths.cell dentry).references + ∑ other, (held other).references :=
    sum_update_gain (Finset.mem_univ task) (Custody.references_take _ _ _)
  have less : ∑ other ∈ dentries, (paths.cell other).references = (paths.cell dentry).references +
      ∑ other ∈ dentries, (Function.update paths.cell dentry .unset other).references := by
    by_cases inside : dentry ∈ dentries
    · exact sum_update_loss inside (add_zero _).symm
    · rw [sum_update_absent inside, accounted.unset dentry inside]
      exact (zero_add _).symm
  apply accounted.subset
  · rw [accounted.counts, more, less]
    abel
  · intro other absent
    by_cases same : other = dentry
    · rw [same, Function.update_self]
    · rw [Function.update_of_ne same]
      exact accounted.unset other absent
  · intro other
    by_cases same : other = task
    · subst same
      simp
    · simp [same]
  · intro _ other _ empty
    by_cases same : other = dentry
    · rw [same, Function.update_self]
    · rw [Function.update_of_ne same]
      exact empty

/-- Every step of a careful task keeps the account. -/
theorem Accounted.step (accounted : Accounted outside dentries paths held) {c : Coarse PathOp PathCall}
    {reply : c.Reply PathOp.Result PathCall.Reply} (permitted : custody.permits (held task) c)
    (answered : pathGuarding.coarse sections c paths = some (reply, after)) :
    Accounted outside dentries after (Function.update held task (custody.next (held task) c reply)) := by
  cases c with
  | whole op =>
      cases op with
      | get dentry =>
          rw [coarse_get] at answered
          split at answered
          · obtain ⟨rfl, rfl⟩ := Prod.mk.inj (Option.some.inj answered)
            exact accounted.gain (paths.cell dentry)
          · cases answered
      | set dentry path =>
          rw [coarse_set] at answered
          obtain ⟨_, rfl⟩ := Prod.mk.inj (Option.some.inj answered)
          exact accounted.set permitted.1 permitted.2
      | reset dentry => exact permitted.elim
      | take dentry =>
          rw [coarse_take] at answered
          obtain ⟨rfl, rfl⟩ := Prod.mk.inj (Option.some.inj answered)
          exact accounted.take dentry
  | outer c =>
      obtain ⟨⟨given, counts⟩, replied, same⟩ := Option.map_eq_some_iff.mp answered
      obtain ⟨rfl, rfl⟩ := Prod.mk.inj same
      cases c with
      | found path =>
          obtain ⟨_, rfl⟩ := Prod.mk.inj (Option.some.inj replied)
          exact accounted.gain path
      | pathGet path =>
          simp only [pathGuarding, PathCall.answer] at replied
          split at replied
          · obtain ⟨_, rfl⟩ := Prod.mk.inj (Option.some.inj replied)
            exact accounted.gain path
          · cases replied
      | pathPut path =>
          simp only [pathGuarding, PathCall.answer] at replied
          split at replied
          · obtain ⟨_, rfl⟩ := Prod.mk.inj (Option.some.inj replied)
            exact accounted.loss permitted
          · cases replied

omit [DecidableEq ι] in
/-- The references on a path that the private data or a task holds have not all been put. -/
theorem Accounted.alive (accounted : Accounted outside dentries paths held) (c : Coarse PathOp PathCall)
    (permitted : custody.permits (held task) c) : (pathGuarding.coarse sections c paths).isSome := by
  have stored : ∀ dentry, (paths.cell dentry).references ≤ paths.rest := by
    intro dentry
    rw [accounted.counts]
    by_cases inside : dentry ∈ dentries
    · exact (Finset.single_le_sum (fun _ _ => Multiset.zero_le _) inside).trans
        ((Multiset.le_add_left _ _).trans (Multiset.le_add_right _ _))
    · rw [accounted.unset dentry inside]
      exact Multiset.zero_le _
  have owned : ∀ path ∈ (held task).owned, path.references ≤ paths.rest := by
    intro path member
    have part : path.references ≤ (held task).references := by
      rw [Custody.references_give member (held task).fresh (held task).fresh]
      exact Multiset.le_add_right _ _
    rw [accounted.counts]
    exact part.trans ((Finset.single_le_sum (fun _ _ => Multiset.zero_le _) (Finset.mem_univ task)).trans
      (Multiset.le_add_left _ _))
  cases c with
  | whole op =>
      cases op with
      | get dentry => rw [coarse_get, if_pos (stored dentry)]; rfl
      | set dentry path => rw [coarse_set]; rfl
      | reset dentry => exact permitted.elim
      | take dentry => rw [coarse_take]; rfl
  | outer c =>
      cases c with
      | found path => rfl
      | pathGet path => simp [Guarding.coarse, pathGuarding, PathCall.answer, owned path permitted]
      | pathPut path => simp [Guarding.coarse, pathGuarding, PathCall.answer, owned path permitted]

/-- The programs of the tasks keep to what they hold, whatever the replies are, and end with custody of this kind. -/
def Careful (left : Custody → Prop) (programs : ι → Client α) (held : ι → Custody) : Prop :=
  ∀ task, (programs task).Meets custody (fun _ last => left last) (held task)

/-- What holds in every interleaving of careful tasks when the sections are whole. -/
structure Balanced (outside : Multiset Reference) (dentries : Finset Nat) (left : Custody → Prop) (held : ι → Custody)
    (tasks : AtomicTasks ι α) : Prop where
  follows : Config.Follows (fun _ => custody) (fun _ _ last => left last) held tasks
  accounted : Accounted outside dentries tasks.shared (tasks.progress (fun _ => custody) held)

variable {left : Custody → Prop}

/-- A step of a careful task keeps the balance. -/
theorem Balanced.step {tasks next : AtomicTasks ι α} (balanced : Balanced outside dentries left held tasks)
    (stepped : Config.step (fun _ => pathGuarding.coarse sections) task tasks = some next) :
    Balanced outside dentries left held next := by
  obtain ⟨follows, c, reply, advance⟩ := balanced.follows.step stepped
  have moved : next.progress (fun _ => custody) held = Function.update (tasks.progress (fun _ => custody) held) task
      (custody.next (tasks.progress (fun _ => custody) held task) c reply) := by
    funext other
    by_cases same : other = task
    · subst same
      rw [Function.update_self]
      exact advance.here
    · rw [Function.update_of_ne same]
      exact advance.others other same
  refine ⟨follows, ?_⟩
  rw [moved]
  exact balanced.accounted.step advance.permitted advance.answered

/-- In a balanced state no call of an accessor is stuck. -/
theorem Balanced.enabled {tasks : AtomicTasks ι α} (balanced : Balanced outside dentries left held tasks)
    (task : ι) (c : Coarse PathOp PathCall) (calls : tasks.nextCall task = some c) :
    (pathGuarding.coarse sections c tasks.shared).isSome := by
  have meets := balanced.follows task
  unfold Config.nextCall at calls
  cases program : tasks.threads task with
  | pure value =>
      rw [program] at calls
      cases calls
  | call own next =>
      rw [program] at calls meets
      obtain rfl := Option.some.inj calls
      exact balanced.accounted.alive own meets.1

/-- However the tasks interleave, there is a run of whole sections beside theirs that is balanced. -/
theorem balanced_run {programs : ι → Client α} (careful : Careful left programs held)
    (accounted : Accounted outside dentries paths held) {schedule : List ι} {last : Tasks ι α}
    (ran : Tasks.run schedule (sections.begin programs paths) = some last) :
    ∃ later : AtomicTasks ι α, Simulates pathGuarding sections last later ∧ Balanced outside dentries left held later := by
  obtain ⟨atomic, first, steps, states⟩ := (Simulates.start programs paths).run ran
  have balanced : ∀ n ≤ schedule.length, Balanced outside dentries left held (atomic n) := by
    intro n
    induction n with
    | zero =>
        intro _
        rw [first]
        exact ⟨careful, accounted⟩
    | succ n ih =>
        intro inside
        rcases steps n inside with same | stepped
        · rw [same]
          exact ih (Nat.le_of_succ_le inside)
        · exact (ih (Nat.le_of_succ_le inside)).step stepped
  obtain ⟨reached, taken, simulates⟩ := states schedule.length le_rfl
  rw [List.take_length] at taken
  obtain rfl := Option.some.inj (ran.symm.trans taken)
  exact ⟨atomic schedule.length, simulates, balanced _ le_rfl⟩

/-- A task gets a reference and puts it, as the methods of the mount do. -/
def pinned (dentry : Nat) : Client Unit := do
  let lowerPath ← trfsGetLowerPath dentry
  trfsPutLowerPath lowerPath

def pathOne : LowerPath := ⟨⟨7⟩, 3⟩

/-- One dentry with private data, whose references are the only ones. -/
def onePath : Paths where
  cell dentry := if dentry = 5 then pathOne else .unset
  rest := pathOne.references

/-- The dentry is released while another task uses its path. -/
def racing : Bool → Client Unit
  | false => pinned 5
  | true => trfsPutResetLowerPath 5

def raceSchedule : List Bool :=
  [false, false, false, false, false, true, true, true, true, true, true, true, false]

/-- The race of the two tasks runs to its end. -/
theorem racing_runs : ∃ last, Tasks.run raceSchedule (sections.begin racing onePath) = some last :=
  Option.isSome_iff_exists.mp (by decide +kernel)

/-- A run in which each section is one step, beside these steps: at each of them it makes a step of the same task, or
none. -/
def Beside (schedule : List ι) (atomic : Nat → AtomicTasks ι α) : Prop :=
  ∀ n (inside : n < schedule.length),
    atomic (n + 1) = atomic n ∨ AtomicTasks.step schedule[n] (atomic n) = some (atomic (n + 1))

/-- A state of the tasks and one in which each section is one step. A section that its task has left has happened, and
one that has happened has begun; a task outside its sections has the same left to do in both, with the same results. -/
structure InStep (tasks : Tasks ι α) (atomic : AtomicTasks ι α) : Prop where
  counts : tasks.shared.rest = atomic.shared.rest
  paths : ∀ dentry, tasks.shared.holder dentry = none → tasks.shared.cell dentry = atomic.shared.cell dentry
  outside : ∀ task, (∀ dentry, tasks.shared.holder dentry ≠ some task) →
    tasks.threads task = sections.expand (atomic.threads task)
  left : ∀ task, (sections.points task tasks.history atomic.history).left <+:
    (sections.points task tasks.history atomic.history).happened
  happened : ∀ task, (sections.points task tasks.history atomic.history).happened <+:
    (sections.points task tasks.history atomic.history).begun
  ended : ∀ task value, tasks.threads task = .pure value →
    atomic.threads task = .pure value ∧ ∀ dentry, tasks.shared.holder dentry ≠ some task

omit [Fintype ι] in
/-- The simulation gives both states in step. -/
theorem InStep.of_simulates {tasks : Tasks ι α} {atomic : AtomicTasks ι α}
    (simulates : Simulates pathGuarding sections tasks atomic) : InStep tasks atomic where
  counts := simulates.rest
  paths := simulates.free
  outside _ free := simulates.outside free
  left task := (simulates.tasks task).between.1
  happened task := (simulates.tasks task).between.2
  ended _ _ ended := ⟨simulates.ended ended, simulates.unlocked ended⟩

omit [Fintype ι] in
/-- However the steps of the accessors interleave, the results, the private data and the counts are those of a run in
which each section is one step. After every step of the tasks, the sections that a task has left have happened, in
their order, and those that have happened have begun: each happens between its own first and last step. -/
theorem accessors_atomic (programs : ι → Client α) (paths : Paths) {schedule : List ι} {last : Tasks ι α}
    (ran : Tasks.run schedule (sections.begin programs paths) = some last) :
    ∃ atomic : Nat → AtomicTasks ι α, atomic 0 = ⟨paths, programs, []⟩ ∧ Beside schedule atomic ∧
      ∀ n ≤ schedule.length, ∃ reached, Tasks.run (schedule.take n) (sections.begin programs paths) = some reached ∧
        InStep reached (atomic n) := by
  obtain ⟨atomic, first, steps, states⟩ := (Simulates.start programs paths).run ran
  refine ⟨atomic, first, steps, ?_⟩
  intro n within
  obtain ⟨reached, taken, simulates⟩ := states n within
  exact ⟨reached, taken, .of_simulates simulates⟩

/-- The race has an atomic run beside it at each of its steps. -/
theorem accessors_atomic_race : ∃ atomic : Nat → AtomicTasks Bool Unit, atomic 0 = ⟨onePath, racing, []⟩ ∧
    Beside raceSchedule atomic ∧ ∀ n ≤ 13, ∃ reached,
      Tasks.run (raceSchedule.take n) (sections.begin racing onePath) = some reached ∧ InStep reached (atomic n) := by
  obtain ⟨last, ran⟩ := racing_runs
  exact accessors_atomic racing onePath ran

/-- In every state that careful tasks reach, a task that cannot make its next step has ended or waits for the lock of
another task, so no reference is taken or put on an object that has been freed; and while a task has not ended, some
task can make its next step. -/
theorem accessors_safe {programs : ι → Client α} (careful : Careful (fun _ => True) programs held)
    (accounted : Accounted outside dentries paths held) {schedule : List ι} {last : Tasks ι α}
    (ran : Tasks.run schedule (sections.begin programs paths) = some last) :
    (∀ task, Tasks.step task last = none → (∃ value, last.threads task = .pure value) ∨
      ∃ dentry other, last.nextCall task = some (.acquire dentry) ∧ last.shared.holder dentry = some other ∧
        other ≠ task) ∧
    ((∃ task, ∀ value, last.threads task ≠ .pure value) → ∃ other, (Tasks.step other last).isSome) := by
  obtain ⟨later, simulates, balanced⟩ := balanced_run careful accounted ran
  constructor
  · intro task stuck
    rcases simulates.waits (balanced.enabled task) stuck with ended | ⟨dentry, other, waits, holder⟩
    · exact .inl ended
    · refine .inr ⟨dentry, other, waits, holder, ?_⟩
      rintro rfl
      have steps : (Tasks.step other last).isSome := simulates.holder_steps (balanced.enabled other) holder
      rw [stuck] at steps
      cases steps
  · rintro ⟨task, unfinished⟩
    exact simulates.progress balanced.enabled unfinished

omit [DecidableEq ι] [Fintype ι] in
/-- A weaker condition at the end asks for less care. -/
theorem Careful.mono {strong weak : Custody → Prop} (weaker : ∀ last, strong last → weak last) {programs : ι → Client α}
    (careful : Careful strong programs held) : Careful weak programs held :=
  fun task => (careful task).mono fun _ last => weaker last

def noCustody : Custody := ⟨0, ∅⟩

/-- The two tasks of the race are careful. -/
theorem racing_careful : Careful (fun last => last.owned = 0) racing fun _ => noCustody := by
  intro task
  cases task with
  | false =>
      refine ⟨trivial, fun path => ⟨?_, fun _ => ?_⟩⟩
      · exact Multiset.mem_cons_self path 0
      · exact Multiset.erase_cons_head path 0
  | true =>
      refine ⟨trivial, fun path => ⟨?_, fun _ => ?_⟩⟩
      · exact Multiset.mem_cons_self path 0
      · exact Multiset.erase_cons_head path 0

/-- The state before the race is accounted for. -/
theorem racing_accounted : Accounted 0 {5} onePath fun _ : Bool => noCustody where
  counts := by decide +kernel
  unset dentry absent := by
    have apart : dentry ≠ 5 := fun same => absent (Finset.mem_singleton.mpr same)
    simp [onePath, apart]
  fresh _ _ member := absurd member (Finset.notMem_empty _)
  apart _ _ _ := Finset.disjoint_empty_left _

/-- The race is safe. -/
theorem accessors_safe_race : ∃ last, Tasks.run raceSchedule (sections.begin racing onePath) = some last ∧
    ((∃ task, ∀ value, last.threads task ≠ .pure value) → ∃ other, (Tasks.step other last).isSome) := by
  obtain ⟨last, ran⟩ := racing_runs
  exact ⟨last, ran, (accessors_safe (racing_careful.mono fun _ _ => trivial) racing_accounted ran).2⟩

/-- When all careful tasks have ended, the references are those from outside and those of the private data. -/
theorem accessors_conserve {programs : ι → Client α} (careful : Careful (fun last => last.owned = 0) programs held)
    (accounted : Accounted outside dentries paths held) {schedule : List ι} {last : Tasks ι α}
    (ran : Tasks.run schedule (sections.begin programs paths) = some last)
    (ended : ∀ task, ∃ value, last.threads task = .pure value) :
    last.shared.rest = outside + ∑ dentry ∈ dentries, (last.shared.cell dentry).references := by
  obtain ⟨later, simulates, balanced⟩ := balanced_run careful accounted ran
  have unheld : ∀ dentry, last.shared.holder dentry = none := by
    intro dentry
    cases holder : last.shared.holder dentry with
    | none => rfl
    | some task =>
        obtain ⟨value, done⟩ := ended task
        exact absurd holder (simulates.unlocked done dentry)
  have cells : last.shared.cell = later.shared.cell := funext fun dentry => simulates.free dentry (unheld dentry)
  have nothing : ∀ task, (later.progress (fun _ => custody) held task).references = 0 := by
    intro task
    obtain ⟨value, done⟩ := ended task
    have meets := balanced.follows task
    rw [simulates.ended done] at meets
    have empty : (later.progress (fun _ => custody) held task).owned = 0 := meets
    rw [Custody.references, empty]
    rfl
  rw [simulates.rest, balanced.accounted.counts, cells, Finset.sum_eq_zero fun task _ => nothing task, add_zero]

/-- The race conserves the references. -/
theorem accessors_conserve_race : ∃ last, Tasks.run raceSchedule (sections.begin racing onePath) = some last ∧
    last.shared.rest = 0 + ∑ dentry ∈ {5}, (last.shared.cell dentry).references := by
  obtain ⟨last, ran⟩ := racing_runs
  have ends : (Tasks.run raceSchedule (sections.begin racing onePath)).map (fun last =>
      (last.nextCall false).isNone && (last.nextCall true).isNone) = some true := by decide +kernel
  rw [ran] at ends
  obtain ⟨first, second⟩ := Bool.and_eq_true_iff.mp (Option.some.inj ends)
  refine ⟨last, ran, accessors_conserve racing_careful racing_accounted ran ?_⟩
  intro task
  cases task with
  | false => exact Config.nextCall_eq_none.mp (Option.isNone_iff_eq_none.mp first)
  | true => exact Config.nextCall_eq_none.mp (Option.isNone_iff_eq_none.mp second)

end

end Trfs.Kernel.Spinlock
