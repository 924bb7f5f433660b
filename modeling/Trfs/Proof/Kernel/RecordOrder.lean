import Trfs.Proof.Kernel.WholeRecords

namespace Trfs.Kernel
open Bytes Effect Trace

section
variable {ι L : Type} [DecidableEq ι] {env : Environment L} {helpers : Helpers} {ops : ι → TracedOp}
  {start : Machine L} {same : LowerCall → LowerCall → Prop}

/-- The lower call that a task makes at this place of the history. The calls that follow its read of the
counter do not count. -/
def World.effectAt (ops : ι → TracedOp) (world : World ι L) (task : ι) (place : Nat) : Option LowerCall :=
  match world.history[place]? with
  | some (owner, ⟨.lower c, _⟩) =>
      if owner = task ∧ ((protocol (ops task)).after .start
        (eventsOf (world.history.take place) task)).recId = none then some c else none
  | _ => none

/-- The lower call of the first task took effect before that of the second on the same object. -/
def World.Precedes (same : LowerCall → LowerCall → Prop) (ops : ι → TracedOp) (world : World ι L)
    (first second : ι) : Prop :=
  ∃ late < world.history.length, ∃ early < late,
    ∃ c ∈ world.effectAt ops first early, ∃ d ∈ world.effectAt ops second late, same c d

/-- An effect at an earlier place stays where it was. -/
theorem effectAt_earlier {world next : World ι L} {entry : ι × Event Call.Reply} {task : ι} {place : Nat}
    (history : next.history = world.history ++ [entry]) (before : place < world.history.length) :
    next.effectAt ops task place = world.effectAt ops task place := by
  unfold World.effectAt
  rw [history, List.getElem?_append_left before, List.take_append_of_le_length (Nat.le_of_lt before)]

/-- A task has its effect before it reads the counter. -/
theorem effectAt_last {world next : World ι L} {entry : ι × Event Call.Reply} {task : ι} {c : LowerCall}
    (history : next.history = world.history ++ [entry])
    (effect : c ∈ next.effectAt ops task world.history.length) : (world.progress ops task).recId = none := by
  unfold World.effectAt at effect
  rw [history, List.take_left' rfl] at effect
  split at effect
  · split at effect
    · rename_i unread
      exact unread.2
    · cases effect
  · cases effect

/-- A task that has read the counter gets no new predecessors. -/
theorem World.Precedes.earlier {world next : World ι L} {entry : ι × Event Call.Reply} {first second : ι}
    (precedes : next.Precedes same ops first second) (history : next.history = world.history ++ [entry])
    (read : (world.progress ops second).recId ≠ none) : world.Precedes same ops first second := by
  obtain ⟨late, within, early, before, c, effect, d, later, related⟩ := precedes
  rw [history, List.length_append, List.length_singleton] at within
  rcases Nat.lt_succ_iff_lt_or_eq.mp within with inside | rfl
  · rw [effectAt_earlier history (before.trans inside)] at effect
    rw [effectAt_earlier history inside] at later
    exact ⟨late, inside, early, before, c, effect, d, later, related⟩
  · exact absurd (effectAt_last history later) read

def Call.ReadsCounter : Call → Prop
  | .tracer .recordId => True
  | _ => False

/-- The step loses no byte of the trace file. If it reads the counter, the counter has not wrapped round, no
other task is between its read and its store, and no task that has read the counter made its lower call
after this one. -/
def World.Queued (same : LowerCall → LowerCall → Prop) (helpers : Helpers) (ops : ι → TracedOp)
    (world : World ι L) (task : ι) : Prop :=
  ∀ c ∈ world.nextCall task, c.Delivers helpers world.shared.machine ∧
    (c.ReadsCounter → world.shared.machine.recordId.toInt ≠ -2 ^ 31 ∧
      ∀ other, (world.progress ops other).recId ≠ none →
        (world.progress ops other).stored = true ∧ ¬ world.Precedes same ops task other)

/-- The number that a task has read. -/
def World.number (ops : ι → TracedOp) (world : World ι L) (task : ι) : Int :=
  ((world.progress ops task).recId.getD 0).toInt

/-- The tasks went through their blocks one after the other and read growing numbers. -/
structure Queue (same : LowerCall → LowerCall → Prop) (ops : ι → TracedOp) (start : Machine L)
    (world : World ι L) (order : List ι) : Prop where
  serial : Serial start.traceFile world.shared.machine.traceFile
    (fun task => (world.progress ops task).recId ≠ none)
    (fun task => (world.progress ops task).stored = true)
    (fun task => (world.progress ops task).written.flatten) order
  ordered : order.Pairwise fun first second =>
    world.number ops first < world.number ops second ∧ ¬ world.Precedes same ops second first
  unwrapped : ∀ task ∈ order, world.number ops task ≠ -2 ^ 31
  current : ∀ task ∈ order, (world.progress ops task).stored = false →
    (world.progress ops task).recId = some world.shared.machine.recordId
  past : ∀ task ∈ order, (world.progress ops task).stored = true →
    world.shared.machine.recordId.toInt ≠ -2 ^ 31 →
    world.number ops task < world.shared.machine.recordId.toInt

/-- A task learns its number from reading the counter alone. -/
theorem recId_next (op : TracedOp) (progress : Progress) (c : Call) (reply : c.Reply) :
    ((protocol op).next progress c reply).recId = progress.recId ∨ c = .tracer .recordId := by
  cases c with
  | tracer c => cases c <;> first | exact .inl rfl | exact .inr rfl
  | _ => exact .inl rfl

/-- Only the store of the number changes the counter. -/
theorem stored_next (op : TracedOp) (progress : Progress) (c : Call) (reply : c.Reply) :
    (((protocol op).next progress c reply).stored = progress.stored ∧ ∀ old, c.counter old = old) ∨
      ∃ value, c = .tracer (.setRecordId value) := by
  cases c with
  | tracer c => cases c <;> first | exact .inl ⟨rfl, fun _ => rfl⟩ | exact .inr ⟨_, rfl⟩
  | _ => exact .inl ⟨rfl, fun _ => rfl⟩

/-- A task sends bytes between reading and storing its number. -/
theorem sends_inside {op : TracedOp} {progress : Progress} {c : Call}
    (permitted : (protocol op).permits progress c) (some : c.sends.flatten ≠ []) :
    progress.recId ≠ none ∧ ¬ progress.stored = true := by
  cases c with
  | tracer c =>
      cases c with
      | vfsWrite file source count =>
          obtain ⟨inside, _, recId, read, _⟩ := permitted
          rw [read, inside.2]
          exact ⟨nofun, nofun⟩
      | _ => exact absurd rfl some
  | _ => exact absurd rfl some

/-- The next number is larger, or it is the smallest of all. -/
theorem increment_toInt (value : BitVec 32) :
    (value + 1).toInt = value.toInt + 1 ∨ (value + 1).toInt = -2 ^ 31 := by
  have low := BitVec.le_toInt value
  have high := BitVec.toInt_lt (x := value)
  have one : (1 : BitVec 32).toInt = 1 := by decide
  rw [BitVec.toInt_add, one]
  by_cases room : value.toInt + 1 < 2 ^ 31
  · left
    exact Int.bmod_eq_of_le_mul_two (by omega) (by omega)
  · right
    have largest : value.toInt = 2 ^ 31 - 1 := by omega
    rw [largest]
    decide

/-- What a read of the counter does to the tasks. -/
structure Reads (ops : ι → TracedOp) (world next : World ι L) (task : ι) (order : List ι) : Prop where
  counter : next.shared.machine.recordId = world.shared.machine.recordId
  unread : (world.progress ops task).recId = none
  here : next.progress ops task =
    { world.progress ops task with recId := some world.shared.machine.recordId }
  idle : (world.progress ops task).written = [] ∧ (world.progress ops task).stored = false
  others : ∀ other ∈ order, next.progress ops other = world.progress ops other

section
variable {world next : World ι L} {task : ι} {order : List ι}

/-- A task that reads the counter is the next in the queue. -/
theorem Queue.reads {reply : (Call.tracer .recordId).Reply} (underway : Underway ops start world)
    (queue : Queue same ops start world order)
    (advance : World.Advance env helpers ops task world next (.tracer .recordId) reply) :
    Reads ops world next task order := by
  have unread : (world.progress ops task).recId = none := advance.permitted.2
  have answered := handleShared_handle advance.answered
  obtain rfl : world.shared.machine.recordId = reply := (Prod.mk.inj (Option.some.inj answered)).1
  refine ⟨(advance_traced advance).counter, unread, advance_here advance,
    (underway.regular task).unwritten unread, fun other member => advance_others advance ?_⟩
  rintro rfl
  exact (queue.serial.members other).mp member unread

/-- The number read is the counter. -/
theorem Reads.number (reads : Reads ops world next task order) :
    next.number ops task = world.shared.machine.recordId.toInt := by
  rw [World.number, reads.here]
  rfl

/-- The numbers of the others stay. -/
theorem Reads.numbers (reads : Reads ops world next task order) {other : ι} (member : other ∈ order) :
    next.number ops other = world.number ops other := by
  rw [World.number, reads.others other member, World.number]

/-- The reader joins the others behind their finished records. -/
theorem Queue.read_serial {reply : (Call.tracer .recordId).Reply} (queue : Queue same ops start world order)
    (reads : Reads ops world next task order)
    (advance : World.Advance env helpers ops task world next (.tracer .recordId) reply)
    (free : ∀ other, (world.progress ops other).recId ≠ none → (world.progress ops other).stored = true) :
    Serial start.traceFile next.shared.machine.traceFile
      (fun task => (next.progress ops task).recId ≠ none)
      (fun task => (next.progress ops task).stored = true)
      (fun task => (next.progress ops task).written.flatten) (order ++ [task]) := by
  have file : next.shared.machine.traceFile = world.shared.machine.traceFile ++ [] :=
    (advance_traced advance).file trivial
  rw [file]
  refine queue.serial.join task ?_ ?_ (fun begun => begun reads.unread) free ?_ ?_
  · exact fun other this => by rw [advance_others advance this]
  · rw [reads.here, reads.idle.1]
    rfl
  · intro other
    by_cases this : other = task
    · subst this
      rw [reads.here]
      exact iff_of_true nofun (.inl rfl)
    · rw [advance_others advance this]
      exact (or_iff_right this).symm
  · intro other begun stored
    have this : other ≠ task := fun same => begun (same ▸ reads.unread)
    rw [advance_others advance this]
    exact stored

/-- A permitted read appends its task to the queue. -/
theorem Queue.read {reply : (Call.tracer .recordId).Reply} (underway : Underway ops start world)
    (queue : Queue same ops start world order) (allowed : world.Queued same helpers ops task)
    (advance : World.Advance env helpers ops task world next (.tracer .recordId) reply) :
    Queue same ops start next (order ++ [task]) := by
  obtain ⟨unwrapped, alone⟩ := (allowed _ advance.call).2 trivial
  have reads := queue.reads underway advance
  constructor
  · exact queue.read_serial reads advance fun other begun => (alone other begun).1
  · rw [List.pairwise_append]
    refine ⟨queue.ordered.imp_of_mem ?_, List.pairwise_singleton _ _, ?_⟩
    · intro first second early late ordered
      rw [reads.numbers early, reads.numbers late]
      refine ⟨ordered.1, fun precedes => ordered.2 (precedes.earlier advance.history ?_)⟩
      exact (queue.serial.members first).mp early
    · intro first early last member
      obtain rfl := List.mem_singleton.mp member
      have begun := (queue.serial.members first).mp early
      obtain ⟨stored, apart⟩ := alone first begun
      rw [reads.number, reads.numbers early]
      refine ⟨queue.past first early stored unwrapped, fun precedes => apart ?_⟩
      exact precedes.earlier advance.history begun
  · intro other member
    rcases List.mem_append.mp member with early | last
    · rw [reads.numbers early]
      exact queue.unwrapped other early
    · rw [List.mem_singleton.mp last, reads.number]
      exact unwrapped
  · intro other member pending
    rcases List.mem_append.mp member with early | last
    · rw [reads.others other early] at pending ⊢
      rw [reads.counter]
      exact queue.current other early pending
    · rw [List.mem_singleton.mp last, reads.here, reads.counter]
  · intro other member stored
    rcases List.mem_append.mp member with early | last
    · rw [reads.numbers early, reads.counter]
      rw [reads.others other early] at stored
      exact queue.past other early stored
    · rw [List.mem_singleton.mp last, reads.here, reads.idle.2] at stored
      cases stored

end

/-- A task between its read and its store is the only one there. -/
theorem Queue.pending_unique {world : World ι L} {order : List ι} {first second : ι}
    (queue : Queue same ops start world order) (early : first ∈ order) (late : second ∈ order)
    (pending : (world.progress ops first).stored = false) (also : (world.progress ops second).stored = false) :
    first = second := by
  obtain ⟨front, whole, _⟩ := queue.serial.last ((queue.serial.members first).mp early) (by simp [pending])
  obtain ⟨others, again, _⟩ := queue.serial.last ((queue.serial.members second).mp late) (by simp [also])
  exact List.singleton_inj.mp (List.append_inj' (whole.symm.trans again) rfl).2

/-- A step leaves the counter alone, or it stores the number after the one that its task has read. -/
inductive Stores (ops : ι → TracedOp) (world next : World ι L) (task : ι) (order : List ι) : Prop where
  | nothing (counter : next.shared.machine.recordId = world.shared.machine.recordId)
      (stored : ∀ other, (next.progress ops other).stored = (world.progress ops other).stored)
  | number (member : task ∈ order) (pending : (world.progress ops task).stored = false)
      (stored : (next.progress ops task).stored = true)
      (read : world.number ops task = world.shared.machine.recordId.toInt)
      (counter : next.shared.machine.recordId.toInt = world.shared.machine.recordId.toInt + 1 ∨
        next.shared.machine.recordId.toInt = -2 ^ 31)

/-- Any other step keeps what was read. -/
theorem Queue.stores {world next : World ι L} {task : ι} {order : List ι} {c : Call} {reply : c.Reply}
    (queue : Queue same ops start world order)
    (advance : World.Advance env helpers ops task world next c reply) : Stores ops world next task order := by
  have traced := advance_traced advance
  rcases stored_next (ops task) (world.progress ops task) c reply with ⟨unchanged, counter⟩ | ⟨value, rfl⟩
  · refine .nothing (traced.counter.trans (counter _)) fun other => ?_
    by_cases this : other = task
    · rw [this, advance_here advance, unchanged]
    · rw [advance_others advance this]
  · obtain ⟨inside, _, _, recId, read, rfl⟩ := advance.permitted
    change (world.progress ops task).recId = some recId at read
    have pending : (world.progress ops task).stored = false := inside.2
    have member : task ∈ order := (queue.serial.members task).mpr (by rw [read]; exact nofun)
    have current := queue.current task member pending
    obtain rfl := Option.some.inj (read.symm.trans current)
    have number : world.number ops task = world.shared.machine.recordId.toInt := by
      rw [World.number, read]
      rfl
    refine .number member pending (by rw [advance_here advance]; rfl) number ?_
    rw [traced.counter]
    exact increment_toInt _

/-- A call that does not read the counter leaves the order of the tasks as it is. -/
theorem Queue.keep {world next : World ι L} {task : ι} {order : List ι} {c : Call} {reply : c.Reply}
    (queue : Queue same ops start world order) (delivers : c.Delivers helpers world.shared.machine)
    (elsewhere : c ≠ .tracer .recordId)
    (advance : World.Advance env helpers ops task world next c reply) : Queue same ops start next order := by
  have reads : ∀ other, (next.progress ops other).recId = (world.progress ops other).recId := by
    intro other
    by_cases this : other = task
    · rw [this, advance_here advance]
      exact (recId_next _ _ c reply).resolve_right elsewhere
    · rw [advance_others advance this]
  have numbers : ∀ other, next.number ops other = world.number ops other := by
    intro other
    rw [World.number, reads, World.number]
  constructor
  · rw [(advance_traced advance).file delivers]
    refine queue.serial.extend task ?_ ?_ ?_ ?_ ?_
    · exact fun other this => by rw [advance_others advance this]
    · rw [advance_written advance, List.flatten_append]
    · exact sends_inside advance.permitted
    · exact fun other => by rw [reads other]
    · intro other _ stored
      cases queue.stores advance with
      | nothing _ unchanged => rw [unchanged, stored]
      | number _ _ now _ _ =>
          by_cases this : other = task
          · rw [this, now]
          · rw [advance_others advance this, stored]
  · refine queue.ordered.imp_of_mem ?_
    intro first second early late ordered
    rw [numbers first, numbers second]
    refine ⟨ordered.1, fun precedes => ordered.2 (precedes.earlier advance.history ?_)⟩
    exact (queue.serial.members first).mp early
  · intro other member
    rw [numbers other]
    exact queue.unwrapped other member
  · intro other member pending
    rw [reads other]
    cases queue.stores advance with
    | nothing counter unchanged =>
        rw [unchanged] at pending
        rw [counter]
        exact queue.current other member pending
    | number inside before now _ _ =>
        by_cases this : other = task
        · rw [this, now] at pending
          exact nomatch pending
        · rw [advance_others advance this] at pending
          exact absurd (queue.pending_unique member inside pending before) this
  · intro other member stored
    rw [numbers other]
    cases queue.stores advance with
    | nothing counter unchanged =>
        rw [unchanged] at stored
        rw [counter]
        exact queue.past other member stored
    | number inside _ _ read counter =>
        intro unwrapped
        have larger := counter.resolve_right unwrapped
        by_cases this : other = task
        · rw [this, read, larger]
          omega
        · rw [advance_others advance this] at stored
          have before := queue.unwrapped task inside
          rw [read] at before
          have earlier := queue.past other member stored before
          omega

/-- A permitted step keeps the queue or makes it longer. -/
theorem Queue.step {world next : World ι L} {task : ι} {order : List ι} {c : Call} {reply : c.Reply}
    (underway : Underway ops start world) (queue : Queue same ops start world order)
    (allowed : world.Queued same helpers ops task)
    (advance : World.Advance env helpers ops task world next c reply) :
    ∃ longer, Queue same ops start next longer := by
  by_cases reads : c = .tracer .recordId
  · subst reads
    exact ⟨_, queue.read underway allowed advance⟩
  · exact ⟨order, queue.keep (allowed c advance.call).1 reads advance⟩

/-- A run whose steps are all permitted ends with a queue. -/
theorem queue_run {schedule : List ι} {last : World ι L}
    (obeys : Config.Obeys (handleShared env helpers) (World.Queued same helpers ops) schedule
      (World.begin ops start))
    (ran : World.run env helpers schedule (World.begin ops start) = some last) :
    Underway ops start last ∧ ∃ order, Queue same ops start last order := by
  have empty : Queue same ops start (World.begin ops start) [] :=
    { serial :=
        { nodup := List.nodup_nil
          members := fun _ => iff_of_false List.not_mem_nil (fun begun => begun rfl)
          file := (List.append_nil _).symm
          settled := nofun }
      ordered := List.Pairwise.nil
      unwrapped := nofun
      current := nofun
      past := nofun }
  refine underway_run (fun world => ∃ order, Queue same ops start world order) ?_ ⟨[], empty⟩ obeys ran
  intro world next task c reply underway before allowed advance
  obtain ⟨order, queue⟩ := before
  exact queue.step underway allowed advance

/-- The header of the record that a task has begun. -/
def World.header (ops : ι → TracedOp) (world : World ι L) (task : ι) : TraceDs :=
  TraceDs.view ((world.progress ops task).written.headD [])

/-- The records stand in the trace file one after the other with growing numbers. None of them comes before
a record whose operation took effect earlier on the same object. -/
def InOrder (same : LowerCall → LowerCall → Prop) (ops : ι → TracedOp) (start : Machine L)
    (world : World ι L) : Prop :=
  ∃ log : List ι, log.Nodup ∧ (∀ task, task ∈ log ↔ (world.progress ops task).written ≠ []) ∧
    world.shared.machine.traceFile =
      start.traceFile ++ log.flatMap (fun task => (world.progress ops task).written.flatten) ∧
    log.Pairwise fun first second =>
      (world.header ops first).recordId.toInt < (world.header ops second).recordId.toInt ∧
        ¬ world.Precedes same ops second first

/-- The header written carries the number read. -/
theorem Underway.header {world : World ι L} {task : ι} (underway : Underway ops start world)
    (begun : (world.progress ops task).written ≠ []) :
    (world.header ops task).recordId.toInt = world.number ops task := by
  obtain ⟨image, parts, written⟩ := List.exists_cons_of_ne_nil begun
  have read := (underway.regular task).numbered image parts written
  rw [World.header, World.number, written, read]
  rfl

/-- When the tasks queue for the counter, every state reached has its records in order. -/
theorem inOrder {schedule : List ι} {last : World ι L}
    (obeys : Config.Obeys (handleShared env helpers) (World.Queued same helpers ops) schedule
      (World.begin ops start))
    (ran : World.run env helpers schedule (World.begin ops start) = some last) :
    InOrder same ops start last := by
  obtain ⟨underway, order, queue⟩ := queue_run obeys ran
  refine ⟨order.filter fun task => (last.progress ops task).written ≠ [],
    queue.serial.nodup.filter _, ?_, ?_, ?_⟩
  · intro task
    rw [List.mem_filter, queue.serial.members, decide_eq_true_eq]
    exact and_iff_right_of_imp fun begun unread => begun ((underway.regular task).unwritten unread).1
  · rw [flatMap_filter, queue.serial.file]
    intro task unbegun
    rw [not_not.mp unbegun]
    rfl
  · refine (queue.ordered.filter _).imp_of_mem ?_
    intro first second early late ordered
    have one := of_decide_eq_true (List.mem_filter.mp early).2
    have two := of_decide_eq_true (List.mem_filter.mp late).2
    rw [underway.header one, underway.header two]
    exact ordered

end

/-- Two reads of the same lower file. -/
def sameFile : LowerCall → LowerCall → Prop
  | .vfsRead file .., .vfsRead other .. => file.inode = other.inode
  | _, _ => False

instance (c d : LowerCall) : Decidable (sameFile c d) := by
  unfold sameFile
  split <;> infer_instance

instance (c : Call) : Decidable c.ReadsCounter := by
  unfold Call.ReadsCounter
  split <;> infer_instance

instance (world : World Bool Unit) (first second : Bool) : Decidable (world.Precedes sameFile reads first second) :=
  inferInstanceAs (Decidable (∃ late < world.history.length, ∃ early < late,
    ∃ c ∈ world.effectAt reads first early, ∃ d ∈ world.effectAt reads second late, sameFile c d))

instance (helpers : Helpers) (world : World Bool Unit) (task : Bool) :
    Decidable (world.Queued sameFile helpers reads task) :=
  inferInstanceAs (Decidable (∀ c ∈ world.nextCall task, _))

/-- The first read stores the counter before the second one reads it. -/
theorem inOrder_reads : ∃ last,
    World.run (steady 0 2) reliable
      (List.replicate 2 false ++ List.replicate 7 true ++ List.replicate 19 false ++ List.replicate 17 true ++
        List.replicate 3 false) (World.begin reads freshMount) = some last ∧
      InOrder sameFile reads freshMount last := by
  have obeys : Config.Obeys (handleShared (steady 0 2) reliable) (World.Queued sameFile reliable reads)
      (List.replicate 2 false ++ List.replicate 7 true ++ List.replicate 19 false ++ List.replicate 17 true ++
        List.replicate 3 false) (World.begin reads freshMount) := by decide +kernel
  have runs : (World.run (steady 0 2) reliable
      (List.replicate 2 false ++ List.replicate 7 true ++ List.replicate 19 false ++ List.replicate 17 true ++
        List.replicate 3 false) (World.begin reads freshMount)).isSome := by decide +kernel
  obtain ⟨last, ran⟩ := Option.isSome_iff_exists.mp runs
  exact ⟨last, ran, inOrder obeys ran⟩

/-- Both reads find the same number in the counter, and both records carry it. -/
theorem inOrder_reads_fails : ∃ last,
    World.run (steady 0 2) reliable
      (List.replicate 9 false ++ List.replicate 9 true ++ List.replicate 15 false ++ List.replicate 15 true)
      (World.begin reads freshMount) = some last ∧ ¬ InOrder sameFile reads freshMount last := by
  have shows : (World.run (steady 0 2) reliable
      (List.replicate 9 false ++ List.replicate 9 true ++ List.replicate 15 false ++ List.replicate 15 true)
      (World.begin reads freshMount)).map
      (fun last => decide (∀ task, (last.progress reads task).written ≠ [] ∧
        (last.header reads task).recordId = 0)) = some true := by decide +kernel
  obtain ⟨last, ran, both⟩ := Option.map_eq_some_iff.mp shows
  have records := of_decide_eq_true both
  refine ⟨last, ran, ?_⟩
  rintro ⟨log, _, members, _, ordered⟩
  have one : false ∈ log := (members false).mpr (records false).1
  have two : true ∈ log := (members true).mpr (records true).1
  rcases log with _ | ⟨first, _ | ⟨second, rest⟩⟩
  · exact nomatch one
  · exact nomatch (List.mem_singleton.mp one).trans (List.mem_singleton.mp two).symm
  · have smaller := (List.rel_of_pairwise_cons ordered List.mem_cons_self).1
    rw [(records first).2, (records second).2] at smaller
    exact absurd smaller (lt_irrefl _)

end Trfs.Kernel
