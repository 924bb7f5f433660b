import Trfs.Proof.Kernel.Interleaved

namespace Trfs.Kernel
open Bytes Effect Trace

/-- The bytes of its record that an operation has not written yet. -/
def Progress.outstanding (op : TracedOp) (progress : Progress) : List Byte :=
  ((op.plan progress.answers).parts.drop (progress.written.length - 1)).flatten

/-- The header of the record is in the trace file, and bytes of the record are still to come. -/
def Progress.Unfinished (op : TracedOp) (progress : Progress) : Prop :=
  progress.inBlock ∧ progress.written ≠ [] ∧ progress.outstanding op ≠ []

instance (progress : Progress) : Decidable progress.inBlock := inferInstanceAs (Decidable (_ ∧ _))

instance (op : TracedOp) (progress : Progress) : Decidable (progress.Unfinished op) :=
  inferInstanceAs (Decidable (_ ∧ _))

section
variable {op : TracedOp} {progress : Progress}

/-- A record that is finished stays so. -/
theorem finished_next {c : Call} {reply : c.Reply} (regular : progress.Regular)
    (permitted : (protocol op).permits progress c) (begun : progress.written ≠ [])
    (finished : ¬ progress.Unfinished op) : ¬ ((protocol op).next progress c reply).Unfinished op := by
  cases c with
  | lower c => exact fun unfinished => permitted unfinished.1
  | upper c =>
      intro unfinished
      have read := permitted unfinished.1
      cases c <;> first | exact finished unfinished | exact read.elim
  | tracer c =>
      cases c with
      | mask =>
          have unread := regular.unread (by rw [permitted.1]; exact nofun)
          exact absurd (regular.unwritten unread).1 begun
      | vfsWrite file source count =>
          intro unfinished
          apply finished
          refine ⟨permitted.1, begun, fun nothing => unfinished.2.2 ?_⟩
          change ((op.plan progress.answers).parts.drop _).flatten = [] at nothing ⊢
          rw [List.flatten_eq_nil_iff] at nothing ⊢
          intro part member
          apply nothing part
          refine List.drop_subset_drop_left _ ?_ member
          rw [written_next, List.length_append]
          omega
      | setRecordId value => exact fun unfinished => nomatch unfinished.1.2
      | _ => exact finished
  | oops => exact Empty.elim reply
  | setMask value => exact permitted.elim
  | copyMaskToUser address => exact permitted.elim

/-- Bytes that come after the header were outstanding. -/
theorem sends_payload {c : Call} (permitted : (protocol op).permits progress c)
    (begun : progress.written ≠ []) (some : c.sends.flatten ≠ []) : progress.Unfinished op := by
  cases c with
  | tracer c =>
      cases c with
      | vfsWrite file source count =>
          obtain ⟨inside, _, recId, _, continues⟩ := permitted
          refine ⟨inside, begun, fun nothing => some ?_⟩
          obtain ⟨image, parts, written⟩ := List.exists_cons_of_ne_nil begun
          rw [written] at continues
          rw [Progress.outstanding, written, List.flatten_eq_nil_iff] at nothing
          have member : delivered source count ∈ (op.plan progress.answers).parts.drop parts.length := by
            apply List.mem_of_getElem? (i := 0)
            rw [List.getElem?_drop]
            exact continues
          have empty := nothing _ member
          simp only [Call.sends, List.flatten_cons, List.flatten_nil, List.append_nil]
          exact empty
      | _ => exact absurd rfl some
  | _ => exact absurd rfl some

end

section
variable {ι L : Type} [DecidableEq ι] {env : Environment L} {helpers : Helpers} {ops : ι → TracedOp}
  {start : Machine L}

/-- The step loses no byte of the trace file, and it begins no record while another one is unfinished. -/
def World.Apart (helpers : Helpers) (ops : ι → TracedOp) (world : World ι L) (task : ι) : Prop :=
  ∀ c ∈ world.nextCall task, c.Delivers helpers world.shared.machine ∧
    (c.sends ≠ [] → (world.progress ops task).written = [] →
      ∀ other, other ≠ task → ¬ (world.progress ops other).Unfinished (ops other))

/-- The records stand in the trace file one after the other, and all but the last are finished. -/
def Apart (ops : ι → TracedOp) (start : Machine L) (world : World ι L) (order : List ι) : Prop :=
  Serial start.traceFile world.shared.machine.traceFile
    (fun task => (world.progress ops task).written ≠ [])
    (fun task => ¬ (world.progress ops task).Unfinished (ops task))
    (fun task => (world.progress ops task).written.flatten) order

/-- So it does in every step of the world. -/
theorem Underway.stays_finished {world next : World ι L} {task other : ι} {c : Call} {reply : c.Reply}
    (underway : Underway ops start world) (advance : World.Advance env helpers ops task world next c reply)
    (begun : (world.progress ops other).written ≠ [])
    (finished : ¬ (world.progress ops other).Unfinished (ops other)) :
    ¬ (next.progress ops other).Unfinished (ops other) := by
  by_cases this : other = task
  · subst this
    rw [advance_here advance]
    exact finished_next (underway.regular other) advance.permitted begun finished
  · rw [advance_others advance this]
    exact finished

/-- The header of a new record comes after all the others. -/
theorem Apart.begins {world next : World ι L} {task : ι} {order : List ι} {c : Call} {reply : c.Reply}
    (underway : Underway ops start world) (apart : Apart ops start world order)
    (advance : World.Advance env helpers ops task world next c reply)
    (delivers : c.Delivers helpers world.shared.machine) (writes : c.sends ≠ [])
    (first : (world.progress ops task).written = [])
    (alone : ∀ other, other ≠ task → ¬ (world.progress ops other).Unfinished (ops other)) :
    Apart ops start next (order ++ [task]) := by
  unfold Apart
  rw [(advance_traced advance).file delivers]
  refine apart.join task ?_ ?_ ?_ ?_ ?_ fun _ => underway.stays_finished advance
  · exact fun other this => by rw [advance_others advance this]
  · rw [advance_written advance, first, List.nil_append]
  · exact fun begun => begun first
  · intro other begun
    apply alone other
    rintro rfl
    exact begun first
  · intro other
    by_cases this : other = task
    · subst this
      rw [advance_written advance, first]
      exact iff_of_true writes (.inl rfl)
    · rw [advance_others advance this]
      exact (or_iff_right this).symm

/-- Other calls leave the order of the records as it is, and bytes go to the last record only. -/
theorem Apart.continues {world next : World ι L} {task : ι} {order : List ι} {c : Call} {reply : c.Reply}
    (underway : Underway ops start world) (apart : Apart ops start world order)
    (advance : World.Advance env helpers ops task world next c reply)
    (delivers : c.Delivers helpers world.shared.machine)
    (within : (world.progress ops task).written = [] → c.sends = []) : Apart ops start next order := by
  unfold Apart
  rw [(advance_traced advance).file delivers]
  refine apart.extend task ?_ ?_ ?_ ?_ fun _ => underway.stays_finished advance
  · exact fun other this => by rw [advance_others advance this]
  · rw [advance_written advance, List.flatten_append]
  · intro some
    have begun : (world.progress ops task).written ≠ [] := by
      intro first
      rw [within first] at some
      exact some rfl
    exact ⟨begun, not_not_intro (sends_payload advance.permitted begun some)⟩
  · intro other
    by_cases this : other = task
    · subst this
      rw [advance_written advance]
      simp only [ne_eq, List.append_eq_nil_iff, not_and]
      exact ⟨fun longer first => longer first (within first), fun begun first => absurd first begun⟩
    · rw [advance_others advance this]

/-- A permitted step keeps the records apart. -/
theorem Apart.step {world next : World ι L} {task : ι} {order : List ι} {c : Call} {reply : c.Reply}
    (underway : Underway ops start world) (apart : Apart ops start world order)
    (allowed : world.Apart helpers ops task)
    (advance : World.Advance env helpers ops task world next c reply) :
    ∃ longer, Apart ops start next longer := by
  obtain ⟨delivers, alone⟩ := allowed c advance.call
  by_cases begins : c.sends ≠ [] ∧ (world.progress ops task).written = []
  · obtain ⟨writes, first⟩ := begins
    exact ⟨_, apart.begins underway advance delivers writes first (alone writes first)⟩
  · have within : (world.progress ops task).written = [] → c.sends = [] :=
      fun first => by_contra fun writes => begins ⟨writes, first⟩
    exact ⟨order, apart.continues underway advance delivers within⟩

/-- A run whose steps are all permitted ends with its records apart. -/
theorem apart_run {schedule : List ι} {last : World ι L}
    (obeys : Config.Obeys (handleShared env helpers) (World.Apart helpers ops) schedule (World.begin ops start))
    (ran : World.run env helpers schedule (World.begin ops start) = some last) :
    Underway ops start last ∧ ∃ order, Apart ops start last order := by
  have empty : Apart ops start (World.begin ops start) [] :=
    { nodup := List.nodup_nil
      members := fun _ => iff_of_false List.not_mem_nil (fun begun => begun rfl)
      file := (List.append_nil _).symm
      settled := nofun }
  refine underway_run (fun world => ∃ order, Apart ops start world order) ?_ ⟨[], empty⟩ obeys ran
  intro world next task c reply underway before allowed advance
  obtain ⟨order, apart⟩ := before
  exact apart.step underway allowed advance

/-- The replies that decide what the call of a task does. -/
def World.answers (world : World ι L) (task : ι) : Answers := answersOf (eventsOf world.history task)

/-- The record has the bytes that the plan of the operation asks for. -/
def Produces (op : TracedOp) (answers : Answers) (record : Record) : Prop :=
  (op.plan answers).Fits ∧ ∃ recId image, (op.plan answers).Images recId image ∧
    record = (op.plan answers).record image

/-- A finished call has written its whole record or nothing. -/
theorem Underway.finished {world : World ι L} {task : ι} {outcome : Outcome}
    (underway : Underway ops start world) (finished : world.threads task = .pure outcome) :
    ((world.progress ops task).written ≠ [] ↔
      (ops task).Reaches (world.answers task) ∧ bitSet start.mask (ops task).kind) ∧
    ((world.progress ops task).written ≠ [] → ∃ record, Produces (ops task) (world.answers task) record ∧
      record.bytes = (world.progress ops task).written.flatten) := by
  have ended := underway.follows task
  rw [finished] at ended
  have answers : (world.progress ops task).answers = world.answers task := protocol_answers (ops task) .start _
  have checked := underway.checked task
  change (ops task).Finished outcome (world.progress ops task) at ended
  obtain ⟨_, ⟨early, shape⟩ | ⟨reaches, shape | ⟨fits, recId, image, images, shape⟩⟩⟩ := ended
  · rw [answers] at early
    rw [shape]
    exact ⟨iff_of_false (fun begun => begun rfl) fun both => early both.1, fun begun => absurd rfl begun⟩
  · rw [shape] at checked ⊢
    have clear : ¬ bitSet start.mask (ops task).kind := fun set => nomatch (checked false rfl).mpr set
    exact ⟨iff_of_false (fun begun => begun rfl) fun both => clear both.2, fun begun => absurd rfl begun⟩
  · rw [answers] at reaches fits images shape
    rw [shape] at checked ⊢
    refine ⟨iff_of_true nofun ⟨reaches, (checked true rfl).mp rfl⟩, fun _ => ?_⟩
    exact ⟨_, ⟨fits, recId, image, images, rfl⟩, RecordPlan.record_bytes _ image⟩

/-- The trace file grew by whole records, one for each call that came to its block with its bit set. -/
def Untorn (ops : ι → TracedOp) (start : Machine L) (world : World ι L) : Prop :=
  ∃ (log : List ι) (record : ι → Record), log.Nodup ∧
    (∀ task, task ∈ log ↔ (ops task).Reaches (world.answers task) ∧ bitSet start.mask (ops task).kind) ∧
    (∀ task ∈ log, Produces (ops task) (world.answers task) (record task)) ∧
    world.shared.machine.traceFile = start.traceFile ++ log.flatMap fun task => (record task).bytes

/-- When no record begins inside another one, the tasks leave whole records. -/
theorem untorn {schedule : List ι} {last : World ι L}
    (obeys : Config.Obeys (handleShared env helpers) (World.Apart helpers ops) schedule (World.begin ops start))
    (ran : World.run env helpers schedule (World.begin ops start) = some last) (finished : last.Finished) :
    Untorn ops start last := by
  obtain ⟨underway, order, apart⟩ := apart_run obeys ran
  have known : ∀ task, ∃ record, (last.progress ops task).written ≠ [] →
      Produces (ops task) (last.answers task) record ∧
        record.bytes = (last.progress ops task).written.flatten := by
    intro task
    obtain ⟨outcome, ended⟩ := finished task
    by_cases begun : (last.progress ops task).written ≠ []
    · obtain ⟨record, produces⟩ := (underway.finished ended).2 begun
      exact ⟨record, fun _ => produces⟩
    · exact ⟨⟨[], [], [], []⟩, fun silly => absurd silly begun⟩
  choose record produced using known
  refine ⟨order, record, apart.nodup, fun task => ?_, fun task member => ?_, ?_⟩
  · obtain ⟨outcome, ended⟩ := finished task
    exact (apart.members task).trans (underway.finished ended).1
  · exact (produced task ((apart.members task).mp member)).1
  · rw [apart.file]
    congr 1
    apply List.flatMap_congr
    intro task member
    exact (produced task ((apart.members task).mp member)).2.symm

end

/-- Two tasks that read `/a` and `/b`. -/
def fileB : File := ⟨2, dentryB, 0⟩

def reads : Bool → TracedOp
  | false => .read fileA 0 2 0
  | true => .read fileB 0 2 0

/-- Two tasks without a next call have finished. -/
theorem reads_finished {world : World Bool Unit}
    (ended : world.nextCall false = none ∧ world.nextCall true = none) : world.Finished := by
  intro task
  rw [← Config.nextCall_eq_none]
  cases task
  · exact ended.1
  · exact ended.2

instance (helpers : Helpers) (state : Machine Unit) (c : Call) : Decidable (c.Delivers helpers state) := by
  unfold Call.Delivers
  split
  · unfold WriteOutcome.Delivers
    split <;> infer_instance
  · infer_instance

instance (helpers : Helpers) (world : World Bool Unit) (task : Bool) :
    Decidable (world.Apart helpers reads task) :=
  inferInstanceAs (Decidable (∀ c ∈ world.nextCall task, _))

/-- The reads run at the same time, but the second record begins when the first is in the file. -/
theorem untorn_reads : ∃ last,
    World.run (steady 0 2) reliable
      (List.replicate 18 false ++ List.replicate 17 true ++ [false] ++ List.replicate 7 true ++
        List.replicate 5 false) (World.begin reads freshMount) = some last ∧ Untorn reads freshMount last := by
  have obeys : Config.Obeys (handleShared (steady 0 2) reliable) (World.Apart reliable reads)
      (List.replicate 18 false ++ List.replicate 17 true ++ [false] ++ List.replicate 7 true ++
        List.replicate 5 false) (World.begin reads freshMount) := by decide +kernel
  have shows : (World.run (steady 0 2) reliable
      (List.replicate 18 false ++ List.replicate 17 true ++ [false] ++ List.replicate 7 true ++
        List.replicate 5 false) (World.begin reads freshMount)).map
      (fun last => decide ((last.nextCall false).isNone ∧ (last.nextCall true).isNone)) = some true := by
    decide +kernel
  obtain ⟨last, ran, ended⟩ := Option.map_eq_some_iff.mp shows
  simp only [Option.isNone_iff_eq_none, decide_eq_true_eq] at ended
  exact ⟨last, ran, untorn obeys ran (reads_finished ended)⟩

/-- The record of a single path has the header and that path. -/
theorem Produces.path {op : TracedOp} {answers : Answers} {record : Record}
    (produces : Produces op answers record) (single : op.path2 = .absent) :
    record.image.length = sizeofTraceDs ∧ record.path1 = op.path1.path.bytes := by
  obtain ⟨_, recId, image, images, rfl⟩ := produces
  have plan2 : (op.plan answers).path2 = .absent := single
  refine ⟨images.1, ?_⟩
  change (op.plan answers).part1 = _
  rw [RecordPlan.part1, plan2]
  rfl

/-- The header of the second read comes between the header and the path of the first. -/
theorem untorn_reads_fails : ∃ last,
    World.run (steady 0 2) reliable
      (List.replicate 18 false ++ List.replicate 18 true ++ List.replicate 6 false ++ List.replicate 6 true)
      (World.begin reads freshMount) = some last ∧ last.Finished ∧ ¬ Untorn reads freshMount last := by
  have shows : (World.run (steady 0 2) reliable
      (List.replicate 18 false ++ List.replicate 18 true ++ List.replicate 6 false ++ List.replicate 6 true)
      (World.begin reads freshMount)).map
      (fun last => (decide ((last.nextCall false).isNone ∧ (last.nextCall true).isNone),
        last.shared.machine.traceFile[sizeofTraceDs]?)) = some (true, some 2) := by decide +kernel
  obtain ⟨last, ran, both⟩ := Option.map_eq_some_iff.mp shows
  obtain ⟨ended, byte⟩ := Prod.mk.inj both
  simp only [Option.isNone_iff_eq_none, decide_eq_true_eq] at ended
  refine ⟨last, ran, reads_finished ended, ?_⟩
  rintro ⟨log, record, _, members, produces, file⟩
  have traced : false ∈ log := (members false).mpr ⟨trivial, by decide⟩
  cases log with
  | nil => exact nomatch traced
  | cons task rest =>
      obtain ⟨size, path⟩ := (produces task List.mem_cons_self).path (by cases task <;> rfl)
      have whole : last.shared.machine.traceFile = (record task).image ++ ((reads task).path1.path.bytes ++
          ((record task).path2 ++ (record task).content ++ rest.flatMap fun task => (record task).bytes)) := by
        rw [file, List.flatMap_cons, Record.bytes, Record.payload, path]
        simp only [List.append_assoc]
        rfl
      rw [whole, List.getElem?_append_right (Nat.le_of_eq size), size, Nat.sub_self] at byte
      cases task <;> exact absurd (Option.some.inj byte) (by decide)

end Trfs.Kernel
