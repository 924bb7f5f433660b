import Mathlib.Logic.Function.Basic
import Trfs.Proof.Replay.Issued

namespace Trfs.Replay
open Bytes Effect Trace

/-- An open descriptor was open before the replay, or the replay opened it at a path. -/
inductive Origin where
  | inherited
  | replayed (path : CString)
deriving DecidableEq

/-- The open descriptors of the process. -/
abbrev Descriptors := BitVec 32 → Option Origin

def Descriptors.next (table : Descriptors) : Event SystemCall.Reply → Descriptors
  | ⟨.open path _ _, fd⟩ => if BitVec.toInt fd < 0 then table else Function.update table fd (some (.replayed path))
  | ⟨.close fd, _⟩ => Function.update table fd none
  | _ => table

def Descriptors.after (table : Descriptors) (events : List (Event SystemCall.Reply)) : Descriptors :=
  events.foldl Descriptors.next table

/-- The system gives each successful open a number that is not in use. -/
def FreshOpen (table : Descriptors) : Event SystemCall.Reply → Prop
  | ⟨.open .., fd⟩ => BitVec.toInt fd < 0 ∨ table fd = none
  | _ => True

def FreshOpens (table : Descriptors) : List (Event SystemCall.Reply) → Prop
  | [] => True
  | event :: rest => FreshOpen table event ∧ FreshOpens (table.next event) rest

/-- The descriptor that a call reads, writes or closes. -/
def SystemCall.descriptor : SystemCall → Option (BitVec 32)
  | .read fd _ | .write fd _ | .close fd => some fd
  | _ => none

/-- The descriptor was opened at the path and is still open. If the path has no such descriptor, this one is
not open at all. -/
def Own (table : Descriptors) (path : CString) (fd : BitVec 32) : Prop :=
  table fd = some (.replayed path) ∨ (table fd = none ∧ ∀ other, table other ≠ some (.replayed path))

/-- The calls of a replay in their order. -/
def eventsOf {σ : Type} (reports : List (Replayed σ)) : List (Event SystemCall.Reply) :=
  reports.flatMap fun report => report.done.events

/-- Each record reads, writes and closes a descriptor of its own path. -/
def UsesOwn {σ : Type} (start : Descriptors) (reports : List (Replayed σ)) : Prop :=
  ∀ front report back, reports = front ++ report :: back → ∀ event ∈ report.done.events,
    ∀ fd ∈ event.call.descriptor, Own (start.after (eventsOf front)) (fullPath report.args.path1) fd

/-- The number that a successful open returned. -/
def openedNumber : Event SystemCall.Reply → Option (BitVec 32)
  | ⟨.open .., fd⟩ => if BitVec.toInt fd < 0 then none else some fd
  | _ => none

/-- The number that the replayed open or create of a record returned. -/
def Replayed.opened {σ : Type} (report : Replayed σ) : Option (BitVec 32) :=
  report.done.events.findSome? openedNumber

/-- The last number that an OPEN returned, the path that is open there, and the paths that are open elsewhere. -/
structure Holding where
  number : BitVec 32
  current : Option CString
  left : List CString

def Holding.start : Holding := ⟨-1, none, []⟩

/-- An OPEN leaves what is open behind, a RELEASE closes it, and a CREATE opens a descriptor that nothing uses
unless it gets the number of the last OPEN. -/
def Holding.next (holding : Holding) (args : ReplayArgs) (opened : Option (BitVec 32)) : Holding :=
  match args.kind, opened with
  | some .open, some fd => ⟨fd, some args.path1, holding.left ++ holding.current.toList⟩
  | some .create, some fd =>
      if fd = holding.number then { holding with current := some args.path1 }
      else { holding with left := holding.left ++ [args.path1] }
  | some .release, _ => { holding with current := none }
  | _, _ => holding

/-- The path of a READ, WRITE or RELEASE is the open one, or neither it nor anything else is open. -/
def Holding.Suits (holding : Holding) (args : ReplayArgs) : Prop :=
  args.kind = some .read ∨ args.kind = some .write ∨ args.kind = some .release →
    holding.current = some args.path1 ∨ (holding.current = none ∧ args.path1 ∉ holding.left)

/-- Each record of the replay suits what the records before it hold open. -/
def Suited {σ : Type} : List (Replayed σ) → Holding → Prop
  | [], _ => True
  | report :: rest, holding =>
      holding.Suits report.args ∧ Suited rest (holding.next report.args report.opened)

instance (table : Descriptors) (event : Event SystemCall.Reply) : Decidable (FreshOpen table event) := by
  rcases event with ⟨c, reply⟩
  cases c <;> unfold FreshOpen <;> infer_instance

instance (holding : Holding) (args : ReplayArgs) : Decidable (holding.Suits args) := by
  unfold Holding.Suits
  infer_instance

instance decidableFreshOpens (table : Descriptors) :
    (events : List (Event SystemCall.Reply)) → Decidable (FreshOpens table events)
  | [] => inferInstanceAs (Decidable True)
  | event :: rest =>
      have := decidableFreshOpens (table.next event) rest
      inferInstanceAs (Decidable (FreshOpen table event ∧ FreshOpens (table.next event) rest))

instance decidableSuited {σ : Type} :
    (reports : List (Replayed σ)) → (holding : Holding) → Decidable (Suited reports holding)
  | [], _ => inferInstanceAs (Decidable True)
  | report :: rest, holding =>
      have := decidableSuited rest (holding.next report.args report.opened)
      inferInstanceAs (Decidable (holding.Suits report.args ∧ Suited rest (holding.next report.args report.opened)))

/-- The holding describes the descriptors of the process. -/
structure Describes (table : Descriptors) (fd : BitVec 32) (holding : Holding) : Prop where
  number : holding.number = fd
  current : table fd = holding.current.map fun path => .replayed (fullPath path)
  left : ∀ path, path ∈ holding.left ↔ ∃ other, other ≠ fd ∧ table other = some (.replayed (fullPath path))

section
variable {table : Descriptors} {args : ReplayArgs} {fd : BitVec 32} {holding : Holding}

/-- The table takes one list of events after the other. -/
theorem Descriptors.after_append (table : Descriptors) (first second : List (Event SystemCall.Reply)) :
    table.after (first ++ second) = (table.after first).after second := List.foldl_append

/-- The output of a record does not matter for the descriptors. -/
theorem Descriptors.after_filter (table : Descriptors) (events : List (Event SystemCall.Reply)) :
    table.after (events.filter isSystem) = table.after events := by
  induction events generalizing table with
  | nil => rfl
  | cons event rest ih =>
      by_cases system : isSystem event
      · rw [List.filter_cons_of_pos system]
        exact ih (table.next event)
      · rw [List.filter_cons_of_neg system, ih]
        rcases event with ⟨c, reply⟩
        cases c with
        | printf text => rfl
        | _ => exact absurd rfl system

/-- Different paths have different full paths. -/
theorem fullPath_inj {first second : CString} : fullPath first = fullPath second ↔ first = second :=
  ⟨CString.append_left_cancel, fun same => by rw [same]⟩

/-- A descriptor is its record's own exactly when the holding suits the record. -/
theorem Describes.own_iff (describes : Describes table fd holding) (path : CString) :
    Own table (fullPath path) fd ↔ holding.current = some path ∨ (holding.current = none ∧ path ∉ holding.left) := by
  have here : table fd = some (.replayed (fullPath path)) ↔ holding.current = some path := by
    rw [describes.current, Option.map_eq_some_iff]
    simp [fullPath_inj]
  have closed : table fd = none ↔ holding.current = none := by
    rw [describes.current, Option.map_eq_none_iff]
  rw [Own, here, closed]
  apply or_congr_right
  apply and_congr_right
  intro nothing
  rw [describes.left path]
  constructor
  · rintro nowhere ⟨other, _, there⟩
    exact nowhere other there
  · intro nowhere other there
    by_cases this : other = fd
    · rw [this, closed.mpr nothing] at there
      exact nomatch there
    · exact nowhere ⟨other, this, there⟩

/-- A free number is not one in the table. -/
theorem apart_of_free {number place : BitVec 32} {origin : Origin} (free : table number = none)
    (there : table place = some origin) : place ≠ number := by
  rintro rfl
  rw [free] at there
  cases there

/-- A successful open moves the replay to a new descriptor. -/
theorem Describes.opens (describes : Describes table fd holding) {number : BitVec 32} (path : CString)
    (free : table number = none) :
    Describes (Function.update table number (some (.replayed (fullPath path)))) number
      ⟨number, some path, holding.left ++ holding.current.toList⟩ where
  number := rfl
  current := Function.update_self ..
  left other := by
    rw [List.mem_append, Option.mem_toList, describes.left]
    constructor
    · rintro (⟨place, _, there⟩ | current)
      · have apart := apart_of_free free there
        exact ⟨place, apart, by rw [Function.update_of_ne apart, there]⟩
      · have there : table fd = some (.replayed (fullPath other)) := by
          rw [describes.current, Option.mem_def.mp current]
          rfl
        have apart := apart_of_free free there
        exact ⟨fd, apart, by rw [Function.update_of_ne apart, there]⟩
    · rintro ⟨place, apart, there⟩
      rw [Function.update_of_ne apart] at there
      by_cases this : place = fd
      · right
        rw [this, describes.current] at there
        obtain ⟨path', current, same⟩ := Option.map_eq_some_iff.mp there
        rw [← fullPath_inj.mp (Origin.replayed.inj same)]
        exact current
      · exact .inl ⟨place, this, there⟩

/-- A create opens a descriptor that the replay does not use, unless it gets the number that is in use. -/
theorem Describes.creates (describes : Describes table fd holding) {number : BitVec 32} (path : CString)
    (free : table number = none) :
    Describes (Function.update table number (some (.replayed (fullPath path)))) fd
      (if number = holding.number then { holding with current := some path }
        else { holding with left := holding.left ++ [path] }) := by
  rw [describes.number]
  by_cases same : number = fd
  · subst same
    rw [if_pos rfl]
    refine ⟨rfl, Function.update_self .., fun other => ?_⟩
    rw [describes.left]
    apply exists_congr
    intro place
    apply and_congr_right
    intro apart
    rw [Function.update_of_ne apart]
  · rw [if_neg same]
    refine ⟨rfl, ?_, fun other => ?_⟩
    · rw [Function.update_of_ne (Ne.symm same)]
      exact describes.current
    · rw [List.mem_append, List.mem_singleton, describes.left]
      constructor
      · rintro (⟨place, apart, there⟩ | rfl)
        · have distinct := apart_of_free free there
          exact ⟨place, apart, by rw [Function.update_of_ne distinct, there]⟩
        · exact ⟨number, same, Function.update_self ..⟩
      · rintro ⟨place, apart, there⟩
        by_cases this : place = number
        · rw [this, Function.update_self] at there
          exact .inr (fullPath_inj.mp (Origin.replayed.inj (Option.some.inj there))).symm
        · rw [Function.update_of_ne this] at there
          exact .inl ⟨place, apart, there⟩

/-- Closing the current descriptor leaves none. -/
theorem Describes.closes (describes : Describes table fd holding) :
    Describes (Function.update table fd none) fd { holding with current := none } where
  number := describes.number
  current := Function.update_self ..
  left path := by
    rw [describes.left]
    apply exists_congr
    intro place
    apply and_congr_right
    intro apart
    rw [Function.update_of_ne apart]

/-- Only system calls open descriptors. -/
theorem opened_filter (events : List (Event SystemCall.Reply)) :
    (events.filter isSystem).findSome? openedNumber = events.findSome? openedNumber := by
  induction events with
  | nil => rfl
  | cons event rest ih =>
      by_cases system : isSystem event
      · rw [List.filter_cons_of_pos system, List.findSome?_cons, List.findSome?_cons, ih]
      · have silent : openedNumber event = none := by
          rcases event with ⟨c, reply⟩
          cases c with
          | printf text => rfl
          | _ => exact absurd rfl system
        rw [List.filter_cons_of_neg system, ih, List.findSome?_cons, silent]

/-- Fresh opens are fresh in both parts of a run. -/
theorem FreshOpens.split {first second : List (Event SystemCall.Reply)} (fresh : FreshOpens table (first ++ second)) :
    FreshOpens table first ∧ FreshOpens (table.after first) second := by
  induction first generalizing table with
  | nil => exact ⟨trivial, fresh⟩
  | cons event first ih =>
      obtain ⟨now, later⟩ := ih fresh.2
      exact ⟨⟨fresh.1, now⟩, later⟩

/-- The one system call of a record finds the descriptors as they were before the record. -/
theorem FreshOpens.here {events : List (Event SystemCall.Reply)} {event : Event SystemCall.Reply}
    (fresh : FreshOpens table events) (only : events.filter isSystem = [event]) : FreshOpen table event := by
  obtain ⟨front, back, split, silent, _⟩ := List.filter_eq_cons_iff.mp only
  rw [split] at fresh
  have now := fresh.split.2.1
  rw [← Descriptors.after_filter, List.filter_eq_nil_iff.mpr silent] at now
  exact now

section
variable {σ : Type} {handler : Handler SystemCall.Reply σ} {state : σ}

attribute [local simp] Descriptors.after Descriptors.next ReplayArgs.outcome Holding.next openedNumber SystemCall.errval

/-- The replay of one record keeps the description. -/
theorem Describes.step (report : Replayed σ) (describes : Describes table fd holding)
    (replays : Replays fd report.args report.done) (fresh : FreshOpens table report.done.events) :
    Describes (table.after report.done.events) report.done.value.1 (holding.next report.args report.opened) := by
  rw [Replayed.opened, ← opened_filter, ← Descriptors.after_filter]
  cases replays with
  | silent kind events value =>
      have kept : holding.next report.args ([].findSome? openedNumber) = holding := by simp [Holding.next, kind]
      rw [events, value, kept]
      exact describes
  | call c reply request events value =>
      have free := fresh.here events
      rw [events, value]
      unfold ReplayArgs.request at request
      cases kind : report.args.kind with
      | none =>
          rw [kind] at request
          cases request
      | some call =>
          rw [kind] at request
          cases call with
          | «open» =>
              obtain rfl := Option.some.inj request
              by_cases failed : BitVec.toInt reply < 0
              · simpa [kind, failed] using describes
              · have opened := describes.opens report.args.path1 (free.resolve_left failed)
                simpa [kind, failed] using opened
          | create =>
              obtain rfl := Option.some.inj request
              by_cases failed : BitVec.toInt reply < 0
              · simpa [kind, failed] using describes
              · have created := describes.creates report.args.path1 (free.resolve_left failed)
                simpa [kind, failed] using created
          | release =>
              obtain rfl := Option.some.inj request
              simpa [kind] using describes.closes
          | write =>
              obtain ⟨content, _, rfl⟩ := Option.map_eq_some_iff.mp request
              simpa [kind] using describes
          | _ =>
              obtain rfl := Option.some.inj request
              simpa [kind] using describes

/-- The calls of one record use its own descriptor exactly when the holding suits it. -/
theorem Describes.suits_iff (report : Replayed σ) (describes : Describes table fd holding)
    (replays : Replays fd report.args report.done) :
    (∀ event ∈ report.done.events, ∀ used ∈ event.call.descriptor, Own table (fullPath report.args.path1) used) ↔
      holding.Suits report.args := by
  have system : ∀ event ∈ report.done.events, ∀ used ∈ event.call.descriptor, isSystem event := by
    rintro ⟨c, reply⟩ _ used found
    cases c with
    | printf text => exact nomatch found
    | _ => rfl
  cases replays with
  | silent kind events value =>
      apply iff_of_true
      · intro event member used found
        exact absurd (system event member used found) (List.filter_eq_nil_iff.mp events event member)
      · simp [Holding.Suits, kind]
  | call c reply request events value =>
      have only : ∀ event ∈ report.done.events, ∀ used ∈ event.call.descriptor, event = ⟨c, reply⟩ := by
        intro event member used found
        have listed := List.mem_filter.mpr ⟨member, system event member used found⟩
        rw [events] at listed
        exact List.mem_singleton.mp listed
      have here : (⟨c, reply⟩ : Event SystemCall.Reply) ∈ report.done.events := by
        apply List.mem_of_mem_filter (p := isSystem)
        rw [events]
        exact List.mem_singleton_self _
      have all : (∀ event ∈ report.done.events, ∀ used ∈ event.call.descriptor,
          Own table (fullPath report.args.path1) used) ↔
            ∀ used ∈ c.descriptor, Own table (fullPath report.args.path1) used := by
        constructor
        · intro every
          exact every _ here
        · intro one event member used found
          rw [only event member used found] at found
          exact one used found
      have uses : c.descriptor = if report.args.kind = some .read ∨ report.args.kind = some .write ∨
          report.args.kind = some .release then some fd else none := by
        unfold ReplayArgs.request at request
        cases kind : report.args.kind with
        | none =>
            rw [kind] at request
            cases request
        | some call =>
            rw [kind] at request
            cases call with
            | write =>
                obtain ⟨content, _, rfl⟩ := Option.map_eq_some_iff.mp request
                rfl
            | _ =>
                obtain rfl := Option.some.inj request
                rfl
      rw [all, uses, Holding.Suits, ← describes.own_iff]
      split
      · rename_i moves
        simp [moves]
      · rename_i other
        simp [other]

/-- The events of a run are those of the first record, then those of the rest. -/
theorem eventsOf_cons (report : Replayed σ) (rest : List (Replayed σ)) :
    eventsOf (report :: rest) = report.done.events ++ eventsOf rest := List.flatMap_cons

/-- A run uses its own descriptors if and only if the first record and the rest do. -/
theorem usesOwn_cons (report : Replayed σ) (rest : List (Replayed σ)) :
    UsesOwn table (report :: rest) ↔
      (∀ event ∈ report.done.events, ∀ used ∈ event.call.descriptor, Own table (fullPath report.args.path1) used) ∧
        UsesOwn (table.after report.done.events) rest := by
  constructor
  · intro uses
    refine ⟨uses [] report rest rfl, fun front other back split => ?_⟩
    have later := uses (report :: front) other back (by rw [split]; rfl)
    rw [eventsOf_cons, Descriptors.after_append] at later
    exact later
  · rintro ⟨now, later⟩ front other back split
    cases front with
    | nil =>
        obtain ⟨rfl, rfl⟩ := List.cons.inj split
        exact now
    | cons first front =>
        obtain ⟨rfl, rest⟩ := List.cons.inj split
        rw [eventsOf_cons, Descriptors.after_append]
        exact later front other back rest

/-- Records use their own descriptors if and only if they suit what is held. -/
theorem usesOwn_suited {trace : List ReplayArgs} {reports : List (Replayed σ)}
    (ran : replayRun handler trace fd state = some reports) (describes : Describes table fd holding)
    (fresh : FreshOpens table (eventsOf reports)) : UsesOwn table reports ↔ Suited reports holding := by
  induction trace generalizing fd state reports table holding with
  | nil =>
      obtain rfl := Option.some.inj ran
      refine iff_of_true ?_ trivial
      intro front report back split
      cases front <;> cases split
  | cons args rest ih =>
      obtain ⟨done, first, later⟩ := Option.bind_eq_some_iff.mp ran
      obtain ⟨others, continued, rfl⟩ := Option.map_eq_some_iff.mp later
      have replays := replayRecord_replays first
      rw [eventsOf_cons] at fresh
      obtain ⟨now, remaining⟩ := fresh.split
      have next := describes.step ⟨args, fd, state, done⟩ replays now
      rw [usesOwn_cons, Suited, describes.suits_iff ⟨args, fd, state, done⟩ replays,
        ih continued next remaining]

/-- A replay uses the right descriptors exactly when each record suits what the records before it hold open. -/
theorem usesOwn_iff {trace : List ReplayArgs} {reports : List (Replayed σ)}
    (ran : replayRun handler trace (-1) state = some reports)
    (inherited : ∀ number origin, table number = some origin → origin = .inherited ∧ 0 ≤ number.toInt)
    (fresh : FreshOpens table (eventsOf reports)) : UsesOwn table reports ↔ Suited reports .start := by
  have describes : Describes table (-1) .start := by
    constructor
    · rfl
    · cases found : table (-1) with
      | none => rfl
      | some origin => exact absurd (inherited _ _ found).2 (by decide)
    · intro path
      refine iff_of_false List.not_mem_nil ?_
      rintro ⟨other, _, there⟩
      cases (inherited _ _ there).1
  exact usesOwn_suited ran describes fresh

end

end

/-- A system whose opens all succeed. Its state is the next number that it gives. -/
def openSystem : Handler SystemCall.Reply (BitVec 32)
  | .printf _, number => some ((), number)
  | .open .., number => some (number, number + 1)
  | .read .., number | .write .., number => some (0, number)
  | .close _, number | .link .., number | .unlink _, number | .symlink .., number | .mkdir .., number
  | .rmdir _, number | .mknod .., number | .rename .., number => some (0, number)
  | .fault, _ => none

/-- The standard streams and the trace file. -/
def standard : Descriptors := fun fd => if fd.toNat < 4 then some .inherited else none

/-- The standard descriptors are inherited. -/
theorem standard_inherited (number : BitVec 32) (origin : Origin) (found : standard number = some origin) :
    origin = .inherited ∧ 0 ≤ number.toInt := by
  simp only [standard] at found
  split at found
  · rename_i small
    have value : number.toInt = number.toNat := BitVec.toInt_eq_toNat_of_lt (by omega)
    exact ⟨(Option.some.inj found).symm, by omega⟩
  · cases found

/-- A successful record of the given type. -/
def plainRecord (kind : CallKind) (path : CString) : ReplayArgs where
  tracer := ⟨2, 0, 0, 0, kind.recordType, 0, 0, 0⟩
  path1 := path
  path2 := none
  content := some ⟨[], by decide⟩

/-- The paths `/a` and `/b`. -/
def pathA : CString := ⟨ascii "/a", by decide⟩
def pathB : CString := ⟨ascii "/b", by decide⟩

/-- Two files that are open one after the other. -/
def oneByOne : List ReplayArgs :=
  [plainRecord .open pathA, plainRecord .read pathA, plainRecord .release pathA, plainRecord .open pathB,
    plainRecord .write pathB, plainRecord .release pathB]

/-- Sessions that do not overlap use their own descriptors. -/
theorem usesOwn_oneByOne : ∃ reports, replayRun openSystem oneByOne (-1) 4 = some reports ∧
    UsesOwn standard reports := by
  have shows : (replayRun openSystem oneByOne (-1) 4).map (fun reports =>
      (decide (FreshOpens standard (eventsOf reports)), decide (Suited reports .start))) = some (true, true) := by
    decide +kernel
  obtain ⟨reports, ran, seen⟩ := Option.map_eq_some_iff.mp shows
  obtain ⟨fresh, suited⟩ := Prod.mk.inj seen
  have uses := (usesOwn_iff ran standard_inherited (of_decide_eq_true fresh)).mpr (of_decide_eq_true suited)
  exact ⟨reports, ran, uses⟩

/-- Two files that are open at the same time. -/
def bothOpen : List ReplayArgs := [plainRecord .open pathA, plainRecord .open pathB, plainRecord .read pathA]

/-- What the third record reads is open at its own path or not open. -/
def thirdReadsOwn : List (Replayed (BitVec 32)) → Bool
  | [first, second, third] => third.done.events.all fun event => event.call.descriptor.all fun used =>
      (standard.after (eventsOf [first, second])) used = some (.replayed (fullPath pathA)) ||
        (standard.after (eventsOf [first, second])) used = none
  | _ => true

/-- The read of `/a` is replayed on the descriptor of `/b`. -/
theorem usesOwn_bothOpen_fails : ∃ reports, replayRun openSystem bothOpen (-1) 4 = some reports ∧
    FreshOpens standard (eventsOf reports) ∧ ¬ UsesOwn standard reports := by
  have shows : (replayRun openSystem bothOpen (-1) 4).map (fun reports =>
      (decide (FreshOpens standard (eventsOf reports)), reports.map (fun report => report.args.path1),
        thirdReadsOwn reports)) = some (true, [pathA, pathB, pathA], false) := by decide +kernel
  obtain ⟨reports, ran, seen⟩ := Option.map_eq_some_iff.mp shows
  obtain ⟨fresh, seen⟩ := Prod.mk.inj seen
  obtain ⟨paths, other⟩ := Prod.mk.inj seen
  refine ⟨reports, ran, of_decide_eq_true fresh, fun uses => ?_⟩
  obtain ⟨first, second, third, rfl⟩ : ∃ first second third, reports = [first, second, third] := by
    match reports, paths with
    | [first, second, third], _ => exact ⟨first, second, third, rfl⟩
  have path : third.args.path1 = pathA := by
    simp only [List.map_cons, List.map_nil, List.cons.injEq] at paths
    exact paths.2.2.1
  have own : thirdReadsOwn [first, second, third] = true := by
    simp only [thirdReadsOwn, List.all_eq_true]
    intro event member
    rw [Option.all_eq_true]
    intro used found
    have here := uses [first, second] third [] rfl event member used found
    rw [path] at here
    rcases here with here | ⟨closed, _⟩
    · simp [here]
    · simp [closed]
  rw [own] at other
  cases other

end Trfs.Replay
