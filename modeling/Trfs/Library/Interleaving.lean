/-
This file runs several programs on one state. One call at a time happens, in any order of the threads.
-/

import Mathlib.Data.List.Infix
import Mathlib.Data.List.Nodup
import Mathlib.Logic.Function.Basic
import Trfs.Library.Program

namespace Effect

/-- The threads of a concurrent run, the state that they share, and the calls made so far. -/
structure Config {Call : Type} (Reply : Call → Type) (ι σ α : Type) where
  shared : σ
  threads : ι → Program Reply α
  history : List (ι × Event Reply)

section
variable {Call ι σ α Q : Type} {Reply : Call → Type} [DecidableEq ι]

/-- The calls of one thread in their order. -/
def eventsOf (history : List (ι × Event Reply)) (thread : ι) : List (Event Reply) :=
  history.filterMap fun entry => if entry.1 = thread then some entry.2 else none

/-- One more event of a thread is its last one. -/
theorem eventsOf_append_same (history : List (ι × Event Reply)) (thread : ι) (event : Event Reply) :
    eventsOf (history ++ [(thread, event)]) thread = eventsOf history thread ++ [event] := by
  simp [eventsOf]

/-- An event of another thread is none of its own. -/
theorem eventsOf_append_other (history : List (ι × Event Reply)) {thread other : ι} (event : Event Reply)
    (distinct : other ≠ thread) :
    eventsOf (history ++ [(thread, event)]) other = eventsOf history other := by
  simp [eventsOf, distinct.symm]

/-- The call that a thread makes next. A finished thread makes none. -/
def Config.nextCall (config : Config Reply ι σ α) (thread : ι) : Option Call :=
  match config.threads thread with
  | .pure _ => none
  | .call c _ => some c

omit [DecidableEq ι] in
/-- A thread without a next call has returned. -/
theorem Config.nextCall_eq_none {config : Config Reply ι σ α} {thread : ι} :
    config.nextCall thread = none ↔ ∃ value, config.threads thread = .pure value := by
  unfold Config.nextCall
  cases config.threads thread <;> simp

/-- The next call of one thread. It has to wait while the handler gives no answer. -/
def Config.step (handler : ι → Handler Reply σ) (thread : ι) (config : Config Reply ι σ α) :
    Option (Config Reply ι σ α) :=
  match config.threads thread with
  | .pure _ => none
  | .call c next => (handler thread c config.shared).map fun (reply, after) =>
      { shared := after
        threads := Function.update config.threads thread (next reply)
        history := config.history ++ [(thread, ⟨c, reply⟩)] }

/-- The threads make their calls in the order of the schedule. -/
def Config.run (handler : ι → Handler Reply σ) :
    List ι → Config Reply ι σ α → Option (Config Reply ι σ α)
  | [], config => some config
  | thread :: rest, config => (config.step handler thread).bind (Config.run handler rest)

/-- Each step of the schedule satisfies the condition where it happens. -/
def Config.Obeys (handler : ι → Handler Reply σ) (allowed : Config Reply ι σ α → ι → Prop) :
    List ι → Config Reply ι σ α → Prop
  | [], _ => True
  | thread :: rest, config => allowed config thread ∧
      ∀ next ∈ config.step handler thread, Config.Obeys handler allowed rest next

instance Config.decidableObeys (handler : ι → Handler Reply σ) (allowed : Config Reply ι σ α → ι → Prop)
    [∀ config thread, Decidable (allowed config thread)] (schedule : List ι) (config : Config Reply ι σ α) :
    Decidable (config.Obeys handler allowed schedule) :=
  match schedule with
  | [] => inferInstanceAs (Decidable True)
  | thread :: rest =>
      have : DecidablePred (Config.Obeys handler allowed rest) :=
        fun next => Config.decidableObeys handler allowed rest next
      inferInstanceAs (Decidable (allowed config thread ∧
        ∀ next ∈ config.step handler thread, Config.Obeys handler allowed rest next))

/-- What every allowed step keeps, a whole run keeps. -/
theorem Config.run_keeps {handler : ι → Handler Reply σ} {allowed : Config Reply ι σ α → ι → Prop}
    {kept : Config Reply ι σ α → Prop}
    (step : ∀ config thread next, kept config → allowed config thread →
      config.step handler thread = some next → kept next)
    {schedule : List ι} {first last : Config Reply ι σ α} (start : kept first)
    (obeys : first.Obeys handler allowed schedule) (ran : first.run handler schedule = some last) :
    kept last := by
  induction schedule generalizing first with
  | nil =>
      obtain rfl := Option.some.inj ran
      exact start
  | cons thread rest ih =>
      obtain ⟨next, stepped, continued⟩ := Option.bind_eq_some_iff.mp ran
      exact ih (step first thread next start obeys.1 stepped) (obeys.2 next stepped) continued

/-- A condition that always holds is obeyed. -/
theorem Config.obeys_always (handler : ι → Handler Reply σ) (schedule : List ι) (config : Config Reply ι σ α) :
    config.Obeys handler (fun _ _ => True) schedule := by
  induction schedule generalizing config with
  | nil => trivial
  | cons thread rest ih => exact ⟨trivial, fun next _ => ih next⟩

/-- What every step keeps, every run keeps. -/
theorem Config.run_invariant {handler : ι → Handler Reply σ} {kept : Config Reply ι σ α → Prop}
    (step : ∀ config thread next, kept config → config.step handler thread = some next → kept next)
    {schedule : List ι} {first last : Config Reply ι σ α} (start : kept first)
    (ran : first.run handler schedule = some last) : kept last :=
  Config.run_keeps (fun config thread next before _ => step config thread next before) start
    (Config.obeys_always handler schedule first) ran

/-- How far each thread has come according to its own monitor. -/
def Config.progress (monitor : ι → Monitor Reply Q) (origin : ι → Q) (config : Config Reply ι σ α)
    (thread : ι) : Q := (monitor thread).after (origin thread) (eventsOf config.history thread)

/-- The rest of every thread keeps to the monitor of the thread. -/
def Config.Follows (monitor : ι → Monitor Reply Q) (post : ι → α → Q → Prop) (origin : ι → Q)
    (config : Config Reply ι σ α) : Prop :=
  ∀ thread, (config.threads thread).Meets (monitor thread) (post thread)
    (config.progress monitor origin thread)

/-- Everything that one step does to a configuration whose threads follow their monitors. -/
structure Config.Advance (handler : ι → Handler Reply σ) (monitor : ι → Monitor Reply Q) (origin : ι → Q)
    (thread : ι) (config next : Config Reply ι σ α) (c : Call) (reply : Reply c) : Prop where
  call : config.nextCall thread = some c
  answered : handler thread c config.shared = some (reply, next.shared)
  permitted : (monitor thread).permits (config.progress monitor origin thread) c
  history : next.history = config.history ++ [(thread, ⟨c, reply⟩)]
  here : next.progress monitor origin thread =
    (monitor thread).next (config.progress monitor origin thread) c reply
  others : ∀ other, other ≠ thread → next.progress monitor origin other = config.progress monitor origin other

/-- A step keeps every thread in its monitor. -/
theorem Config.Follows.step {handler : ι → Handler Reply σ} {monitor : ι → Monitor Reply Q}
    {post : ι → α → Q → Prop} {origin : ι → Q} {thread : ι} {config next : Config Reply ι σ α}
    (follows : config.Follows monitor post origin) (stepped : config.step handler thread = some next) :
    next.Follows monitor post origin ∧
      ∃ c reply, Config.Advance handler monitor origin thread config next c reply := by
  have meets := follows thread
  cases program : config.threads thread with
  | pure value =>
      simp only [Config.step, program] at stepped
      exact nomatch stepped
  | call c continued =>
      simp only [Config.step, program] at stepped
      obtain ⟨⟨reply, after⟩, answered, rfl⟩ := Option.map_eq_some_iff.mp stepped
      rw [program] at meets
      have same := eventsOf_append_same config.history thread ⟨c, reply⟩
      have apart := fun other => @eventsOf_append_other Call ι Reply _ config.history thread other ⟨c, reply⟩
      constructor
      · intro other
        by_cases this : other = thread
        · subst this
          simp only [Function.update_self, Config.progress, same, Monitor.after_append]
          exact meets.2 reply
        · simp only [Function.update_of_ne this, Config.progress, apart other this]
          exact follows other
      · exact ⟨c, reply,
          { call := by simp only [Config.nextCall, program]
            answered := answered
            permitted := meets.1
            history := rfl
            here := by simp only [Config.progress, same, Monitor.after_append]; rfl
            others := fun other this => by simp only [Config.progress, apart other this] }⟩

end

section
variable {ι β : Type} {base file more : List β} {joined joined' settled settled' : ι → Prop}
  {part part' : ι → List β} {order : List ι} {thread : ι}

/-- A file holds the parts of the threads one after the other. All parts but the last are settled. -/
structure Serial (base file : List β) (joined settled : ι → Prop) (part : ι → List β) (order : List ι) :
    Prop where
  nodup : order.Nodup
  members : ∀ thread, thread ∈ order ↔ joined thread
  file : file = base ++ order.flatMap part
  settled : ∀ thread ∈ order.dropLast, settled thread

/-- A part that is not in the order does not count. -/
theorem flatMap_congr_except {order : List ι} (absent : thread ∉ order)
    (others : ∀ other, other ≠ thread → part' other = part other) :
    order.flatMap part' = order.flatMap part :=
  List.flatMap_congr fun other member => others other fun same => absent (same ▸ member)

/-- A thread whose part is not settled stands at the end. -/
theorem Serial.last (serial : Serial base file joined settled part order) (member : joined thread)
    (unsettled : ¬ settled thread) : ∃ front, order = front ++ [thread] ∧ thread ∉ front := by
  have inside := (serial.members thread).mpr member
  have ends : order ≠ [] := List.ne_nil_of_mem inside
  rw [← List.dropLast_append_getLast ends] at inside
  rcases List.mem_append.mp inside with early | now
  · exact absurd (serial.settled thread early) unsettled
  · have same : thread = order.getLast ends := List.mem_singleton.mp now
    refine ⟨order.dropLast, ?_, fun early => unsettled (serial.settled thread early)⟩
    rw [same, List.dropLast_append_getLast ends]

/-- A thread adds to its own part, which is the last one unless it adds nothing. -/
theorem Serial.extend (serial : Serial base file joined settled part order) (thread : ι)
    (others : ∀ other, other ≠ thread → part' other = part other) (grown : part' thread = part thread ++ more)
    (turn : more ≠ [] → joined thread ∧ ¬ settled thread) (same : ∀ other, joined' other ↔ joined other)
    (stays : ∀ other, joined other → settled other → settled' other) :
    Serial base (file ++ more) joined' settled' part' order where
  nodup := serial.nodup
  members other := (serial.members other).trans (same other).symm
  file := by
    by_cases nothing : more = []
    · have unchanged : part' = part := by
        funext other
        by_cases this : other = thread
        · rw [this, grown, nothing, List.append_nil]
        · exact others other this
      rw [nothing, List.append_nil, unchanged, serial.file]
    · obtain ⟨member, unsettled⟩ := turn nothing
      obtain ⟨front, rfl, absent⟩ := serial.last member unsettled
      rw [serial.file, List.flatMap_append, List.flatMap_append, flatMap_congr_except absent others,
        List.flatMap_singleton, List.flatMap_singleton, grown]
      simp only [List.append_assoc]
  settled other early :=
    stays other ((serial.members other).mp (List.mem_of_mem_dropLast early)) (serial.settled other early)

/-- A new thread begins its part when all others are settled. -/
theorem Serial.join (serial : Serial base file joined settled part order) (thread : ι)
    (others : ∀ other, other ≠ thread → part' other = part other) (begun : part' thread = more)
    (fresh : ¬ joined thread) (quiet : ∀ other, joined other → settled other)
    (same : ∀ other, joined' other ↔ other = thread ∨ joined other)
    (stays : ∀ other, joined other → settled other → settled' other) :
    Serial base (file ++ more) joined' settled' part' (order ++ [thread]) := by
  have absent : thread ∉ order := fun member => fresh ((serial.members thread).mp member)
  constructor
  · rw [← List.concat_eq_append, List.nodup_concat]
    exact ⟨absent, serial.nodup⟩
  · intro other
    rw [same, ← serial.members, List.mem_append, List.mem_singleton, or_comm]
  · rw [serial.file, List.flatMap_append, flatMap_congr_except absent others, List.flatMap_singleton, begun,
      List.append_assoc]
  · intro other early
    rw [List.dropLast_concat] at early
    have member := (serial.members other).mp early
    exact stays other member (quiet other member)

/-- Threads without bytes can be left out. -/
theorem flatMap_filter {holds : ι → Prop} [DecidablePred holds]
    (empty : ∀ thread, ¬ holds thread → part thread = []) :
    (order.filter fun thread => holds thread).flatMap part = order.flatMap part := by
  induction order with
  | nil => rfl
  | cons thread order ih =>
      by_cases this : holds thread
      · rw [List.filter_cons_of_pos (by simpa using this), List.flatMap_cons, List.flatMap_cons, ih]
      · rw [List.filter_cons_of_neg (by simpa using this), List.flatMap_cons, empty thread this, ih,
          List.nil_append]

end

end Effect
