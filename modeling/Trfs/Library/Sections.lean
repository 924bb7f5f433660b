/-
This file runs critical sections. A section that makes at most one call outside its lock is atomic.
-/

import Mathlib.Logic.Function.Basic
import Trfs.Library.Interleaving

namespace Effect

/-- The calls of a critical section: on the guarded value, or on what no lock guards. -/
inductive Inside (Access Outer : Type) where
  | access (c : Access)
  | outer (c : Outer)

@[reducible] def Inside.Reply {Access Outer : Type} (Given : Access → Type) (Answer : Outer → Type) :
    Inside Access Outer → Type
  | .access c => Given c
  | .outer c => Answer c

/-- The single steps of a task that takes locks. -/
inductive Fine (Key Access Outer : Type) where
  | acquire (key : Key)
  | release (key : Key)
  | access (key : Key) (c : Access)
  | outer (c : Outer)

@[reducible] def Fine.Reply (Key : Type) {Access Outer : Type} (Given : Access → Type) (Answer : Outer → Type) :
    Fine Key Access Outer → Type
  | .acquire _ | .release _ => Unit
  | .access _ c => Given c
  | .outer c => Answer c

/-- The same steps when each section is one of them. -/
inductive Coarse (Op Outer : Type) where
  | whole (op : Op)
  | outer (c : Outer)

@[reducible] def Coarse.Reply {Op Outer : Type} (Result : Op → Type) (Answer : Outer → Type) :
    Coarse Op Outer → Type
  | .whole op => Result op
  | .outer c => Answer c

section
variable {Op Key Access Outer ι V ρ α β : Type} {Result : Op → Type} {Given : Access → Type}
  {Answer : Outer → Type}

/-- What an access does to the guarded value and an outer call to the rest. An access always answers. -/
structure Guarding (Given : Access → Type) (Answer : Outer → Type) (V ρ : Type) where
  access : (c : Access) → V → Given c × V
  outer : Handler Answer ρ

def Guarding.inside (guarding : Guarding Given Answer V ρ) : Handler (Inside.Reply Given Answer) (V × ρ)
  | .access c, state => some ((guarding.access c state.1).1, ((guarding.access c state.1).2, state.2))
  | .outer c, state => (guarding.outer c state.2).map fun (reply, after) => (reply, (state.1, after))

/-- A program that only accesses the guarded value. -/
def Program.Still : Program (Inside.Reply Given Answer) α → Prop
  | .pure _ => True
  | .call (.access _) next => ∀ reply, (next reply).Still
  | .call (.outer _) _ => False

/-- A program with at most one outer call. -/
def Program.Once : Program (Inside.Reply Given Answer) α → Prop
  | .pure _ => True
  | .call (.access _) next => ∀ reply, (next reply).Once
  | .call (.outer _) next => ∀ reply, (next reply).Still

/-- The value and the last state of a program without its events. -/
def Program.outcome {Call σ : Type} {Reply : Call → Type} (handler : Handler Reply σ) (program : Program Reply α)
    (state : σ) : Option (α × σ) := (program.exec handler state).map fun done => (done.value, done.state)

/-- A finished program leaves the state. -/
@[simp] theorem Program.outcome_pure {Call σ : Type} {Reply : Call → Type} (handler : Handler Reply σ) (value : α)
    (state : σ) : (Program.pure value : Program Reply α).outcome handler state = some (value, state) := rfl

/-- A program goes on from what its first call answers. -/
@[simp] theorem Program.outcome_call {Call σ : Type} {Reply : Call → Type} (handler : Handler Reply σ) (c : Call)
    (next : Reply c → Program Reply α) (state : σ) :
    (Program.call c next).outcome handler state =
      (handler c state).bind fun answer => (next answer.1).outcome handler answer.2 := by
  simp only [outcome, exec]
  cases handler c state with
  | none => rfl
  | some answer => simp [Function.comp_def]

/-- A call to the outside keeps the guarded value. -/
@[simp] theorem Guarding.inside_outer (guarding : Guarding Given Answer V ρ) (c : Outer) (value : V) (rest : ρ) :
    guarding.inside (.outer c) (value, rest) =
      (guarding.outer c rest).map fun answer => (answer.1, (value, answer.2)) := rfl

/-- The accesses of a section end alike whatever the rest of the state is. -/
theorem Program.Still.outcome (guarding : Guarding Given Answer V ρ)
    {program : Program (Inside.Reply Given Answer) α} (still : program.Still) (value : V) :
    ∃ result after, ∀ rest, program.outcome guarding.inside (value, rest) = some (result, (after, rest)) := by
  induction program generalizing value with
  | pure result => exact ⟨result, value, fun _ => rfl⟩
  | call c next ih =>
      cases c with
      | access c =>
          obtain ⟨result, after, same⟩ := ih _ (still _) (guarding.access c value).2
          exact ⟨result, after, fun rest => by simpa [Guarding.inside] using same rest⟩
      | outer c => exact still.elim

/-- Critical sections by name, each with the lock that it takes. -/
structure Sections (Result : Op → Type) (Key : Type) (Given : Access → Type) (Answer : Outer → Type) where
  key : Op → Key
  body : (op : Op) → Program (Inside.Reply Given Answer) (Result op)
  once : ∀ op, (body op).Once

/-- The steps of a program that runs under the lock of this key. -/
def Program.under (key : Key) :
    Program (Inside.Reply Given Answer) α → Program (Fine.Reply Key Given Answer) α
  | .pure value => .pure value
  | .call (.access c) next => .call (.access key c) fun reply => (next reply).under key
  | .call (.outer c) next => .call (.outer c) fun reply => (next reply).under key

/-- The rest of a section with the release of its lock. -/
def Sections.leave (key : Key) (program : Program (Inside.Reply Given Answer) α)
    (after : α → Program (Fine.Reply Key Given Answer) β) :
    Program (Fine.Reply Key Given Answer) β :=
  program.under key >>= fun value => .call (.release key) fun _ => after value

/-- Each section takes its lock, makes its calls one by one, and gives the lock back. -/
def Sections.expand (sections : Sections Result Key Given Answer) :
    Program (Coarse.Reply Result Answer) α → Program (Fine.Reply Key Given Answer) α
  | .pure value => .pure value
  | .call (.whole op) next => .call (.acquire (sections.key op)) fun _ =>
      Sections.leave (sections.key op) (sections.body op) fun value => sections.expand (next value)
  | .call (.outer c) next => .call (.outer c) fun reply => sections.expand (next reply)

/-- The guarded values, the holder of each lock, and the rest. -/
structure Memory (ι Key V ρ : Type) where
  cell : Key → V
  holder : Key → Option ι
  rest : ρ

/-- The same without the locks. -/
structure Contents (Key V ρ : Type) where
  cell : Key → V
  rest : ρ

section
variable [DecidableEq Key]

/-- A task waits at a lock that is held. -/
def Guarding.fine (guarding : Guarding Given Answer V ρ) (task : ι) :
    Handler (Fine.Reply Key Given Answer) (Memory ι Key V ρ)
  | .acquire key, memory =>
      if memory.holder key = none then
        some ((), { memory with holder := Function.update memory.holder key (some task) })
      else none
  | .release key, memory => some ((), { memory with holder := Function.update memory.holder key none })
  | .access key c, memory => some ((guarding.access c (memory.cell key)).1,
      { memory with cell := Function.update memory.cell key (guarding.access c (memory.cell key)).2 })
  | .outer c, memory => (guarding.outer c memory.rest).map fun (reply, after) => (reply, { memory with rest := after })

def Guarding.coarse (guarding : Guarding Given Answer V ρ) (sections : Sections Result Key Given Answer) :
    Handler (Coarse.Reply Result Answer) (Contents Key V ρ)
  | .whole op, contents =>
      ((sections.body op).outcome guarding.inside (contents.cell (sections.key op), contents.rest)).map
        fun (value, after, rest) => (value, ⟨Function.update contents.cell (sections.key op) after, rest⟩)
  | .outer c, contents =>
      (guarding.outer c contents.rest).map fun (reply, after) => (reply, { contents with rest := after })

variable {guarding : Guarding Given Answer V ρ} {task : ι} {memory after : Memory ι Key V ρ} {key : Key}

/-- A lock that is taken was free and then belongs to the task. -/
theorem Guarding.fine_acquire {reply : Unit} (answered : guarding.fine task (.acquire key) memory = some (reply, after)) :
    memory.holder key = none ∧ after = { memory with holder := Function.update memory.holder key (some task) } := by
  simp only [fine] at answered
  split at answered
  · exact ⟨‹_›, (Prod.mk.inj (Option.some.inj answered)).2.symm⟩
  · cases answered

/-- A call to the outside changes the rest alone. -/
theorem Guarding.fine_outer {c : Outer} {reply : Answer c}
    (answered : guarding.fine task (.outer c) memory = some (reply, after)) :
    ∃ rest, guarding.outer c memory.rest = some (reply, rest) ∧ after = { memory with rest := rest } := by
  obtain ⟨⟨given, rest⟩, replied, same⟩ := Option.map_eq_some_iff.mp answered
  obtain ⟨rfl, rfl⟩ := Prod.mk.inj same
  exact ⟨rest, replied, rfl⟩

end

/-- The sections of one task by their locks: those that it has begun, those that have happened, and those that it has
left. -/
structure Points (Key : Type) where
  begun : List Key
  happened : List Key
  left : List Key

/-- The lock that a step takes. -/
def Fine.taken (event : Event (Fine.Reply Key Given Answer)) : Option Key :=
  match event.call with
  | .acquire key => some key
  | _ => none

/-- The lock that a step gives back. -/
def Fine.given (event : Event (Fine.Reply Key Given Answer)) : Option Key :=
  match event.call with
  | .release key => some key
  | _ => none

/-- The lock of the section that happens. -/
def Sections.locked (sections : Sections Result Key Given Answer) (event : Event (Coarse.Reply Result Answer)) :
    Option Key :=
  match event.call with
  | .whole op => some (sections.key op)
  | .outer _ => none

/-- How the steps that a task has left stand to the sections that it has left. A section counts from its outer call
on, and without one from its release on. -/
inductive Stands (guarding : Guarding Given Answer V ρ) (sections : Sections Result Key Given Answer) (task : ι)
    (memory : Memory ι Key V ρ) (contents : Contents Key V ρ) (points : Points Key) :
    Program (Fine.Reply Key Given Answer) α → Program (Coarse.Reply Result Answer) α → Prop
  | outside (program : Program (Coarse.Reply Result Answer) α) (free : ∀ key, memory.holder key ≠ some task)
      (begun : points.begun = points.left) (happened : points.happened = points.left) :
      Stands guarding sections task memory contents points (sections.expand program) program
  | early (op : Op) (next : Result op → Program (Coarse.Reply Result Answer) α)
      (body : Program (Inside.Reply Given Answer) (Result op)) (once : body.Once)
      (holds : ∀ key, memory.holder key = some task ↔ key = sections.key op)
      (same : ∀ rest, body.outcome guarding.inside (memory.cell (sections.key op), rest) =
        (sections.body op).outcome guarding.inside (contents.cell (sections.key op), rest))
      (begun : points.begun = points.left ++ [sections.key op]) (happened : points.happened = points.left) :
      Stands guarding sections task memory contents points
        (Sections.leave (sections.key op) body fun value => sections.expand (next value)) (.call (.whole op) next)
  | late (op : Op) (next : Result op → Program (Coarse.Reply Result Answer) α)
      (body : Program (Inside.Reply Given Answer) (Result op)) (value : Result op) (still : body.Still)
      (holds : ∀ key, memory.holder key = some task ↔ key = sections.key op)
      (same : ∀ rest, body.outcome guarding.inside (memory.cell (sections.key op), rest) =
        some (value, (contents.cell (sections.key op), rest)))
      (begun : points.begun = points.left ++ [sections.key op])
      (happened : points.happened = points.left ++ [sections.key op]) :
      Stands guarding sections task memory contents points
        (Sections.leave (sections.key op) body fun value => sections.expand (next value)) (next value)

/-- A task is not concerned with the cells whose locks it does not hold. -/
theorem Stands.frame {guarding : Guarding Given Answer V ρ} {sections : Sections Result Key Given Answer} {task : ι}
    {memory memory' : Memory ι Key V ρ} {contents contents' : Contents Key V ρ} {points : Points Key}
    {fine : Program (Fine.Reply Key Given Answer) α} {coarse : Program (Coarse.Reply Result Answer) α}
    (stands : Stands guarding sections task memory contents points fine coarse)
    (holder : ∀ key, memory'.holder key = some task ↔ memory.holder key = some task)
    (cells : ∀ key, memory.holder key = some task →
      memory'.cell key = memory.cell key ∧ contents'.cell key = contents.cell key) :
    Stands guarding sections task memory' contents' points fine coarse := by
  cases stands with
  | outside _ free begun happened =>
      exact .outside _ (fun key held => free key ((holder key).mp held)) begun happened
  | early op next body once holds same begun happened =>
      obtain ⟨now, before⟩ := cells _ ((holds (sections.key op)).mpr rfl)
      refine .early op next body once (fun key => (holder key).trans (holds key)) ?_ begun happened
      rw [now, before]
      exact same
  | late op next body value still holds same begun happened =>
      obtain ⟨now, before⟩ := cells _ ((holds (sections.key op)).mpr rfl)
      refine .late op next body value still (fun key => (holder key).trans (holds key)) ?_ begun happened
      rw [now, before]
      exact same

/-- A section that has been left has happened, and one that has happened has begun. -/
theorem Stands.between {guarding : Guarding Given Answer V ρ} {sections : Sections Result Key Given Answer} {task : ι}
    {memory : Memory ι Key V ρ} {contents : Contents Key V ρ} {points : Points Key}
    {fine : Program (Fine.Reply Key Given Answer) α} {coarse : Program (Coarse.Reply Result Answer) α}
    (stands : Stands guarding sections task memory contents points fine coarse) :
    points.left <+: points.happened ∧ points.happened <+: points.begun := by
  cases stands with
  | outside _ free begun happened =>
      rw [begun, happened]
      exact ⟨List.prefix_rfl, List.prefix_rfl⟩
  | early op next body once holds same begun happened =>
      rw [begun, happened]
      exact ⟨List.prefix_rfl, List.prefix_append _ _⟩
  | late op next body value still holds same begun happened =>
      rw [begun, happened]
      exact ⟨List.prefix_append _ _, List.prefix_rfl⟩

variable [DecidableEq ι]

/-- The sections of a task after these steps. -/
def Sections.points (sections : Sections Result Key Given Answer) (task : ι)
    (history : List (ι × Event (Fine.Reply Key Given Answer)))
    (events : List (ι × Event (Coarse.Reply Result Answer))) : Points Key where
  begun := (eventsOf history task).filterMap Fine.taken
  happened := (eventsOf events task).filterMap sections.locked
  left := (eventsOf history task).filterMap Fine.given

/-- The steps of one task are no steps of another. -/
theorem Sections.points_other (sections : Sections Result Key Given Answer) {task other : ι} (different : other ≠ task)
    (history : List (ι × Event (Fine.Reply Key Given Answer))) (event : Event (Fine.Reply Key Given Answer))
    (events : List (ι × Event (Coarse.Reply Result Answer))) (made : Option (Event (Coarse.Reply Result Answer))) :
    sections.points other (history ++ [(task, event)]) (events ++ made.toList.map (Prod.mk task)) =
      sections.points other history events := by
  cases made with
  | none => simp [points, eventsOf_append_other history event different]
  | some own =>
      simp [points, eventsOf_append_other history event different, eventsOf_append_other events own different]

section
variable (sections : Sections Result Key Given Answer) (task : ι) (key : Key)
  (history : List (ι × Event (Fine.Reply Key Given Answer))) (events : List (ι × Event (Coarse.Reply Result Answer)))

attribute [local simp] Sections.points eventsOf_append_same Fine.taken Fine.given Sections.locked

/-- A lock that is taken begins a section. -/
@[simp] theorem Sections.points_acquire (reply : Unit) :
    sections.points task (history ++ [(task, ⟨.acquire key, reply⟩)]) events =
      { sections.points task history events with begun := (sections.points task history events).begun ++ [key] } := by
  simp

/-- A lock that is released leaves a section. -/
@[simp] theorem Sections.points_release (reply : Unit) :
    sections.points task (history ++ [(task, ⟨.release key, reply⟩)]) events =
      { sections.points task history events with left := (sections.points task history events).left ++ [key] } := by
  simp

/-- An access moves no point. -/
@[simp] theorem Sections.points_access (c : Access) (reply : Given c) :
    sections.points task (history ++ [(task, ⟨.access key c, reply⟩)]) events = sections.points task history events := by
  simp

/-- A call to the outside moves no point. -/
@[simp] theorem Sections.points_outer (c : Outer) (reply : Answer c) :
    sections.points task (history ++ [(task, ⟨.outer c, reply⟩)]) events = sections.points task history events := by
  simp

/-- A whole section happens at once. -/
@[simp] theorem Sections.points_whole (op : Op) (result : Result op) :
    sections.points task history (events ++ [(task, ⟨.whole op, result⟩)]) =
      { sections.points task history events with
        happened := (sections.points task history events).happened ++ [sections.key op] } := by
  simp

/-- A call to the outside is no section. -/
@[simp] theorem Sections.points_apart (c : Outer) (reply : Answer c) :
    sections.points task history (events ++ [(task, ⟨.outer c, reply⟩)]) = sections.points task history events := by
  simp

end

/-- A state of the single steps beside one in which each section is one step. -/
structure Simulates (guarding : Guarding Given Answer V ρ) (sections : Sections Result Key Given Answer)
    (fine : Config (Fine.Reply Key Given Answer) ι (Memory ι Key V ρ) α)
    (coarse : Config (Coarse.Reply Result Answer) ι (Contents Key V ρ) α) : Prop where
  tasks : ∀ task, Stands guarding sections task fine.shared coarse.shared
    (sections.points task fine.history coarse.history) (fine.threads task) (coarse.threads task)
  free : ∀ key, fine.shared.holder key = none → fine.shared.cell key = coarse.shared.cell key
  rest : fine.shared.rest = coarse.shared.rest

/-- The whole system of single steps. -/
abbrev Sections.System (Given : Access → Type) (Answer : Outer → Type) (ι Key V ρ α : Type) :=
  Config (Fine.Reply Key Given Answer) ι (Memory ι Key V ρ) α

abbrev Sections.Whole (Result : Op → Type) (Answer : Outer → Type) (ι Key V ρ α : Type) :=
  Config (Coarse.Reply Result Answer) ι (Contents Key V ρ) α

variable {guarding : Guarding Given Answer V ρ} {sections : Sections Result Key Given Answer} {task : ι}
  {fine next : Sections.System Given Answer ι Key V ρ α} {coarse : Sections.Whole Result Answer ι Key V ρ α}

/-- One task has moved. The locks and the cells of the others are as before. -/
theorem Simulates.moved (simulates : Simulates guarding sections fine coarse) {memory : Memory ι Key V ρ}
    {contents : Contents Key V ρ} {program : Program (Fine.Reply Key Given Answer) α}
    {whole : Program (Coarse.Reply Result Answer) α}
    (event : Event (Fine.Reply Key Given Answer)) (made : Option (Event (Coarse.Reply Result Answer)))
    (stands : Stands guarding sections task memory contents
      (sections.points task (fine.history ++ [(task, event)]) (coarse.history ++ made.toList.map (Prod.mk task)))
      program whole)
    (holder : ∀ other, other ≠ task → ∀ key, memory.holder key = some other ↔ fine.shared.holder key = some other)
    (cells : ∀ other, other ≠ task → ∀ key, fine.shared.holder key = some other →
      memory.cell key = fine.shared.cell key ∧ contents.cell key = coarse.shared.cell key)
    (free : ∀ key, memory.holder key = none → memory.cell key = contents.cell key)
    (rest : memory.rest = contents.rest) :
    Simulates guarding sections ⟨memory, Function.update fine.threads task program, fine.history ++ [(task, event)]⟩
      ⟨contents, Function.update coarse.threads task whole, coarse.history ++ made.toList.map (Prod.mk task)⟩ where
  tasks other := by
    by_cases same : other = task
    · subst same
      simp only [Function.update_self]
      exact stands
    · simp only [Function.update_of_ne same, sections.points_other same]
      exact (simulates.tasks other).frame (holder other same) (cells other same)
  free := free
  rest := rest

/-- The same for a step that does not count. -/
theorem Simulates.inner (simulates : Simulates guarding sections fine coarse) {memory : Memory ι Key V ρ}
    {program : Program (Fine.Reply Key Given Answer) α} (event : Event (Fine.Reply Key Given Answer))
    (stands : Stands guarding sections task memory coarse.shared
      (sections.points task (fine.history ++ [(task, event)]) coarse.history) program (coarse.threads task))
    (holder : ∀ other, other ≠ task → ∀ key, memory.holder key = some other ↔ fine.shared.holder key = some other)
    (cells : memory.cell = fine.shared.cell)
    (free : ∀ key, memory.holder key = none → fine.shared.holder key = none)
    (rest : memory.rest = fine.shared.rest) :
    Simulates guarding sections ⟨memory, Function.update fine.threads task program, fine.history ++ [(task, event)]⟩
      coarse := by
  have moved := simulates.moved event none (by simpa using stands) holder
    (fun other different key held => ⟨congrFun cells key, rfl⟩)
    (fun key unheld => (congrFun cells key).trans (simulates.free key (free key unheld))) (rest.trans simulates.rest)
  simpa using moved

variable [DecidableEq Key]

/-- A task uses the cell whose lock it holds. -/
theorem Simulates.used (simulates : Simulates guarding sections fine coarse) {key : Key} (value settled : V) {rest : ρ}
    {program : Program (Fine.Reply Key Given Answer) α} {whole : Program (Coarse.Reply Result Answer) α}
    (event : Event (Fine.Reply Key Given Answer)) (made : Option (Event (Coarse.Reply Result Answer)))
    (holder : fine.shared.holder key = some task)
    (stands : Stands guarding sections task
      ⟨Function.update fine.shared.cell key value, fine.shared.holder, rest⟩
      ⟨Function.update coarse.shared.cell key settled, rest⟩
      (sections.points task (fine.history ++ [(task, event)]) (coarse.history ++ made.toList.map (Prod.mk task)))
      program whole) :
    Simulates guarding sections
      ⟨⟨Function.update fine.shared.cell key value, fine.shared.holder, rest⟩,
        Function.update fine.threads task program, fine.history ++ [(task, event)]⟩
      ⟨⟨Function.update coarse.shared.cell key settled, rest⟩, Function.update coarse.threads task whole,
        coarse.history ++ made.toList.map (Prod.mk task)⟩ := by
  apply simulates.moved event made stands
  · exact fun _ _ _ => Iff.rfl
  · intro other different used held
    have apart : used ≠ key := by
      rintro rfl
      exact different (Option.some.inj (held.symm.trans holder))
    exact ⟨Function.update_of_ne apart _ _, Function.update_of_ne apart _ _⟩
  · intro used unheld
    have apart : used ≠ key := by
      rintro rfl
      rw [holder] at unheld
      cases unheld
    simpa [apart] using simulates.free used unheld
  · rfl

/-- The same while the section does not count. -/
theorem Simulates.accessed (simulates : Simulates guarding sections fine coarse) {key : Key} (value : V)
    {program : Program (Fine.Reply Key Given Answer) α} (event : Event (Fine.Reply Key Given Answer))
    (holder : fine.shared.holder key = some task)
    (stands : Stands guarding sections task
      ⟨Function.update fine.shared.cell key value, fine.shared.holder, fine.shared.rest⟩ coarse.shared
      (sections.points task (fine.history ++ [(task, event)]) coarse.history) program (coarse.threads task)) :
    Simulates guarding sections
      ⟨⟨Function.update fine.shared.cell key value, fine.shared.holder, fine.shared.rest⟩,
        Function.update fine.threads task program, fine.history ++ [(task, event)]⟩ coarse := by
  have same : (⟨Function.update coarse.shared.cell key (coarse.shared.cell key), fine.shared.rest⟩ : Contents Key V ρ) =
      coarse.shared := by
    rw [Function.update_eq_self, simulates.rest]
  have unchanged : coarse.history ++ (none : Option (Event (Coarse.Reply Result Answer))).toList.map (Prod.mk task) =
      coarse.history := List.append_nil _
  have used := simulates.used value (coarse.shared.cell key) event none holder (by rw [same, unchanged]; exact stands)
  rw [same, unchanged, Function.update_eq_self] at used
  exact used

/-- A task gives its only lock back and leaves the cell as it is. -/
theorem Simulates.released (simulates : Simulates guarding sections fine coarse) {key : Key}
    (whole : Program (Coarse.Reply Result Answer) α) (made : Option (Event (Coarse.Reply Result Answer)))
    (holds : ∀ other, fine.shared.holder other = some task ↔ other = key)
    (begun : (sections.points task fine.history coarse.history).begun =
      (sections.points task fine.history coarse.history).left ++ [key])
    (happened : (sections.points task fine.history (coarse.history ++ made.toList.map (Prod.mk task))).happened =
      (sections.points task fine.history coarse.history).left ++ [key]) :
    Simulates guarding sections
      ⟨{ fine.shared with holder := Function.update fine.shared.holder key none },
        Function.update fine.threads task (sections.expand whole), fine.history ++ [(task, ⟨.release key, ()⟩)]⟩
      ⟨⟨Function.update coarse.shared.cell key (fine.shared.cell key), coarse.shared.rest⟩,
        Function.update coarse.threads task whole, coarse.history ++ made.toList.map (Prod.mk task)⟩ := by
  have holder := (holds key).mpr rfl
  have unlocked : ∀ used, Function.update fine.shared.holder key none used ≠ some task := by
    intro used
    by_cases same : used = key
    · simp [same]
    · simpa [same] using fun held => same ((holds used).mp held)
  apply simulates.moved ⟨.release key, ()⟩ made
  · rw [Sections.points_release]
    exact .outside whole unlocked begun happened
  · intro other different used
    by_cases same : used = key
    · simp [same, holder, different.symm]
    · simp [same]
  · intro other different used held
    have apart : used ≠ key := by
      rintro rfl
      exact different (Option.some.inj (held.symm.trans holder))
    exact ⟨rfl, Function.update_of_ne apart _ _⟩
  · intro used unheld
    by_cases same : used = key
    · simp [same]
    · simpa [same] using simulates.free used (by simpa [same] using unheld)
  · exact simulates.rest

/-- A step is one call of the task. -/
theorem Config.step_eq_some {Call σ : Type} {Reply : Call → Type} {handler : ι → Handler Reply σ}
    {config after : Config Reply ι σ α} {c : Call} {next : Reply c → Program Reply α}
    (here : config.threads task = .call c next) (stepped : config.step handler task = some after) :
    ∃ reply shared, handler task c config.shared = some (reply, shared) ∧
      after = ⟨shared, Function.update config.threads task (next reply), config.history ++ [(task, ⟨c, reply⟩)]⟩ := by
  simp only [Config.step, here] at stepped
  obtain ⟨⟨reply, shared⟩, answered, rfl⟩ := Option.map_eq_some_iff.mp stepped
  exact ⟨reply, shared, answered, rfl⟩

/-- A call that is answered is a step. -/
theorem Config.step_call {Call σ : Type} {Reply : Call → Type} {handler : ι → Handler Reply σ}
    {config : Config Reply ι σ α} {c : Call} {next : Reply c → Program Reply α} {reply : Reply c} {shared : σ}
    (here : config.threads task = .call c next) (answered : handler task c config.shared = some (reply, shared)) :
    config.step handler task =
      some ⟨shared, Function.update config.threads task (next reply), config.history ++ [(task, ⟨c, reply⟩)]⟩ := by
  simp only [Config.step, here, answered, Option.map_some]

/-- A step of a section is no step of the whole system or the step of the section, and the rest are the same. -/
theorem Simulates.step (simulates : Simulates guarding sections fine coarse)
    (stepped : fine.step guarding.fine task = some next) :
    ∃ later, (later = coarse ∨ coarse.step (fun _ => guarding.coarse sections) task = some later) ∧
      Simulates guarding sections next later := by
  have stands := simulates.tasks task
  generalize here : fine.threads task = program at stands
  generalize there : coarse.threads task = whole at stands
  cases stands with
  | outside _ free begun happened =>
      cases whole with
      | pure value =>
          simp only [Config.step, here, Sections.expand] at stepped
          cases stepped
      | call c continued =>
          cases c with
          | whole op =>
              obtain ⟨_, memory, taken, rfl⟩ := Config.step_eq_some here stepped
              obtain ⟨unheld, rfl⟩ := Guarding.fine_acquire taken
              refine ⟨coarse, .inl rfl, simulates.inner _ ?_ ?_ rfl ?_ rfl⟩
              · rw [there, Sections.points_acquire]
                refine .early op continued (sections.body op) (sections.once op) ?_ ?_ (by rw [begun]) happened
                · intro key
                  by_cases same : key = sections.key op
                  · simp [same]
                  · simpa [same] using free key
                · intro rest
                  rw [simulates.free (sections.key op) unheld]
              · intro other different key
                by_cases same : key = sections.key op
                · simp [same, unheld, different.symm]
                · simp [same]
              · intro key unheld
                by_cases same : key = sections.key op
                · simp [same] at unheld
                · simpa [same] using unheld
          | outer c =>
              obtain ⟨reply, memory, answered, rfl⟩ := Config.step_eq_some here stepped
              obtain ⟨after, replied, rfl⟩ := Guarding.fine_outer answered
              rw [simulates.rest] at replied
              have counted : guarding.coarse sections (.outer c) coarse.shared =
                  some (reply, ⟨coarse.shared.cell, after⟩) := by
                simp [Guarding.coarse, replied]
              refine ⟨_, .inr (Config.step_call there counted), ?_⟩
              apply simulates.moved ⟨.outer c, reply⟩ (some ⟨.outer c, reply⟩)
              · simp only [Sections.points_outer, Option.toList_some, List.map_cons, List.map_nil, Sections.points_apart]
                exact .outside (continued reply) free begun happened
              · exact fun _ _ _ => Iff.rfl
              · exact fun _ _ _ _ => ⟨rfl, rfl⟩
              · exact simulates.free
              · rfl
  | early op continued body once holds same begun happened =>
      have holder := (holds (sections.key op)).mpr rfl
      cases body with
      | pure value =>
          obtain ⟨_, memory, released, rfl⟩ := Config.step_eq_some here stepped
          obtain ⟨_, rfl⟩ := Prod.mk.inj (Option.some.inj released)
          have counted : guarding.coarse sections (.whole op) coarse.shared = some (value,
              ⟨Function.update coarse.shared.cell (sections.key op) (fine.shared.cell (sections.key op)),
                coarse.shared.rest⟩) := by
            simp [Guarding.coarse, ← same]
          refine ⟨_, .inr (Config.step_call there counted), ?_⟩
          apply simulates.released (continued value) (some ⟨.whole op, value⟩) holds begun
          simp [happened]
      | call c body =>
          cases c with
          | access c =>
              obtain ⟨reply, memory, answered, rfl⟩ := Config.step_eq_some here stepped
              obtain ⟨rfl, rfl⟩ := Prod.mk.inj (Option.some.inj answered)
              refine ⟨coarse, .inl rfl, simulates.accessed _ _ holder ?_⟩
              rw [there, Sections.points_access]
              refine .early op continued (body _) (once _) holds ?_ begun happened
              intro rest
              dsimp only
              rw [Function.update_self, ← same]
              simp [Guarding.inside]
          | outer c =>
              obtain ⟨reply, memory, answered, rfl⟩ := Config.step_eq_some here stepped
              obtain ⟨after, replied, rfl⟩ := Guarding.fine_outer answered
              rw [simulates.rest] at replied
              obtain ⟨value, settled, ends⟩ := (once reply).outcome guarding (fine.shared.cell (sections.key op))
              have counted : guarding.coarse sections (.whole op) coarse.shared =
                  some (value, ⟨Function.update coarse.shared.cell (sections.key op) settled, after⟩) := by
                simp [Guarding.coarse, ← same, replied, ends]
              have stands : Stands guarding sections task
                  ⟨Function.update fine.shared.cell (sections.key op) (fine.shared.cell (sections.key op)),
                    fine.shared.holder, after⟩
                  ⟨Function.update coarse.shared.cell (sections.key op) settled, after⟩
                  (sections.points task (fine.history ++ [(task, ⟨.outer c, reply⟩)])
                    (coarse.history ++ [(task, ⟨.whole op, value⟩)]))
                  (Sections.leave (sections.key op) (body reply) fun value => sections.expand (continued value))
                  (continued value) := by
                rw [Sections.points_outer, Sections.points_whole]
                refine .late op continued (body reply) value (once reply) holds ?_ begun (by rw [happened])
                simpa using ends
              have used := simulates.used _ _ ⟨.outer c, reply⟩ (some ⟨.whole op, value⟩) holder stands
              rw [Function.update_eq_self] at used
              exact ⟨_, .inr (Config.step_call there counted), used⟩
  | late op continued body value still holds same begun happened =>
      have holder := (holds (sections.key op)).mpr rfl
      cases body with
      | pure result =>
          obtain ⟨_, memory, released, rfl⟩ := Config.step_eq_some here stepped
          obtain ⟨_, rfl⟩ := Prod.mk.inj (Option.some.inj released)
          have ends := Option.some.inj (same fine.shared.rest)
          simp only [Prod.mk.injEq, and_true] at ends
          obtain ⟨rfl, settled⟩ := ends
          have after := simulates.released (continued result) none holds begun (by simpa using happened)
          simp only [Option.toList_none, List.map_nil, List.append_nil] at after
          rw [settled, Function.update_eq_self, ← there, Function.update_eq_self, there] at after
          exact ⟨coarse, .inl rfl, after⟩
      | call c body =>
          cases c with
          | access c =>
              obtain ⟨reply, memory, answered, rfl⟩ := Config.step_eq_some here stepped
              obtain ⟨rfl, rfl⟩ := Prod.mk.inj (Option.some.inj answered)
              refine ⟨coarse, .inl rfl, simulates.accessed _ _ holder ?_⟩
              rw [there, Sections.points_access]
              refine .late op continued (body _) value (still _) holds ?_ begun happened
              intro rest
              dsimp only
              rw [Function.update_self, ← same rest]
              simp [Guarding.inside]
          | outer c => exact still.elim

/-- A run of whole sections beside every run of single steps. At each of these it makes a step of the same task, or
none. -/
theorem Simulates.run (simulates : Simulates guarding sections fine coarse) {schedule : List ι}
    (ran : fine.run guarding.fine schedule = some next) :
    ∃ whole : Nat → Sections.Whole Result Answer ι Key V ρ α, whole 0 = coarse ∧
      (∀ n (inside : n < schedule.length), whole (n + 1) = whole n ∨
        (whole n).step (fun _ => guarding.coarse sections) schedule[n] = some (whole (n + 1))) ∧
      ∀ n ≤ schedule.length, ∃ reached, fine.run guarding.fine (schedule.take n) = some reached ∧
        Simulates guarding sections reached (whole n) := by
  induction schedule generalizing fine coarse with
  | nil =>
      refine ⟨fun _ => coarse, rfl, fun n inside => absurd inside n.not_lt_zero, fun n within => ⟨fine, ?_, simulates⟩⟩
      simp [Config.run]
  | cons task schedule ih =>
      obtain ⟨middle, stepped, continued⟩ := Option.bind_eq_some_iff.mp ran
      obtain ⟨reached, counted, kept⟩ := simulates.step stepped
      obtain ⟨whole, rfl, steps, states⟩ := ih kept continued
      refine ⟨fun n => n.rec coarse fun n _ => whole n, rfl, ?_, ?_⟩
      · intro n inside
        cases n with
        | zero => exact counted
        | succ n => exact steps n (Nat.lt_of_succ_lt_succ inside)
      · intro n within
        cases n with
        | zero => exact ⟨fine, rfl, simulates⟩
        | succ n =>
            obtain ⟨after, before, stands⟩ := states n (Nat.le_of_succ_le_succ within)
            refine ⟨after, ?_, stands⟩
            simp only [List.take_succ_cons, Config.run, stepped, Option.bind_some, before]

/-- No task has begun, and no lock is held. -/
def Sections.begin (sections : Sections Result Key Given Answer) (programs : ι → Program (Coarse.Reply Result Answer) α)
    (contents : Contents Key V ρ) : Sections.System Given Answer ι Key V ρ α where
  shared := ⟨contents.cell, fun _ => none, contents.rest⟩
  threads task := sections.expand (programs task)
  history := []

omit [DecidableEq Key] in
/-- The two systems begin alike. -/
theorem Simulates.start (programs : ι → Program (Coarse.Reply Result Answer) α) (contents : Contents Key V ρ) :
    Simulates guarding sections (sections.begin programs contents) ⟨contents, programs, []⟩ where
  tasks task := .outside (programs task) (fun _ held => by cases held) rfl rfl
  free _ _ := rfl
  rest := rfl

/-- A task that is inside a section can make its next step. -/
theorem Simulates.holder_steps (simulates : Simulates guarding sections fine coarse)
    (enabled : ∀ c, coarse.nextCall task = some c → (guarding.coarse sections c coarse.shared).isSome) {key : Key}
    (holder : fine.shared.holder key = some task) : (fine.step guarding.fine task).isSome := by
  have stands := simulates.tasks task
  generalize here : fine.threads task = program at stands
  generalize there : coarse.threads task = whole at stands
  cases stands with
  | outside _ free => exact absurd holder (free key)
  | early op continued body once holds same =>
      cases body with
      | pure value => simp [Config.step, here, Sections.leave, Program.under, Guarding.fine]
      | call c body =>
          cases c with
          | access c => simp [Config.step, here, Sections.leave, Program.under, Guarding.fine]
          | outer c =>
              have answered := enabled (.whole op) (by simp only [Config.nextCall, there])
              simp only [Guarding.coarse, ← same, Option.isSome_map, Program.outcome_call, Guarding.inside_outer,
                Option.bind_map, ← simulates.rest] at answered
              cases replied : guarding.outer c fine.shared.rest with
              | none => simp [replied] at answered
              | some answer => simp [Config.step, here, Sections.leave, Program.under, Guarding.fine, replied]
  | late op continued body value still holds same =>
      cases body with
      | pure value => simp [Config.step, here, Sections.leave, Program.under, Guarding.fine]
      | call c body =>
          cases c with
          | access c => simp [Config.step, here, Sections.leave, Program.under, Guarding.fine]
          | outer c => exact still.elim

/-- A task that cannot make its next step has ended or waits for another task. -/
theorem Simulates.waits (simulates : Simulates guarding sections fine coarse)
    (enabled : ∀ c, coarse.nextCall task = some c → (guarding.coarse sections c coarse.shared).isSome)
    (stuck : fine.step guarding.fine task = none) :
    (∃ value, fine.threads task = .pure value) ∨
      ∃ key other, fine.nextCall task = some (.acquire key) ∧ fine.shared.holder key = some other := by
  have stands := simulates.tasks task
  generalize here : fine.threads task = program at stands
  generalize there : coarse.threads task = whole at stands
  cases stands with
  | outside _ free =>
      cases whole with
      | pure value => exact .inl ⟨value, rfl⟩
      | call c continued =>
          cases c with
          | whole op =>
              right
              cases held : fine.shared.holder (sections.key op) with
              | none => simp [Config.step, here, Sections.expand, Guarding.fine, held] at stuck
              | some other => exact ⟨sections.key op, other, by simp [Config.nextCall, here, Sections.expand], held⟩
          | outer c =>
              have answered := enabled (.outer c) (by simp only [Config.nextCall, there])
              simp only [Guarding.coarse, Option.isSome_map, ← simulates.rest] at answered
              cases replied : guarding.outer c fine.shared.rest with
              | none => simp [replied] at answered
              | some answer => simp [Config.step, here, Sections.expand, Guarding.fine, replied] at stuck
  | early op continued body once holds same =>
      have steps := simulates.holder_steps enabled ((holds (sections.key op)).mpr rfl)
      simp [stuck] at steps
  | late op continued body value still holds same =>
      have steps := simulates.holder_steps enabled ((holds (sections.key op)).mpr rfl)
      simp [stuck] at steps

/-- While a task has not ended, some task can make its next step. -/
theorem Simulates.progress (simulates : Simulates guarding sections fine coarse)
    (enabled : ∀ task c, coarse.nextCall task = some c → (guarding.coarse sections c coarse.shared).isSome)
    (unfinished : ∀ value, fine.threads task ≠ .pure value) : ∃ other, (fine.step guarding.fine other).isSome := by
  cases stepped : fine.step guarding.fine task with
  | some next => exact ⟨task, by rw [stepped]; rfl⟩
  | none =>
      rcases simulates.waits (enabled task) stepped with ⟨value, ended⟩ | ⟨key, other, _, holder⟩
      · exact absurd ended (unfinished value)
      · exact ⟨other, simulates.holder_steps (enabled other) holder⟩

omit [DecidableEq ι] [DecidableEq Key] in
/-- A program inside a section has not returned. -/
theorem Sections.leave_ne_pure (key : Key) (body : Program (Inside.Reply Given Answer) β)
    (after : β → Program (Fine.Reply Key Given Answer) α) (value : α) :
    Sections.leave key body after ≠ .pure value := by
  intro ended
  cases body with
  | pure result => cases ended
  | call c body => cases c <;> cases ended

omit [DecidableEq Key] in
/-- A task has ended in both or in none, with the same value. -/
theorem Simulates.ended (simulates : Simulates guarding sections fine coarse) {value : α}
    (ended : fine.threads task = .pure value) : coarse.threads task = .pure value := by
  have stands := simulates.tasks task
  rw [ended] at stands
  generalize here : (Program.pure value : Program (Fine.Reply Key Given Answer) α) = program at stands
  generalize coarse.threads task = whole at stands ⊢
  cases stands with
  | outside _ free =>
      cases whole with
      | pure result => exact congrArg Program.pure (Program.pure.inj here).symm
      | call c continued => cases c <;> cases here
  | early op continued body once holds same => exact absurd here.symm (Sections.leave_ne_pure _ _ _ _)
  | late op continued body result still holds same => exact absurd here.symm (Sections.leave_ne_pure _ _ _ _)

omit [DecidableEq Key] in
/-- A task that is in no section has left just what it has left in the run of whole sections. -/
theorem Simulates.outside (simulates : Simulates guarding sections fine coarse)
    (free : ∀ key, fine.shared.holder key ≠ some task) :
    fine.threads task = sections.expand (coarse.threads task) := by
  have stands := simulates.tasks task
  generalize fine.threads task = program at stands ⊢
  generalize coarse.threads task = whole at stands ⊢
  cases stands with
  | outside _ _ _ _ => rfl
  | early op next body once holds _ _ _ => exact absurd ((holds (sections.key op)).mpr rfl) (free _)
  | late op next body value still holds _ _ _ => exact absurd ((holds (sections.key op)).mpr rfl) (free _)

omit [DecidableEq Key] in
/-- A task that has ended holds no lock. -/
theorem Simulates.unlocked (simulates : Simulates guarding sections fine coarse) {value : α}
    (ended : fine.threads task = .pure value) (key : Key) : fine.shared.holder key ≠ some task := by
  have stands := simulates.tasks task
  rw [ended] at stands
  generalize here : (Program.pure value : Program (Fine.Reply Key Given Answer) α) = program at stands
  generalize coarse.threads task = whole at stands
  cases stands with
  | outside _ free => exact free key
  | early op continued body once holds same => exact absurd here.symm (Sections.leave_ne_pure _ _ _ _)
  | late op continued body result still holds same => exact absurd here.symm (Sections.leave_ne_pure _ _ _ _)

end

end Effect
