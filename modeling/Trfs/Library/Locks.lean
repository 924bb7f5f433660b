/-
This file states how tasks take and give back locks that they find by reading. Tasks that take one at a time never
deadlock.
-/

import Trfs.Library.Interleaving

namespace Effect

/-- What a call does with the locks, or which of them it needs. A call that borrows takes other locks than the program
does and has given them back when it answers. -/
inductive Act (Lock : Type) where
  | opens (locks : List Lock)
  | closes (locks : List Lock)
  | inside (locks : List Lock)
  | within
  | outside
  | borrows
  | anywhere
  | faults
deriving DecidableEq

section
variable {Lock : Type} {locked : Option (List Lock)} {act : Act Lock}

/-- A program takes no lock while it holds one. -/
def Act.Allowed (locked : Option (List Lock)) : Act Lock → Prop
  | .opens _ | .outside => locked = none
  | .closes locks | .inside locks => locked = some locks
  | .within => ∃ lock locks, locked = some (lock :: locks)
  | .borrows | .anywhere | .faults => True

def Act.Takes : Act Lock → Prop
  | .opens _ | .closes _ => True
  | _ => False

def Act.IsLoose : Act Lock → Prop
  | .borrows | .anywhere => True
  | _ => False

/-- What a program without a lock may do and still has none. -/
def Act.IsOuter : Act Lock → Prop
  | .borrows | .anywhere | .outside => True
  | _ => False

/-- What is loose inside a section may also be done outside. -/
theorem Act.IsLoose.outer (loose : act.IsLoose) : act.IsOuter := by
  cases act <;> first | exact trivial | exact loose.elim

/-- A loose call takes nothing and is always allowed. -/
theorem Act.IsLoose.fits (loose : act.IsLoose) : ¬ act.Takes ∧ act.Allowed locked := by
  cases act <;> first | exact ⟨id, trivial⟩ | exact loose.elim

/-- An outer call takes nothing and is allowed without a section. -/
theorem Act.IsOuter.fits (outer : act.IsOuter) : ¬ act.Takes ∧ act.Allowed none := by
  cases act <;> first | exact ⟨id, trivial⟩ | exact ⟨id, rfl⟩ | exact outer.elim

/-- What a task with this number may do while the locks have these holders. -/
def Act.Guarded {ι : Type} (task : ι) (holder : Lock → Option ι) : Act Lock → Prop
  | .opens _ | .outside => ∀ lock, holder lock ≠ some task
  | .closes locks | .inside locks => ∀ lock, holder lock = some task ↔ lock ∈ locks
  | .within => ∃ lock, holder lock = some task
  | .borrows | .anywhere | .faults => True

/-- An allowed call touches only locks that the task holds. -/
theorem Act.Allowed.guarded {ι : Type} {task : ι} {holder : Lock → Option ι} (allowed : act.Allowed locked)
    (holds : ∀ lock, holder lock = some task ↔ ∃ locks, locked = some locks ∧ lock ∈ locks) :
    act.Guarded task holder := by
  have nothing : locked = none → ∀ lock, holder lock ≠ some task := by
    rintro rfl lock held
    obtain ⟨_, impossible, _⟩ := (holds lock).mp held
    cases impossible
  have exactly : ∀ locks, locked = some locks → ∀ lock, holder lock = some task ↔ lock ∈ locks := by
    rintro locks rfl lock
    simp [holds]
  cases act with
  | opens locks => exact nothing allowed
  | outside => exact nothing allowed
  | closes locks => exact exactly locks allowed
  | inside locks => exact exactly locks allowed
  | within =>
      obtain ⟨lock, locks, same⟩ := allowed
      exact ⟨lock, (exactly _ same lock).mpr List.mem_cons_self⟩
  | borrows => trivial
  | anywhere => trivial
  | faults => trivial

end

/-- The locks of a system are found by reading. A read that shows `null` finds none. -/
structure Discipline {Call : Type} (Reply : Call → Type) (Key Lock : Type) where
  act : Call → Act Lock
  reads : (c : Call) → Reply c → Option (Key × Lock)
  null : Lock

/-- What a program has read and which locks it holds. -/
structure Standing (Key Lock : Type) where
  known : List (Key × Lock)
  locked : Option (List Lock)

def Standing.start {Key Lock : Type} : Standing Key Lock := ⟨[], none⟩

/-- The pairs that a program relies on and the locks that it holds. -/
def Locking {Key Lock : Type} (pins : List (Key × Lock)) (locked : Option (List Lock))
    (progress : Option (Standing Key Lock)) : Prop :=
  ∀ standing ∈ progress, pins ⊆ standing.known ∧ standing.locked = locked

/-- At the start nothing is locked. -/
theorem Locking.start {Key Lock : Type} : Locking ([] : List (Key × Lock)) none (some .start) := by
  rintro standing ⟨⟩
  exact ⟨List.Subset.refl _, rfl⟩

/-- After a fault every condition holds. -/
theorem Locking.nothing {Key Lock : Type} {pins : List (Key × Lock)} {locked : Option (List Lock)} :
    Locking pins locked (none : Option (Standing Key Lock)) := nofun

/-- What was pinned may be forgotten. -/
theorem Locking.settled {Key Lock : Type} {pins : List (Key × Lock)} {progress : Option (Standing Key Lock)}
    (stands : Locking pins Option.none progress) : Locking ([] : List (Key × Lock)) Option.none progress :=
  fun standing there => ⟨List.nil_subset _, (stands standing there).2⟩

/-- In these events, a lock that was found is found again. -/
def Discipline.Steady {Call Key Lock : Type} {Reply : Call → Type} (discipline : Discipline Reply Key Lock)
    (events : List (Event Reply)) : Prop :=
  events.Pairwise fun first second => ∀ key lock other, discipline.reads first.call first.reply = some (key, lock) →
    lock ≠ discipline.null → discipline.reads second.call second.reply = some (key, other) → other = lock

/-- It is so where each key has one lock for good. -/
theorem Discipline.steady_of {Call Key Lock : Type} {Reply : Call → Type} {discipline : Discipline Reply Key Lock}
    {events : List (Event Reply)} (shown : Key → Lock) (agrees : ∀ event ∈ events, ∀ pair,
      discipline.reads event.call event.reply = some pair → pair.2 = shown pair.1) : discipline.Steady events := by
  apply List.pairwise_of_forall_mem_list
  intro first early second late key lock other found _ again
  have one : lock = shown key := agrees first early _ found
  have two : other = shown key := agrees second late _ again
  rw [one, two]

section
variable {Call Key Lock ι σ α β : Type} {Reply : Call → Type} [DecidableEq Key] [DecidableEq Lock]

def Standing.shown (standing : Standing Key Lock) (null : Lock) (key : Key) (lock : Lock) : Option (Standing Key Lock) :=
  if ∃ pair ∈ standing.known, pair.1 = key ∧ pair.2 ≠ lock then none
  else if lock = null then some standing
  else some { standing with known := (key, lock) :: standing.known }

def Discipline.advance (discipline : Discipline Reply Key Lock) (standing : Standing Key Lock) (c : Call) (reply : Reply c) :
    Option (Standing Key Lock) :=
  match discipline.act c with
  | .faults => none
  | .opens locks => some { standing with locked := some locks }
  | .closes _ => some { standing with locked := none }
  | _ => match discipline.reads c reply with
    | none => some standing
    | some (key, lock) => standing.shown discipline.null key lock

/-- After a fault, or a read that disagrees with an earlier one, everything is permitted. -/
def Discipline.monitor (discipline : Discipline Reply Key Lock) : Monitor Reply (Option (Standing Key Lock)) where
  permits progress c := ∀ standing ∈ progress, (discipline.act c).Allowed standing.locked
  next progress c reply := progress.bind fun standing => discipline.advance standing c reply

variable {discipline : Discipline Reply Key Lock} {pins : List (Key × Lock)} {locked : Option (List Lock)}
  {locks : List Lock} {progress : Option (Standing Key Lock)} {post : α → Option (Standing Key Lock) → Prop}
  {standing after : Standing Key Lock} {key : Key} {lock null : Lock} {c : Call}

/-- A key that is shown keeps one lock, and everything known stays so. -/
theorem Standing.shown_eq_some (shown : standing.shown null key lock = some after) :
    after.locked = standing.locked ∧ standing.known ⊆ after.known ∧ (lock ≠ null → (key, lock) ∈ after.known) ∧
      (∀ pair ∈ standing.known, pair.1 = key → pair.2 = lock) ∧
      ∀ pair ∈ after.known, pair ∈ standing.known ∨ pair = (key, lock) ∧ lock ≠ null := by
  unfold Standing.shown at shown
  split at shown
  · cases shown
  rename_i agrees
  have same : ∀ pair ∈ standing.known, pair.1 = key → pair.2 = lock := by
    intro pair member equal
    by_contra other
    exact agrees ⟨pair, member, equal, other⟩
  split at shown
  · rename_i absent
    obtain rfl := Option.some.inj shown
    exact ⟨rfl, List.Subset.refl _, fun there => absurd absent there, same, fun pair member => .inl member⟩
  · rename_i there
    obtain rfl := Option.some.inj shown
    refine ⟨rfl, List.subset_cons_self _ _, fun _ => List.mem_cons_self, same, fun pair member => ?_⟩
    rcases List.mem_cons.mp member with new | old
    · exact .inr ⟨new, there⟩
    · exact .inl old

/-- A call that neither takes nor gives back a lock leaves the locks as they are. -/
theorem Discipline.advance_keeps {reply : Reply c} (keeps : ¬ (discipline.act c).Takes)
    (advanced : discipline.advance standing c reply = some after) :
    (discipline.reads c reply = none ∧ after = standing) ∨
      ∃ key lock, discipline.reads c reply = some (key, lock) ∧ standing.shown discipline.null key lock = some after := by
  have reading : (match discipline.reads c reply with
      | none => some standing
      | some (key, lock) => standing.shown discipline.null key lock) = some after →
      (discipline.reads c reply = none ∧ after = standing) ∨
        ∃ key lock, discipline.reads c reply = some (key, lock) ∧
          standing.shown discipline.null key lock = some after := by
    intro found
    split at found
    · rename_i nothing
      exact .inl ⟨nothing, (Option.some.inj found).symm⟩
    · rename_i key lock shows
      exact .inr ⟨key, lock, shows, found⟩
  unfold Discipline.advance at advanced
  cases doing : discipline.act c with
  | opens locks =>
      rw [doing] at keeps
      exact absurd trivial keeps
  | closes locks =>
      rw [doing] at keeps
      exact absurd trivial keeps
  | faults =>
      rw [doing] at advanced
      cases advanced
  | inside locks =>
      rw [doing] at advanced
      exact reading advanced
  | within =>
      rw [doing] at advanced
      exact reading advanced
  | outside =>
      rw [doing] at advanced
      exact reading advanced
  | borrows =>
      rw [doing] at advanced
      exact reading advanced
  | anywhere =>
      rw [doing] at advanced
      exact reading advanced

/-- A call that takes nothing keeps what is locked. -/
theorem Locking.next (stands : Locking pins locked progress) (keeps : ¬ (discipline.act c).Takes) (reply : Reply c) :
    Locking pins locked (discipline.monitor.next progress c reply) := by
  intro after reached
  obtain ⟨standing, there, advanced⟩ := Option.bind_eq_some_iff.mp reached
  obtain ⟨known, same⟩ := stands standing there
  rcases Discipline.advance_keeps keeps advanced with ⟨_, rfl⟩ | ⟨key, lock, _, shown⟩
  · exact ⟨known, same⟩
  · obtain ⟨kept, more, _⟩ := Standing.shown_eq_some shown
    exact ⟨List.Subset.trans known more, kept.trans same⟩

/-- The rule for a part that neither takes nor gives back locks. -/
theorem Program.Calls.stands {program : Program Reply β} {next : β → Program Reply α}
    (calls : program.Calls fun c => ¬ (discipline.act c).Takes ∧ (discipline.act c).Allowed locked)
    (stands : Locking pins locked progress)
    (continues : ∀ value progress, Locking pins locked progress → (next value).Meets discipline.monitor post progress) :
    (program >>= next).Meets discipline.monitor post progress := by
  induction program generalizing progress with
  | pure value => exact continues value progress stands
  | call c inner ih =>
      refine ⟨fun standing there => ?_, fun reply => ih reply (calls.2 reply) (stands.next calls.1.1 reply)⟩
      rw [(stands standing there).2]
      exact calls.1.2

/-- A loose program is passed over inside a section. -/
theorem Program.Calls.loose {program : Program Reply β} {next : β → Program Reply α}
    (calls : program.Calls fun c => (discipline.act c).IsLoose) (stands : Locking pins locked progress)
    (continues : ∀ value progress, Locking pins locked progress → (next value).Meets discipline.monitor post progress) :
    (program >>= next).Meets discipline.monitor post progress :=
  (calls.mono fun _ loose => loose.fits).stands stands continues

/-- An outer program is passed over outside a section. -/
theorem Program.Calls.outer {program : Program Reply β} {next : β → Program Reply α}
    (calls : program.Calls fun c => (discipline.act c).IsOuter) (stands : Locking pins none progress)
    (continues : ∀ value progress, Locking pins none progress → (next value).Meets discipline.monitor post progress) :
    (program >>= next).Meets discipline.monitor post progress :=
  (calls.mono fun _ outer => outer.fits).stands stands continues

/-- A program that takes no locks keeps to the discipline. -/
theorem Program.Calls.settles {program : Program Reply α} (calls : program.Calls fun c => (discipline.act c).IsOuter)
    (stands : Locking pins none progress) : program.Meets discipline.monitor (fun _ => Locking [] none) progress := by
  rw [← program.bind_pure]
  exact calls.outer stands fun _ _ stands => stands.settled

/-- The rule for the two ways on after a step that can fail. -/
theorem meets_ite {Q : Type} {monitor : Monitor Reply Q} {post : α → Q → Prop} {progress : Q} {condition : Prop}
    [Decidable condition] {leaving program : Program Reply α} (leaves : leaving.Meets monitor post progress)
    (continues : program.Meets monitor post progress) :
    (if condition then leaving else program).Meets monitor post progress := by
  split
  · exact leaves
  · exact continues

/-- Nothing more is asked of a program that has read a contradiction. -/
theorem Program.meets_none {program : Program Reply α} (ends : ∀ value, post value none) :
    program.Meets discipline.monitor post none := by
  induction program with
  | pure value => exact ends value
  | call c next ih => exact ⟨nofun, fun reply => ih reply⟩

/-- The rule for a read of a lock. -/
theorem read_stands {next : Reply c → Program Reply α} {value : Reply c → Lock} (act : discipline.act c = .anywhere)
    (reads : ∀ reply, discipline.reads c reply = some (key, value reply)) (stands : Locking pins locked progress)
    (continues : ∀ reply progress, Locking pins locked progress →
      (value reply ≠ discipline.null → Locking ((key, value reply) :: pins) locked progress) →
      (next reply).Meets discipline.monitor post progress) :
    (perform c >>= next).Meets discipline.monitor post progress := by
  have keeps : ¬ (discipline.act c).Takes := by
    rw [act]
    exact id
  apply meets_perform_bind
  · rintro standing _
    rw [act]
    trivial
  · intro reply
    apply continues reply _ (stands.next keeps reply)
    intro real after reached
    obtain ⟨standing, there, advanced⟩ := Option.bind_eq_some_iff.mp reached
    obtain ⟨known, same⟩ := stands standing there
    rcases Discipline.advance_keeps keeps advanced with ⟨nothing, _⟩ | ⟨_, _, found, shown⟩
    · rw [reads] at nothing
      cases nothing
    · rw [reads] at found
      obtain ⟨rfl, rfl⟩ := Prod.mk.inj (Option.some.inj found)
      obtain ⟨kept, more, new, _⟩ := Standing.shown_eq_some shown
      exact ⟨List.cons_subset.mpr ⟨new real, List.Subset.trans known more⟩, kept.trans same⟩

/-- A lock that was found is read again. -/
theorem again_stands {next : Reply c → Program Reply α} {value : Reply c → Lock} (act : discipline.act c = .anywhere)
    (reads : ∀ reply, discipline.reads c reply = some (key, value reply)) (stands : Locking pins locked progress)
    (pin : (key, lock) ∈ pins) (ends : ∀ value, post value none)
    (continues : ∀ reply progress, value reply = lock → Locking pins locked progress →
      (next reply).Meets discipline.monitor post progress) :
    (perform c >>= next).Meets discipline.monitor post progress := by
  have keeps : ¬ (discipline.act c).Takes := by
    rw [act]
    exact id
  apply meets_perform_bind
  · rintro standing _
    rw [act]
    trivial
  · intro reply
    have later := stands.next keeps reply
    cases reached : discipline.monitor.next progress c reply with
    | none => exact Program.meets_none ends
    | some after =>
        rw [reached] at later
        apply continues reply (some after) _ later
        obtain ⟨standing, there, advanced⟩ := Option.bind_eq_some_iff.mp reached
        rcases Discipline.advance_keeps keeps advanced with ⟨nothing, _⟩ | ⟨_, _, found, shown⟩
        · rw [reads] at nothing
          cases nothing
        · rw [reads] at found
          obtain ⟨rfl, rfl⟩ := Prod.mk.inj (Option.some.inj found)
          obtain ⟨_, _, _, same, _⟩ := Standing.shown_eq_some shown
          exact (same _ ((stands standing there).1 pin) rfl).symm

/-- The call that opens a section locks. -/
theorem opens_stands {next : Reply c → Program Reply α} (act : discipline.act c = .opens locks)
    (stands : Locking pins none progress)
    (continues : ∀ reply progress, Locking pins (some locks) progress →
      (next reply).Meets discipline.monitor post progress) :
    (perform c >>= next).Meets discipline.monitor post progress := by
  apply meets_perform_bind
  · intro standing there
    rw [act]
    exact (stands standing there).2
  · intro reply
    apply continues
    intro after reached
    obtain ⟨standing, there, advanced⟩ := Option.bind_eq_some_iff.mp reached
    simp only [Discipline.advance, act] at advanced
    obtain rfl := Option.some.inj advanced
    exact ⟨(stands standing there).1, rfl⟩

/-- The call that closes it unlocks. -/
theorem closes_stands {next : Reply c → Program Reply α} (act : discipline.act c = .closes locks)
    (stands : Locking pins (some locks) progress)
    (continues : ∀ reply progress, Locking pins none progress → (next reply).Meets discipline.monitor post progress) :
    (perform c >>= next).Meets discipline.monitor post progress := by
  apply meets_perform_bind
  · intro standing there
    rw [act]
    exact (stands standing there).2
  · intro reply
    apply continues
    intro after reached
    obtain ⟨standing, there, advanced⟩ := Option.bind_eq_some_iff.mp reached
    simp only [Discipline.advance, act] at advanced
    obtain rfl := Option.some.inj advanced
    exact ⟨(stands standing there).1, rfl⟩

/-- After a fault nothing is left to prove. -/
theorem faults_stands {next : Reply c → Program Reply α} (act : discipline.act c = .faults) (ends : ∀ value, post value none) :
    (perform c >>= next).Meets discipline.monitor post progress := by
  apply meets_perform_bind
  · intro standing there
    rw [act]
    trivial
  · intro reply
    have nothing : discipline.monitor.next progress c reply = none := by
      cases progress <;> simp [Discipline.monitor, Discipline.advance, act]
    rw [nothing]
    exact Program.meets_none ends

/-- A system gives a lock to one task at a time. A task that cannot take its locks waits. -/
structure Discipline.Serves (discipline : Discipline Reply Key Lock) (handler : ι → Handler Reply σ)
    (holder : σ → Lock → Option ι) : Prop where
  opens : ∀ {task c state reply after locks}, discipline.act c = .opens locks →
    handler task c state = some (reply, after) → (∀ lock ∈ locks, holder state lock = none) ∧
      ∀ lock, holder after lock = if lock ∈ locks then some task else holder state lock
  closes : ∀ {task c state reply after locks}, discipline.act c = .closes locks →
    handler task c state = some (reply, after) →
      ∀ lock, holder after lock = if lock ∈ locks then none else holder state lock
  keeps : ∀ {task c state reply after}, ¬ (discipline.act c).Takes → handler task c state = some (reply, after) →
    holder after = holder state
  faults : ∀ {task c state}, discipline.act c = .faults → handler task c state = none
  waits : ∀ {task c state locks}, discipline.act c = .opens locks → handler task c state = none →
    ∃ lock ∈ locks, holder state lock ≠ none

/-- What a task has locked is what the system has given to it. -/
def Discipline.Matches (discipline : Discipline Reply Key Lock) (holder : σ → Lock → Option ι) (task : ι)
    (events : List (Event Reply)) (state : σ) : Prop :=
  ∃ standing, discipline.monitor.after (some .start) events = some standing ∧
    (∀ pair ∈ standing.known, pair.2 ≠ discipline.null ∧
      ∃ event ∈ events, discipline.reads event.call event.reply = some pair) ∧
    ∀ lock, holder state lock = some task ↔ ∃ locks, standing.locked = some locks ∧ lock ∈ locks

section
variable {handler : ι → Handler Reply σ} {holder : σ → Lock → Option ι} {task other : ι} {state later : σ}
  {reply : Reply c} {events : List (Event Reply)}

/-- One call of the task itself. -/
theorem Discipline.Matches.own (serves : discipline.Serves handler holder)
    (found : discipline.Matches holder task events state) (steady : discipline.Steady (events ++ [⟨c, reply⟩]))
    (permitted : discipline.monitor.permits (discipline.monitor.after (some .start) events) c)
    (answered : handler task c state = some (reply, later)) :
    discipline.Matches holder task (events ++ [⟨c, reply⟩]) later := by
  obtain ⟨standing, reached, known, holds⟩ := found
  have moved : discipline.monitor.after (some .start) (events ++ [⟨c, reply⟩]) =
      discipline.advance standing c reply := by
    rw [Monitor.after_append, reached]
    rfl
  have allowed : (discipline.act c).Allowed standing.locked := permitted standing (by rw [reached]; rfl)
  have longer : ∀ pair ∈ standing.known, pair.2 ≠ discipline.null ∧
      ∃ event ∈ events ++ [⟨c, reply⟩], discipline.reads event.call event.reply = some pair := by
    intro pair member
    obtain ⟨real, event, inside, shows⟩ := known pair member
    exact ⟨real, event, List.mem_append_left _ inside, shows⟩
  by_cases takes : (discipline.act c).Takes
  · cases doing : discipline.act c with
    | opens locks =>
        rw [doing] at allowed
        obtain ⟨free, given⟩ := serves.opens doing answered
        have nothing : ∀ lock, holder state lock ≠ some task := by
          intro lock held
          obtain ⟨_, impossible, _⟩ := (holds lock).mp held
          cases allowed.symm.trans impossible
        refine ⟨{ standing with locked := some locks }, ?_, longer, fun lock => ?_⟩
        · rw [moved]
          simp [Discipline.advance, doing]
        · rw [given]
          by_cases inside : lock ∈ locks <;> simp [inside, nothing lock]
    | closes locks =>
        rw [doing] at allowed
        have given := serves.closes doing answered
        refine ⟨{ standing with locked := none }, ?_, longer, fun lock => ?_⟩
        · rw [moved]
          simp [Discipline.advance, doing]
        · rw [given]
          by_cases inside : lock ∈ locks
          · simp [inside]
          · have nothing : holder state lock ≠ some task := by
              intro held
              obtain ⟨_, same, member⟩ := (holds lock).mp held
              obtain rfl := Option.some.inj (allowed.symm.trans same)
              exact inside member
            simp [inside, nothing]
    | _ => simp [doing, Act.Takes] at takes
  · have same := serves.keeps takes answered
    have disagree : ∀ key lock, discipline.reads c reply = some (key, lock) →
        ¬ ∃ pair ∈ standing.known, pair.1 = key ∧ pair.2 ≠ lock := by
      rintro key lock shows ⟨pair, member, rfl, differs⟩
      obtain ⟨real, event, inside, showed⟩ := known pair member
      have pairs := (List.pairwise_append.mp steady).2.2 event inside _ (List.mem_singleton.mpr rfl)
      exact differs (pairs pair.1 pair.2 lock showed real shows).symm
    have advanced : ∃ after, discipline.advance standing c reply = some after := by
      have reading : ∃ after, (match discipline.reads c reply with
          | none => some standing
          | some (key, lock) => standing.shown discipline.null key lock) = some after := by
        cases shows : discipline.reads c reply with
        | none => exact ⟨standing, rfl⟩
        | some pair =>
            have agrees := disagree pair.1 pair.2 shows
            change ∃ after, standing.shown discipline.null pair.1 pair.2 = some after
            unfold Standing.shown
            rw [if_neg agrees]
            split
            · exact ⟨_, rfl⟩
            · exact ⟨_, rfl⟩
      unfold Discipline.advance
      cases doing : discipline.act c with
      | faults =>
          rw [serves.faults doing] at answered
          cases answered
      | opens locks => simp [doing, Act.Takes] at takes
      | closes locks => simp [doing, Act.Takes] at takes
      | _ => exact reading
    obtain ⟨after, advanced⟩ := advanced
    refine ⟨after, moved.trans advanced, ?_⟩
    rw [same]
    rcases Discipline.advance_keeps takes advanced with ⟨_, rfl⟩ | ⟨key, lock, shows, shown⟩
    · exact ⟨longer, holds⟩
    · obtain ⟨kept, _, _, _, only⟩ := Standing.shown_eq_some shown
      refine ⟨fun pair member => ?_, ?_⟩
      · rcases only pair member with old | ⟨rfl, real⟩
        · exact longer pair old
        · exact ⟨real, _, List.mem_append_right _ (List.mem_singleton.mpr rfl), shows⟩
      · rw [kept]
        exact holds

/-- A call of another task takes no lock away and gives none. -/
theorem Discipline.Matches.apart (serves : discipline.Serves handler holder)
    (found : discipline.Matches holder other events state) (distinct : other ≠ task)
    (own : ∀ locks, discipline.act c = .closes locks → ∀ lock ∈ locks, holder state lock = some task)
    (answered : handler task c state = some (reply, later)) : discipline.Matches holder other events later := by
  have same : ∀ lock, holder later lock = some other ↔ holder state lock = some other := by
    intro lock
    by_cases takes : (discipline.act c).Takes
    · cases doing : discipline.act c with
      | opens locks =>
          obtain ⟨free, given⟩ := serves.opens doing answered
          rw [given]
          by_cases inside : lock ∈ locks
          · simp [inside, free lock inside, distinct.symm]
          · simp [inside]
      | closes locks =>
          rw [serves.closes doing answered]
          by_cases inside : lock ∈ locks
          · simp [inside, own locks doing lock inside, distinct.symm]
          · simp [inside]
      | _ => simp [doing, Act.Takes] at takes
    · rw [serves.keeps takes answered]
  obtain ⟨standing, reached, known, holds⟩ := found
  exact ⟨standing, reached, known, fun lock => (same lock).trans (holds lock)⟩

end

end

section
variable {Call Key Lock ι σ α : Type} {Reply : Call → Type} [DecidableEq Key] [DecidableEq Lock] [DecidableEq ι]
  {discipline : Discipline Reply Key Lock} {handler : ι → Handler Reply σ} {holder : σ → Lock → Option ι}
  {first last : Config Reply ι σ α} {schedule : List ι}

/-- Every program keeps to the discipline and ends without a lock. -/
def Discipline.Kept (discipline : Discipline Reply Key Lock) (config : Config Reply ι σ α) : Prop :=
  config.Follows (fun _ => discipline.monitor) (fun _ _ => Locking [] none) fun _ => some .start

/-- One step of any task, while what each task reads agrees with what it has read. -/
theorem Discipline.Kept.step (serves : discipline.Serves handler holder) {config next : Config Reply ι σ α} {task : ι}
    (kept : discipline.Kept config) (stepped : config.step handler task = some next)
    (found : ∀ task, discipline.Matches holder task (eventsOf config.history task) config.shared)
    (steady : ∀ task, discipline.Steady (eventsOf next.history task)) :
    discipline.Kept next ∧ ∀ task, discipline.Matches holder task (eventsOf next.history task) next.shared := by
  obtain ⟨follows, c, reply, advance⟩ := Config.Follows.step kept stepped
  refine ⟨follows, fun other => ?_⟩
  by_cases this : other = task
  · subst this
    have events := eventsOf_append_same config.history other ⟨c, reply⟩
    have agrees := steady other
    rw [advance.history, events] at agrees ⊢
    exact (found other).own serves agrees advance.permitted advance.answered
  · rw [advance.history, eventsOf_append_other _ _ this]
    apply (found other).apart serves this _ advance.answered
    intro locks closing lock inside
    obtain ⟨standing, reached, _, holds⟩ := found task
    have allowed := advance.permitted standing reached
    rw [closing] at allowed
    exact (holds lock).mpr ⟨locks, allowed, inside⟩

/-- A step keeps the history. -/
theorem Config.history_subset {config next : Config Reply ι σ α} {task : ι}
    (stepped : config.step handler task = some next) : config.history ⊆ next.history := by
  unfold Config.step at stepped
  split at stepped
  · cases stepped
  · obtain ⟨_, _, rfl⟩ := Option.map_eq_some_iff.mp stepped
    exact List.subset_append_left _ _

/-- The events of every task grow at the end. -/
theorem Config.step_history {config next : Config Reply ι σ α} {task : ι}
    (stepped : config.step handler task = some next) (other : ι) :
    eventsOf config.history other <+: eventsOf next.history other := by
  unfold Config.step at stepped
  split at stepped
  · cases stepped
  · obtain ⟨_, _, rfl⟩ := Option.map_eq_some_iff.mp stepped
    simp [eventsOf, List.filterMap_append]

/-- In every run, what the tasks have locked is what the system has given to them. -/
theorem Discipline.run_matches (serves : discipline.Serves handler holder) (kept : discipline.Kept first)
    (fresh : first.history = []) (free : ∀ lock, holder first.shared lock = none)
    (ran : first.run handler schedule = some last) (steady : ∀ task, discipline.Steady (eventsOf last.history task)) :
    discipline.Kept last ∧ ∀ task, discipline.Matches holder task (eventsOf last.history task) last.shared := by
  have start : ∀ task, discipline.Matches holder task (eventsOf first.history task) first.shared := by
    intro task
    refine ⟨.start, ?_, fun _ member => absurd member List.not_mem_nil, fun lock => ?_⟩
    · rw [fresh]
      rfl
    · simp [free, Standing.start]
  let keeps : Config Reply ι σ α → Prop := fun config => (∀ task, discipline.Steady (eventsOf config.history task)) →
    discipline.Kept config ∧ ∀ task, discipline.Matches holder task (eventsOf config.history task) config.shared
  have step : ∀ config task next, keeps config → config.step handler task = some next → keeps next := by
    intro config task next before stepped steady
    have earlier : ∀ task, discipline.Steady (eventsOf config.history task) :=
      fun other => (steady other).sublist (Config.step_history stepped other).sublist
    obtain ⟨kept, found⟩ := before earlier
    exact kept.step serves stepped found steady
  have whole : keeps last := Config.run_invariant step (fun _ => ⟨kept, start⟩) ran
  exact whole steady

omit [DecidableEq Key] in
/-- One step gives a lock to no task but by a call that opens it. -/
theorem Discipline.step_free (serves : discipline.Serves handler holder) {config next : Config Reply ι σ α} {task : ι}
    {lock : Lock} (stepped : config.step handler task = some next) (free : holder config.shared lock = none)
    (apart : ∀ entry ∈ next.history, ∀ locks, discipline.act entry.2.call = .opens locks → lock ∉ locks) :
    holder next.shared lock = none := by
  unfold Config.step at stepped
  split at stepped
  · cases stepped
  rename_i c _ _
  obtain ⟨⟨reply, after⟩, answered, rfl⟩ := Option.map_eq_some_iff.mp stepped
  by_cases takes : (discipline.act c).Takes
  · cases doing : discipline.act c with
    | opens locks =>
        have absent := apart _ (List.mem_append_right _ (List.mem_singleton.mpr rfl)) locks doing
        rw [(serves.opens doing answered).2, if_neg absent]
        exact free
    | closes locks =>
        rw [serves.closes doing answered]
        simp [free]
    | _ => simp [doing, Act.Takes] at takes
  · rw [serves.keeps takes answered]
    exact free

omit [DecidableEq Key] in
/-- A lock that no task has opened in a run is free at its end. -/
theorem Discipline.run_free (serves : discipline.Serves handler holder) {lock : Lock}
    (free : holder first.shared lock = none) (ran : first.run handler schedule = some last)
    (apart : ∀ entry ∈ last.history, ∀ locks, discipline.act entry.2.call = .opens locks → lock ∉ locks) :
    holder last.shared lock = none := by
  let keeps : Config Reply ι σ α → Prop := fun config =>
    (∀ entry ∈ config.history, ∀ locks, discipline.act entry.2.call = .opens locks → lock ∉ locks) →
      holder config.shared lock = none
  have step : ∀ config task next, keeps config → config.step handler task = some next → keeps next := by
    intro config task next before stepped apart
    exact Discipline.step_free serves stepped
      (before fun entry early => apart entry (Config.history_subset stepped early)) apart
  have whole : keeps last := Config.run_invariant step (fun _ => free) ran
  exact whole apart

/-- The next call of a task finds the locks that it needs with the task. A task that has ended holds none. -/
theorem Discipline.run_guarded (serves : discipline.Serves handler holder) (kept : discipline.Kept first)
    (fresh : first.history = []) (free : ∀ lock, holder first.shared lock = none)
    (ran : first.run handler schedule = some last) (steady : ∀ task, discipline.Steady (eventsOf last.history task))
    (task : ι) :
    (∀ c, last.nextCall task = some c → (discipline.act c).Guarded task (holder last.shared)) ∧
      (last.nextCall task = none → ∀ lock, holder last.shared lock ≠ some task) := by
  obtain ⟨follows, found⟩ := Discipline.run_matches serves kept fresh free ran steady
  obtain ⟨standing, reached, _, holds⟩ := found task
  have meets := follows task
  unfold Config.progress at meets
  rw [reached] at meets
  unfold Config.nextCall
  cases program : last.threads task with
  | pure value =>
      rw [program] at meets
      refine ⟨nofun, fun _ lock held => ?_⟩
      obtain ⟨locks, same, _⟩ := (holds lock).mp held
      cases ((meets standing rfl).2).symm.trans same
  | call c next =>
      rw [program] at meets
      refine ⟨fun other same => ?_, nofun⟩
      obtain rfl := Option.some.inj same
      exact (meets.1 standing rfl).guarded holds

/-- There is no deadlock: unless every task has ended, one can make its next call, or one has called what gives no answer
whatever the locks are. -/
theorem Discipline.run_proceeds (serves : discipline.Serves handler holder) (kept : discipline.Kept first)
    (fresh : first.history = []) (free : ∀ lock, holder first.shared lock = none)
    (ran : first.run handler schedule = some last) (steady : ∀ task, discipline.Steady (eventsOf last.history task))
    (unfinished : ∃ task, last.nextCall task ≠ none) :
    ∃ task c, last.nextCall task = some c ∧
      ((handler task c last.shared).isSome ∨
        handler task c last.shared = none ∧ ∀ locks, discipline.act c ≠ .opens locks) := by
  obtain ⟨task, unfinished⟩ := unfinished
  obtain ⟨c, calls⟩ := Option.ne_none_iff_exists'.mp unfinished
  by_cases answers : (handler task c last.shared).isSome
  · exact ⟨task, c, calls, .inl answers⟩
  have silent : handler task c last.shared = none := by simpa using answers
  by_cases opening : ∃ locks, discipline.act c = .opens locks
  · obtain ⟨locks, opening⟩ := opening
    obtain ⟨lock, _, held⟩ := serves.waits opening silent
    obtain ⟨other, held⟩ := Option.ne_none_iff_exists'.mp held
    -- The holder of the lock has not ended, and it does not wait for a lock itself.
    obtain ⟨guarded, ended⟩ := Discipline.run_guarded serves kept fresh free ran steady other
    obtain ⟨d, continues⟩ := Option.ne_none_iff_exists'.mp fun none => ended none lock held
    refine ⟨other, d, continues, ?_⟩
    by_cases answered : (handler other d last.shared).isSome
    · exact .inl answered
    · refine .inr ⟨by simpa using answered, fun locks opening => ?_⟩
      have nothing := guarded d continues
      rw [opening] at nothing
      exact nothing lock held
  · exact ⟨task, c, calls, .inr ⟨silent, fun locks same => opening ⟨locks, same⟩⟩⟩

end

end Effect
