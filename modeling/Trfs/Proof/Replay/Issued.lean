import Trfs.Construction.Replay.ReplayRecord

namespace Trfs.Replay
open Bytes Effect Trace

/-- The system call that the replay of a record makes. An unknown type and a write without content have none. -/
def ReplayArgs.request (args : ReplayArgs) (fd : BitVec 32) : Option SystemCall :=
  let fullpath1 := fullPath args.path1
  let fullpath2 := args.path2.map fullPath
  let mode : BitVec 32 := args.tracer.permissionMode.setWidth 32
  match args.kind with
  | some .open => some (.open fullpath1 args.tracer.openFlags none)
  | some .read => some (.read fd 0)
  | some .write => args.content.map fun content => .write fd content.bytes
  | some .release => some (.close fd)
  | some .create => some (.open fullpath1 args.tracer.openFlags (some mode))
  | some .link => some (.link fullpath1 fullpath2)
  | some .unlink => some (.unlink fullpath1)
  | some .symlink => some (.symlink fullpath1 args.path2)
  | some .mkdir => some (.mkdir fullpath1 mode)
  | some .rmdir => some (.rmdir fullpath1)
  | some .mknod => some (.mknod fullpath1 mode (args.tracer.openFlags.setWidth 64))
  | some .rename => some (.rename fullpath1 fullpath2)
  | none => none

/-- The value of `errval` after a call. -/
def SystemCall.errval : (c : SystemCall) → c.Reply → BitVec 32
  | .printf _, _ => 0
  | .read .., count | .write .., count => count.setWidth 32
  | .open .., result | .close _, result | .link .., result | .unlink _, result | .symlink .., result
  | .mkdir .., result | .rmdir _, result | .mknod .., result | .rename .., result => result

/-- The number that is printed, and the global `fd` with the result of `replay_record`. -/
def ReplayArgs.printed (args : ReplayArgs) (errval : BitVec 32) : BitVec 32 :=
  if args.kind = some .open then (if errval.toInt < 0 then -1 else 0) else errval

def ReplayArgs.outcome (args : ReplayArgs) (fd errval : BitVec 32) : BitVec 32 × Bool :=
  if args.kind = some .open then (if errval.toInt < 0 then fd else errval, false)
  else (fd, decide (args.tracer.err = errval))

section
variable {args : ReplayArgs} {fd : BitVec 32} {c : SystemCall}

/-- The case `OPEN_CALL` never finds agreement: its `errval` is -1 or 0. -/
theorem replayOpen_eq (fd : BitVec 32) (args : ReplayArgs) :
    replayOpen fd args = (do
      let opened ← perform (SystemCall.open (fullPath args.path1) args.tracer.openFlags none)
      perform (SystemCall.printf (replayText (if opened.toInt < 0 then -1 else 0)))
      pure (if opened.toInt < 0 then fd else opened, false)) := by
  rw [replayOpen, perform_bind, perform_bind]
  congr 1
  funext opened
  have never : ∀ errval : BitVec 32, ¬ 0 < errval.toInt → decide (args.tracer.err = 0 ∧ 0 < errval.toInt) = false :=
    fun errval small => decide_eq_false fun both => small both.2
  by_cases failed : opened.toInt < 0
  · rw [if_pos failed, if_pos failed, if_pos failed, ← never (-1) (by decide)]
  · rw [if_neg failed, if_neg failed, if_neg failed, ← never 0 (by decide)]

/-- The replay of a record prints two texts, makes its call and prints the result. -/
theorem replayRecord_request (request : args.request fd = some c) :
    replayRecord fd args = (do
      perform (SystemCall.printf "Replay result ->\n\n")
      perform (SystemCall.printf (originalText args.tracer.err))
      let reply ← perform c
      perform (SystemCall.printf (replayText (args.printed (c.errval reply))))
      pure (args.outcome fd (c.errval reply))) := by
  have same : replayCall fd args = (do
      let reply ← perform c
      perform (SystemCall.printf (replayText (args.printed (c.errval reply))))
      pure (args.outcome fd (c.errval reply))) := by
    unfold ReplayArgs.request at request
    unfold replayCall ReplayArgs.printed ReplayArgs.outcome
    cases kind : args.kind with
    | none =>
        rw [kind] at request
        cases request
    | some call =>
        rw [kind] at request
        cases call with
        | «open» =>
            obtain rfl := Option.some.inj request
            exact replayOpen_eq fd args
        | write =>
            obtain ⟨content, here, rfl⟩ := Option.map_eq_some_iff.mp request
            simp only [replayWrite, here]
            rfl
        | _ =>
            obtain rfl := Option.some.inj request
            rfl
  rw [replayRecord, same]

/-- A record without a call has an unknown type, or it is a write without content, which faults. -/
theorem replayRecord_silent (none : args.request fd = none) :
    replayRecord fd args = (do
      perform (SystemCall.printf "Replay result ->\n\n")
      perform (SystemCall.printf (originalText args.tracer.err))
      if args.kind = .none then pure (fd, true) else segfault) := by
  unfold ReplayArgs.request at none
  cases kind : args.kind with
  | none => rw [replayRecord, replayCall, kind, if_pos rfl]
  | some call =>
      rw [kind] at none
      cases call with
      | write =>
          have absent : args.content = .none := Option.map_eq_none_iff.mp none
          rw [if_neg (Option.some_ne_none _), replayRecord, replayCall, kind]
          simp only [replayWrite, absent]
      | _ => cases none

/-- The replay of a record calls what it requests. -/
theorem replayRecord_calls {holds : SystemCall → Prop} (prints : ∀ text, holds (.printf text))
    (faults : holds .fault) : (replayRecord fd args).Calls holds ↔ ∀ c ∈ args.request fd, holds c := by
  cases request : args.request fd with
  | none =>
      rw [replayRecord_silent request]
      refine iff_of_true ⟨prints _, fun _ => ⟨prints _, fun _ => ?_⟩⟩ nofun
      split
      · trivial
      · exact ⟨faults, nofun⟩
  | some c =>
      rw [replayRecord_request request]
      constructor
      · intro calls other member
        obtain rfl := Option.some.inj member
        exact ((calls.2 ()).2 ()).1
      · intro here
        exact ⟨prints _, fun _ => ⟨prints _, fun _ => ⟨here c rfl, fun _ => ⟨prints _, fun _ => trivial⟩⟩⟩⟩

/-- The calls of an execution without its output. -/
def isSystem (event : Event SystemCall.Reply) : Bool :=
  match event.call with
  | .printf _ => false
  | _ => true

section
variable {σ : Type} {handler : Handler SystemCall.Reply σ} {state : σ}
  {done : Execution SystemCall.Reply σ (BitVec 32 × Bool)}

/-- What a completed replay of a record has done, apart from its output. -/
inductive Replays (fd : BitVec 32) (args : ReplayArgs) (done : Execution SystemCall.Reply σ (BitVec 32 × Bool)) :
    Prop where
  | silent (kind : args.kind = none) (events : done.events.filter isSystem = []) (value : done.value = (fd, true))
  | call (c : SystemCall) (reply : c.Reply) (request : args.request fd = some c)
      (events : done.events.filter isSystem = [⟨c, reply⟩]) (value : done.value = args.outcome fd (c.errval reply))

theorem request_isSystem (request : args.request fd = some c) (reply : c.Reply) : isSystem ⟨c, reply⟩ = true := by
  unfold ReplayArgs.request at request
  cases kind : args.kind with
  | none =>
      rw [kind] at request
      cases request
  | some call =>
      rw [kind] at request
      cases call with
      | write =>
          obtain ⟨content, _, rfl⟩ := Option.map_eq_some_iff.mp request
          rfl
      | _ =>
          obtain rfl := Option.some.inj request
          rfl

/-- A call that only prints before it continues. -/
theorem printf_exec {text : String} {next : Unit → UserProg (BitVec 32 × Bool)}
    (ran : (Program.call (SystemCall.printf text) next : UserProg _).exec handler state = some done) :
    ∃ after rest, (next ()).exec handler after = some rest ∧ done.value = rest.value ∧
      done.events.filter isSystem = rest.events.filter isSystem := by
  obtain ⟨_, after, rest, _, continued, value, _, events⟩ := Program.exec_call_eq_some ran
  exact ⟨after, rest, continued, value, by rw [events]; rfl⟩

theorem replayRecord_replays (ran : (replayRecord fd args).exec handler state = some done) :
    Replays fd args done := by
  cases request : args.request fd with
  | none =>
      rw [replayRecord_silent request] at ran
      obtain ⟨_, _, ran, value, events⟩ := printf_exec ran
      obtain ⟨_, last, ran, value₂, events₂⟩ := printf_exec ran
      rw [value₂] at value
      rw [events₂] at events
      split at ran
      · rename_i kind
        obtain rfl := Option.some.inj ran
        exact .silent kind events value
      · obtain ⟨impossible, _⟩ := Program.exec_call_eq_some ran
        exact impossible.elim
  | some c =>
      rw [replayRecord_request request] at ran
      obtain ⟨_, _, ran, value, events⟩ := printf_exec ran
      obtain ⟨_, _, ran, value₂, events₂⟩ := printf_exec ran
      obtain ⟨reply, _, _, _, ran, value₃, _, events₃⟩ := Program.exec_call_eq_some ran
      obtain ⟨_, last, ran, value₄, events₄⟩ := printf_exec ran
      obtain rfl := Option.some.inj ran
      apply Replays.call c reply request
      · rw [events, events₂, events₃, List.filter_cons_of_pos (request_isSystem request reply), events₄]
        rfl
      · rw [value, value₂, value₃, value₄]

/-- On a system whose output changes nothing in view the replay of a record completes with the answer to its call. -/
theorem replayRecord_shows {V : Type} {view : σ → V} (request : args.request fd = some c)
    (prints : ∀ text state, ∃ after, handler (.printf text) state = some ((), after) ∧ view after = view state)
    (state : σ) : ∃ middle, view middle = view state ∧
      ∀ reply after, handler c middle = some (reply, after) →
        ∃ done, (replayRecord fd args).exec handler state = some done ∧ view done.state = view after ∧
          done.value = args.outcome fd (c.errval reply) := by
  rw [replayRecord_request request]
  obtain ⟨first, one, same⟩ := prints "Replay result ->\n\n" state
  obtain ⟨middle, two, also⟩ := prints (originalText args.tracer.err) first
  refine ⟨middle, also.trans same, fun reply after answered => ?_⟩
  obtain ⟨last, three, kept⟩ := prints (replayText (args.printed (c.errval reply))) after
  simp only [perform_bind, Program.exec, one, two, answered, three, Program.pure_eq, Option.map_some]
  exact ⟨_, rfl, kept, rfl⟩

/-- A system whose output leaves its state as it is completes the replay of a record with the answer to its call. -/
theorem replayRecord_exec (request : args.request fd = some c)
    (prints : ∀ text state, handler (.printf text) state = some ((), state)) {reply : c.Reply} {after : σ}
    (answered : handler c state = some (reply, after)) :
    ∃ done, (replayRecord fd args).exec handler state = some done ∧ done.state = after ∧
      done.value = args.outcome fd (c.errval reply) := by
  have unchanged : ∀ text state, ∃ after, handler (.printf text) state = some ((), after) ∧ id after = id state :=
    fun text state => ⟨state, prints text state, rfl⟩
  obtain ⟨middle, same, completes⟩ := replayRecord_shows request unchanged state
  obtain rfl : middle = state := same
  exact completes reply after answered

/-- A write without content does not complete. -/
theorem replayRecord_faults (kind : args.kind = some .write) (nothing : args.content = none) :
    (replayRecord fd args).exec handler state = none := by
  have request : args.request fd = none := by
    simp only [ReplayArgs.request, kind, nothing, Option.map_none]
  cases ran : (replayRecord fd args).exec handler state with
  | none => rfl
  | some done =>
      cases replayRecord_replays ran with
      | silent unknown _ _ => exact nomatch kind.symm.trans unknown
      | call c reply requested _ _ => exact nomatch request.symm.trans requested

end

end

/-- This system answers every call but a fault. -/
def Answers {σ : Type} (handler : Handler SystemCall.Reply σ) : Prop :=
  ∀ c state, c ≠ .fault → ∃ reply after, handler c state = some (reply, after)

section
variable {args : ReplayArgs} {fd : BitVec 32}

/-- A program that never faults completes on a system that answers. -/
theorem exec_of_answers {α σ : Type} {program : UserProg α} {handler : Handler SystemCall.Reply σ}
    (calls : program.Calls (· ≠ .fault)) (answers : Answers handler) (state : σ) :
    ∃ done, program.exec handler state = some done := by
  induction program generalizing state with
  | pure value => exact ⟨_, rfl⟩
  | call c next ih =>
      obtain ⟨reply, after, answered⟩ := answers c state calls.1
      obtain ⟨rest, continued⟩ := ih reply (calls.2 reply) after
      refine ⟨{ rest with events := ⟨c, reply⟩ :: rest.events }, ?_⟩
      simp [Program.exec, answered, continued]

/-- A record that requests a call makes it and completes. -/
theorem replayRecord_answered {c : SystemCall} (request : args.request fd = some c) (sound : c ≠ .fault)
    {σ : Type} {handler : Handler SystemCall.Reply σ} (answers : Answers handler) (state : σ) :
    ∃ done reply, (replayRecord fd args).exec handler state = some done ∧
      done.events.filter isSystem = [⟨c, reply⟩] := by
  have calls : (replayRecord fd args).Calls (· ≠ .fault) := by
    rw [replayRecord_request request]
    exact ⟨nofun, fun _ => ⟨nofun, fun _ => ⟨sound, fun _ => ⟨nofun, fun _ => trivial⟩⟩⟩⟩
  obtain ⟨done, ran⟩ := exec_of_answers calls answers state
  refine ⟨done, ?_⟩
  cases replayRecord_replays ran with
  | silent unknown _ _ =>
      have requests : args.request fd = none := by simp only [ReplayArgs.request, unknown]
      rw [requests] at request
      cases request
  | call other reply requested events _ =>
      obtain rfl := Option.some.inj (requested.symm.trans request)
      exact ⟨reply, ran, events⟩

/-- The replay of this record takes the length of `NULL`. -/
def ReplayArgs.Kills (args : ReplayArgs) : Prop := args.kind = some .write ∧ args.content = none

instance (args : ReplayArgs) : Decidable args.Kills := inferInstanceAs (Decidable (_ ∧ _))

/-- A record of a known type that does not kill the process requests a call. -/
theorem ReplayArgs.request_isSome {kind : CallKind} (known : args.kind = some kind) (returns : ¬ args.Kills)
    (fd : BitVec 32) : ∃ c, args.request fd = some c ∧ c ≠ .fault := by
  unfold ReplayArgs.request
  rw [known]
  cases kind with
  | write =>
      cases content : args.content with
      | none => exact absurd ⟨known, content⟩ returns
      | some text => exact ⟨_, rfl, nofun⟩
  | _ => exact ⟨_, rfl, nofun⟩

/-- On a system that answers every other record is replayed to its end. -/
theorem replayRecord_returns_iff {σ : Type} {handler : Handler SystemCall.Reply σ} (answers : Answers handler)
    (fd : BitVec 32) (state : σ) : (∃ done, (replayRecord fd args).exec handler state = some done) ↔ ¬ args.Kills := by
  constructor
  · rintro ⟨done, ran⟩ ⟨kind, nothing⟩
    rw [replayRecord_faults kind nothing] at ran
    cases ran
  · intro returns
    cases kind : args.kind with
    | none =>
        have request : args.request fd = none := by simp only [ReplayArgs.request, kind]
        apply exec_of_answers _ answers state
        rw [replayRecord_silent request, if_pos kind]
        exact ⟨nofun, fun _ => ⟨nofun, fun _ => trivial⟩⟩
    | some call =>
        obtain ⟨c, request, sound⟩ := args.request_isSome kind returns fd
        obtain ⟨done, _, ran, _⟩ := replayRecord_answered request sound answers state
        exact ⟨done, ran⟩

end

/-- The system on which every call succeeds: a file is opened at descriptor 3, and no byte is read or written. -/
def obliging : Handler SystemCall.Reply Unit
  | .fault, _ => none
  | .printf _, state => some ((), state)
  | .read .., state | .write .., state => some ((0 : BitVec 64), state)
  | .open .., state => some ((3 : BitVec 32), state)
  | .close _, state | .link .., state | .unlink _, state | .symlink .., state | .mkdir .., state
  | .rmdir _, state | .mknod .., state | .rename .., state => some ((0 : BitVec 32), state)

theorem obliging_answers : Answers obliging := by
  intro c state sound
  cases c <;> first | exact absurd rfl sound | exact ⟨_, _, rfl⟩

end Trfs.Replay
