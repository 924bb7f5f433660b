import Trfs.Proof.Kernel.Results

namespace Trfs.Trace
open Bytes

/-- The offsets of the structure that no member covers. -/
def padding : List Nat := [13, 14, 15, 22, 23]

section
variable {value : TraceDs} {object object' : List Byte}

/-- The padding of the object keeps its previous contents. -/
theorem TraceDs.assign_padding {offset : Nat} (inside : offset ∈ padding) :
    (value.assign object)[offset]? = object[offset]? := by
  simp only [assign, store_getElem?, store_length, encodeWord_length]
  simp only [padding, List.mem_cons, List.not_mem_nil, or_false] at inside
  repeat rw [if_neg (by omega)]

/-- The other bytes do not depend on the previous contents. -/
theorem TraceDs.assign_members {offset : Nat} (size : object.length = sizeofTraceDs)
    (size' : object'.length = sizeofTraceDs) (outside : offset ∉ padding) :
    (value.assign object)[offset]? = (value.assign object')[offset]? := by
  by_cases past : sizeofTraceDs ≤ offset
  · rw [List.getElem?_eq_none (by rwa [assign_length _ _ size]),
      List.getElem?_eq_none (by rwa [assign_length _ _ size'])]
  · simp only [assign, store_getElem?, store_length, encodeWord_length, size, size']
    simp only [padding, sizeofTraceDs, List.mem_cons, List.not_mem_nil, or_false] at past outside ⊢
    grind

end

end Trfs.Trace

namespace Trfs.Kernel
open Bytes Effect Trace

/-- The outcome of a write lets the byte at this offset arrive. -/
def WriteOutcome.Arrives (outcome : WriteOutcome) (offset : Nat) : Prop :=
  match outcome with
  | .full => True
  | .short count => offset < count
  | .failed _ => False

/-- An offset that arrives has the byte that was sent, any other has none. -/
theorem WriteOutcome.arriving_getElem? (outcome : WriteOutcome) (bytes : List Byte) (offset : Nat) :
    (outcome.Arrives offset → (outcome.arriving bytes)[offset]? = bytes[offset]?) ∧
      (¬ outcome.Arrives offset → (outcome.arriving bytes)[offset]? = none) := by
  cases outcome with
  | full => exact ⟨fun _ => rfl, fun none => absurd trivial none⟩
  | short count =>
      constructor
      · exact fun within => List.getElem?_take_of_lt within
      · intro outside
        exact List.getElem?_eq_none (Nat.le_trans (List.length_take_le _ _) (Nat.le_of_not_lt outside))
  | failed errno => exact ⟨False.elim, fun _ => rfl⟩

/-- Two images of one header arrive alike exactly when the padding that arrives is the same. -/
theorem arriving_assign_iff {value : TraceDs} {object object' : List Byte} (outcome : WriteOutcome)
    (size : object.length = sizeofTraceDs) (size' : object'.length = sizeofTraceDs) :
    outcome.arriving (value.assign object) = outcome.arriving (value.assign object') ↔
      ∀ offset ∈ padding, outcome.Arrives offset → object[offset]? = object'[offset]? := by
  have shown := fun bytes offset => outcome.arriving_getElem? bytes offset
  constructor
  · intro same offset inside arrives
    have here := congrArg (fun bytes : List Byte => bytes[offset]?) same
    rw [(shown _ _).1 arrives, (shown _ _).1 arrives, TraceDs.assign_padding inside,
      TraceDs.assign_padding inside] at here
    exact here
  · intro same
    apply List.ext_getElem?
    intro offset
    by_cases arrives : outcome.Arrives offset
    · rw [(shown _ _).1 arrives, (shown _ _).1 arrives]
      by_cases inside : offset ∈ padding
      · rw [TraceDs.assign_padding inside, TraceDs.assign_padding inside]
        exact same offset inside arrives
      · exact TraceDs.assign_members size size' inside
    · rw [(shown _ _).2 arrives, (shown _ _).2 arrives]

/-- The bytes that one call hands to the trace file. -/
def traceWrite (event : Event Call.Reply) : Option (List Byte) :=
  match event.call with
  | .tracer (.vfsWrite _ source count) => some (delivered source count)
  | _ => none

/-- What a call hands to the trace file, one entry for each `vfs_write`. -/
def traceWrites (events : List (Event Call.Reply)) : List (List Byte) := events.filterMap traceWrite

/-- The eight field values of a record. -/
def assignedFields (events : List (Event Call.Reply)) : Option TraceDs := (traceWrites events).head?.map TraceDs.view

/-- The parts of a record after its header. -/
def assignedPayload (events : List (Event Call.Reply)) : List (List Byte) := (traceWrites events).tail

/-- The object of the record, which is the third thing that a tracing block asks for, and what was written so far. -/
structure Imaging where
  helperCalls : Nat
  object : Option (List Byte)
  written : List (List Byte)

def Imaging.start : Imaging := ⟨0, none, []⟩

def Imaging.nextTracer (progress : Imaging) : (c : TracerCall) → c.Reply → Imaging
  | .kmalloc _, block =>
      { progress with
        helperCalls := progress.helperCalls + 1
        object := if progress.helperCalls = 2 then block.map Block.bytes else progress.object }
  | .filpOpen .., _ => { progress with helperCalls := progress.helperCalls + 1 }
  | .vfsWrite _ source count, _ => { progress with written := progress.written ++ [delivered source count] }
  | _, _ => progress

/-- The first write to the trace file is the object with a header assigned to it. -/
def imaging : Monitor Call.Reply Imaging where
  permits progress
    | .tracer (.vfsWrite _ source count) => progress.written = [] →
        ∃ header object, progress.object = some object ∧ delivered source count = TraceDs.assign header object
    | .tracer (.kmalloc size) => progress.helperCalls = 2 → size = sizeofTraceDs
    | .tracer (.filpOpen ..) => progress.helperCalls ≠ 2
    | _ => True
  next progress
    | .tracer c, reply => progress.nextTracer c reply
    | _, _ => progress

/-- The calls that neither allocate nor write for the tracer. -/
def Idle : Call → Prop
  | .tracer (.kmalloc _) | .tracer (.filpOpen ..) | .tracer (.vfsWrite ..) => False
  | _ => True

section
variable {α : Type} {progress : Imaging}

/-- An idle program keeps the state of the imaging. -/
theorem idle_meets {post : α → Imaging → Prop} {program : Prog α} (idle : program.Calls Idle)
    (rest : ∀ value, post value progress) : program.Meets imaging post progress := by
  apply idle.meets _ rest
  intro c idle reached
  cases c with
  | tracer c => cases c <;> first | exact idle.elim | exact ⟨trivial, fun _ => rfl⟩
  | _ => exact ⟨trivial, fun _ => rfl⟩

/-- The calls that follow the header. -/
def AfterHeader : Call → Prop
  | .tracer (.kmalloc _) | .tracer (.filpOpen ..) => False
  | _ => True

/-- After the header the imaging permits everything that is left. -/
theorem afterHeader_meets {program : Prog α} (calls : program.Calls AfterHeader) (headed : progress.written ≠ []) :
    program.Meets imaging (fun _ _ => True) progress := by
  induction program generalizing progress with
  | pure value => trivial
  | call c next ih =>
      cases c with
      | tracer c =>
          cases c with
          | kmalloc size => exact calls.1.elim
          | filpOpen filename flags => exact calls.1.elim
          | vfsWrite file source count =>
              exact ⟨fun first => absurd first headed, fun reply => ih reply (calls.2 reply) (by
                simp [imaging, Imaging.nextTracer])⟩
          | _ => exact ⟨trivial, fun reply => ih reply (calls.2 reply) headed⟩
      | _ => exact ⟨trivial, fun reply => ih reply (calls.2 reply) headed⟩

attribute [local simp] Program.Calls Idle AfterHeader

/-- The second path is made without a write. -/
theorem secondPath_idle (block : TraceBlock) (buffer : Block pathBufferSize) : (block.secondPath buffer).Calls Idle := by
  unfold TraceBlock.secondPath
  split
  · trivial
  · trivial
  · simp only [dentryPathRaw]
    split <;> simp [pathLength, pathMemory, oops]

/-- The memory of a path is read after the header. -/
theorem pathMemory_afterHeader {size : Nat} (buffer : Block size) (pathName : Except Errno Nat) :
    (pathMemory buffer pathName).Calls AfterHeader := by
  cases pathName <;> simp [pathMemory, oops]

/-- The second path is written after the header. -/
theorem writePath2_afterHeader (block : TraceBlock) (file : TraceFile) (buffer : Block pathBufferSize)
    (pathName2 : Except Errno Nat) (length : BitVec 16) :
    (block.writePath2 (.ok file) buffer pathName2 length).Calls AfterHeader := by
  unfold TraceBlock.writePath2
  split
  · trivial
  · simp [vfsWrite]
  · exact (pathMemory_afterHeader _ _).bind fun _ => by simp [vfsWrite]

/-- The content is written after the header. -/
theorem writeContent_afterHeader (block : TraceBlock) (file : TraceFile) :
    (block.writeContent (.ok file)).Calls AfterHeader := by
  unfold TraceBlock.writeContent
  split
  · trivial
  · simp [vfsWrite]

/-- The copy of the object arrives as the object. -/
theorem delivered_image (header : TraceDs) (object copy : Block sizeofTraceDs) :
    delivered (memcpy copy.bytes (header.assign object.bytes) sizeofTraceDs) (BitVec.ofNat 64 sizeofTraceDs) =
      header.assign object.bytes := by
  have size := TraceDs.assign_length header _ object.length
  rw [memcpy_whole _ _ _ copy.length size]
  generalize header.assign object.bytes = image at size
  exact List.take_of_length_le (Nat.le_of_eq size)

/-- A block writes its object first. -/
theorem body_imaging (block : TraceBlock) (flags : block.openFlags.Calls IsRead) (mode : block.permMode.Calls IsRead) :
    block.body.Meets imaging (fun _ _ => True) .start := by
  have reads {β : Type} {program : Prog β} (calls : program.Calls IsRead) : program.Calls Idle := by
    apply calls.mono
    intro c read
    cases c with
    | upper c => trivial
    | _ => exact read.elim
  unfold TraceBlock.body
  refine meets_perform_bind trivial fun filename => ?_
  refine meets_perform_bind trivial fun recId => ?_
  rw [Program.meets_bind]
  apply idle_meets (reads flags)
  intro openFlags
  rw [Program.meets_bind]
  apply idle_meets (reads mode)
  intro permMode
  refine meets_perform_bind (fun third => absurd third (show ¬ (0 = 2) by decide)) ?_
  rintro (_ | buffer)
  · exact ⟨trivial, fun impossible => impossible.elim⟩
  simp only [dentryPathRaw]
  split
  · rw [Program.pure_eq, Program.pure_bind, Program.meets_bind]
    apply idle_meets (by simp [pathLength, pathMemory])
    intro lenPath1
    rw [Program.meets_bind]
    apply idle_meets (secondPath_idle block _)
    intro second
    refine meets_perform_bind (Nat.succ_ne_self 1).symm fun fileOp => ?_
    refine meets_perform_bind (fun _ => rfl) ?_
    rintro (_ | object)
    · exact ⟨trivial, fun impossible => impossible.elim⟩
    refine meets_perform_bind (fun third => absurd third (show ¬ (3 = 2) by decide)) ?_
    rintro (_ | copy)
    · exact ⟨trivial, fun impossible => impossible.elim⟩
    cases fileOp with
    | error errno => exact ⟨trivial, fun impossible => impossible.elim⟩
    | ok file =>
        refine ⟨fun _ => ⟨_, object.bytes, rfl, delivered_image _ object copy⟩, fun _ => ?_⟩
        apply afterHeader_meets
        · apply (pathMemory_afterHeader _ _).bind
          intro memory1
          refine ⟨trivial, fun _ => ?_⟩
          apply (writePath2_afterHeader _ _ _ _ _).bind
          intro _
          apply (writeContent_afterHeader _ _).bind
          intro _
          exact ⟨trivial, fun _ => ⟨trivial, fun _ => trivial⟩⟩
        · simp [imaging, Imaging.nextTracer]
  · exact ⟨trivial, fun impossible => impossible.elim⟩

/-- What follows the block is idle. -/
theorem Tail.idle {op : TracedOp} {plan : RecordPlan} {after : TraceBuffers → Prog Outcome} {answers : Answers}
    (tail : Tail op plan after answers) (buffers : TraceBuffers) : (after buffers).Calls Idle := by
  induction tail with
  | ends frees outcome answers freeing kept reaches returned =>
      have idle : (frees buffers).Calls Idle := by
        apply (freeing buffers).mono
        intro c free
        cases c with
        | tracer c => cases c <;> first | exact free.elim | trivial
        | _ => exact free.elim
      exact idle.bind fun _ => trivial
  | call c next answers plain rest ih =>
      refine ⟨?_, ih⟩
      cases c <;> first | exact plain.elim | trivial

/-- Every operation writes the object of its record before anything else. -/
theorem Staged.imaging {op : TracedOp} {program : Prog Outcome} {answers : Answers}
    (staged : Staged op program answers) : program.Meets imaging (fun _ _ => True) .start := by
  induction staged with
  | stop outcome answers early returned => trivial
  | fault next answers => exact ⟨trivial, fun impossible => impossible.elim⟩
  | call c next answers plain rest ih => cases c <;> first | exact plain.elim | exact ⟨trivial, ih⟩
  | block block after answers same flags mode reaches tail =>
      have free (buffers : TraceBuffers) (progress : Imaging) :
          (after buffers).Meets Kernel.imaging (fun _ _ => True) progress :=
        idle_meets (tail.idle buffers) fun _ => trivial
      rw [Program.meets_bind, TraceBlock.run]
      refine meets_perform_bind trivial fun mask => ?_
      split
      · exact (body_imaging block flags mode).mono fun buffers progress _ => free buffers progress
      · exact free .null _

end

section
variable {L : Type} {env : Environment L} {helpers : Helpers} {op : TracedOp}

/-- The bytes that the allocation of the record's object finds. -/
def Helpers.objectBytes (helpers : Helpers) (helperCalls : Nat) : List Byte :=
  (List.range sizeofTraceDs).map (helpers.garbage (helperCalls + 2))

/-- The object has the size of the header. -/
theorem Helpers.objectBytes_length (helpers : Helpers) (helperCalls : Nat) :
    (helpers.objectBytes helperCalls).length = sizeofTraceDs := by
  rw [objectBytes, List.length_map, List.length_range]

/-- The object holds what its memory held, and the first write is this object with a header. -/
structure ShowsObject (helpers : Helpers) (before state : Machine L) (progress : Imaging) : Prop where
  helperCalls : state.helperCalls = before.helperCalls + progress.helperCalls
  object : ∀ object, progress.object = some object → object = helpers.objectBytes before.helperCalls
  image : ∀ image ∈ progress.written.head?, ∃ header : TraceDs,
    image = header.assign (helpers.objectBytes before.helperCalls)

/-- A permitted call keeps the image that of the object. -/
theorem handle_showsObject {before state after : Machine L} {progress : Imaging} (c : Call) (reply : c.Reply)
    (permitted : imaging.permits progress c) (shows : ShowsObject helpers before state progress)
    (answered : handle env helpers c state = some (reply, after)) :
    ShowsObject helpers before after (imaging.next progress c reply) := by
  obtain ⟨helperCalls, object, image⟩ := shows
  cases c with
  | tracer c =>
      have step := Option.some.inj answered
      cases c with
      | kmalloc size =>
          simp only [Machine.answer] at step
          split at step
          · obtain ⟨rfl, rfl⟩ := Prod.mk.inj step
            refine ⟨by simp [imaging, Imaging.nextTracer, helperCalls, Nat.add_assoc], ?_, image⟩
            intro found
            simp only [imaging, Imaging.nextTracer]
            split
            · intro impossible
              cases impossible
            · exact object found
          · obtain ⟨rfl, rfl⟩ := Prod.mk.inj step
            refine ⟨by simp [imaging, Imaging.nextTracer, helperCalls, Nat.add_assoc], ?_, image⟩
            intro found
            simp only [imaging, Imaging.nextTracer]
            split
            · rename_i third
              intro same
              rw [← Option.some.inj same, permitted third, Helpers.objectBytes, helperCalls, third]
            · exact object found
      | filpOpen filename flags =>
          simp only [Machine.answer] at step
          split at step
          · obtain ⟨rfl, rfl⟩ := Prod.mk.inj step
            exact ⟨by simp [imaging, Imaging.nextTracer, helperCalls, Nat.add_assoc], object, image⟩
          · obtain ⟨rfl, rfl⟩ := Prod.mk.inj step
            exact ⟨by simp [imaging, Imaging.nextTracer, helperCalls, Nat.add_assoc], object, image⟩
      | vfsWrite file source count =>
          have calls : after.helperCalls = state.helperCalls := by
            simp only [Machine.answer] at step
            split at step <;> rw [← (Prod.mk.inj step).2]
          refine ⟨calls.trans helperCalls, object, ?_⟩
          simp only [imaging, Imaging.nextTracer]
          cases written : progress.written with
          | nil =>
              obtain ⟨header, found, here, delivers⟩ := permitted written
              intro first same
              obtain rfl := Option.some.inj same
              exact ⟨header, by rw [delivers, object found here]⟩
          | cons first rest =>
              rw [written] at image
              exact image
      | _ =>
          obtain ⟨rfl, rfl⟩ := Prod.mk.inj step
          exact ⟨helperCalls, object, image⟩
  | oops => cases answered
  | _ =>
      obtain ⟨rfl, rfl⟩ := Prod.mk.inj (Option.some.inj answered)
      exact ⟨helperCalls, object, image⟩

/-- A monitor that collects what is handed to the trace file holds it at the end. -/
theorem written_after {Q : Type} {monitor : Monitor Call.Reply Q} {written : Q → List (List Byte)}
    (grows : ∀ progress (event : Event Call.Reply),
      written (monitor.next progress event.call event.reply) = written progress ++ (traceWrite event).toList)
    (progress : Q) (events : List (Event Call.Reply)) :
    written (monitor.after progress events) = written progress ++ traceWrites events := by
  induction events generalizing progress with
  | nil => simp [Monitor.after, traceWrites]
  | cons event events ih =>
      rw [Monitor.after_cons, ih, grows, List.append_assoc]
      congr 1
      cases handed : traceWrite event <;> simp [traceWrites, handed]

/-- The imaging follows the writes to the trace. -/
theorem imaging_written (events : List (Event Call.Reply)) :
    (imaging.after .start events).written = traceWrites events := by
  refine (written_after ?_ Imaging.start events).trans (List.nil_append _)
  rintro progress ⟨c, reply⟩
  cases c with
  | tracer c => cases c <;> first | rfl | exact (List.append_nil _).symm
  | _ => exact (List.append_nil _).symm

/-- The protocol follows the writes to the trace. -/
theorem protocol_written (events : List (Event Call.Reply)) :
    ((protocol op).after .start events).written = traceWrites events := by
  refine (written_after ?_ Progress.start events).trans (List.nil_append _)
  rintro progress ⟨c, reply⟩
  cases c with
  | tracer c => cases c <;> first | rfl | exact (List.append_nil _).symm
  | _ => exact (List.append_nil _).symm

/-- The trace file grows by what arrives of the writes of the call. -/
theorem TracedOp.exec_traceFile {before : Machine L} {done : Done L} (ran : op.exec env helpers before = some done) :
    done.state.traceFile = before.traceFile ++ arrivals helpers before.traceWrites (traceWrites done.events) := by
  have tracks := op.meets.exec_relation
    (fun c middle reply after progress permitted tracks answered =>
      handle_tracks c reply permitted tracks answered)
    (Tracks.start helpers op.kind before) ran
  rw [tracks.state, protocol_written]

/-- The first write of a call is its header assigned to the memory of the record's object. -/
theorem TracedOp.exec_image {before : Machine L} {done : Done L} (ran : op.exec env helpers before = some done) :
    ∀ image ∈ (traceWrites done.events).head?, ∃ header : TraceDs,
      image = header.assign (helpers.objectBytes before.helperCalls) := by
  have start : ShowsObject helpers before before .start := ⟨rfl, nofun, nofun⟩
  have shows := (Staged.imaging op.staged).exec_relation
    (fun c middle reply after progress permitted shows answered =>
      handle_showsObject c reply permitted shows answered) start ran
  have image := shows.image
  rwa [imaging_written] at image

end

/-- The bytes that a call appends to the trace file. -/
def Appended {L : Type} (before after : Machine L) : List Byte := after.traceFile.drop before.traceFile.length

/-- What arrives depends on the write outcomes only. -/
theorem arrivals_congr {helpers helpers' : Helpers} {start start' : Nat}
    (outcomes : ∀ index, helpers.write (start + index) = helpers'.write (start' + index))
    (parts : List (List Byte)) : arrivals helpers start parts = arrivals helpers' start' parts := by
  induction parts generalizing start start' with
  | nil => rfl
  | cons part rest ih =>
      have first := outcomes 0
      have later := ih (fun index => by
        have next := outcomes (1 + index)
        rwa [← Nat.add_assoc, ← Nat.add_assoc] at next)
      simp only [Nat.add_zero] at first
      rw [arrivals, arrivals, first, later]

/-- Two records of one header and one payload arrive alike exactly when their padding does. -/
theorem arrivals_image_iff {helpers helpers' : Helpers} {start start' : Nat} {header : TraceDs}
    {object object' : List Byte} {parts : List (List Byte)}
    (outcomes : ∀ index, helpers.write (start + index) = helpers'.write (start' + index))
    (size : object.length = sizeofTraceDs) (size' : object'.length = sizeofTraceDs) :
    arrivals helpers start (header.assign object :: parts) =
        arrivals helpers' start' (header.assign object' :: parts) ↔
      ∀ offset ∈ padding, (helpers.write start).Arrives offset → object[offset]? = object'[offset]? := by
  have first : helpers.write start = helpers'.write start' := outcomes 0
  have later : arrivals helpers (start + 1) parts = arrivals helpers' (start' + 1) parts := by
    apply arrivals_congr
    intro index
    rw [Nat.add_assoc, Nat.add_assoc]
    exact outcomes (1 + index)
  rw [arrivals, arrivals, first, later, List.append_left_inj]
  exact arriving_assign_iff _ size size'

/-- A padding byte of the object is what the allocation left there. -/
theorem Helpers.objectBytes_getElem? (helpers : Helpers) (helperCalls : Nat) {offset : Nat}
    (inside : offset ∈ padding) :
    (helpers.objectBytes helperCalls)[offset]? = some (helpers.garbage (helperCalls + 2) offset) := by
  have within : offset < sizeofTraceDs := by
    simp only [padding, List.mem_cons, List.not_mem_nil, or_false] at inside
    simp only [sizeofTraceDs]
    omega
  rw [objectBytes, List.getElem?_map, List.getElem?_range within, Option.map_some]

/-- What the trace file gets from a call, as one header and one payload. -/
theorem TracedOp.exec_writes {L : Type} {env : Environment L} {helpers : Helpers} {op : TracedOp} {before : Machine L}
    {done : Done L} {header : TraceDs} (ran : op.exec env helpers before = some done)
    (fields : assignedFields done.events = some header) :
    traceWrites done.events =
      header.assign (helpers.objectBytes before.helperCalls) :: assignedPayload done.events := by
  have image := TracedOp.exec_image ran
  have size := helpers.objectBytes_length before.helperCalls
  generalize helpers.objectBytes before.helperCalls = object at image size ⊢
  unfold assignedFields at fields
  unfold assignedPayload
  cases writes : traceWrites done.events with
  | nil =>
      rw [writes] at fields
      cases fields
  | cons first rest =>
      rw [writes] at fields image
      obtain ⟨other, same⟩ := image first rfl
      have view : TraceDs.view first = header := Option.some.inj fields
      rw [same, TraceDs.view_assign other object size] at view
      rw [same, view, List.tail_cons]

/-- Two calls that assign the same fields and payload, and whose writes have the same outcomes, append the same bytes
exactly when the padding that arrives was the same in the memory of their objects. -/
theorem sameTrace_iff {L L' : Type} {env : Environment L} {env' : Environment L'} {helpers helpers' : Helpers}
    {op op' : TracedOp} {before : Machine L} {before' : Machine L'} {done : Done L} {done' : Done L'}
    (ran : op.exec env helpers before = some done) (ran' : op'.exec env' helpers' before' = some done')
    (fields : assignedFields done.events = assignedFields done'.events)
    (payload : assignedPayload done.events = assignedPayload done'.events)
    (outcomes : ∀ index, helpers.write (before.traceWrites + index) = helpers'.write (before'.traceWrites + index)) :
    Appended before done.state = Appended before' done'.state ↔
      ((assignedFields done.events).isSome → ∀ offset ∈ padding, (helpers.write before.traceWrites).Arrives offset →
        helpers.garbage (before.helperCalls + 2) offset = helpers'.garbage (before'.helperCalls + 2) offset) := by
  have file := TracedOp.exec_traceFile ran
  have file' := TracedOp.exec_traceFile ran'
  simp only [Appended, file, file', List.drop_left]
  cases assigned : assignedFields done.events with
  | none =>
      have nothing {L : Type} {done : Done L} (none : assignedFields done.events = none) :
          traceWrites done.events = [] :=
        List.head?_eq_none_iff.mp (Option.map_eq_none_iff.mp none)
      rw [nothing assigned, nothing (fields.symm.trans assigned)]
      exact iff_of_true rfl nofun
  | some header =>
      rw [TracedOp.exec_writes ran assigned, TracedOp.exec_writes ran' (fields.symm.trans assigned), payload,
        arrivals_image_iff outcomes (helpers.objectBytes_length _) (helpers'.objectBytes_length _)]
      simp only [Option.isSome_some, true_implies]
      apply forall₂_congr
      intro offset inside
      rw [helpers.objectBytes_getElem? _ inside, helpers'.objectBytes_getElem? _ inside, Option.some.injEq]

/-- Helpers that never fail, on memory that holds this byte outside the padding. -/
def around (byte : Byte) : Helpers :=
  { reliable with garbage := fun _ offset => if offset ∈ padding then 0x5a else byte }

/-- Two creations of `/a` on memory that differs only outside the padding append the same bytes. -/
theorem sameTrace_iff_create : ∃ done done',
    (TracedOp.create ⟨1⟩ dentryA 0 false).exec (steady 0 0) (around 0x11) freshMount = some done ∧
      (TracedOp.create ⟨1⟩ dentryA 0 false).exec (steady 0 0) (around 0x22) freshMount = some done' ∧
      (assignedFields done.events).isSome ∧ Appended freshMount done.state = Appended freshMount done'.state := by
  have shows : ((TracedOp.create ⟨1⟩ dentryA 0 false).exec (steady 0 0) (around 0x11) freshMount).map
      (fun done => (assignedFields done.events, assignedPayload done.events)) =
      some (some ⟨2, 0, 0, 0, 4, 0, 0, 0⟩, [[0x2f, 0x61]]) := by decide +kernel
  have shows' : ((TracedOp.create ⟨1⟩ dentryA 0 false).exec (steady 0 0) (around 0x22) freshMount).map
      (fun done => (assignedFields done.events, assignedPayload done.events)) =
      some (some ⟨2, 0, 0, 0, 4, 0, 0, 0⟩, [[0x2f, 0x61]]) := by decide +kernel
  obtain ⟨done, ran, seen⟩ := Option.map_eq_some_iff.mp shows
  obtain ⟨done', ran', seen'⟩ := Option.map_eq_some_iff.mp shows'
  obtain ⟨fields, payload⟩ := Prod.mk.inj seen
  obtain ⟨fields', payload'⟩ := Prod.mk.inj seen'
  refine ⟨done, done', ran, ran', by rw [fields]; rfl, ?_⟩
  apply (sameTrace_iff ran ran' (fields.trans fields'.symm) (payload.trans payload'.symm) fun _ => rfl).mpr
  intro _ offset inside _
  show (if offset ∈ padding then (0x5a : Byte) else 0x11) = if offset ∈ padding then 0x5a else 0x22
  rw [if_pos inside, if_pos inside]

/-- Helpers that never fail, on memory that holds this byte everywhere. -/
def filled (byte : Byte) : Helpers := { reliable with garbage := fun _ _ => byte }

/-- Two creations of `/a` assign the same fields and payload, and the trace shows what their memory held before. -/
theorem sameTrace_fails : ∃ done done',
    (TracedOp.create ⟨1⟩ dentryA 0 false).exec (steady 0 0) (filled 0) freshMount = some done ∧
      (TracedOp.create ⟨1⟩ dentryA 0 false).exec (steady 0 0) (filled 0x5a) freshMount = some done' ∧
      assignedFields done.events = assignedFields done'.events ∧
      assignedPayload done.events = assignedPayload done'.events ∧
      (Appended freshMount done.state)[13]? = some 0 ∧ (Appended freshMount done'.state)[13]? = some 0x5a := by
  have shows : ((TracedOp.create ⟨1⟩ dentryA 0 false).exec (steady 0 0) (filled 0) freshMount).map
      (fun done => (assignedFields done.events, assignedPayload done.events,
        (Appended freshMount done.state)[13]?)) =
      some (some ⟨2, 0, 0, 0, 4, 0, 0, 0⟩, [[0x2f, 0x61]], some 0) := by decide +kernel
  have shows' : ((TracedOp.create ⟨1⟩ dentryA 0 false).exec (steady 0 0) (filled 0x5a) freshMount).map
      (fun done => (assignedFields done.events, assignedPayload done.events,
        (Appended freshMount done.state)[13]?)) =
      some (some ⟨2, 0, 0, 0, 4, 0, 0, 0⟩, [[0x2f, 0x61]], some 0x5a) := by decide +kernel
  obtain ⟨done, ran, seen⟩ := Option.map_eq_some_iff.mp shows
  obtain ⟨done', ran', seen'⟩ := Option.map_eq_some_iff.mp shows'
  obtain ⟨fields, seen⟩ := Prod.mk.inj seen
  obtain ⟨payload, byte⟩ := Prod.mk.inj seen
  obtain ⟨fields', seen'⟩ := Prod.mk.inj seen'
  obtain ⟨payload', byte'⟩ := Prod.mk.inj seen'
  exact ⟨done, done', ran, ran', fields.trans fields'.symm, payload.trans payload'.symm, byte, byte'⟩

end Trfs.Kernel
