import Trfs.Construction.Kernel.Mmap

namespace Trfs.Kernel.Mmap
open Effect

/-- What a request has done and learned so far. -/
structure Learned where
  made : Bool
  linked : Bool
  found : Option Nat
  copy : Option Vma
  flags : Option (BitVec 64)
  lowerFile : Option LowerFile
  writepage : Option Bool
  last : Option (Option VmOps)
  seen : Bool
  mapped : Bool
  saved : Option (Option VmOps)
  settled : Bool
  stored : Bool

def Learned.nothing : Learned :=
  ⟨false, false, none, none, none, none, none, none, false, false, none, false, false⟩

def Learned.next (known : Learned) : (c : MapCall) → c.Reply → Learned
  | .newVma .., _ => { known with made := true }
  | .linkVma _, _ => { known with linked := true }
  | .findVma vma, _ => { known with found := some vma }
  | .loadVma _, value => { known with copy := some value }
  | .vmFlags _, flags => { known with flags := some flags }
  | .vmOps _, ops => { known with saved := some ops }
  | .setVmOps .., _ => { known with settled := true }
  | .lowerVmOps _, ops => { known with last := some ops, seen := known.seen || ops.isSome }
  | .setLowerVmOps .., _ => { known with stored := true }
  | .lowerFile _, lowerFile => { known with lowerFile := some lowerFile }
  | .writepage _, defined => { known with writepage := some defined }
  | .lowerMmap .., err => { known with mapped := known.mapped || err = 0 }
  | .fileAccessed _, _ | .setAops _, _ | .lowerFault .., _ | .lowerPageMkwrite .., _ => known
  | .bug, _ | .oops, _ => known

/-- The calls of `mmap`. It stores operations only when it has just seen none, and then those that it saved. -/
def mmapPermits (file vma : Nat) (area : Vma) (known : Learned) : MapCall → Prop
  | .newVma other value => other = vma ∧ value = area.made file ∧ known = .nothing
  | .linkVma other => other = vma ∧ known.made ∧ known.linked = false ∧ known.settled ∧ (known.seen ∨ known.stored) ∧
      ∃ flags, known.flags = some flags ∧ (willWrite flags → known.writepage = some true)
  | .vmFlags other => other = vma ∧ known.made ∧ known.linked = false
  | .vmOps other => other = vma ∧ known.mapped ∧ known.settled = false
  | .setVmOps other value => other = vma ∧ value = some trfsVmOps ∧ known.made ∧ known.linked = false
  | .lowerVmOps other | .lowerFile other => other = file
  | .setLowerVmOps other value => other = file ∧ known.last = some none ∧ (known.seen ∨ known.saved = some value)
  | .writepage lowerFile => known.lowerFile = some lowerFile
  | .lowerMmap lowerFile other => other = vma ∧ known.lowerFile = some lowerFile ∧ known.made ∧
      known.mapped = false ∧ known.settled = false ∧ known.linked = false
  | .fileAccessed _ | .setAops _ => True
  | _ => False

/-- The vma that the lower method gets is the copy with the lower file in it. -/
def Learned.Forwards (known : Learned) (ops : VmOps) (value : Vma) : Prop :=
  ∃ copy file lowerFile, known.copy = some copy ∧ copy.file = .upper file ∧ known.lowerFile = some lowerFile ∧
    known.last = some (some ops) ∧ value = { copy with file := .lower lowerFile }

/-- The calls of the fault handlers. They stop only at a missing table or method, or at a vma of another file. -/
def faultPermits (writing : Bool) (vma vmf : Nat) (known : Learned) : MapCall → Prop
  | .findVma other => other = vma
  | .vmOps other | .loadVma other => other = vma ∧ known.found = some vma
  | .lowerVmOps file | .lowerFile file => ∃ copy, known.copy = some copy ∧ copy.file = .upper file
  | .lowerFault ops value given => writing = false ∧ known.Forwards ops value ∧ given = vmf
  | .lowerPageMkwrite ops value given => writing = true ∧ known.Forwards ops value ∧ given = vmf ∧ ops.pageMkwrite
  | .bug => known.last = some none
  | .oops => (∃ copy lowerFile, known.copy = some copy ∧ copy.file = .lower lowerFile) ∨
      ∃ ops, known.last = some (some ops) ∧ ops.fault = false
  | _ => False

def dupPermits (old new : Nat) (known : Learned) : MapCall → Prop
  | .findVma other => other = old
  | .loadVma other => other = old ∧ known.found = some old
  | .newVma other value => other = new ∧ known.copy = some value ∧ known.linked = false
  | .linkVma other => other = new ∧ known.made ∧ known.linked = false
  | _ => False

def duty (request : MapRequest) : Monitor MapCall.Reply Learned where
  permits known := match request with
    | .mmap file vma area => mmapPermits file vma area known
    | .fault vma vmf => faultPermits false vma vmf known
    | .pageMkwrite vma vmf => faultPermits true vma vmf known
    | .dup old new => dupPermits old new known
  next := Learned.next

/-- The end of a successful `trfs_mmap` and the link of its vma. -/
theorem settle_meets {file vma : Nat} {area : Vma} {known : Learned} {savedVmOps : Option VmOps} {flags : BitVec 64}
    (made : known.made = true) (unlinked : known.linked = false) (read : known.flags = some flags)
    (writable : willWrite flags → known.writepage = some true)
    (knows : known.seen = true ∨ known.saved = some savedVmOps) :
    (settleMmap file vma savedVmOps >>= fun err => if err ≠ 0 then pure err else do
      perform (MapCall.linkVma vma)
      pure 0).Meets (duty (.mmap file vma area)) (fun _ _ => True) known := by
  refine ⟨trivial, fun _ => ⟨⟨rfl, rfl, made, unlinked⟩, fun _ => ⟨trivial, fun _ => ⟨rfl, fun current => ?_⟩⟩⟩⟩
  cases current with
  | none =>
      refine ⟨⟨rfl, rfl, ?_⟩, fun _ => ⟨⟨rfl, made, unlinked, rfl, .inr rfl, flags, read, writable⟩,
        fun _ => trivial⟩⟩
      exact knows.imp_left fun seen => by simp [duty, Learned.next, seen]
  | some ops =>
      exact ⟨⟨rfl, made, unlinked, rfl, .inl (by simp [duty, Learned.next]), flags, read, writable⟩, fun _ => trivial⟩

/-- The lower `mmap` comes only when the file has no lower operations yet. -/
theorem mapped_meets {file vma : Nat} {area : Vma} {known : Learned} {flags : BitVec 64} {lowerFile : LowerFile}
    (made : known.made = true) (unlinked : known.linked = false) (unmapped : known.mapped = false)
    (unsettled : known.settled = false) (read : known.flags = some flags)
    (writable : willWrite flags → known.writepage = some true) (below : known.lowerFile = some lowerFile) :
    ((do
      let current ← perform (MapCall.lowerVmOps file)
      if current = none then do
        let (err, savedVmOps) ← mapLower lowerFile vma
        if err ≠ 0 then pure err
        else settleMmap file vma savedVmOps
      else settleMmap file vma none) >>= fun err => if err ≠ 0 then pure err else do
        perform (MapCall.linkVma vma)
        pure 0).Meets (duty (.mmap file vma area)) (fun _ _ => True) known := by
  refine ⟨rfl, fun current => ?_⟩
  cases current with
  | none =>
      refine ⟨⟨rfl, below, made, unmapped, unsettled, unlinked⟩, fun err => ?_⟩
      by_cases failed : err = 0
      · subst failed
        refine ⟨⟨rfl, ?_, unsettled⟩, fun savedVmOps => ?_⟩
        · simp [duty, Learned.next]
        · exact settle_meets made unlinked read writable (.inr rfl)
      · dsimp only [Program.bind]
        rw [if_pos failed]
        dsimp only [Pure.pure, Program.bind]
        rw [if_pos failed]
        dsimp only [Program.bind]
        rw [if_pos failed]
        trivial
  | some ops => exact settle_meets made unlinked read writable (.inl (by simp [duty, Learned.next]))

/-- The first part of both handlers finds the file of the vma and its lower operations. -/
theorem handler_meets {request : MapRequest} {writing : Bool} {vma vmf : Nat}
    (same : (duty request).permits = faultPermits writing vma vmf) {known : Learned} (found : known.found = some vma)
    {method : Vma → Nat → VmOps → MapProg (BitVec 32)}
    (rest : ∀ copy file ops known, known.copy = some copy → copy.file = .upper file → known.last = some (some ops) →
      (method copy file ops).Meets (duty request) (fun _ _ => True) known) :
    (do
      let lowerVma ← perform (MapCall.loadVma vma)
      let file ← asUpper lowerVma.file
      let found ← perform (MapCall.lowerVmOps file)
      let lowerVmOps ← bugOn found
      method lowerVma file lowerVmOps).Meets (duty request) (fun _ _ => True) known := by
  refine ⟨by rw [same]; exact ⟨rfl, found⟩, fun copy => ?_⟩
  dsimp only [Program.bind]
  cases mapped : copy.file with
  | lower lowerFile =>
      refine ⟨?_, fun impossible => impossible.elim⟩
      rw [same]
      exact .inl ⟨copy, lowerFile, rfl, mapped⟩
  | upper file =>
      refine ⟨by rw [same]; exact ⟨copy, rfl, mapped⟩, fun ops => ?_⟩
      cases ops with
      | none =>
          refine ⟨?_, fun impossible => impossible.elim⟩
          rw [same]
          rfl
      | some ops => exact rest copy file ops _ rfl mapped rfl

/-- `trfs_fault` does what is permitted to a fault. -/
theorem trfsFault_meets {vma vmf : Nat} {known : Learned} (found : known.found = some vma) :
    (trfsFault vma vmf).Meets (duty (.fault vma vmf)) (fun _ _ => True) known := by
  apply handler_meets rfl found
  intro copy file ops known held mapped last
  refine ⟨⟨copy, held, mapped⟩, fun lowerFile => ?_⟩
  dsimp only [Program.bind, callFault]
  by_cases method : ops.fault = true
  · rw [if_pos method]
    exact ⟨⟨rfl, ⟨copy, file, lowerFile, held, mapped, rfl, last, rfl⟩, rfl⟩, fun _ => trivial⟩
  · rw [if_neg method]
    exact ⟨.inr ⟨ops, last, Bool.eq_false_iff.mpr method⟩, fun impossible => impossible.elim⟩

/-- `trfs_page_mkwrite` does what is permitted to it. -/
theorem trfsPageMkwrite_meets {vma vmf : Nat} {known : Learned} (found : known.found = some vma) :
    (trfsPageMkwrite vma vmf).Meets (duty (.pageMkwrite vma vmf)) (fun _ _ => True) known := by
  apply handler_meets rfl found
  intro copy file ops known held mapped last
  cases method : ops.pageMkwrite with
  | false => trivial
  | true =>
      refine ⟨⟨copy, held, mapped⟩, fun lowerFile => ?_⟩
      exact ⟨⟨rfl, ⟨copy, file, lowerFile, held, mapped, rfl, last, rfl⟩, rfl, method⟩, fun _ => trivial⟩

/-- Whatever the replies are, a request keeps to its duty. -/
theorem MapRequest.meets (request : MapRequest) :
    request.program.Meets (duty request) (fun _ _ => True) .nothing := by
  cases request with
  | mmap file vma area =>
      refine ⟨⟨rfl, rfl, rfl⟩, fun _ => ⟨⟨rfl, rfl, rfl⟩, fun flags => ⟨rfl, fun lowerFile => ?_⟩⟩⟩
      by_cases writes : willWrite flags = true
      · simp only [if_pos writes]
        refine ⟨rfl, fun writepage => ?_⟩
        cases writepage with
        | false => trivial
        | true => exact mapped_meets rfl rfl rfl rfl rfl (fun _ => rfl) rfl
      · simp only [if_neg writes]
        exact mapped_meets rfl rfl rfl rfl rfl (fun writing => absurd writing writes) rfl
  | fault vma vmf =>
      refine ⟨rfl, fun _ => ⟨⟨rfl, rfl⟩, fun ops => ?_⟩⟩
      dsimp only [Program.bind]
      by_cases own : ops = some trfsVmOps
      · rw [if_pos own]
        exact trfsFault_meets rfl
      · rw [if_neg own]
        trivial
  | pageMkwrite vma vmf =>
      refine ⟨rfl, fun _ => ⟨⟨rfl, rfl⟩, fun ops => ?_⟩⟩
      dsimp only [Program.bind]
      by_cases own : ops = some trfsVmOps
      · rw [if_pos own]
        exact trfsPageMkwrite_meets rfl
      · rw [if_neg own]
        trivial
  | dup old new =>
      exact ⟨rfl, fun _ => ⟨⟨rfl, rfl⟩, fun value => ⟨⟨rfl, rfl, rfl⟩, fun _ => ⟨⟨rfl, rfl, rfl⟩, fun _ => trivial⟩⟩⟩⟩

section
variable {ι L : Type}

/-- A mapping of the file has read these operations behind the lower `mmap`. -/
def Provided (requests : ι → MapRequest) (history : List (ι × Event MapCall.Reply)) (file : Nat) (ops : VmOps) : Prop :=
  ∃ task vma area, requests task = .mmap file vma area ∧ (task, ⟨.vmOps vma, some ops⟩) ∈ history

/-- Operations that were set for a file have been set later too. -/
theorem Provided.mono {requests : ι → MapRequest} {history later : List (ι × Event MapCall.Reply)} {file : Nat}
    {ops : VmOps} (provided : Provided requests history file ops) (grows : history ⊆ later) :
    Provided requests later file ops := by
  obtain ⟨task, vma, area, asked, read⟩ := provided
  exact ⟨task, vma, area, asked, grows read⟩

variable (env : MapEnvironment L) (requests : ι → MapRequest)

/-- What a mapping in progress relies on. -/
structure MmapKnows (file vma : Nat) (area : Vma) (state : Mappings L) (history : List (ι × Event MapCall.Reply))
    (known : Learned) : Prop where
  unlinked : known.linked = false → state.linked vma = false
  made : known.made = true → known.linked = false →
    (state.vma vma).file = .upper file ∧ (state.vma vma).flags = area.flags
  mapped : known.mapped = true → known.settled = false → ∃ ops, (state.vma vma).ops = some ops ∧ ops.fault = true
  saved : ∀ found, known.saved = some found →
    ∃ ops, found = some ops ∧ ops.fault = true ∧ Provided requests history file ops
  seen : known.seen = true ∨ known.stored = true → (state.lowerVmOps file).isSome
  last : known.last = some none → known.seen = false
  settled : known.settled = true → known.linked = false → (state.vma vma).ops = some trfsVmOps
  flags : ∀ flags, known.flags = some flags → flags = area.flags
  lowerFile : ∀ lowerFile, known.lowerFile = some lowerFile → lowerFile = state.lowerFile file
  writepage : ∀ defined, known.writepage = some defined → defined = env.writepage (state.lowerFile file)

/-- What a fault in progress relies on. -/
structure FaultKnows (vma : Nat) (state : Mappings L) (history : List (ι × Event MapCall.Reply))
    (known : Learned) : Prop where
  found : ∀ other, known.found = some other → state.linked vma = true
  copy : ∀ copy, known.copy = some copy → copy = state.vma vma ∧ state.linked vma = true
  last : ∀ found, known.last = some found → state.linked vma = true ∧ ∃ file ops,
    (state.vma vma).file = .upper file ∧ found = some ops ∧ ops.fault = true ∧ Provided requests history file ops
  lowerFile : ∀ lowerFile, known.lowerFile = some lowerFile → state.linked vma = true ∧ ∃ file,
    (state.vma vma).file = .upper file ∧ lowerFile = state.lowerFile file

/-- What a copy of a mapping in progress relies on. -/
structure DupKnows (old new : Nat) (state : Mappings L) (known : Learned) : Prop where
  unlinked : known.linked = false → state.linked new = false
  found : ∀ other, known.found = some other → state.linked old = true
  copy : ∀ copy, known.copy = some copy → copy = state.vma old ∧ state.linked old = true
  made : known.made = true → known.linked = false → state.vma new = state.vma old ∧ state.linked old = true

def Knows (state : Mappings L) (history : List (ι × Event MapCall.Reply)) (request : MapRequest) (known : Learned) :
    Prop :=
  match request with
  | .mmap file vma area => MmapKnows env requests file vma area state history known
  | .fault vma _ | .pageMkwrite vma _ => FaultKnows requests vma state history known
  | .dup old new => DupKnows old new state known

/-- A vma that can be found is one of a file of the mount, its operations are those of the mount, its file has lower
operations, and if it can be written then the lower file can write its pages back. -/
structure Mapped (state : Mappings L) (vma : Vma) (file : Nat) : Prop where
  upper : vma.file = .upper file
  ops : vma.ops = some trfsVmOps
  lower : (state.lowerVmOps file).isSome
  writable : willWrite vma.flags = true → env.writepage (state.lowerFile file) = true

/-- The call of a lower method gets the vma of its fault with the lower file in the place of the file, and it is a
method of operations that the lower `mmap` of that file has left. -/
def Forwarded (state : Mappings L) (history : List (ι × Event MapCall.Reply)) (vma given : Nat) (ops : VmOps)
    (value : Vma) (vmf : Nat) : Prop :=
  ∃ file, (state.vma vma).file = .upper file ∧ value = { state.vma vma with file := .lower (state.lowerFile file) } ∧
    Provided requests history file ops ∧ vmf = given ∧ state.linked vma = true

/-- What holds of the mappings and of the calls made so far. -/
structure Sound (state : Mappings L) (history : List (ι × Event MapCall.Reply)) : Prop where
  mapped : ∀ vma, state.linked vma = true → ∃ file, Mapped env state (state.vma vma) file
  ops : ∀ file ops, state.lowerVmOps file = some ops → ops.fault = true ∧ Provided requests history file ops
  faults : ∀ task ops value vmf err, (task, ⟨.lowerFault ops value vmf, err⟩) ∈ history →
    ∃ vma given, requests task = .fault vma given ∧ Forwarded requests state history vma given ops value vmf
  writes : ∀ task ops value vmf err, (task, ⟨.lowerPageMkwrite ops value vmf, err⟩) ∈ history →
    ∃ vma given, requests task = .pageMkwrite vma given ∧
      Forwarded requests state history vma given ops value vmf ∧ ops.pageMkwrite = true

/-- A step of a request that makes this vma, as the other requests see it. -/
structure Evolves (own : Option Nat) (state after : Mappings L) : Prop where
  others : ∀ vma, own ≠ some vma → after.vma vma = state.vma vma ∧ after.linked vma = state.linked vma
  linked : ∀ vma, state.linked vma = true → after.linked vma = true ∧ after.vma vma = state.vma vma
  ops : ∀ file, (state.lowerVmOps file).isSome → (after.lowerVmOps file).isSome
  lowerFile : after.lowerFile = state.lowerFile

/-- A state that stays the same evolves. -/
theorem Evolves.refl (own : Option Nat) (state : Mappings L) : Evolves own state state :=
  ⟨fun _ _ => ⟨rfl, rfl⟩, fun _ linked => ⟨linked, rfl⟩, fun _ found => found, rfl⟩

end

section
variable {ι L : Type} {env : MapEnvironment L} {requests : ι → MapRequest} {own : Option Nat}
  {state after : Mappings L} {history later : List (ι × Event MapCall.Reply)} {known : Learned}

/-- What a fault knows stays true while others act. -/
theorem FaultKnows.frame {vma : Nat} (knows : FaultKnows requests vma state history known)
    (evolves : Evolves own state after) (grows : history ⊆ later) : FaultKnows requests vma after later known where
  found other seen := (evolves.linked vma (knows.found other seen)).1
  copy copy held := by
    obtain ⟨same, linked⟩ := knows.copy copy held
    obtain ⟨still, kept⟩ := evolves.linked vma linked
    exact ⟨by rw [kept]; exact same, still⟩
  last found read := by
    obtain ⟨linked, file, ops, mapped, is, method, provided⟩ := knows.last found read
    obtain ⟨still, kept⟩ := evolves.linked vma linked
    exact ⟨still, file, ops, by rw [kept]; exact mapped, is, method, provided.mono grows⟩
  lowerFile lowerFile read := by
    obtain ⟨linked, file, mapped, same⟩ := knows.lowerFile lowerFile read
    obtain ⟨still, kept⟩ := evolves.linked vma linked
    exact ⟨still, file, by rw [kept]; exact mapped, by rw [evolves.lowerFile]; exact same⟩

/-- So does what a mapping task knows, when the others do not own its vma, -/
theorem MmapKnows.frame {file vma : Nat} {area : Vma} (knows : MmapKnows env requests file vma area state history known)
    (evolves : Evolves own state after) (apart : own ≠ some vma) (grows : history ⊆ later) :
    MmapKnows env requests file vma area after later known := by
  obtain ⟨same, flag⟩ := evolves.others vma apart
  exact
    { unlinked := fun hidden => by rw [flag]; exact knows.unlinked hidden
      made := by rw [same]; exact knows.made
      mapped := by rw [same]; exact knows.mapped
      saved := fun found read => by
        obtain ⟨ops, is, method, provided⟩ := knows.saved found read
        exact ⟨ops, is, method, provided.mono grows⟩
      seen := fun seen => evolves.ops file (knows.seen seen)
      last := knows.last
      settled := by rw [same]; exact knows.settled
      flags := knows.flags
      lowerFile := by rw [evolves.lowerFile]; exact knows.lowerFile
      writepage := by rw [evolves.lowerFile]; exact knows.writepage }

/-- and what a copying task knows. -/
theorem DupKnows.frame {old new : Nat} (knows : DupKnows old new state known) (evolves : Evolves own state after)
    (apart : own ≠ some new) : DupKnows old new after known := by
  obtain ⟨same, flag⟩ := evolves.others new apart
  exact
    { unlinked := fun hidden => by rw [flag]; exact knows.unlinked hidden
      found := fun other seen => (evolves.linked old (knows.found other seen)).1
      copy := fun copy held => by
        obtain ⟨is, linked⟩ := knows.copy copy held
        obtain ⟨still, kept⟩ := evolves.linked old linked
        exact ⟨by rw [kept]; exact is, still⟩
      made := fun made hidden => by
        obtain ⟨is, linked⟩ := knows.made made hidden
        obtain ⟨still, kept⟩ := evolves.linked old linked
        exact ⟨by rw [same, kept]; exact is, still⟩ }

/-- What a request relies on survives the steps of the others. -/
theorem Knows.frame {request : MapRequest} (knows : Knows env requests state history request known)
    (evolves : Evolves own state after) (apart : ∀ vma, request.makes = some vma → own ≠ some vma)
    (grows : history ⊆ later) : Knows env requests after later request known := by
  cases request with
  | mmap file vma area => exact MmapKnows.frame knows evolves (apart vma rfl) grows
  | fault vma vmf => exact FaultKnows.frame knows evolves grows
  | pageMkwrite vma vmf => exact FaultKnows.frame knows evolves grows
  | dup old new => exact DupKnows.frame knows evolves (apart new rfl)

/-- A fault that was forwarded stays so. -/
theorem Forwarded.frame {vma given : Nat} {ops : VmOps} {value : Vma} {vmf : Nat}
    (forwarded : Forwarded requests state history vma given ops value vmf) (evolves : Evolves own state after)
    (grows : history ⊆ later) : Forwarded requests after later vma given ops value vmf := by
  obtain ⟨file, mapped, same, provided, handed, linked⟩ := forwarded
  obtain ⟨still, kept⟩ := evolves.linked vma linked
  exact ⟨file, by rw [kept]; exact mapped, by rw [kept, evolves.lowerFile]; exact same, provided.mono grows, handed, still⟩

/-- The calls that are not those of a lower method. -/
def MapCall.Plain : MapCall → Prop
  | .lowerFault .. | .lowerPageMkwrite .. => False
  | _ => True

/-- A mapped vma stays mapped. -/
theorem Mapped.frame {vma : Vma} {file : Nat} (mapped : Mapped env state vma file) (evolves : Evolves own state after) :
    Mapped env after vma file where
  upper := mapped.upper
  ops := mapped.ops
  lower := evolves.ops file mapped.lower
  writable := by rw [evolves.lowerFile]; exact mapped.writable

variable {task : ι} {c : MapCall} {reply : c.Reply}

/-- A step keeps what is sound if it links only what is mapped, stores only what was provided, and forwards what it
passes to a lower method. -/
theorem Sound.grow (sound : Sound env requests state history) (evolves : Evolves own state after)
    (links : ∀ vma, after.linked vma = true → state.linked vma = true ∨ ∃ file, Mapped env after (after.vma vma) file)
    (stores : ∀ file ops, after.lowerVmOps file = some ops → state.lowerVmOps file = some ops ∨
      (ops.fault = true ∧ Provided requests history file ops))
    (faults : ∀ ops value vmf, c = .lowerFault ops value vmf → ∃ vma given, requests task = .fault vma given ∧
      Forwarded requests state history vma given ops value vmf)
    (writes : ∀ ops value vmf, c = .lowerPageMkwrite ops value vmf → ∃ vma given,
      requests task = .pageMkwrite vma given ∧ Forwarded requests state history vma given ops value vmf ∧
        ops.pageMkwrite = true) :
    Sound env requests after (history ++ [(task, ⟨c, reply⟩)]) where
  mapped vma linked := by
    rcases links vma linked with before | now
    · obtain ⟨file, mapped⟩ := sound.mapped vma before
      obtain ⟨_, kept⟩ := evolves.linked vma before
      exact ⟨file, by rw [kept]; exact mapped.frame evolves⟩
    · exact now
  ops file ops stored := by
    rcases stores file ops stored with before | ⟨method, provided⟩
    · obtain ⟨method, provided⟩ := sound.ops file ops before
      exact ⟨method, provided.mono (List.subset_append_left _ _)⟩
    · exact ⟨method, provided.mono (List.subset_append_left _ _)⟩
  faults other ops value vmf err member := by
    rcases List.mem_append.mp member with before | now
    · obtain ⟨vma, given, asked, forwarded⟩ := sound.faults other ops value vmf err before
      exact ⟨vma, given, asked, forwarded.frame evolves (List.subset_append_left _ _)⟩
    · obtain ⟨rfl, same⟩ := Prod.mk.inj (List.mem_singleton.mp now)
      obtain ⟨vma, given, asked, forwarded⟩ := faults ops value vmf (congrArg Event.call same).symm
      exact ⟨vma, given, asked, forwarded.frame evolves (List.subset_append_left _ _)⟩
  writes other ops value vmf err member := by
    rcases List.mem_append.mp member with before | now
    · obtain ⟨vma, given, asked, forwarded, method⟩ := sound.writes other ops value vmf err before
      exact ⟨vma, given, asked, forwarded.frame evolves (List.subset_append_left _ _), method⟩
    · obtain ⟨rfl, same⟩ := Prod.mk.inj (List.mem_singleton.mp now)
      obtain ⟨vma, given, asked, forwarded, method⟩ := writes ops value vmf (congrArg Event.call same).symm
      exact ⟨vma, given, asked, forwarded.frame evolves (List.subset_append_left _ _), method⟩

/-- The same for a step that calls no lower method. -/
theorem Sound.frame (sound : Sound env requests state history) (evolves : Evolves own state after) (plain : c.Plain)
    (links : ∀ vma, after.linked vma = true → state.linked vma = true ∨ ∃ file, Mapped env after (after.vma vma) file)
    (stores : ∀ file ops, after.lowerVmOps file = some ops → state.lowerVmOps file = some ops ∨
      (ops.fault = true ∧ Provided requests history file ops)) :
    Sound env requests after (history ++ [(task, ⟨c, reply⟩)]) := by
  apply sound.grow evolves links stores
  · rintro ops value vmf rfl
    exact plain.elim
  · rintro ops value vmf rfl
    exact plain.elim

/-- A step that changes nothing here. -/
theorem Sound.look (sound : Sound env requests state history) (plain : c.Plain) :
    Sound env requests state (history ++ [(task, ⟨c, reply⟩)]) :=
  sound.frame (Evolves.refl none state) plain (fun _ linked => .inl linked) fun _ _ stored => .inl stored

/-- What the lower filesystems are relied on for: their `mmap` leaves the file and the flags of the vma, and when it
succeeds it has set operations with a fault handler. -/
structure LowerMaps (env : MapEnvironment L) : Prop where
  mmap : ∀ lowerFile vma state err value after, env.mmap lowerFile vma state = some (err, value, after) →
    value.file = vma.file ∧ value.flags = vma.flags ∧
    (err = 0 → ∃ ops, value.ops = some ops ∧ ops.fault = true)

/-- What one step of a request leaves. -/
structure Stepped (env : MapEnvironment L) (requests : ι → MapRequest) (request : MapRequest) (state after : Mappings L)
    (later : List (ι × Event MapCall.Reply)) (known : Learned) : Prop where
  evolves : Evolves request.makes state after
  knows : Knows env requests after later request known
  sound : Sound env requests after later

/-- A step that only reads. -/
theorem Stepped.look {request : MapRequest} (sound : Sound env requests state history) (plain : c.Plain)
    (knows : Knows env requests state (history ++ [(task, ⟨c, reply⟩)]) request known) :
    Stepped env requests request state state (history ++ [(task, ⟨c, reply⟩)]) known :=
  ⟨Evolves.refl _ state, knows, sound.look plain⟩

/-- A request changes the vma that it makes while nobody can find it. -/
theorem Evolves.change {vma : Nat} (hidden : state.linked vma = false) (value : Vma) (lower : L) :
    Evolves (some vma) state { state with lower := lower, vma := Function.update state.vma vma value } where
  others other different := by
    have apart : other ≠ vma := fun same => different (same ▸ rfl)
    exact ⟨Function.update_of_ne apart _ _, rfl⟩
  linked other linked := by
    have apart : other ≠ vma := by
      rintro rfl
      rw [hidden] at linked
      cases linked
    exact ⟨linked, Function.update_of_ne apart _ _⟩
  ops _ found := found
  lowerFile := rfl

/-- A vma may become visible, -/
theorem Evolves.link (vma : Nat) :
    Evolves (some vma) state { state with linked := Function.update state.linked vma true } where
  others other different := by
    have apart : other ≠ vma := fun same => different (same ▸ rfl)
    exact ⟨rfl, Function.update_of_ne apart _ _⟩
  linked other linked := by
    by_cases same : other = vma
    · simp [same]
    · simpa [same] using linked
  ops _ found := found
  lowerFile := rfl

/-- a file may get other operations that were set for it, -/
theorem Evolves.store (file : Nat) (ops : VmOps) :
    Evolves own state { state with lowerVmOps := Function.update state.lowerVmOps file (some ops) } where
  others _ _ := ⟨rfl, rfl⟩
  linked _ linked := ⟨linked, rfl⟩
  ops other found := by
    by_cases same : other = file
    · simp [same]
    · simpa [same] using found
  lowerFile := rfl

/-- A step of a mapping keeps what it knows and the invariant. -/
theorem MmapKnows.step {file vma : Nat} {area : Vma} (maps : LowerMaps env)
    (asked : requests task = .mmap file vma area) (sound : Sound env requests state history)
    (knows : MmapKnows env requests file vma area state history known) (permitted : mmapPermits file vma area known c)
    (answered : handleMap env c state = some (reply, after)) :
    Stepped env requests (.mmap file vma area) state after (history ++ [(task, ⟨c, reply⟩)]) (known.next c reply) := by
  have grows := knows.frame (Evolves.refl none state) (by simp) (List.subset_append_left history [(task, ⟨c, reply⟩)])
  cases c with
  | newVma other value =>
      obtain ⟨rfl, rfl, rfl⟩ := permitted
      obtain ⟨_, rfl⟩ := Prod.mk.inj (Option.some.inj answered)
      have evolves := Evolves.change (knows.unlinked rfl) (area.made file) state.lower
      refine ⟨evolves, ?_, sound.frame evolves trivial (fun _ linked => .inl linked) fun _ _ stored => .inl stored⟩
      exact
        { grows with
          made := fun _ _ => by simp only [Function.update_self]; exact ⟨rfl, rfl⟩
          mapped := fun mapped => by cases mapped
          settled := fun settled => by cases settled }
  | linkVma other =>
      obtain ⟨rfl, made, hidden, settled, serves, flags, read, writable⟩ := permitted
      obtain ⟨_, rfl⟩ := Prod.mk.inj (Option.some.inj answered)
      have evolves : Evolves (some other) state _ := Evolves.link other
      refine ⟨evolves, ?_, sound.frame evolves trivial ?_ fun _ _ stored => .inl stored⟩
      · exact
          { grows with
            unlinked := fun hidden => by cases hidden
            made := fun _ hidden => by cases hidden
            settled := fun _ hidden => by cases hidden }
      · intro linked now
        by_cases same : linked = other
        · subst same
          obtain ⟨upper, same⟩ := knows.made made hidden
          refine .inr ⟨file, upper, knows.settled settled hidden, knows.seen serves, ?_⟩
          intro writes
          rw [same, ← knows.flags flags read] at writes
          exact (knows.writepage true (writable writes)).symm
        · exact .inl (by simpa [same] using now)
  | vmFlags other =>
      obtain ⟨rfl, made, hidden⟩ := permitted
      obtain ⟨rfl, rfl⟩ := Prod.mk.inj (Option.some.inj answered)
      refine .look sound trivial { grows with flags := ?_ }
      intro flags read
      rw [← Option.some.inj read]
      exact (knows.made made hidden).2
  | vmOps other =>
      obtain ⟨rfl, mapped, unsettled⟩ := permitted
      obtain ⟨rfl, rfl⟩ := Prod.mk.inj (Option.some.inj answered)
      refine .look sound trivial { grows with saved := ?_ }
      intro found read
      obtain ⟨ops, is, method⟩ := knows.mapped mapped unsettled
      exact ⟨ops, (Option.some.inj read).symm.trans is, method, task, other, area, asked, by rw [← is]; simp⟩
  | setVmOps other value =>
      obtain ⟨rfl, rfl, made, hidden⟩ := permitted
      obtain ⟨_, rfl⟩ := Prod.mk.inj (Option.some.inj answered)
      have evolves := Evolves.change (knows.unlinked hidden) { state.vma other with ops := some trfsVmOps } state.lower
      refine ⟨evolves, ?_, sound.frame evolves trivial (fun _ linked => .inl linked) fun _ _ stored => .inl stored⟩
      exact
        { grows with
          made := fun made hidden => by simp only [Function.update_self]; exact knows.made made hidden
          mapped := fun _ unsettled => by cases unsettled
          settled := fun _ _ => by simp only [Function.update_self] }
  | lowerVmOps other =>
      obtain rfl : other = file := permitted
      obtain ⟨rfl, rfl⟩ := Prod.mk.inj (Option.some.inj answered)
      refine .look sound trivial { grows with seen := ?_, last := ?_ }
      · rintro (seen | stored)
        · rcases Bool.or_eq_true_iff.mp seen with before | now
          · exact knows.seen (.inl before)
          · exact now
        · exact knows.seen (.inr stored)
      · intro missing
        have nothing : state.lowerVmOps other = none := Option.some.inj missing
        have unseen : known.seen = false := by
          cases seen : known.seen with
          | false => rfl
          | true => simpa [nothing] using knows.seen (.inl seen)
        simp [Learned.next, unseen, nothing]
  | setLowerVmOps other value =>
      obtain ⟨rfl, missing, knew⟩ := permitted
      obtain ⟨_, rfl⟩ := Prod.mk.inj (Option.some.inj answered)
      have saved : known.saved = some value := by
        rcases knew with seen | saved
        · rw [knows.last missing] at seen
          cases seen
        · exact saved
      obtain ⟨ops, rfl, method, provided⟩ := knows.saved value saved
      have evolves : Evolves (some vma) state _ := Evolves.store other ops
      refine ⟨evolves, ?_, sound.frame evolves trivial (fun _ linked => .inl linked) ?_⟩
      · exact { grows with seen := fun _ => by simp }
      · intro changed found stored
        by_cases same : changed = other
        · subst same
          simp only [Function.update_self] at stored
          obtain rfl := Option.some.inj stored
          exact .inr ⟨method, provided⟩
        · exact .inl (by simpa [same] using stored)
  | lowerFile other =>
      obtain rfl : other = file := permitted
      obtain ⟨rfl, rfl⟩ := Prod.mk.inj (Option.some.inj answered)
      refine .look sound trivial { grows with lowerFile := ?_ }
      intro lowerFile read
      exact (Option.some.inj read).symm
  | writepage lowerFile =>
      obtain ⟨rfl, rfl⟩ := Prod.mk.inj (Option.some.inj answered)
      refine .look sound trivial { grows with writepage := ?_ }
      intro defined read
      rw [← Option.some.inj read, ← knows.lowerFile lowerFile permitted]
  | lowerMmap lowerFile other =>
      obtain ⟨rfl, below, made, unmapped, unsettled, hidden⟩ := permitted
      obtain ⟨⟨err, value, lower⟩, mapped, same⟩ := Option.map_eq_some_iff.mp answered
      obtain ⟨rfl, rfl⟩ := Prod.mk.inj same
      obtain ⟨sameFile, sameFlags, succeeds⟩ := maps.mmap lowerFile (state.vma other) state.lower err value lower mapped
      have evolves := Evolves.change (knows.unlinked hidden) value lower
      refine ⟨evolves, ?_, sound.frame evolves trivial (fun _ linked => .inl linked) fun _ _ stored => .inl stored⟩
      exact
        { grows with
          made := fun made hidden => by
            simp only [Function.update_self, sameFile, sameFlags]
            exact knows.made made hidden
          mapped := fun mapped _ => by
            simp only [Function.update_self]
            rcases Bool.or_eq_true_iff.mp mapped with before | now
            · rw [unmapped] at before
              cases before
            · exact succeeds (of_decide_eq_true now)
          settled := fun settled => Bool.noConfusion (unsettled.symm.trans settled) }
  | fileAccessed other =>
      obtain ⟨_, rfl⟩ := Prod.mk.inj (Option.some.inj answered)
      exact .look sound trivial grows
  | setAops other =>
      obtain ⟨_, rfl⟩ := Prod.mk.inj (Option.some.inj answered)
      exact .look sound trivial grows
  | findVma other => exact permitted.elim
  | loadVma other => exact permitted.elim
  | lowerFault ops value vmf => exact permitted.elim
  | lowerPageMkwrite ops value vmf => exact permitted.elim
  | bug => exact permitted.elim
  | oops => exact permitted.elim

/-- A step of a copy keeps them too. -/
theorem DupKnows.step {old new : Nat} (sound : Sound env requests state history) (knows : DupKnows old new state known)
    (permitted : dupPermits old new known c) (answered : handleMap env c state = some (reply, after)) :
    Stepped env requests (.dup old new) state after (history ++ [(task, ⟨c, reply⟩)]) (known.next c reply) := by
  cases c with
  | findVma other =>
      obtain rfl : other = old := permitted
      simp only [handleMap] at answered
      split at answered
      · rename_i linked
        obtain ⟨_, rfl⟩ := Prod.mk.inj (Option.some.inj answered)
        exact .look sound trivial (show DupKnows other new state _ from { knows with found := fun _ _ => linked })
      · cases answered
  | loadVma other =>
      obtain ⟨rfl, found⟩ := permitted
      obtain ⟨rfl, rfl⟩ := Prod.mk.inj (Option.some.inj answered)
      refine .look sound trivial (show DupKnows other new state _ from { knows with copy := ?_ })
      intro copy read
      exact ⟨(Option.some.inj read).symm, knows.found other found⟩
  | newVma other value =>
      obtain ⟨rfl, held, hidden⟩ := permitted
      obtain ⟨_, rfl⟩ := Prod.mk.inj (Option.some.inj answered)
      obtain ⟨same, linked⟩ := knows.copy value held
      have evolves := Evolves.change (knows.unlinked hidden) value state.lower
      refine ⟨evolves, ?_, sound.frame evolves trivial (fun _ linked => .inl linked) fun _ _ stored => .inl stored⟩
      have kept := (evolves.linked old linked).2
      exact
        { unlinked := knows.unlinked
          found := knows.found
          copy := fun copy read => by rw [kept]; exact knows.copy copy read
          made := fun _ _ => by
            rw [kept]
            exact ⟨by simp only [Function.update_self]; exact same, linked⟩ }
  | linkVma other =>
      obtain ⟨rfl, made, hidden⟩ := permitted
      obtain ⟨_, rfl⟩ := Prod.mk.inj (Option.some.inj answered)
      obtain ⟨same, linked⟩ := knows.made made hidden
      have evolves : Evolves (some other) state _ := Evolves.link other
      refine ⟨evolves, ?_, sound.frame evolves trivial ?_ fun _ _ stored => .inl stored⟩
      · exact
          { unlinked := fun hidden => by cases hidden
            found := fun seen read => (evolves.linked old (knows.found seen read)).1
            copy := fun copy read => ⟨(knows.copy copy read).1, (evolves.linked old (knows.copy copy read).2).1⟩
            made := fun _ hidden => by cases hidden }
      · intro found now
        by_cases here : found = other
        · subst here
          obtain ⟨file, mapped⟩ := sound.mapped old linked
          exact .inr ⟨file, by simp only [same]; exact mapped.frame evolves⟩
        · exact .inl (by simpa [here] using now)
  | vmFlags other => exact permitted.elim
  | vmOps other => exact permitted.elim
  | setVmOps other value => exact permitted.elim
  | lowerVmOps other => exact permitted.elim
  | setLowerVmOps other value => exact permitted.elim
  | lowerFile other => exact permitted.elim
  | writepage lowerFile => exact permitted.elim
  | lowerMmap lowerFile other => exact permitted.elim
  | fileAccessed other => exact permitted.elim
  | setAops other => exact permitted.elim
  | lowerFault ops value vmf => exact permitted.elim
  | lowerPageMkwrite ops value vmf => exact permitted.elim
  | bug => exact permitted.elim
  | oops => exact permitted.elim

/-- and the lower filesystem may change. -/
theorem Evolves.outside (lower : L) : Evolves own state { state with lower := lower } :=
  ⟨fun _ _ => ⟨rfl, rfl⟩, fun _ linked => ⟨linked, rfl⟩, fun _ found => found, rfl⟩

/-- What a handler passes on is the vma that it was called for. -/
theorem FaultKnows.forwards {vma vmf given : Nat} {ops : VmOps} {value : Vma}
    (knows : FaultKnows requests vma state history known) (forwards : known.Forwards ops value) (same : given = vmf) :
    Forwarded requests state history vma vmf ops value given := by
  obtain ⟨copy, file, lowerFile, held, upper, below, last, rfl⟩ := forwards
  obtain ⟨rfl, linked⟩ := knows.copy copy held
  obtain ⟨_, first, mapped, is⟩ := knows.lowerFile lowerFile below
  obtain ⟨_, second, found, again, read, _, provided⟩ := knows.last _ last
  obtain rfl := MappedFile.upper.inj (upper.symm.trans mapped)
  obtain rfl := MappedFile.upper.inj (upper.symm.trans again)
  obtain rfl := Option.some.inj read
  exact ⟨file, upper, by rw [is], provided, same, linked⟩

/-- A step of a fault keeps them too. -/
theorem FaultKnows.step {writing : Bool} {vma vmf : Nat}
    (asked : requests task = if writing then .pageMkwrite vma vmf else .fault vma vmf)
    (sound : Sound env requests state history) (knows : FaultKnows requests vma state history known)
    (permitted : faultPermits writing vma vmf known c) (answered : handleMap env c state = some (reply, after)) :
    Evolves none state after ∧ FaultKnows requests vma after (history ++ [(task, ⟨c, reply⟩)]) (known.next c reply) ∧
      Sound env requests after (history ++ [(task, ⟨c, reply⟩)]) := by
  have still := Evolves.refl none state
  have grows := knows.frame still (List.subset_append_left history [(task, ⟨c, reply⟩)])
  cases c with
  | findVma other =>
      obtain rfl : other = vma := permitted
      simp only [handleMap] at answered
      split at answered
      · rename_i linked
        obtain ⟨_, rfl⟩ := Prod.mk.inj (Option.some.inj answered)
        exact ⟨still, { grows with found := fun _ _ => linked }, sound.look trivial⟩
      · cases answered
  | loadVma other =>
      obtain ⟨rfl, found⟩ := permitted
      obtain ⟨rfl, rfl⟩ := Prod.mk.inj (Option.some.inj answered)
      refine ⟨still, { grows with copy := ?_ }, sound.look trivial⟩
      intro copy read
      exact ⟨(Option.some.inj read).symm, knows.found other found⟩
  | vmOps other =>
      obtain ⟨_, rfl⟩ := Prod.mk.inj (Option.some.inj answered)
      exact ⟨still, { grows with }, sound.look trivial⟩
  | lowerVmOps file =>
      obtain ⟨copy, held, upper⟩ := permitted
      obtain ⟨rfl, rfl⟩ := Prod.mk.inj (Option.some.inj answered)
      refine ⟨still, { grows with last := ?_ }, sound.look trivial⟩
      intro found read
      obtain ⟨rfl, linked⟩ := knows.copy copy held
      obtain ⟨other, mapped⟩ := sound.mapped vma linked
      obtain rfl := MappedFile.upper.inj (upper.symm.trans mapped.upper)
      obtain ⟨ops, stored⟩ := Option.isSome_iff_exists.mp mapped.lower
      obtain ⟨method, provided⟩ := sound.ops file ops stored
      exact ⟨linked, file, ops, upper, (Option.some.inj read).symm.trans stored, method,
        provided.mono (List.subset_append_left _ _)⟩
  | lowerFile file =>
      obtain ⟨copy, held, upper⟩ := permitted
      obtain ⟨rfl, rfl⟩ := Prod.mk.inj (Option.some.inj answered)
      refine ⟨still, { grows with lowerFile := ?_ }, sound.look trivial⟩
      intro lowerFile read
      obtain ⟨rfl, linked⟩ := knows.copy copy held
      exact ⟨linked, file, upper, (Option.some.inj read).symm⟩
  | lowerFault ops value given =>
      obtain ⟨rfl, forwards, same⟩ := permitted
      obtain ⟨_, rfl⟩ := Prod.mk.inj (Option.some.inj answered)
      have evolves : Evolves none state _ := Evolves.outside (env.fault ops value given state.lower).2
      refine ⟨evolves, knows.frame evolves (List.subset_append_left _ _), sound.grow evolves (fun _ linked => .inl linked)
        (fun _ _ stored => .inl stored) ?_ ?_⟩
      · intro _ _ _ called
        cases called
        exact ⟨vma, vmf, asked, knows.forwards forwards same⟩
      · intro _ _ _ called
        cases called
  | lowerPageMkwrite ops value given =>
      obtain ⟨rfl, forwards, same, method⟩ := permitted
      obtain ⟨_, rfl⟩ := Prod.mk.inj (Option.some.inj answered)
      have evolves : Evolves none state _ := Evolves.outside (env.pageMkwrite ops value given state.lower).2
      refine ⟨evolves, knows.frame evolves (List.subset_append_left _ _), sound.grow evolves (fun _ linked => .inl linked)
        (fun _ _ stored => .inl stored) ?_ ?_⟩
      · intro _ _ _ called
        cases called
      · intro _ _ _ called
        cases called
        exact ⟨vma, vmf, asked, knows.forwards forwards same, method⟩
  | newVma other value => exact permitted.elim
  | linkVma other => exact permitted.elim
  | vmFlags other => exact permitted.elim
  | setVmOps other value => exact permitted.elim
  | setLowerVmOps other value => exact permitted.elim
  | writepage lowerFile => exact permitted.elim
  | lowerMmap lowerFile other => exact permitted.elim
  | fileAccessed other => exact permitted.elim
  | setAops other => exact permitted.elim
  | bug => cases answered
  | oops => cases answered

/-- Every permitted step of a request keeps what all of them rely on. -/
theorem Knows.step {request : MapRequest} (maps : LowerMaps env) (asked : requests task = request)
    (sound : Sound env requests state history) (knows : Knows env requests state history request known)
    (permitted : (duty request).permits known c) (answered : handleMap env c state = some (reply, after)) :
    Stepped env requests request state after (history ++ [(task, ⟨c, reply⟩)]) (known.next c reply) := by
  cases request with
  | mmap file vma area => exact MmapKnows.step maps asked sound knows permitted answered
  | fault vma vmf =>
      obtain ⟨evolves, later, kept⟩ := FaultKnows.step asked sound knows permitted answered
      exact ⟨evolves, later, kept⟩
  | pageMkwrite vma vmf =>
      obtain ⟨evolves, later, kept⟩ := FaultKnows.step asked sound knows permitted answered
      exact ⟨evolves, later, kept⟩
  | dup old new => exact DupKnows.step sound knows permitted answered

/-- A fault stops at no missing table, at no missing method and at no vma of another file. -/
theorem FaultKnows.unbroken {vma : Nat} (writing : Bool) (vmf : Nat) (sound : Sound env requests state history)
    (knows : FaultKnows requests vma state history known) :
    ¬ faultPermits writing vma vmf known .bug ∧ ¬ faultPermits writing vma vmf known .oops := by
  constructor
  · intro missing
    obtain ⟨_, _, _, _, impossible, _⟩ := knows.last none missing
    cases impossible
  · rintro (⟨copy, lowerFile, held, outside⟩ | ⟨ops, read, without⟩)
    · obtain ⟨rfl, linked⟩ := knows.copy copy held
      obtain ⟨file, mapped⟩ := sound.mapped vma linked
      rw [mapped.upper] at outside
      cases outside
    · obtain ⟨_, _, found, _, same, method, _⟩ := knows.last (some ops) read
      obtain rfl := Option.some.inj same
      rw [without] at method
      cases method

/-- The only calls without an answer. -/
theorem Knows.answers {request : MapRequest} (sound : Sound env requests state history)
    (knows : Knows env requests state history request known) (permitted : (duty request).permits known c)
    (stuck : handleMap env c state = none) :
    (∃ vma, c = .findVma vma ∧ state.linked vma = false) ∨
    ∃ lowerFile vma, c = .lowerMmap lowerFile vma ∧ env.mmap lowerFile (state.vma vma) state.lower = none := by
  cases c with
  | findVma vma =>
      refine .inl ⟨vma, rfl, ?_⟩
      cases linked : state.linked vma with
      | false => rfl
      | true => simp [handleMap, linked] at stuck
  | lowerMmap lowerFile vma => exact .inr ⟨lowerFile, vma, rfl, Option.map_eq_none_iff.mp stuck⟩
  | bug =>
      cases request with
      | fault vma vmf => exact ((FaultKnows.unbroken false vmf sound knows).1 permitted).elim
      | pageMkwrite vma vmf => exact ((FaultKnows.unbroken true vmf sound knows).1 permitted).elim
      | mmap file vma area => exact permitted.elim
      | dup old new => exact permitted.elim
  | oops =>
      cases request with
      | fault vma vmf => exact ((FaultKnows.unbroken false vmf sound knows).2 permitted).elim
      | pageMkwrite vma vmf => exact ((FaultKnows.unbroken true vmf sound knows).2 permitted).elim
      | mmap file vma area => exact permitted.elim
      | dup old new => exact permitted.elim
  | newVma _ _ | linkVma _ | loadVma _ | vmFlags _ | vmOps _ | setVmOps _ _ | lowerVmOps _ | setLowerVmOps _ _
  | lowerFile _ | writepage _ | fileAccessed _ | setAops _ | lowerFault _ _ _ | lowerPageMkwrite _ _ _ => cases stuck

variable [DecidableEq ι]

/-- No two requests make the same vma. -/
def Apart (requests : ι → MapRequest) : Prop :=
  ∀ task other vma, (requests task).makes = some vma → (requests other).makes = some vma → task = other

/-- Every task keeps to its duty, and what it relies on holds beside what holds of the mappings. -/
structure Running (env : MapEnvironment L) (requests : ι → MapRequest) (faulting : Faulting ι L) : Prop where
  follows : faulting.Follows (fun task => duty (requests task)) (fun _ _ _ => True) fun _ => .nothing
  knows : ∀ task, Knows env requests faulting.shared faulting.history (requests task)
    (faulting.progress (fun task => duty (requests task)) (fun _ => .nothing) task)
  sound : Sound env requests faulting.shared faulting.history

/-- At the start nothing is mapped. -/
theorem Running.begin (env : MapEnvironment L) (requests : ι → MapRequest) (lower : L) (lowerFile : Nat → LowerFile)
    (vma : Nat → Vma) : Running env requests (Faulting.begin requests lower lowerFile vma) where
  follows task := (requests task).meets
  knows task := by
    show Knows env requests _ [] (requests task) .nothing
    cases requests task with
    | mmap file other area => constructor <;> simp [Learned.nothing, Faulting.begin]
    | fault other vmf => constructor <;> simp [Learned.nothing]
    | pageMkwrite other vmf => constructor <;> simp [Learned.nothing]
    | dup old new => constructor <;> simp [Learned.nothing, Faulting.begin]
  sound := by constructor <;> simp [Faulting.begin]

/-- Every step of every task keeps the invariant. -/
theorem Running.step (maps : LowerMaps env) (apart : Apart requests)
    {faulting next : Faulting ι L} (running : Running env requests faulting)
    (stepped : faulting.step (fun _ => handleMap env) task = some next) : Running env requests next := by
  obtain ⟨follows, c, reply, advance⟩ := running.follows.step stepped
  have once := (running.knows task).step maps rfl running.sound advance.permitted advance.answered
  rw [← advance.history] at once
  refine ⟨follows, ?_, once.sound⟩
  intro other
  by_cases this : other = task
  · subst this
    rw [advance.here]
    exact once.knows
  · rw [advance.others other this]
    apply (running.knows other).frame once.evolves
    · intro vma makes same
      exact this (apart other task vma makes same)
    · rw [advance.history]
      exact List.subset_append_left _ _

/-- So it holds in every reachable state. -/
theorem Running.run (maps : LowerMaps env) (apart : Apart requests)
    {lower : L} {lowerFile : Nat → LowerFile} {vma : Nat → Vma} {schedule : List ι} {last : Faulting ι L}
    (ran : Faulting.run env schedule (Faulting.begin requests lower lowerFile vma) = some last) :
    Running env requests last :=
  Config.run_invariant (fun _ _ _ running stepped => running.step maps apart stepped)
    (Running.begin env requests lower lowerFile vma) ran

/-- A lower filesystem that counts its faults. -/
def counting : MapEnvironment Nat where
  writepage _ := true
  mmap _ vma faults := some (0, { vma with ops := some ⟨2, true, true⟩ }, faults)
  fault _ _ _ faults := (0, faults + 1)
  pageMkwrite _ _ _ faults := (0, faults + 1)

def sharedArea : Vma := ⟨0x1000, 0x2000, 0, 0xb, .upper 3, none⟩

/-- Two mappings of one file, a copy of the first one, and a fault on the copy and on the second one. -/
def mapTwice : Fin 5 → MapRequest
  | 0 => .mmap 3 10 sharedArea
  | 1 => .mmap 3 11 sharedArea
  | 2 => .dup 10 12
  | 3 => .fault 12 77
  | 4 => .pageMkwrite 11 78

/-- Both mappings see no lower operations. -/
def mapSchedule : List (Fin 5) :=
  (List.replicate 13 [0, 1]).flatten ++ List.replicate 4 2 ++ (List.replicate 6 [3, 4]).flatten

/-- Two mappings, a copy and faults run to their end. -/
theorem mapTwice_runs : ∃ last, Faulting.run counting mapSchedule
    (Faulting.begin mapTwice 0 (fun file => ⟨file + 20, ⟨file⟩⟩) fun _ => sharedArea) = some last :=
  Option.isSome_iff_exists.mp (by decide +kernel)

/-- The two mappings have vmas of their own. -/
theorem mapTwice_apart : Apart mapTwice := by
  have decided : ∀ task other, (mapTwice task).makes.isSome → (mapTwice task).makes = (mapTwice other).makes →
    task = other := by decide
  intro task other vma first second
  exact decided task other (by simp [first]) (first.trans second.symm)

/-- The lower filesystem that counts keeps the contract of mmap. -/
theorem counting_maps : LowerMaps counting where
  mmap lowerFile vma state err value after mapped := by
    obtain ⟨rfl, rfl, rfl⟩ : 0 = err ∧ { vma with ops := some ⟨2, true, true⟩ } = value ∧ state = after := by
      simpa [counting] using mapped
    exact ⟨rfl, rfl, fun _ => ⟨_, rfl, rfl⟩⟩

/-- In every order of the steps of mappings, copies and faults, each mapping that can be found goes to a file of the
mount with lower operations, and no task reaches the `BUG_ON` or a missing method. A task that cannot make its next step
has ended, waits for a mapping, or maps a lower file without `mmap`. -/
theorem mappings_safe (maps : LowerMaps env) (apart : Apart requests)
    {lower : L} {lowerFile : Nat → LowerFile} {vma : Nat → Vma} {schedule : List ι} {last : Faulting ι L}
    (ran : Faulting.run env schedule (Faulting.begin requests lower lowerFile vma) = some last) :
    (∀ vma, last.shared.linked vma = true → ∃ file, Mapped env last.shared (last.shared.vma vma) file) ∧
    ∀ task, last.step (fun _ => handleMap env) task = none → (∃ err, last.threads task = .pure err) ∨
      (∃ vma, last.nextCall task = some (.findVma vma) ∧ last.shared.linked vma = false) ∨
      ∃ file vma, last.nextCall task = some (.lowerMmap file vma) ∧
        env.mmap file (last.shared.vma vma) last.shared.lower = none := by
  have running := Running.run maps apart ran
  refine ⟨running.sound.mapped, ?_⟩
  intro task stuck
  have meets := running.follows task
  cases program : last.threads task with
  | pure err => exact .inl ⟨err, rfl⟩
  | call c next =>
      rw [program] at meets
      simp only [Config.step, program, Option.map_eq_none_iff] at stuck
      simp only [Config.nextCall, program, Option.some.injEq]
      exact .inr ((running.knows task).answers running.sound meets.1 stuck)

/-- All vmas of this run are mapped soundly. -/
theorem mappings_safe_twice : ∃ last, Faulting.run counting mapSchedule
    (Faulting.begin mapTwice 0 (fun file => ⟨file + 20, ⟨file⟩⟩) fun _ => sharedArea) = some last ∧
    ∀ vma, last.shared.linked vma = true → ∃ file, Mapped counting last.shared (last.shared.vma vma) file := by
  obtain ⟨last, ran⟩ := mapTwice_runs
  exact ⟨last, ran, (mappings_safe counting_maps mapTwice_apart ran).1⟩

/-- In every order of the steps, the lower handler of a fault gets the vma of that fault with the lower file of the
mapped file in it, and it is a handler that a lower `mmap` for this file has set. -/
theorem faults_forwarded (maps : LowerMaps env) (apart : Apart requests)
    {lower : L} {lowerFile : Nat → LowerFile} {vma : Nat → Vma} {schedule : List ι} {last : Faulting ι L}
    (ran : Faulting.run env schedule (Faulting.begin requests lower lowerFile vma) = some last) :
    (∀ task ops value vmf err, (task, ⟨.lowerFault ops value vmf, err⟩) ∈ last.history →
      ∃ vma given, requests task = .fault vma given ∧
        Forwarded requests last.shared last.history vma given ops value vmf) ∧
    ∀ task ops value vmf err, (task, ⟨.lowerPageMkwrite ops value vmf, err⟩) ∈ last.history →
      ∃ vma given, requests task = .pageMkwrite vma given ∧
        Forwarded requests last.shared last.history vma given ops value vmf ∧ ops.pageMkwrite = true := by
  have running := Running.run maps apart ran
  exact ⟨running.sound.faults, running.sound.writes⟩

/-- Its faults are forwarded to the lower handler. -/
theorem faults_forwarded_twice : ∃ last, Faulting.run counting mapSchedule
    (Faulting.begin mapTwice 0 (fun file => ⟨file + 20, ⟨file⟩⟩) fun _ => sharedArea) = some last ∧
    ∀ task ops value vmf err, (task, ⟨.lowerFault ops value vmf, err⟩) ∈ last.history →
      ∃ vma given, mapTwice task = .fault vma given ∧
        Forwarded mapTwice last.shared last.history vma given ops value vmf := by
  obtain ⟨last, ran⟩ := mapTwice_runs
  exact ⟨last, ran, (faults_forwarded counting_maps mapTwice_apart ran).1⟩

end

end Trfs.Kernel.Mmap
