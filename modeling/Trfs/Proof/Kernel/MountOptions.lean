import Trfs.Proof.Kernel.MountCleanup

namespace Trfs.Kernel
open Bytes Effect

/-- The option string of the README: `tfile=` and a path that is not empty. -/
def TfileOption (rawData : Option (CString × CString)) (path : CString) : Prop :=
  ∃ data beyond, rawData = some (data, beyond) ∧ data.bytes = ascii "tfile=" ++ path.bytes ∧ path.bytes ≠ []

/-- The mount treats its option string as the grammar says. -/
structure ParsesOptions (outcomes : MountOutcomes) (rawData : Option (CString × CString)) (devName : CString) :
    Prop where
  reads : ∀ data beyond, rawData = some (data, beyond) → ∀ rest,
    MountRequest.lastRead (data.bytes ++ 0 :: (beyond.bytes ++ 0 :: rest)) (outcomes.kmalloc .mountPath) ≤ data.length
  proceeds : (∃ prepared, (prepareMount ⟨rawData, some devName⟩).exec (handleSuper outcomes) (.start outcomes) =
    some prepared ∧ prepared.value ≠ 0) ↔ ∃ path, TfileOption rawData path
  passes : ∀ path, TfileOption rawData path → ∀ prepared,
    (prepareMount ⟨rawData, some devName⟩).exec (handleSuper outcomes) (.start outcomes) = some prepared →
      PassesOn prepared.state prepared.value path devName
  refuses : (¬ ∃ path, TfileOption rawData path) → ∃ done,
    (trfsMount ⟨rawData, some devName⟩).exec (handleSuper outcomes) (.start outcomes) = some done ∧
      done.value = EINVAL

/-- The loop passes over every byte that is neither the sign nor the end. -/
theorem trackerStop_append {before : List Byte} (plain : ∀ byte ∈ before, byte ≠ 0x3d ∧ byte ≠ 0) (rest : List Byte) :
    trackerStop (before ++ rest) = before.length + trackerStop rest := by
  induction before with
  | nil => rw [List.nil_append, List.length_nil, Nat.zero_add]
  | cons byte before ih =>
      have later := ih fun other member => plain other (List.mem_cons_of_mem _ member)
      rw [List.cons_append, trackerStop, if_pos (plain byte List.mem_cons_self), later, List.length_cons]
      omega

/-- The tracker is what stands behind the sign, or behind the options. -/
theorem tracker_bytes (data beyond : CString) :
    (MountRequest.tracker data beyond).bytes =
      match data.bytes.dropWhile fun byte => byte ≠ 0x3d with
      | [] => beyond.bytes
      | _ :: rest => rest := by
  unfold MountRequest.tracker
  split
  · rename_i dropped
    rw [dropped]
  · rename_i byte rest dropped
    change rest = _
    rw [dropped]

/-- The scan ends in front of the string that the mount takes for the path of the trace. -/
theorem tracker_scanned (data beyond : CString) (rest : List Byte) :
    ∃ after, (data.bytes ++ 0 :: (beyond.bytes ++ 0 :: rest)).drop
        (trackerStop (data.bytes ++ 0 :: (beyond.bytes ++ 0 :: rest)) + 1) =
      (MountRequest.tracker data beyond).bytes ++ 0 :: after := by
  have parts := List.takeWhile_append_dropWhile (p := fun byte : Byte => decide (byte ≠ 0x3d)) (l := data.bytes)
  have plain : ∀ byte ∈ data.bytes.takeWhile fun byte => decide (byte ≠ 0x3d), byte ≠ 0x3d ∧ byte ≠ 0 := by
    intro byte member
    exact ⟨of_decide_eq_true (List.mem_takeWhile_imp (p := fun byte : Byte => decide (byte ≠ 0x3d)) member),
      data.noNul byte ((List.takeWhile_sublist _).subset member)⟩
  rw [tracker_bytes]
  generalize data.bytes.takeWhile (fun byte => decide (byte ≠ 0x3d)) = front at parts plain
  cases found : data.bytes.dropWhile fun byte => decide (byte ≠ 0x3d) with
  | nil =>
      rw [found, List.append_nil] at parts
      rw [← parts, trackerStop_append plain]
      exact ⟨rest, by simp [trackerStop]⟩
  | cons byte tail =>
      have equals : byte = 0x3d := by
        have head := List.head?_dropWhile_not (fun byte : Byte => decide (byte ≠ 0x3d)) data.bytes
        rw [found] at head
        simpa using head
      subst equals
      rw [found] at parts
      rw [← parts, List.append_assoc, trackerStop_append plain]
      exact ⟨beyond.bytes ++ 0 :: rest, by simp [trackerStop]⟩

section
variable {outcomes : MountOutcomes} {data beyond devName path : CString}

/-- A key without `=` is skipped with the `=` behind it. -/
theorem tracker_tfile (named : data.bytes = ascii "tfile=" ++ path.bytes) :
    MountRequest.tracker data beyond = path := by
  apply CString.ext
  rw [tracker_bytes, named]
  rfl

/-- With a path named the loop stays inside the options. -/
theorem lastRead_tfile (named : data.bytes = ascii "tfile=" ++ path.bytes) (allocated : Bool) (rest : List Byte) :
    MountRequest.lastRead (data.bytes ++ 0 :: rest) allocated ≤ data.length := by
  have size : data.length = 6 + path.length := by
    rw [CString.length, named, List.length_append]
    rfl
  have stop : trackerStop (data.bytes ++ 0 :: rest) = 5 := by
    rw [named]
    rfl
  have string : (data.bytes ++ 0 :: rest).drop 6 = path.bytes ++ 0 :: rest := by
    rw [named]
    rfl
  simp only [MountRequest.lastRead, stop, string, strlen_append, size]
  split <;> omega

/-- A mount that gets to `mount_nodev` with its structure has copied both paths into it. -/
theorem prepareMount_passes {prepared : Execution SuperCall.Reply SuperState Nat}
    (ran : (prepareMount ⟨some (data, beyond), some devName⟩).exec (handleSuper outcomes) (.start outcomes) =
      some prepared) (nonzero : prepared.value ≠ 0) :
    outcomes.Allocates ∧ PassesOn prepared.state prepared.value (MountRequest.tracker data beyond) devName := by
  have ensures : (prepareMount ⟨some (data, beyond), some devName⟩).Ensures (handleSuper outcomes) silent
      (fun mountPath after _ => after.fsInfo = (SuperState.start outcomes).fsInfo ∧ (mountPath ≠ 0 →
        ∃ data' beyond' devName', (⟨some (data, beyond), some devName⟩ : MountRequest) =
            ⟨some (data', beyond'), some devName'⟩ ∧ outcomes.Allocates ∧
          PassesOn after mountPath (MountRequest.tracker data' beyond') devName')) (.start outcomes) () :=
    prepareMount_ensures _
  obtain ⟨data', beyond', devName', same, allocates, passes⟩ := (ensures.exec ran).2 nonzero
  cases same
  exact ⟨allocates, passes⟩

/-- With memory for all allocations the mount path is prepared. -/
theorem prepareMount_allocated (allocates : outcomes.Allocates) (data beyond devName : CString) :
    ∃ prepared, (prepareMount ⟨some (data, beyond), some devName⟩).exec (handleSuper outcomes) (.start outcomes) =
      some prepared ∧ prepared.value ≠ 0 := by
  simp [prepareMount, copyInto, Program.exec, handleSuper, SuperState.start, SuperState.Valid, perform,
    allocates.mountPath, allocates.tfilePath, allocates.devicePath]

end

/-- The mount treats its options as the grammar says exactly when they name a trace and there is memory. -/
theorem parsesOptions_iff (outcomes : MountOutcomes) (rawData : Option (CString × CString)) (devName : CString) :
    ParsesOptions outcomes rawData devName ↔ (∃ path, TfileOption rawData path) ∧ outcomes.Allocates := by
  constructor
  · intro parses
    have named : ∃ path, TfileOption rawData path := by
      by_contra other
      obtain ⟨done, ran, failed⟩ := parses.refuses other
      have ensures : (trfsMount ⟨rawData, some devName⟩).Ensures (handleSuper outcomes) silent
        (fun err _ _ => err = 0 ∧ outcomes.Succeeds ⟨rawData, some devName⟩) (.start outcomes) () :=
          trfsMount_ensures _
      have zero := (ensures.exec ran).1
      rw [failed] at zero
      exact absurd zero (by decide)
    refine ⟨named, ?_⟩
    obtain ⟨prepared, ran, nonzero⟩ := parses.proceeds.mpr named
    obtain ⟨path, data, beyond, rfl, _, _⟩ := named
    exact (prepareMount_passes ran nonzero).1
  · rintro ⟨⟨path, data, beyond, rfl, named, some_left⟩, allocates⟩
    have given : TfileOption (some (data, beyond)) path := ⟨data, beyond, rfl, named, some_left⟩
    have prepares := prepareMount_allocated allocates data beyond devName
    constructor
    · intro data' beyond' same rest
      obtain ⟨rfl, rfl⟩ := Prod.mk.inj (Option.some.inj same)
      exact lastRead_tfile named _ _
    · exact iff_of_true prepares ⟨path, given⟩
    · intro path' given' prepared ran
      obtain ⟨data', beyond', same, named', _⟩ := given'
      obtain ⟨rfl, rfl⟩ := Prod.mk.inj (Option.some.inj same)
      obtain ⟨prepared', ran', nonzero⟩ := prepares
      obtain rfl := Option.some.inj (ran.symm.trans ran')
      have passed := (prepareMount_passes ran nonzero).2
      rw [tracker_tfile named'] at passed
      exact passed
    · intro other
      exact absurd ⟨path, given⟩ other

/-- The option string `ro` and the memory behind it. -/
def readOnly : CString := ⟨ascii "ro", by decide⟩
def leftOver : CString := ⟨ascii "/left", by decide⟩

/-- The steps of a mount on an existing directory. -/
def directoryThere : MountOutcomes where
  kmalloc _ := true
  kernPath _ := none
  filpOpen _ := none
  trfsIget := none
  garbage _ _ := 0
  uninitialized _ := leftOver

/-- A mount with `-o ro` reads past the end of its options and takes what it finds for the path of the trace. -/
theorem options_overrun :
    ¬ (∀ (outcomes : MountOutcomes) (rawData : Option (CString × CString)) (devName : CString),
      ParsesOptions outcomes rawData devName) ∧
    ¬ (∀ rest, MountRequest.lastRead (readOnly.bytes ++ 0 :: (leftOver.bytes ++ 0 :: rest)) true ≤ readOnly.length) ∧
    ∃ prepared, (prepareMount ⟨some (readOnly, leftOver), some leftOver⟩).exec (handleSuper directoryThere)
        (.start directoryThere) = some prepared ∧ prepared.value ≠ 0 ∧
      PassesOn prepared.state prepared.value leftOver leftOver := by
  have beyond : ¬ ∀ rest, MountRequest.lastRead (readOnly.bytes ++ 0 :: (leftOver.bytes ++ 0 :: rest)) true ≤
      readOnly.length := by
    intro within
    exact absurd (within []) (by decide)
  refine ⟨?_, beyond, ?_⟩
  · intro parses
    exact beyond ((parses directoryThere (some (readOnly, leftOver)) leftOver).reads _ _ rfl)
  · have allocates : directoryThere.Allocates := ⟨rfl, rfl, rfl⟩
    obtain ⟨prepared, ran, nonzero⟩ := prepareMount_allocated allocates readOnly leftOver leftOver
    have passed := (prepareMount_passes ran nonzero).2
    rw [show MountRequest.tracker readOnly leftOver = leftOver by decide] at passed
    exact ⟨prepared, ran, nonzero, passed⟩

end Trfs.Kernel
