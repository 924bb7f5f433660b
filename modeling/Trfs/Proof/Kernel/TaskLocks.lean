import Trfs.Construction.Kernel.Tasks
import Trfs.Proof.Kernel.HeldCalls
import Trfs.Proof.Kernel.LockedRequests

namespace Trfs.Kernel.Methods
open Bytes Effect

/-- What a call does with the locks of the lower inodes. The methods of the lower filesystem take such locks themselves. -/
def tableAct : TableCall → Act LowerInode
  | .mount c => mountDiscipline.act c
  | .method _ => .outside

def tableDiscipline : Discipline TableCall.Reply LowerDentry LowerInode where
  act := tableAct
  reads c reply := match c, reply with
    | .mount c, reply => mountDiscipline.reads c reply
    | .method _, _ => none
  null := .null

abbrev TableOuter (c : TableCall) : Prop := (tableDiscipline.act c).IsOuter

section
variable {α β : Type} {progress : Option (Standing LowerDentry LowerInode)}
  {post : α → Option (Standing LowerDentry LowerInode) → Prop} {dentry : Dentry} {file : File}

/-- What keeps to the discipline in the other files keeps to it as a part of the method table. -/
theorem mount_meets {program : MountProg α} (meets : program.Meets mountDiscipline.monitor post progress) :
    (mount program).Meets tableDiscipline.monitor post progress := by
  induction program generalizing progress with
  | pure value => exact meets
  | call c next ih => exact ⟨meets.1, fun reply => ih reply (meets.2 reply)⟩

/-- A part without a lock has none there either. -/
theorem mount_outer {program : MountProg α} (calls : program.Calls MountOuter) : (mount program).Calls TableOuter := by
  induction program with
  | pure value => trivial
  | call c next ih => exact ⟨calls.1, fun reply => ih reply (calls.2 reply)⟩

/-- So has a part from the operations. -/
theorem own_outer {program : Prog α} (calls : program.Calls Outer) : (own program).Calls TableOuter :=
  mount_outer (kernel_outer calls)

/-- The test whether the lower inode has a method takes no lock. -/
theorem hasMember_outer (testsOps : Bool) (inode : LowerInode) (member : InodeMember) :
    (hasMember testsOps inode member).Calls TableOuter := by
  have tests : ∀ ops : Bool, (if ops then method (.hasInodeMember inode member) else pure false).Calls TableOuter := by
    intro ops
    cases ops with
    | false => trivial
    | true => exact ⟨trivial, fun _ => trivial⟩
  cases testsOps with
  | false => exact tests true
  | true => exact ⟨trivial, fun ops => tests ops⟩

/-- Neither does the test for a method of the lower file. -/
theorem hasFileMember_outer (lowerFile : LowerFile) (member : FileMember) :
    (hasFileMember lowerFile member).Calls TableOuter := by
  refine ⟨trivial, fun ops => ?_⟩
  cases ops with
  | false => trivial
  | true => exact ⟨trivial, fun _ => trivial⟩

/-- The four xattr methods take no lock themselves. -/
theorem forwardXattr_outer {member : InodeMember} {testsOps : Bool} {missing : BitVec 32}
    {copy : Inode → LowerInode → Prog Unit} {forward : LowerDentry → MethodProg (BitVec 32)}
    (copies : ∀ inode lowerInode, (copy inode lowerInode).Calls Free)
    (forwards : ∀ lowerDentry, (forward lowerDentry).Calls TableOuter) :
    (forwardXattr member testsOps missing copy forward dentry).Calls TableOuter := by
  apply (own_outer (loose_outer (getPath_loose dentry))).bind
  intro path
  apply (own_outer (loose_outer (dInode_loose path.dentry))).bind
  intro lowerInode
  apply (hasMember_outer testsOps lowerInode member).bind
  intro there
  cases there with
  | false => exact ⟨trivial, fun _ => trivial⟩
  | true =>
      apply (forwards path.dentry).bind
      intro err
      change Program.Calls TableOuter (ite (err ≠ 0) _ _)
      split
      · exact ⟨trivial, fun _ => trivial⟩
      · refine ⟨trivial, fun inode => ⟨trivial, fun lowerInode => ?_⟩⟩
        exact (own_outer (free_outer (copies inode lowerInode))).bind fun _ => ⟨trivial, fun _ => trivial⟩

/-- The calls of the symbolic links take none. -/
theorem linkCall_outer (dentry : Dentry) (c : LinkCall) (locals : LowerPath) :
    (linkCall dentry c locals).Calls TableOuter := by
  cases c with
  | lowerHasReadlink =>
      refine ⟨trivial, fun lowerInode => ?_⟩
      exact (hasMember_outer true lowerInode .readlink).bind fun _ => trivial
  | copyAttrAtime =>
      refine ⟨trivial, fun inode => ⟨trivial, fun lowerInode => ?_⟩⟩
      exact (own_outer (free_outer (fsstackCopy_free inode lowerInode _))).bind fun _ => trivial
  | getLowerPath => exact ⟨trivial, fun _ => ⟨trivial, fun _ => trivial⟩⟩
  | _ => exact ⟨trivial, fun _ => trivial⟩

/-- The lower file is read without a lock. -/
theorem loadLower_outer (file : File) (lowerFile : Option LowerFile) : (loadLower file lowerFile).Calls TableOuter := by
  cases lowerFile with
  | some lowerFile => trivial
  | none => exact own_outer (openLowerFile_outer file)

/-- The calls on positions take none. -/
theorem positionCall_outer (file : File) (c : PositionCall) (lowerFile : Option LowerFile) :
    (positionCall file c lowerFile).Calls TableOuter := by
  have loads := loadLower_outer file lowerFile
  cases c with
  | genericFileLlseek other offset whence =>
      cases other with
      | upper => exact ⟨trivial, fun _ => trivial⟩
      | lower => exact loads.bind fun _ => ⟨trivial, fun _ => trivial⟩
  | iterateDir => exact loads.bind fun _ => ⟨trivial, fun _ => trivial⟩
  | position other =>
      cases other with
      | upper => exact ⟨trivial, fun _ => trivial⟩
      | lower => exact loads.bind fun _ => ⟨trivial, fun _ => trivial⟩
  | setPosition other value =>
      cases other with
      | upper => exact ⟨trivial, fun _ => trivial⟩
      | lower => exact loads.bind fun _ => ⟨trivial, fun _ => trivial⟩
  | copyAttrAtime =>
      apply loads.bind
      intro lowerFile
      refine ⟨trivial, fun inode => ?_⟩
      exact (own_outer (free_outer (fsstackCopy_free inode lowerFile.inode _))).bind fun _ => trivial

/-- `trfs_umount_begin` takes no lock itself. -/
theorem trfsUmountBegin_outer : trfsUmountBegin.Calls TableOuter := by
  refine ⟨trivial, fun lowerSb => ?_⟩
  change Program.Calls TableOuter (ite (lowerSb = 0) _ _)
  split
  · trivial
  · refine ⟨trivial, fun there => ?_⟩
    cases there with
    | false => trivial
    | true => exact ⟨trivial, fun _ => trivial⟩

/-- `trfs_flush` takes no lock itself. -/
theorem trfsFlush_outer {id : Nat} : (trfsFlush file id).Calls TableOuter := by
  refine ⟨trivial, fun lowerFile => ?_⟩
  cases lowerFile with
  | none => trivial
  | some lowerFile =>
      apply (hasFileMember_outer lowerFile .flush).bind
      intro there
      cases there with
      | false => trivial
      | true => exact ⟨trivial, fun _ => ⟨trivial, fun _ => trivial⟩⟩

/-- `trfs_fasync` takes no lock itself. -/
theorem trfsFasync_outer {fd flag : BitVec 32} : (trfsFasync fd file flag).Calls TableOuter := by
  apply (own_outer (openLowerFile_outer file)).bind
  intro lowerFile
  apply (hasFileMember_outer lowerFile .fasync).bind
  intro there
  cases there with
  | false => trivial
  | true => exact ⟨trivial, fun _ => trivial⟩

/-- `trfs_compat_ioctl` takes no lock itself. -/
theorem trfsCompatIoctl_outer {cmd : BitVec 32} {arg : BitVec 64} : (trfsCompatIoctl file cmd arg).Calls TableOuter := by
  refine ⟨trivial, fun lowerFile => ?_⟩
  cases lowerFile with
  | none => trivial
  | some lowerFile =>
      apply (hasFileMember_outer lowerFile .compatIoctl).bind
      intro there
      cases there with
      | false => trivial
      | true => exact ⟨trivial, fun _ => trivial⟩

/-- The result of a method does not matter for its locks. -/
theorem discard_outer {program : MethodProg β} (calls : program.Calls TableOuter) : (discard program).Calls TableOuter :=
  calls.bind fun _ => trivial

/-- A program over symbolic links takes no lock. -/
theorem translated_outer {program : LinkProg β} {locals : LowerPath} :
    (program.translate (linkCall dentry) locals).Calls TableOuter :=
  program.translate_calls (linkCall_outer dentry) locals

/-- A program over positions takes no lock. -/
theorem position_outer {program : PositionProg β} :
    (program.translate (positionCall file) none).Calls TableOuter :=
  program.translate_calls (positionCall_outer file) none

/-- Every request of the table takes one lock at a time and gives it back. -/
theorem Request.ordered (request : Request) (stands : Locking [] none progress) :
    request.program.Meets tableDiscipline.monitor (fun _ => Locking [] none) progress := by
  have outer : request.program.Calls TableOuter →
      request.program.Meets tableDiscipline.monitor (fun _ => Locking [] none) progress := fun calls => calls.settles stands
  have copies : ∀ select inode lowerInode, (fsstackCopy select inode lowerInode).Calls Free :=
    fun _ inode lowerInode => fsstackCopy_free inode lowerInode _
  cases request with
  | vfs request => exact mount_meets (request.ordered progress stands)
  | readlink dentry buf bufsiz => exact outer (discard_outer translated_outer)
  | getLink found =>
      apply outer
      cases found with
      | none => trivial
      | some dentry => exact discard_outer translated_outer
  | permission inode mask => exact outer ⟨trivial, fun _ => ⟨trivial, fun _ => trivial⟩⟩
  | setxattr name value flags dentry =>
      apply outer
      apply discard_outer
      exact forwardXattr_outer (copies _) fun _ => ⟨trivial, fun _ => trivial⟩
  | getxattr name buffer size dentry =>
      apply outer
      apply discard_outer
      exact forwardXattr_outer (copies _) fun _ => ⟨trivial, fun _ => trivial⟩
  | listxattr buffer size dentry =>
      apply outer
      apply discard_outer
      exact forwardXattr_outer (copies _) fun _ => ⟨trivial, fun _ => trivial⟩
  | removexattr name dentry =>
      apply outer
      apply discard_outer
      exact forwardXattr_outer (copies _) fun _ => ⟨trivial, fun _ => trivial⟩
  | statfs magic dentry => exact outer ⟨trivial, fun _ => ⟨trivial, fun _ => ⟨trivial, fun _ => ⟨trivial, fun _ => trivial⟩⟩⟩⟩
  | remountFs flags => exact outer trivial
  | umountBegin => exact outer trfsUmountBegin_outer
  | flush file id => exact outer (discard_outer trfsFlush_outer)
  | fasync fd file flag => exact outer (discard_outer trfsFasync_outer)
  | llseek file offset whence => exact outer (discard_outer position_outer)
  | readdir file => exact outer (discard_outer position_outer)
  | unlockedIoctl file fileInode cmd arg => exact outer (discard_outer (own_outer trfsUnlockedIoctl_outer))
  | compatIoctl file cmd arg => exact outer (discard_outer trfsCompatIoctl_outer)

end

section
variable {ι L : Type} {env : MethodEnvironment L} {helpers : Helpers} {traceInodes : List LowerInode}

/-- Only the calls of the locks take or give them, or fault for a lock. -/
theorem tableAct_cases (c : TableCall) : (∃ inodes, c = .mount (.kernel (.upper (.lock inodes)))) ∨
    (∃ inodes, c = .mount (.kernel (.upper (.unlock inodes)))) ∨ (tableAct c ≠ .faults ∧ ¬ (tableAct c).Takes) := by
  cases c with
  | method c => exact .inr (.inr ⟨nofun, id⟩)
  | mount c =>
      cases c with
      | vfs c => cases c <;> exact .inr (.inr ⟨nofun, id⟩)
      | kernel c =>
          cases c with
          | lower c => cases c <;> exact .inr (.inr ⟨nofun, id⟩)
          | upper c =>
              cases c with
              | lock inodes => exact .inl ⟨inodes, rfl⟩
              | unlock inodes => exact .inr (.inl ⟨inodes, rfl⟩)
              | _ => exact .inr (.inr ⟨nofun, id⟩)
          | tracer c => cases c <;> exact .inr (.inr ⟨nofun, id⟩)
          | _ => exact .inr (.inr ⟨nofun, id⟩)

/-- A lock of `NULL` faults. -/
theorem lock_act (inodes : List LowerInode) : tableAct (.mount (.kernel (.upper (.lock inodes)))) =
    if LowerInode.null ∈ inodes then .faults else .opens inodes := rfl

/-- Every call but those of the locks has its own effect, unless it waits at the trace file. -/
theorem handleTasks_other {task : ι} {c : TableCall} {state : SharedMount ι L} (free : ¬ (tableAct c).Takes)
    (sound : tableAct c ≠ .faults) : handleTasks traceInodes env helpers task c state =
      if usesTraceFile c ∧ ¬ ∀ inode ∈ traceInodes, (state.holder inode).isNone then none
      else (handleTable env helpers c state.mounted).map fun (reply, after) =>
        (reply, { state with mounted := after }) := by
  unfold handleTasks
  split
  · rename_i inodes
    rw [lock_act] at free sound
    split at free
    · rename_i absent
      exact absurd (if_pos absent) sound
    · exact absurd trivial free
  · exact absurd trivial free
  · rfl

/-- A lock of the shared mount has one holder, and a task that cannot have it waits. -/
theorem handleTasks_serves :
    tableDiscipline.Serves (handleTasks (L := L) traceInodes env helpers) fun state : SharedMount ι L => state.holder where
  opens {task c state reply after locks} opening answered := by
    change tableAct c = .opens locks at opening
    rcases tableAct_cases c with ⟨inodes, rfl⟩ | ⟨inodes, rfl⟩ | ⟨_, free⟩
    · rw [lock_act] at opening
      split at opening
      · cases opening
      obtain rfl := Act.opens.inj opening
      simp only [handleTasks] at answered
      split at answered
      · rename_i allowed
        obtain ⟨_, rfl⟩ := Prod.mk.inj (Option.some.inj answered)
        exact ⟨fun inode member => Option.isNone_iff_eq_none.mp (allowed.2 inode member), fun inode => rfl⟩
      · cases answered
    · cases opening
    · rw [opening] at free
      exact absurd trivial free
  closes {task c state reply after locks} closing answered := by
    change tableAct c = .closes locks at closing
    rcases tableAct_cases c with ⟨inodes, rfl⟩ | ⟨inodes, rfl⟩ | ⟨_, free⟩
    · rw [lock_act] at closing
      split at closing <;> cases closing
    · obtain rfl := Act.closes.inj closing
      obtain ⟨_, rfl⟩ := Prod.mk.inj (Option.some.inj answered)
      exact fun inode => rfl
    · rw [closing] at free
      exact absurd trivial free
  keeps {task c state reply after} free answered := by
    by_cases fault : tableAct c = .faults
    · rcases tableAct_cases c with ⟨inodes, rfl⟩ | ⟨inodes, rfl⟩ | ⟨sound, _⟩
      · rw [lock_act] at fault
        split at fault
        · rename_i absent
          simp [handleTasks, absent] at answered
        · cases fault
      · cases fault
      · exact absurd fault sound
    · rw [handleTasks_other free fault] at answered
      split at answered
      · cases answered
      obtain ⟨_, _, same⟩ := Option.map_eq_some_iff.mp answered
      obtain ⟨_, rfl⟩ := Prod.mk.inj same
      rfl
  faults {task c state} fault := by
    change tableAct c = .faults at fault
    rcases tableAct_cases c with ⟨inodes, rfl⟩ | ⟨inodes, rfl⟩ | ⟨sound, _⟩
    · rw [lock_act] at fault
      split at fault
      · rename_i absent
        simp [handleTasks, absent]
      · cases fault
    · cases fault
    · exact absurd fault sound
  waits {task c state locks} opening silent := by
    change tableAct c = .opens locks at opening
    rcases tableAct_cases c with ⟨inodes, rfl⟩ | ⟨inodes, rfl⟩ | ⟨_, free⟩
    · rw [lock_act] at opening
      split at opening
      · cases opening
      rename_i real
      obtain rfl := Act.opens.inj opening
      by_contra free
      push Not at free
      simp [handleTasks, real] at silent
      obtain ⟨inode, member, held⟩ := silent
      exact held (free inode member)
    · cases opening
    · rw [opening] at free
      exact absurd trivial free

/-- A call that gets no answer, is not a lock that somebody holds and does not wait at the trace file gets none in a mount
without other tasks either. -/
theorem silent_alone {task : ι} {c : TableCall} {state : SharedMount ι L}
    (silent : handleTasks traceInodes env helpers task c state = none) (free : ∀ locks, tableAct c ≠ .opens locks)
    (unheld : ∀ inode ∈ traceInodes, state.holder inode = none) : handleTable env helpers c state.mounted = none := by
  rcases tableAct_cases c with ⟨inodes, rfl⟩ | ⟨inodes, rfl⟩ | ⟨sound, free⟩
  · by_cases absent : LowerInode.null ∈ inodes
    · change (if LowerInode.null ∈ inodes then none else some ((), state.mounted)) = none
      exact if_pos absent
    · exact absurd (if_neg absent) (free inodes)
  · cases silent
  · have open_ : ¬ (usesTraceFile c = true ∧ ¬ ∀ inode ∈ traceInodes, (state.holder inode).isNone = true) :=
      fun waits => waits.2 fun inode member => Option.isNone_iff_eq_none.mpr (unheld inode member)
    rw [handleTasks_other free sound, if_neg open_] at silent
    exact Option.map_eq_none_iff.mp silent

variable [DecidableEq ι] {requests : ι → Request} {mounted : Mounted L} {schedule : List ι} {last : RequestTasks ι L}

/-- At the start every task keeps to the discipline. -/
theorem begin_kept : tableDiscipline.Kept (RequestTasks.begin requests mounted) :=
  fun task => (requests task).ordered Locking.start

/-- No task locks an inode that the calls on the trace file lock. -/
def Apart (traceInodes : List LowerInode) (history : List (ι × Event TableCall.Reply)) : Prop :=
  ∀ entry ∈ history, ∀ inodes, entry.2.call = .mount (.kernel (.upper (.lock inodes))) →
    ∀ inode ∈ traceInodes, inode ∉ inodes

/-- No task comes to hold such a lock. -/
theorem Apart.unheld (apart : Apart traceInodes last.history)
    (ran : (RequestTasks.begin requests mounted).run traceInodes env helpers schedule = some last) :
    ∀ inode ∈ traceInodes, last.shared.holder inode = none := by
  intro inode member
  apply Discipline.run_free handleTasks_serves rfl ran
  intro entry inside locks opening
  change tableAct entry.2.call = .opens locks at opening
  rcases tableAct_cases entry.2.call with ⟨inodes, call⟩ | ⟨inodes, call⟩ | ⟨_, free⟩
  · rw [call, lock_act] at opening
    split at opening
    · cases opening
    obtain rfl := Act.opens.inj opening
    exact apart entry inside inodes call inode member
  · rw [call] at opening
    cases opening
  · rw [opening] at free
    exact absurd trivial free

end

def twoMkdirs : RequestTasks Bool Unit := .begin (fun _ => .vfs (.traced (.mkdir ⟨1⟩ dentryA 0x1ed))) rootMount

/-- With the trace file in that directory the task waits for its own lock when it opens the file, and so does the other
one. -/
theorem twoMkdirs_stuck : ∃ last,
    twoMkdirs.run [⟨1⟩] steadyTable reliable (List.replicate 12 true ++ List.replicate 4 false) = some last ∧
      ∀ task, ∃ c, last.nextCall task = some c ∧ handleTasks [⟨1⟩] steadyTable reliable task c last.shared = none ∧
        (handleTable steadyTable reliable c last.shared.mounted).isSome := by
  let ended := twoMkdirs.run [⟨1⟩] steadyTable reliable (List.replicate 12 true ++ List.replicate 4 false)
  have finishes : ended.isSome := by decide +kernel
  obtain ⟨last, ran⟩ := Option.isSome_iff_exists.mp finishes
  have waits : ended.map (fun last => [true, false].all fun task => (last.nextCall task).any fun c =>
      (handleTasks [⟨1⟩] steadyTable reliable task c last.shared).isNone &&
        (handleTable steadyTable reliable c last.shared.mounted).isSome) = some true := by decide +kernel
  rw [ran] at waits
  refine ⟨last, ran, fun task => ?_⟩
  have each := List.all_eq_true.mp (Option.some.inj waits) task (by cases task <;> simp)
  obtain ⟨c, calls, both⟩ := (Option.any_eq_true _ _).mp each
  obtain ⟨silent, alone⟩ := Bool.and_eq_true_iff.mp both
  exact ⟨c, calls, Option.isNone_iff_eq_none.mp silent, alone⟩

end Trfs.Kernel.Methods
