import LayerCake.Bubblebox.Cgroups.Policy
import LayerCake.Effects.Loads

/-
  The systemd cgroup backend (`bubblebox/src/platform/linux/cgroups/systemd.rs`).

  Correspondence (Rust ↔ Lean):
    `SystemdStateImpl`          ↔ `SystemdState`
    `host_post_clone_hook`      ↔ `hostPostCloneHook`
    the guard on the unit name  ↔ `guarded`, with `stopUnit`
    the wait for `JobRemoved`   ↔ `awaitJob`
    from `StartTransientUnit` to `apply_to_cgroup` ↔ `configure`
    the write to the eventfd    ↔ `signal`
    `guest_post_clone_hook`     ↔ `guestPostCloneHook`
    `teardown`                  ↔ `teardown`
  A turn of the wait takes one message, or finds that the deadline has passed; the wait
  goes on on exactly the messages that are foreign to the job. Closing descriptors and
  the constants of the D-Bus names are left out.

  What is proved: the steps between `StartTransientUnit` and the eventfd are plain calls
  (`configure_plain`), and where they have succeeded, the cgroups of the guest are
  configured (`from_configure`).
-/

namespace LayerCake.Bubblebox.Cgroups

open LayerCake.Effects LayerCake.Meowix

/-! ## The state -/

/-- The cgroups of a guest, from the outermost. -/
structure Tree where
  rootFd : Fd
  settingsFd : Fd
  childFd : Fd
  deriving DecidableEq, Repr

/-- `SystemdStateImpl`. The eventfd of the first variant is the one that has its own calls. -/
inductive SystemdState where
  | preClone
  | postClone (tree : Tree) (unitName : Bytes)
  deriving DecidableEq, Repr

/-! ## The hook of the host -/

/-- A call over D-Bus, and its `?`. -/
def dbus {α : Type} (call : Prog CgroupCalls (Except DbusError α)) :
    ExceptT PostSpawnHost (Prog CgroupCalls) α :=
  ExceptT.mk do return (← call).mapError .dbus

/-- The `?` on the result of a function of the policy. -/
def host {α : Type} (p : ExceptT Host (Prog CgroupCalls) α) :
    ExceptT PostSpawnHost (Prog CgroupCalls) α :=
  ExceptT.mk do return (← p.run).mapError .host

/-- The message is not the `JobRemoved` of the job: the rule does not match it, or it is of
another job. -/
def Message.foreign (jobPath : Bytes) (message : Message) : Bool :=
  !message.matchesRule || match message.read4 with
    | some (_, candidatePath, _, _) => candidatePath ≠ jobPath
    | none => false

/-- The wait goes on after the message. -/
def Popped.again (jobPath : Bytes) : Popped → Bool
  | .answered (.ok (some message)) => message.foreign jobPath
  | _ => false

/-- What the wait ends with. -/
def Popped.outcome : Popped → Except PostSpawnHost Unit
  | .expired => .error .unitStartTimeout
  | .answered (.error error) => .error (.dbus error)
  | .answered (.ok none) => .error .unitStartTimeout
  | .answered (.ok (some message)) =>
    match message.read4 with
    | none => .error .malformedDbusMessage
    | some (_, _, _, result) =>
      if result ≠ ascii "done" then .error .unitStartJobFailed else .ok ()

/-- The wait for the job, for five seconds in nanoseconds. -/
def awaitJob (jobPath : Bytes) : ExceptT PostSpawnHost (Prog CgroupCalls) Unit :=
  ExceptT.mk do
    let start ← perform (I := CgroupCalls) .now
    return (← performUntil (I := CgroupCalls) (.popMessage (start + 5 * 10 ^ 9))
      (Popped.again jobPath)).outcome

/-- `str::trim_prefix` with `"/"`. -/
def trimPrefix : Bytes → Bytes
  | 47 :: rest => rest
  | s => s

/-- The properties of the unit of a guest. -/
def unitProperties (guestPid : Int32) : UnitProperties where
  pids := [guestPid.toUInt32]
  delegate := true
  delegateSubgroup := ascii "anchor"
  collectMode := ascii "inactive-or-failed"

/-- A directory is made in a cgroup and opened. -/
def makeCgroup (parent : Fd) (name : Bytes) : ExceptT PostSpawnHost (Prog CgroupCalls) Fd := do
  tryCall .syscall .mkdirat (perform (I := CgroupCalls) (.mkdirat parent name Linux.S_IRWXU))
  openat2 .syscall (some parent) name (Linux.O_PATH ||| Linux.O_DIRECTORY) beneath

/-- The cgroup that systemd made for the unit. -/
def openRoot (unitName : Bytes) : ExceptT PostSpawnHost (Prog CgroupCalls) Fd := do
  let unitPath ← dbus (perform (I := CgroupCalls) (.getUnit unitName))
  let cgroupsRootFd ← openat2 .syscall none (ascii "/sys/fs/cgroup")
    (Linux.O_PATH ||| Linux.O_DIRECTORY)
    (Linux.RESOLVE_NO_MAGICLINKS ||| Linux.RESOLVE_NO_SYMLINKS)
  let cgroupPath ← dbus (perform (I := CgroupCalls) (.getControlGroup unitPath))
  let path ← ofExcept ((withCStr PATH_MAX (trimPrefix cgroupPath)).mapError .ofWithCStr)
  openat2 .syscall (some cgroupsRootFd) path (Linux.O_PATH ||| Linux.O_DIRECTORY)
    (Linux.RESOLVE_IN_ROOT ||| Linux.RESOLVE_NO_MAGICLINKS ||| Linux.RESOLVE_NO_SYMLINKS)

/-- The controllers that the policy names and the parent has, with what delegates them. -/
def delegated (policy : Policy) (parent : CgroupControllers) : List Bytes :=
  (if policy.cpu.isSome && parent.cpu then [ascii "+cpu"] else []) ++
    (if policy.memory.isSome && parent.memory then [ascii "+memory"] else []) ++
    (if policy.io.isSome && parent.io then [ascii "+io"] else []) ++
    (if policy.pids.isSome && parent.pids then [ascii "+pids"] else [])

/-- Writes to one descriptor, one after another. -/
def writeEach (fd : Fd) : List Bytes → ExceptT PostSpawnHost (Prog CgroupCalls) Unit
  | [] => pure ()
  | value :: values => do
    writeChecked .syscall .incompleteWrite fd value
    writeEach fd values

/-- What is done to the cgroups once they are made. -/
def configureTree [Itoa] (policy : Policy) (guestPid : Int32) (tree : Tree) :
    ExceptT PostSpawnHost (Prog CgroupCalls) Unit := do
  openBeneathAndWrite .syscall .incompleteWrite tree.childFd (ascii "cgroup.procs")
    (Itoa.format guestPid.toInt)
  let subtreeControl ← openat2 .syscall (some tree.rootFd) (ascii "cgroup.subtree_control")
    Linux.O_WRONLY beneath
  let parentControllers ← host (parseControllers tree.rootFd)
  writeEach subtreeControl (delegated policy parentControllers)
  host (policy.applyToCgroup tree.settingsFd)

/-- From the job of the unit on. -/
def configure [Itoa] (policy : Policy) (guestPid : Int32) (unitName jobPath : Bytes) :
    ExceptT PostSpawnHost (Prog CgroupCalls) Tree := do
  awaitJob jobPath
  let rootFd ← openRoot unitName
  let settingsFd ← makeCgroup rootFd (ascii "bubblebox-settings")
  let childFd ← makeCgroup settingsFd (ascii "bubblebox-child")
  configureTree policy guestPid ⟨rootFd, settingsFd, childFd⟩
  return ⟨rootFd, settingsFd, childFd⟩

/-- `1u64.to_ne_bytes()`. -/
def signalBytes (e : Endian) : Bytes := e.leastFirst [1, 0, 0, 0, 0, 0, 0, 0]

/-- The guest is told to go on. -/
def signal (e : Endian) : ExceptT PostSpawnHost (Prog CgroupCalls) Unit := do
  let n ← tryCall .syscall .write
    (performUntil (I := CgroupCalls) (.writeEventfd (signalBytes e)) interrupted)
  if n ≠ 8 then throw .incompleteWrite

/-- The state that takes the place of one that is not cloned yet. -/
def handOver (e : Endian) (unitName : Bytes) (tree : Tree) :
    SystemdState → ExceptT PostSpawnHost (Prog CgroupCalls) SystemdState
  | .preClone => do
    signal e
    return .postClone tree unitName
  | .postClone _ _ => throw .invalidCgroupsState

/-- `StopUnit`; whatever it answers is dropped. -/
def stopUnit (unitName : Bytes) : Prog CgroupCalls Unit := do
  let _ ← perform (I := CgroupCalls) (.stopUnit unitName (ascii "fail"))

/-- `scopeguard::guard`, disarmed where the program succeeds. -/
def guarded {ε α : Type} (cleanup : Prog CgroupCalls Unit) (p : ExceptT ε (Prog CgroupCalls) α) :
    ExceptT ε (Prog CgroupCalls) α :=
  ExceptT.mk do
    match ← p.run with
    | .ok a => return .ok a
    | .error error => do
      cleanup
      return .error error

/-- `scopeguard::defer!`. -/
def deferred {α : Type} (cleanup : Prog CgroupCalls Unit) (p : Prog CgroupCalls α) :
    Prog CgroupCalls α := do
  let r ← p
  cleanup
  return r

def removeMatch : Prog CgroupCalls Unit := do
  let _ ← perform (I := CgroupCalls) .removeMatch

/-- The hook while the guard is armed. -/
def underGuard [Itoa] (e : Endian) (policy : Policy) (guestPid : Int32) (unitName : Bytes)
    (state : SystemdState) : ExceptT PostSpawnHost (Prog CgroupCalls) SystemdState := do
  let jobPath ← dbus (perform (I := CgroupCalls)
    (.startTransientUnit unitName (ascii "fail") (unitProperties guestPid)))
  let tree ← configure policy guestPid unitName jobPath
  handOver e unitName tree state

/-- `host_post_clone_hook`: the state that is assigned where it succeeds. -/
def hookBody [Itoa] (e : Endian) (policy : Policy) (guestPid : Int32) (state : SystemdState) :
    ExceptT PostSpawnHost (Prog CgroupCalls) SystemdState := do
  dbus (perform (I := CgroupCalls) (.newSession .hook))
  let uuid ← ExceptT.lift (perform (I := CgroupCalls) .newV4)
  let unitName := ascii "bubblebox-" ++ uuid ++ ascii ".scope"
  dbus (perform (I := CgroupCalls) .addMatch)
  ExceptT.mk (deferred removeMatch
    (guarded (stopUnit unitName) (underGuard e policy guestPid unitName state)).run)

/-- `host_post_clone_hook`, with the state it leaves. -/
def hostPostCloneHook [Itoa] (e : Endian) (policy : Policy) (guestPid : Int32)
    (state : SystemdState) :
    Prog CgroupCalls (SystemdState × Except PostSpawnHost Unit) := do
  match ← (hookBody e policy guestPid state).run with
  | .ok state' => return (state', .ok ())
  | .error error => return (state, .error error)

/-! ## The hook of the guest, and the teardown -/

/-- `guest_post_clone_hook`. -/
def guestPostCloneHook (e : Endian) :
    SystemdState → ExceptT Spawn.PostSpawnGuest (Prog CgroupCalls) Unit
  | .preClone => do
    let value ← tryCall .syscall .read
      (performUntil (I := CgroupCalls) (.readEventfd 8) interrupted)
    if value.length ≠ 8 then throw .incompleteWrite
    else if e.value value = 0 then throw (.other .invalidCgroupsState)
    else pure ()
  | .postClone _ _ => throw (.other .invalidCgroupsState)

/-- The error of a unit that is gone already. -/
def DbusError.noSuchUnit (error : DbusError) : Bool :=
  error.name = some (ascii "org.freedesktop.systemd1.NoSuchUnit")

/-- `teardown`. -/
def teardown : SystemdState → ExceptT PostSpawnHost (Prog CgroupCalls) Unit
  | .preClone => pure ()
  | .postClone _ unitName => do
    dbus (perform (I := CgroupCalls) (.newSession .teardown))
    ExceptT.mk do
      match ← perform (I := CgroupCalls) (.stopUnit unitName (ascii "fail")) with
      | .ok _ => return .ok ()
      | .error error => if error.noSuchUnit then return .ok () else return .error (.dbus error)

/-! ## Which calls the steps make -/

section Plain
variable {P : CgroupOp → Prop}

theorem dbus_calls {α : Type} {call : Prog CgroupCalls (Except DbusError α)} (h : call.Calls P) :
    Prog.Calls P (dbus call).run := h.bind fun _ => trivial

theorem host_calls {α : Type} {p : ExceptT Host (Prog CgroupCalls) α} (h : Prog.Calls P p.run) :
    Prog.Calls P (host p).run := h.bind fun _ => trivial

theorem awaitJob_plain (jobPath : Bytes) : Prog.Calls Plain (awaitJob jobPath).run := by
  apply Prog.Calls.bind (performUntil_calls trivial)
  intro start
  exact (performUntil_calls trivial).bind fun _ => trivial

theorem makeCgroup_plain (parent : Fd) (name : Bytes) :
    Prog.Calls Plain (makeCgroup parent name).run :=
  calls_bindE (tryCall_calls (performUntil_calls trivial)) fun _ => openat2_plain _ _ _ _

theorem openRoot_plain (unitName : Bytes) : Prog.Calls Plain (openRoot unitName).run := by
  apply calls_bindE (dbus_calls (performUntil_calls trivial))
  intro unitPath
  apply calls_bindE (openat2_plain _ _ _ _)
  intro cgroupsRootFd
  apply calls_bindE (dbus_calls (performUntil_calls trivial))
  intro cgroupPath
  apply calls_bindE (ofExcept_calls _)
  intro path
  exact openat2_plain _ _ _ _

theorem writeEach_plain (fd : Fd) (values : List Bytes) :
    Prog.Calls Plain (writeEach fd values).run := by
  induction values with
  | nil => trivial
  | cons value values ih => exact calls_bindE (writeChecked_plain _ _ _) fun _ => ih

theorem configureTree_plain [Itoa] (policy : Policy) (guestPid : Int32) (tree : Tree) :
    Prog.Calls Plain (configureTree policy guestPid tree).run := by
  apply calls_bindE (openBeneathAndWrite_plain _ _ _ _)
  intro _
  apply calls_bindE (openat2_plain _ _ _ _)
  intro subtreeControl
  apply calls_bindE (host_calls (parseControllers_plain _))
  intro parentControllers
  apply calls_bindE (writeEach_plain _ _)
  intro _
  exact host_calls (applyToCgroup_plain _ _)

theorem configure_plain [Itoa] (policy : Policy) (guestPid : Int32) (unitName jobPath : Bytes) :
    Prog.Calls Plain (configure policy guestPid unitName jobPath).run := by
  apply calls_bindE (awaitJob_plain _)
  intro _
  apply calls_bindE (openRoot_plain _)
  intro rootFd
  apply calls_bindE (makeCgroup_plain _ _)
  intro settingsFd
  apply calls_bindE (makeCgroup_plain _ _)
  intro childFd
  exact calls_bindE (configureTree_plain _ _ _) fun _ => trivial

end Plain

/-! ## What a configured cgroup is -/

section Configured
variable (log : Log)

/-- The directory was made in the cgroup and opened. -/
def Made (parent : Fd) (name : Bytes) (fd : Fd) : Prop :=
  ⟨.mkdirat parent name Linux.S_IRWXU, .ok ()⟩ ∈ log ∧
    ⟨.openat2 (some parent) name (Linux.O_PATH ||| Linux.O_DIRECTORY ||| Linux.O_CLOEXEC) beneath,
      .ok fd⟩ ∈ log

/-- The job was removed with the result `done`. -/
def JobDone (jobPath : Bytes) : Prop :=
  ∃ deadline message id unit,
    ⟨.popMessage deadline, .answered (.ok (some message))⟩ ∈ log ∧ message.matchesRule = true ∧
      message.read4 = some (id, jobPath, unit, ascii "done")

/-- The cgroup is the one systemd gave the unit. -/
def RootOf (unitName : Bytes) (fd : Fd) : Prop :=
  ∃ unitPath cgroupsRootFd cgroupPath,
    ⟨.getUnit unitName, .ok unitPath⟩ ∈ log ∧
    ⟨.openat2 none (ascii "/sys/fs/cgroup") (Linux.O_PATH ||| Linux.O_DIRECTORY ||| Linux.O_CLOEXEC)
      (Linux.RESOLVE_NO_MAGICLINKS ||| Linux.RESOLVE_NO_SYMLINKS), .ok cgroupsRootFd⟩ ∈ log ∧
    ⟨.getControlGroup unitPath, .ok cgroupPath⟩ ∈ log ∧
    ⟨.openat2 (some cgroupsRootFd) (trimPrefix cgroupPath)
      (Linux.O_PATH ||| Linux.O_DIRECTORY ||| Linux.O_CLOEXEC)
      (Linux.RESOLVE_IN_ROOT ||| Linux.RESOLVE_NO_MAGICLINKS ||| Linux.RESOLVE_NO_SYMLINKS),
      .ok fd⟩ ∈ log

/-- The controllers that the policy names, of those the root has, were delegated. -/
def Delegated (policy : Policy) (rootFd : Fd) : Prop :=
  ∃ fd parent,
    ⟨.openat2 (some rootFd) (ascii "cgroup.subtree_control")
      (Linux.O_WRONLY ||| Linux.O_CLOEXEC) beneath, .ok fd⟩ ∈ log ∧
    ControllersOf log rootFd parent ∧
    ∀ value ∈ delegated policy parent, ⟨.write fd value, .ok value.length⟩ ∈ log

/-- The cgroups of the unit are there, the guest was moved into the innermost, the
controllers were delegated, and the policy was applied. -/
structure Configured [Itoa] (policy : Policy) (guestPid : Int32) (unitName jobPath : Bytes)
    (tree : Tree) : Prop where
  jobDone : JobDone log jobPath
  root : RootOf log unitName tree.rootFd
  settings : Made log tree.rootFd (ascii "bubblebox-settings") tree.settingsFd
  child : Made log tree.settingsFd (ascii "bubblebox-child") tree.childFd
  moved : Written log tree.childFd (ascii "cgroup.procs") (Itoa.format guestPid.toInt)
  delegated : Delegated log policy tree.rootFd
  applied : Applied policy log tree.settingsFd

end Configured

section From
variable {log : Log}

theorem from_dbus {α : Type} {call : Prog CgroupCalls (Except DbusError α)} {a : α} :
    Prog.From log (dbus call).run (.ok a) ↔ call.From log (.ok a) := by
  constructor
  · intro h
    obtain ⟨r, hr, hmap⟩ := Prog.from_bind.mp h
    cases r with
    | ok b =>
      obtain rfl := Except.ok.inj hmap
      exact hr
    | error error => cases hmap
  · intro h
    exact Prog.from_bind.mpr ⟨.ok a, h, rfl⟩

theorem from_host {α : Type} {p : ExceptT Host (Prog CgroupCalls) α} {a : α}
    (h : Prog.From log (host p).run (.ok a)) : Prog.From log p.run (.ok a) := by
  obtain ⟨r, hr, hmap⟩ := Prog.from_bind.mp h
  cases r with
  | ok b =>
    obtain rfl := Except.ok.inj hmap
    exact hr
  | error error => cases hmap

/-- The wait ends well with the message of the job alone, whose result was `done`. -/
theorem from_awaitJob {jobPath : Bytes} (h : Prog.From log (awaitJob jobPath).run (.ok ())) :
    JobDone log jobPath := by
  obtain ⟨start, _, hrest⟩ := Prog.from_bind.mp h
  obtain ⟨popped, hpopped, houtcome⟩ := Prog.from_bind.mp hrest
  obtain ⟨hmem, hagain⟩ := Prog.from_performUntil.mp hpopped
  match popped, hmem, hagain, houtcome with
  | .expired, _, _, houtcome => cases houtcome
  | .answered (.error error), _, _, houtcome => cases houtcome
  | .answered (.ok none), _, _, houtcome => cases houtcome
  | .answered (.ok (some message)), hmem, hagain, houtcome =>
    have hforeign : message.foreign jobPath = false := hagain
    have houtcome' : Popped.outcome (.answered (.ok (some message))) = .ok () := houtcome
    unfold Message.foreign at hforeign
    unfold Popped.outcome at houtcome'
    cases hread : message.read4 with
    | none =>
      simp only [hread] at houtcome'
      cases houtcome'
    | some body =>
      obtain ⟨id, candidatePath, unit, result⟩ := body
      simp only [hread, Bool.or_eq_false_iff, Bool.not_eq_false', decide_eq_false_iff_not,
        not_not] at hforeign
      simp only [hread] at houtcome'
      split at houtcome'
      · cases houtcome'
      · next hdone =>
        obtain rfl := hforeign.2
        exact ⟨_, message, id, unit, hmem, hforeign.1, by rw [hread, not_not.mp hdone]⟩

theorem from_makeCgroup {parent fd : Fd} {name : Bytes}
    (h : Prog.From log (makeCgroup parent name).run (.ok fd)) : Made log parent name fd := by
  obtain ⟨_, hmkdir, hopen⟩ := Prog.from_bindE.mp h
  exact ⟨Prog.from_perform.mp (from_tryCall.mp hmkdir), from_openat2 hopen⟩

theorem from_openRoot {unitName : Bytes} {fd : Fd}
    (h : Prog.From log (openRoot unitName).run (.ok fd)) : RootOf log unitName fd := by
  obtain ⟨unitPath, hunit, h⟩ := Prog.from_bindE.mp h
  obtain ⟨cgroupsRootFd, hcgroups, h⟩ := Prog.from_bindE.mp h
  obtain ⟨cgroupPath, hpath, h⟩ := Prog.from_bindE.mp h
  obtain ⟨path, hcstr, hopen⟩ := Prog.from_bindE.mp h
  have hc : withCStr PATH_MAX (trimPrefix cgroupPath) = .ok path := by
    have := from_ofExcept.mp hcstr
    cases hw : withCStr PATH_MAX (trimPrefix cgroupPath) with
    | ok path' =>
      rw [hw] at this
      exact congrArg Except.ok (Except.ok.inj this)
    | error error =>
      rw [hw] at this
      cases this
  obtain ⟨rfl, _, _⟩ := withCStr_eq_ok hc
  exact ⟨unitPath, cgroupsRootFd, cgroupPath, Prog.from_perform.mp (from_dbus.mp hunit),
    from_openat2 hcgroups, Prog.from_perform.mp (from_dbus.mp hpath), from_openat2 hopen⟩

theorem from_writeEach {fd : Fd} {values : List Bytes}
    (h : Prog.From log (writeEach fd values).run (.ok ())) :
    ∀ value ∈ values, ⟨.write fd value, .ok value.length⟩ ∈ log := by
  induction values with
  | nil => exact fun _ hmem => absurd hmem List.not_mem_nil
  | cons value values ih =>
    obtain ⟨_, hwrite, hrest⟩ := Prog.from_bindE.mp h
    intro value' hmem
    rcases List.mem_cons.mp hmem with rfl | hmem
    · exact from_writeChecked hwrite
    · exact ih hrest value' hmem

theorem from_configure [Itoa] {policy : Policy} {guestPid : Int32} {unitName jobPath : Bytes}
    {tree : Tree}
    (h : Prog.From log (configure policy guestPid unitName jobPath).run (.ok tree)) :
    Configured log policy guestPid unitName jobPath tree := by
  obtain ⟨_, hjob, h⟩ := Prog.from_bindE.mp h
  obtain ⟨rootFd, hroot, h⟩ := Prog.from_bindE.mp h
  obtain ⟨settingsFd, hsettings, h⟩ := Prog.from_bindE.mp h
  obtain ⟨childFd, hchild, h⟩ := Prog.from_bindE.mp h
  obtain ⟨_, hconfigure, hreturn⟩ := Prog.from_bindE.mp h
  obtain rfl := Prog.from_pureE.mp hreturn
  obtain ⟨_, hmoved, h⟩ := Prog.from_bindE.mp hconfigure
  obtain ⟨subtreeControl, hsubtree, h⟩ := Prog.from_bindE.mp h
  obtain ⟨parent, hparent, h⟩ := Prog.from_bindE.mp h
  obtain ⟨_, hdelegated, happlied⟩ := Prog.from_bindE.mp h
  exact {
    jobDone := from_awaitJob hjob
    root := from_openRoot hroot
    settings := from_makeCgroup hsettings
    child := from_makeCgroup hchild
    moved := from_openBeneathAndWrite hmoved
    delegated := ⟨subtreeControl, parent, from_openat2 hsubtree,
      from_parseControllers (from_host hparent), from_writeEach hdelegated⟩
    applied := from_applyToCgroup (from_host happlied) }

end From

end LayerCake.Bubblebox.Cgroups
