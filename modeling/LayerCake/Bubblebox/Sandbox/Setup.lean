import LayerCake.Bubblebox.Sandbox.Process
import LayerCake.Bubblebox.Spawn.Wire

/-
  The guest's branch of `clone_into` (`bubblebox/src/platform/linux/spawn/mod.rs`), call by
  call, from the clone to `execveat`.

  Correspondence (Rust ↔ Lean):
    `Backend`, its `clone_args_cgroup` and its hook ↔ `Backend`, and functions of these names
    the flags of `clone_args`                  ↔ `cloneFlags`
    `reset_signal_dispositions`                ↔ `resetSignalDispositions`
    `guest_proc_fd`                            ↔ `setupProcfs`
    the block of `CLONE_NEWTIME`               ↔ `enterTimeNamespace`
    `guest_root_fd`, and the loop behind it    ↔ `Mounting.makeRoot`, `Mounting.realiseAll`
    `mount_setattr` to `chdir("/")`            ↔ `enterRoot`
    the blocks of `uts`, `network`, `user`     ↔ `configureUts`, `isolateNetwork`, `disableUserns`
    `apply_scheduler_policy`                   ↔ `applySchedulerPolicy`
    `apply_keyring_policy`                     ↔ `applyKeyringPolicy`
    `apply_file_descriptor_policy`             ↔ `fileDescriptorPolicy`, over that of `Spawn.Fd`
    `apply_resource_limit_policy`              ↔ `applyResourceLimitPolicy`
    `seccomp_set_mode_filter`                  ↔ `seccompSetModeFilter`
    the callback of `Policy::spawn_with`       ↔ `spawnCallback`
    `guest_post_clone`                         ↔ `guestPostClone`
    the `match` on its result                  ↔ `guest`
  The only callback is that of `spawn_with`, so of the `SpawnAction`s there is `Exec` alone.
  Descriptors that are dropped stay open, which takes no number from those that were open before.
-/

namespace LayerCake.Bubblebox.Sandbox

open LayerCake.Effects LayerCake.Meowix LayerCake.Linux
open LayerCake.Meowix.Capabilities (CapabilitySets)
open LayerCake.Bubblebox.Spawn
open LayerCake.Bubblebox.Spawn.Mounting (Buffers OpenHow BENEATH_HOW CAPTURE_FLAGS)

/-! ## The cgroups -/

/-- The state of a `Backend`, as far as the guest makes use of it. -/
inductive Backend where
  | null
  | owned
  | systemd (state : Cgroups.SystemdState)

namespace Backend

/-- Whether the guest is made in a cgroup. -/
def cloneArgsCgroup : Backend → Bool
  | .owned => true
  | .null | .systemd _ => false

/-- The default of the trait does nothing. -/
def guestPostCloneHook (e : Endian) :
    Backend → ExceptT PostSpawnGuest (Prog Cgroups.CgroupCalls) Unit
  | .null | .owned => pure ()
  | .systemd state => Cgroups.guestPostCloneHook e state

/-- Whether a guest that goes on is in a cgroup of its own. -/
def places : Backend → Bool
  | .null => false
  | .owned | .systemd _ => true

end Backend

/-! ## The clone -/

/-- The flags of `clone3(2)` that the guest is made with. -/
inductive CloneFlag where
  | newuser | newpid | newipc | newnet | newuts | pidfd | autoreap | nnp | pidfdAutokill
  | clearSighand | intoCgroup
  deriving DecidableEq, Repr

def cloneFlags (policy : Policy) (cgroupFd : Bool) : List CloneFlag :=
  [.newuser, .newpid, .pidfd] ++
    (if policy.namespaces.ipc.isShared then [] else [.newipc]) ++
    (if policy.namespaces.network.isShared then [] else [.newnet]) ++
    (if policy.namespaces.uts.isShared then [] else [.newuts]) ++
    [.autoreap, .nnp, .pidfdAutokill, .clearSighand] ++
    (if cgroupFd then [.intoCgroup] else [])

/-- The process that a parent clones: it is what the parent is, but for what the flags say. -/
def Attrs.clone (parent : Attrs) (flags : List CloneFlag) : Attrs :=
  let a := if .newuser ∈ flags then parent.enterUserNamespace else parent
  let a := if .newnet ∈ flags then a.enterNetNamespace else a
  { a with
    uts := if .newuts ∈ flags then some (a.uts.getD a.host.uts) else a.uts
    ownIpc := a.ownIpc || decide (.newipc ∈ flags)
    ownPid := a.ownPid || decide (.newpid ∈ flags)
    noNewPrivs := a.noNewPrivs || decide (.nnp ∈ flags)
    -- what is ignored stays so
    dispositions := fun signal =>
      if .clearSighand ∈ flags ∧ a.dispositions signal = .handler then .default
      else a.dispositions signal
    time := a.timeForChildren
    placed := decide (.intoCgroup ∈ flags)
    executed := none }

/-! ## The phases -/

/-- The code of the guest. -/
abbrev Setup (α : Type) := ExceptT (Stop PostSpawnGuest) (Prog Calls) α

/-- A part of it that makes the calls of the mounts. -/
def onMounts {α : Type} (p : Mounting.Setup α) : Setup α := embedE .mounts (fun _ r => r) p

/-- The `?` on a call. -/
def attempt {α : Type} (syscall : Syscall) (call : Prog Calls (Except Errno α)) : Setup α :=
  tryCall (fun e => .error (.syscall e)) syscall call

/-- A part that makes calls of another interface, and its `?`. -/
def within {I : Interface} {α : Type} (op : I.Op → Op) (res : ∀ o, Calls.Res (op o) → I.Res o)
    (p : ExceptT PostSpawnGuest (Prog I) α) : Setup α :=
  ExceptT.mk do
    return (← p.run.embed (J := Calls) op res).mapError .error

/-- The `?` on an error that is converted. -/
def attemptWith {ε α : Type} (into : ε → PostSpawnGuest) (call : Prog Calls (Except ε α)) :
    Setup α :=
  ExceptT.mk do
    match ← call with
    | .ok a => return .ok a
    | .error e => return .error (.error (into e))

/-- The byte order of the machine. -/
def endianOf : ByteOrder → Endian
  | .little => .little
  | .big => .big

def guestPostCloneHook (order : ByteOrder) (cgroups : Backend) : Setup Unit :=
  within (I := Cgroups.CgroupCalls) Op.cgroups (fun _ r => r)
    (cgroups.guestPostCloneHook (endianOf order))

def dropBoundingSet (policy : Policy) : Setup Unit :=
  attemptWith .syscall (perform (I := Calls) (.dropBoundingSet policy.targetCapabilities))

def resetSignal (signal : Nat) : Setup Unit :=
  -- these cannot be handled
  if signal = SIGKILL ∨ signal = SIGSTOP then pure ()
  else attempt .rtSigaction (perform (I := Calls) (.rtSigaction signal .default))

def resetSignalDispositions : Setup Unit := do
  (List.range' 1 _NSIG).foldlM (fun _ signal => resetSignal signal) ()
  attempt .rtSigprocmask (perform (I := Calls) (.rtSigprocmask SIG_SETMASK 0))

/-- The `subset` option, where nothing but processes is needed of procfs. -/
def setProcSubset (policy : Policy) (fsFd : RawFd) : Mounting.Setup Unit :=
  if !policy.namespaces.user.disableUserns && policy.namespaces.network.isShared then
    Mounting.fsconfigSetString fsFd (ascii "subset") (ascii "pid")
  else pure ()

def setupProcfs (policy : Policy) : Mounting.Setup RawFd := do
  let fsFd ← Mounting.fsopen (ascii "proc") FSOPEN_CLOEXEC
  setProcSubset policy fsFd
  Mounting.fsconfigSetString fsFd (ascii "hidepid") (ascii "ptraceable")
  Mounting.fsconfigCmdCreateExcl fsFd
  Mounting.fsmount fsFd FSMOUNT_CLOEXEC
    (MOUNT_ATTR_NOSUID ||| MOUNT_ATTR_NOEXEC ||| MOUNT_ATTR_NODEV)

/-- `open_beneath_and_write!`. -/
def openBeneathAndWrite (fd : RawFd) (path value : Bytes) : Mounting.Setup Unit := do
  let fd ← Mounting.openat2Retry fd path BENEATH_HOW
  Mounting.writeChecked fd value

/-- Magic links are followed. -/
def TIMENS_FD_HOW : OpenHow :=
  { flags := (O_RDONLY ||| O_CLOEXEC).toUInt64, mode := 0, resolve := 0 }

def enterTimeNamespace [Itoa] (procFd : RawFd) (time : TimeOptions) : Mounting.Setup Unit := do
  Mounting.unshare CLONE_NEWTIME
  Mounting.writeTimensOffsets procFd (time.monotonicOffset.map (·.intoRaw))
    (time.boottimeOffset.map (·.intoRaw))
  let timensFd ← Mounting.openat2Retry procFd TIME_FOR_CHILDREN TIMENS_FD_HOW
  Mounting.setns timensFd CLONE_NEWTIME

def configureTime [Itoa] (policy : Policy) (procFd : RawFd) : Mounting.Setup Unit :=
  match policy.namespaces.time with
  | .unshared time => enterTimeNamespace procFd time
  | .shared => pure ()

def setUmask (mode : UInt32) : Setup UInt32 := attempt .umask (perform (I := Calls) (.umask mode))

def makePrivate : Setup Unit :=
  attempt .mount (perform (I := Calls) (.updateMountPropagationFlags [sep] (MS_REC ||| MS_PRIVATE)))

/-- `guest_root_mount_attr`. -/
def ROOT_MOUNT_ATTR : Mounting.MountAttr :=
  { attrSet := (MOUNT_ATTR_RDONLY ||| MOUNT_ATTR_NOSUID ||| MOUNT_ATTR_NODEV |||
      MOUNT_ATTR_NOEXEC).toUInt64
    attrClr := 0
    propagation := 0
    usernsFd := 0 }

/-- The root of the guest is put underneath the old one, which is then detached. -/
def enterRoot (guestRootFd : RawFd) : Setup Unit := do
  attempt .mountSetattr
    (perform (I := Calls) (.mountSetattr guestRootFd [] AT_EMPTY_PATH ROOT_MOUNT_ATTR))
  attempt .fchdir (perform (I := Calls) (.fchdir guestRootFd))
  attempt .moveMount (perform (I := Calls)
    (.moveMountCwd guestRootFd [] [sep] (MOVE_MOUNT_F_EMPTY_PATH ||| MOVE_MOUNT_BENEATH)))
  attempt .chroot (perform (I := Calls) (.chroot (ascii ".")))
  attempt .umount2 (perform (I := Calls) (.umount2 (ascii ".") MNT_DETACH))
  attempt .chdir (perform (I := Calls) (.chdir [sep]))

def setHostname : Option Bytes → Setup Unit
  | some hostname => attempt .sethostname (perform (I := Calls) (.sethostname hostname))
  | none => pure ()

def setDomain : Option Bytes → Setup Unit
  | some domain => attempt .setdomainname (perform (I := Calls) (.setdomainname domain))
  | none => pure ()

def configureUts (policy : Policy) : Setup Unit :=
  match policy.namespaces.uts with
  | .unshared uts => do
    setHostname uts.hostname
    setDomain uts.domain
  | .shared => pure ()

/-- The network namespaces that are made from now on have vsock of their own, and the guest
moves to one. -/
def isolateVsock (procFd : RawFd) : Mounting.Setup Unit := do
  openBeneathAndWrite procFd (ascii "sys/net/vsock/child_ns_mode") (ascii "local")
  Mounting.unshare CLONE_NEWNET

/-- Whether the kernel has vsock at all. -/
def probeVsock : Setup Bool :=
  ExceptT.mk do
    match ← perform (I := Calls) (.socket AF_VSOCK (SOCK_STREAM ||| O_CLOEXEC) 0) with
    | .ok _ => return .ok true
    | .error e =>
      if e = .AFNOSUPPORT then return .ok false
      else return .error (.error (.syscall ⟨.socket, e⟩))

/-- `From<Netlink> for PostSpawnGuest`. -/
def ofNetlink : Stop Netlink → Stop PostSpawnGuest
  | .error e => .error (.netlink e)
  | .undefined => .undefined

def setupLoopback : Setup Unit :=
  ExceptT.mk do
    return (← perform (I := Calls) .setupLoopback).mapError ofNetlink

def isolateNetwork (policy : Policy) (procFd : RawFd) : Setup Unit :=
  match policy.namespaces.network with
  | .unshared _ => do
    let vsock ← probeVsock
    (if vsock then onMounts (isolateVsock procFd) else pure ())
    setupLoopback
  | .shared => pure ()

/-- The umask is restored, whatever comes of it. -/
def restoreUmask (oldUmask : UInt32) : Setup Unit :=
  ExceptT.mk do
    let _ ← perform (I := Calls) (.umask oldUmask)
    return .ok ()

def newSession (policy : Policy) : Setup Unit :=
  if policy.newSession then attempt .setsid (perform (I := Calls) .setsid) else pure ()

/-- The limit is set in the namespace that the guest then leaves for another. -/
def disableUserns [Itoa] (policy : Policy) (procFd : RawFd) (guestUid : Uid) (guestGid : Gid) :
    Setup Unit :=
  if policy.namespaces.user.disableUserns then do
    onMounts (openBeneathAndWrite procFd (ascii "sys/user/max_user_namespaces") (ascii "1"))
    onMounts (Mounting.unshare CLONE_NEWUSER)
    dropBoundingSet policy
    onMounts (Mounting.writeSimpleUidGidMap procFd guestUid.val guestGid.val guestUid.val
      guestGid.val true)
  else pure ()

def setCapabilities (policy : Policy) : Setup Unit :=
  attemptWith .syscall (perform (I := Calls) (.setCapabilities
    { effective := 0
      permitted := policy.targetCapabilities
      inheritable := policy.targetCapabilities }))

def OOM_SCORE_ADJ_HOW : OpenHow :=
  { flags := (O_WRONLY ||| O_CLOEXEC).toUInt64
    mode := 0
    resolve := (RESOLVE_BENEATH ||| RESOLVE_NO_MAGICLINKS).toUInt64 }

def applySchedulerAttributes : Option Scheduler.Attributes → Setup Unit
  | some attributes =>
    attempt .schedSetattr (perform (I := Calls) (.schedSetattr attributes.schedAttr 0))
  | none => pure ()

def applyOomScoreAdjustment [Itoa] (procFd : RawFd) : Option UInt16 → Mounting.Setup Unit
  | some oomScoreAdjustment => do
    let fd ← Mounting.openat2Retry procFd (ascii "self/oom_score_adj") OOM_SCORE_ADJ_HOW
    Mounting.writeChecked fd (Itoa.format oomScoreAdjustment.toNat)
  | none => pure ()

/-- Where there are no siblings to isolate, there is no cookie to make. -/
def createCoreSchedulingCookie (create : Bool) : Setup Unit :=
  if create then
    ExceptT.mk do
      match ← perform (I := Calls) .createCoreSchedulingCookie with
      | .ok () => return .ok ()
      | .error e =>
        if e = .NODEV then return .ok () else return .error (.error (.syscall ⟨.prctl, e⟩))
  else pure ()

def applySchedulerPolicy [Itoa] (procFd : RawFd) (policy : Scheduler) : Setup Unit := do
  applySchedulerAttributes policy.attributes
  onMounts (applyOomScoreAdjustment procFd policy.oomScoreAdjustment)
  createCoreSchedulingCookie policy.createCoreSchedulingCookie

def applyKeyringPolicy : Keyring → Setup Unit
  | .inheritAuthority => pure ()
  | .inherit => attempt .keyctl (perform (I := Calls) (.keyctlAssumeAuthority 0))
  | .reset => do
    attempt .keyctl (perform (I := Calls) (.keyctlAssumeAuthority 0))
    attempt .keyctl (perform (I := Calls) (.keyctlJoinSessionKeyring none))
    attempt .keyctl
      (perform (I := Calls) (.keyctlSetReqkeyKeyring KEY_REQKEY_DEFL_SESSION_KEYRING))

/-- The callback of `Policy::spawn_with`. -/
def spawnCallback (command : CommandInner) : Setup Exec := do
  (match command.workingDirectory with
    | some workingDirectory => do
      let path ← onMounts (Mounting.guestAsCStr PATH_MAX workingDirectory.inner)
      attempt .chdir (perform (I := Calls) (.chdir path))
    | none => pure ())
  return command.spawnAction

/-- `implement_limit!`. -/
def implementLimit (resource : UInt32) : Option Rlimit → Setup Unit
  | some limit => attempt .prlimit64 (perform (I := Calls) (.prlimit64 resource limit.intoRaw))
  | none => pure ()

def applyResourceLimitPolicy (policy : Rlimits) : Setup Unit :=
  policy.table.foldlM (fun _ limit => implementLimit limit.1 limit.2) ()

/-- A filter whose length is no `u16` is not handed to the kernel. -/
def seccompSetModeFilter (filter : List SockFilter) : Setup Unit :=
  if filter.length < 65536 then
    attempt .seccomp (perform (I := Calls) (.seccompSetModeFilter filter))
  else throw (.error (.syscall ⟨.seccomp, .INVAL⟩))

/-! ## `guest_post_clone` -/

/-- What a guest has of `clone_into`: room for the mounts, its end of the pipe and the state of
the cgroups. -/
structure Inherited (policy : Policy) extends Buffers policy.toPolicy where
  guestPipe : RawFd
  cgroups : Backend

/-- What the binds leave, and how many they are. -/
abbrev Binds := Mounting.Resolved × Mounting.Scratch × Nat

/-- From the binds to a root for the mounts. -/
def finishMounts [Itoa] (policy : Policy) (hostUid guestUid : Uid) (hostGid guestGid : Gid)
    (binds : Binds) : Setup (RawFd × UInt32 × RawFd × List Mounting.ResolvedMount) := do
  let (resolved, scratch, nBinds) := binds
  let procFd ← onMounts (setupProcfs policy)
  onMounts (Mounting.writeSimpleUidGidMap procFd hostUid.val hostGid.val guestUid.val guestGid.val
    true)
  let (resolved, nOverlay) ← onMounts
    (Mounting.finishOverlayMountResolution resolved scratch.overlayFds scratch.overlayMounts)
  onMounts (configureTime policy procFd)
  let oldUmask ← setUmask 0
  makePrivate
  let (resolved, nNonBinds) ← onMounts
    (Mounting.resolveNonbindMappings policy.mountTree.tree.toList resolved)
  let nResolved := nBinds + nOverlay + nNonBinds
  onMounts (Mounting.okOr (nResolved == policy.mountTree.size) .mappingsLengthMismatch)
  let resolvedMappings ← orUndefined (resolved.spare.setLen nResolved)
  let guestRootFd ← onMounts Mounting.makeRoot
  return (procFd, oldUmask, guestRootFd, resolvedMappings)

/-- Until the mounts are in place at the root of the guest, which is not entered yet. -/
def prepareRoot [Itoa] (policy : Policy) (buffers : Buffers policy.toPolicy)
    (hostUid guestUid : Uid)
    (hostGid guestGid : Gid) : Setup (RawFd × UInt32 × RawFd) := do
  let binds ← onMounts (Mounting.resolveBindMappings policy.mountTree.tree.toList
    ⟨0, ⟨buffers.resolved, []⟩⟩ buffers.scratch)
  let (procFd, oldUmask, guestRootFd, resolvedMappings) ←
    finishMounts policy hostUid guestUid hostGid guestGid binds
  onMounts (Mounting.realiseAll guestRootFd resolvedMappings)
  return (procFd, oldUmask, guestRootFd)

/-- From the root on. -/
def finishGuest [Itoa] (policy : Policy) (procFd : RawFd) (oldUmask : UInt32) (guestRootFd : RawFd)
    (guestUid : Uid) (guestGid : Gid) (guestCallback : Setup Exec) : Setup Exec := do
  enterRoot guestRootFd
  configureUts policy
  isolateNetwork policy procFd
  restoreUmask oldUmask
  newSession policy
  disableUserns policy procFd guestUid guestGid
  setCapabilities policy
  applySchedulerPolicy procFd policy.scheduler
  applyKeyringPolicy policy.keyring
  guestCallback

/-- `unwrap_or`, over the ids of the host. -/
def guestUid (policy : Policy) (hostUid : Uid) : Uid := policy.namespaces.user.uid.getD hostUid

def guestGid (policy : Policy) (hostGid : Gid) : Gid := policy.namespaces.user.gid.getD hostGid

def guestPostClone [Itoa] (order : ByteOrder) (policy : Policy) (inherited : Inherited policy)
    (hostUid : Uid) (hostGid : Gid) (guestCallback : Setup Exec) : Setup Exec := do
  let guestUid := guestUid policy hostUid
  let guestGid := guestGid policy hostGid
  dropBoundingSet policy
  resetSignalDispositions
  guestPostCloneHook order inherited.cgroups
  onMounts (Mounting.unshare CLONE_NEWCGROUP)
  let (procFd, oldUmask, guestRootFd) ←
    prepareRoot policy inherited.toBuffers hostUid guestUid hostGid guestGid
  finishGuest policy procFd oldUmask guestRootFd guestUid guestGid guestCallback

/-! ## `clone_into` -/

/-- How the guest ends. -/
inductive Outcome where
  | executed
  | exited (code : Int32)
  | undefined
  deriving DecidableEq, Repr

/-- The number that the pipe has behind it is left out: a `write` goes to the pipe. -/
def fileDescriptorPolicy (policy : Policy) (guestPipe : RawFd) : Setup Unit :=
  within (I := FdCalls) Op.fds (fun _ r => r)
    (ExceptT.mk do
      let (result, _guestPipe) ←
        applyFileDescriptorPolicy policy.fileDescriptors.toList guestPipe
      return result)

/-- The `try` block of `SpawnAction::Exec`, before its last call. -/
def confine (policy : Policy) (guestPipe : RawFd) : Setup Unit := do
  fileDescriptorPolicy policy guestPipe
  applyResourceLimitPolicy policy.rlimits
  attemptWith .syscall (perform (I := Calls) (.setAmbientCapabilities policy.targetCapabilities))
  match policy.seccompFilter with
  | some filter => seccompSetModeFilter filter
  | none => pure ()

/-- A record on the pipe. If that fails there is nothing to do about it. -/
def report (order : ByteOrder) (result : Except PostSpawnGuest Unit) : Prog Calls Unit := do
  let _ ← writeAll (fun segment => performUntil (I := Calls) (.write segment) interrupted)
    (encode order result)

/-- The error is reported. -/
def fail (order : ByteOrder) : Stop PostSpawnGuest → Prog Calls Outcome
  | .error e => do
    report order (.error e)
    perform (I := Calls) (.exit (-1))
    return .exited (-1)
  | .undefined => return .undefined

/-- What is executed, in place of the guest. -/
def exec (order : ByteOrder) (action : Exec) : Prog Calls Outcome := do
  match ← (attempt .execveat (perform (I := Calls) (.execveat action))).run with
  | .ok () => return .executed
  | .error e => fail order e

/-- Everything before `execveat`: the set up, the record of its success, and the last limits. -/
def launch [Itoa] (order : ByteOrder) (policy : Policy) (inherited : Inherited policy)
    (hostUid : Uid) (hostGid : Gid) (command : CommandInner) : Setup Exec := do
  let action ← guestPostClone order policy inherited hostUid hostGid (spawnCallback command)
  ExceptT.lift (report order (.ok ()))
  confine policy inherited.guestPipe
  return action

/-- The end of the guest. Both an error before the record of success and one behind it are
reported. -/
def conclude (order : ByteOrder) : Except (Stop PostSpawnGuest) Exec → Prog Calls Outcome
  | .ok action => exec order action
  | .error e => fail order e

/-- The guest's branch. -/
def guest [Itoa] (order : ByteOrder) (policy : Policy) (inherited : Inherited policy)
    (hostUid : Uid) (hostGid : Gid) (command : CommandInner) : Prog Calls Outcome :=
  (launch order policy inherited hostUid hostGid command).run >>= conclude order

/-! ## What calls the phases make -/

/-- The calls before the record of success. -/
def SetsUp : Op → Prop
  | .write _ | .seccompSetModeFilter _ | .execveat _ | .exit _ => False
  | _ => True

section SetsUp
variable {policy : Policy} (order : ByteOrder) (inherited : Inherited policy) (hostUid : Uid)
  (hostGid : Gid) (command : CommandInner)

theorem makesOnly_onMounts {P : Op → Prop} {α : Type} {p : Mounting.Setup α}
    (h : ∀ op, P (.mounts op)) : MakesOnly P (onMounts p) :=
  Prog.embed_calls h p.run

theorem calls_attempt {P : Op → Prop} {α : Type} {syscall : Syscall}
    {call : Prog Calls (Except Errno α)} (h : call.Calls P) :
    MakesOnly P (attempt syscall call) := by
  apply Prog.Calls.bind h
  intro r
  cases r <;> trivial

theorem calls_attemptWith {P : Op → Prop} {ε α : Type} {into : ε → PostSpawnGuest}
    {call : Prog Calls (Except ε α)} (h : call.Calls P) : MakesOnly P (attemptWith into call) := by
  apply Prog.Calls.bind h
  intro r
  cases r <;> trivial

theorem makesOnly_within {I : Interface} {P : Op → Prop} {α : Type} {op : I.Op → Op}
    {res : ∀ o, Calls.Res (op o) → I.Res o} {p : ExceptT PostSpawnGuest (Prog I) α}
    (h : ∀ o, P (op o)) : MakesOnly P (within op res p) :=
  (Prog.embed_calls h p.run).bind fun _ => trivial

theorem setsUp_perform {op : Op} (h : SetsUp op) : (perform (I := Calls) op).Calls SetsUp :=
  ⟨h, fun _ => trivial⟩

theorem setsUp_onMounts {α : Type} (p : Mounting.Setup α) : MakesOnly SetsUp (onMounts p) :=
  makesOnly_onMounts fun _ => trivial

theorem setsUp_dropBoundingSet : MakesOnly SetsUp (dropBoundingSet policy) :=
  calls_attemptWith (setsUp_perform (by trivial))

theorem setsUp_resetSignalDispositions : MakesOnly SetsUp resetSignalDispositions := by
  refine (MakesOnly.foldlM (fun _ signal => ?_) _ _).bind fun _ =>
    calls_attempt (setsUp_perform (by trivial))
  unfold resetSignal
  split
  · exact .pure _
  · exact calls_attempt (setsUp_perform (by trivial))

theorem setsUp_prepareRoot [Itoa] (buffers : Buffers policy.toPolicy) (hostUid guestUid : Uid)
    (hostGid guestGid : Gid) :
    MakesOnly SetsUp (prepareRoot policy buffers hostUid guestUid hostGid guestGid) := by
  unfold prepareRoot finishMounts
  refine (setsUp_onMounts _).bind fun binds => ?_
  refine MakesOnly.bind ?_ fun _ => (setsUp_onMounts _).bind fun _ => .pure _
  refine (setsUp_onMounts _).bind fun procFd => ?_
  refine (setsUp_onMounts _).bind fun _ => ?_
  refine (setsUp_onMounts _).bind fun _ => ?_
  refine (setsUp_onMounts _).bind fun _ => ?_
  refine MakesOnly.bind (calls_attempt (setsUp_perform (by trivial))) fun oldUmask => ?_
  refine MakesOnly.bind (calls_attempt (setsUp_perform (by trivial))) fun _ => ?_
  refine (setsUp_onMounts _).bind fun _ => ?_
  refine (setsUp_onMounts _).bind fun _ => ?_
  refine (MakesOnly.orUndefined _).bind fun _ => ?_
  exact (setsUp_onMounts _).bind fun _ => .pure _

theorem setsUp_enterRoot (guestRootFd : RawFd) : MakesOnly SetsUp (enterRoot guestRootFd) := by
  unfold enterRoot
  refine MakesOnly.bind (calls_attempt (setsUp_perform (by trivial))) fun _ => ?_
  refine MakesOnly.bind (calls_attempt (setsUp_perform (by trivial))) fun _ => ?_
  refine MakesOnly.bind (calls_attempt (setsUp_perform (by trivial))) fun _ => ?_
  refine MakesOnly.bind (calls_attempt (setsUp_perform (by trivial))) fun _ => ?_
  refine MakesOnly.bind (calls_attempt (setsUp_perform (by trivial))) fun _ => ?_
  exact calls_attempt (setsUp_perform (by trivial))

theorem setsUp_configureUts : MakesOnly SetsUp (configureUts policy) := by
  unfold configureUts
  cases policy.namespaces.uts with
  | shared => exact .pure _
  | unshared uts =>
    obtain ⟨hostname, domain⟩ := uts
    refine MakesOnly.bind ?_ fun _ => ?_
    · cases hostname with
      | none => exact .pure _
      | some hostname => exact calls_attempt (setsUp_perform (by trivial))
    · cases domain with
      | none => exact .pure _
      | some domain => exact calls_attempt (setsUp_perform (by trivial))

theorem setsUp_isolateNetwork (procFd : RawFd) :
    MakesOnly SetsUp (isolateNetwork policy procFd) := by
  unfold isolateNetwork
  cases policy.namespaces.network with
  | shared => exact .pure _
  | unshared _ =>
    have hprobe : MakesOnly SetsUp probeVsock := by
      apply Prog.Calls.bind (setsUp_perform (by trivial))
      intro r
      cases r with
      | ok _ => trivial
      | error e =>
        dsimp only
        split <;> trivial
    refine hprobe.bind fun vsock => ?_
    refine MakesOnly.bind ?_ fun _ =>
      Prog.Calls.bind (setsUp_perform (show SetsUp .setupLoopback from trivial)) fun _ => trivial
    cases vsock
    · exact .pure _
    · exact setsUp_onMounts _

theorem setsUp_disableUserns [Itoa] (procFd : RawFd) (uid : Uid) (gid : Gid) :
    MakesOnly SetsUp (disableUserns policy procFd uid gid) := by
  unfold disableUserns
  split
  · refine (setsUp_onMounts _).bind fun _ => ?_
    refine (setsUp_onMounts _).bind fun _ => ?_
    exact setsUp_dropBoundingSet.bind fun _ => setsUp_onMounts _
  · exact .pure _

theorem setsUp_applySchedulerPolicy [Itoa] (procFd : RawFd) (scheduler : Scheduler) :
    MakesOnly SetsUp (applySchedulerPolicy procFd scheduler) := by
  unfold applySchedulerPolicy
  refine MakesOnly.bind ?_ fun _ => (setsUp_onMounts _).bind fun _ => ?_
  · cases scheduler.attributes with
    | none => exact .pure _
    | some attributes => exact calls_attempt (setsUp_perform (by trivial))
  · unfold createCoreSchedulingCookie
    split
    · apply Prog.Calls.bind (setsUp_perform (by trivial))
      intro r
      cases r with
      | ok _ => trivial
      | error e =>
        dsimp only
        split <;> trivial
    · exact .pure _

theorem setsUp_applyKeyringPolicy (keyring : Keyring) :
    MakesOnly SetsUp (applyKeyringPolicy keyring) := by
  cases keyring with
  | inheritAuthority => exact .pure _
  | inherit => exact calls_attempt (setsUp_perform (by trivial))
  | reset =>
    refine MakesOnly.bind (calls_attempt (setsUp_perform (by trivial))) fun _ => ?_
    refine MakesOnly.bind (calls_attempt (setsUp_perform (by trivial))) fun _ => ?_
    exact calls_attempt (setsUp_perform (by trivial))

theorem setsUp_spawnCallback : MakesOnly SetsUp (spawnCallback command) := by
  unfold spawnCallback
  refine MakesOnly.bind ?_ fun _ => .pure _
  cases command.workingDirectory with
  | none => exact .pure _
  | some path => exact (setsUp_onMounts _).bind fun _ => calls_attempt (setsUp_perform (by trivial))

theorem setsUp_finishGuest [Itoa] (procFd : RawFd) (oldUmask : UInt32) (guestRootFd : RawFd)
    (uid : Uid)
    (gid : Gid) : MakesOnly SetsUp
      (finishGuest policy procFd oldUmask guestRootFd uid gid (spawnCallback command)) := by
  unfold finishGuest
  refine (setsUp_enterRoot guestRootFd).bind fun _ => ?_
  refine setsUp_configureUts.bind fun _ => ?_
  refine (setsUp_isolateNetwork procFd).bind fun _ => ?_
  refine MakesOnly.bind (p := restoreUmask oldUmask) ⟨trivial, fun _ => trivial⟩ fun _ => ?_
  refine MakesOnly.bind ?_ fun _ => ?_
  · unfold newSession
    split
    · exact calls_attempt (setsUp_perform (by trivial))
    · exact .pure _
  refine (setsUp_disableUserns procFd uid gid).bind fun _ => ?_
  refine MakesOnly.bind (calls_attemptWith (setsUp_perform (by trivial))) fun _ => ?_
  refine (setsUp_applySchedulerPolicy procFd policy.scheduler).bind fun _ => ?_
  exact (setsUp_applyKeyringPolicy policy.keyring).bind fun _ => setsUp_spawnCallback command

theorem setsUp_guestPostClone [Itoa] :
    MakesOnly SetsUp
      (guestPostClone order policy inherited hostUid hostGid (spawnCallback command)) := by
  unfold guestPostClone
  refine setsUp_dropBoundingSet.bind fun _ => ?_
  refine setsUp_resetSignalDispositions.bind fun _ => ?_
  refine MakesOnly.bind (makesOnly_within fun _ => trivial) fun _ => ?_
  refine (setsUp_onMounts _).bind fun _ => ?_
  exact (setsUp_prepareRoot _ _ _ _ _).bind fun _ => setsUp_finishGuest command _ _ _ _ _

theorem setsUp_fileDescriptorPolicy (guestPipe : RawFd) :
    MakesOnly SetsUp (fileDescriptorPolicy policy guestPipe) :=
  makesOnly_within fun _ => trivial

theorem setsUp_applyResourceLimitPolicy (rlimits : Rlimits) :
    MakesOnly SetsUp (applyResourceLimitPolicy rlimits) := by
  refine MakesOnly.foldlM (fun _ limit => ?_) _ _
  cases limit.2 with
  | none => exact .pure _
  | some _ => exact calls_attempt (setsUp_perform (by trivial))

end SetsUp

end LayerCake.Bubblebox.Sandbox
