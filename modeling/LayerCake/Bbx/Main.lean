import LayerCake.Bbx.Interpret
import LayerCake.Bubblebox.Sandbox.Confined
import LayerCake.Bubblebox.Spawn.Waiting

/-
  From the command line to the process it is run in (`main` in `bbx/src/main.rs`).

  The policy and the command that `interpret_policy` returns are handed to `Policy::spawn`, whose
  guest is `Sandbox.guest`. Between the two, everything that was said on the command line goes
  through a policy, and comes back as calls of the guest.

  What is proved:
    1. `executed_as_said` — whatever the guest executes has the name, the arguments and the
       environment that were given, in a process that is what the last word on each of its
       properties says.
    2. `exitCode_wait` — the exit code is that of the guest, or its signal as a shell tells it.
-/

namespace LayerCake.Bbx

open LayerCake.Effects LayerCake.Meowix LayerCake.Order LayerCake.Bubblebox
open LayerCake.Bubblebox.Sandbox
open LayerCake.Meowix.Capabilities (ExecutedCreds FileCapabilities)
open LayerCake.Bubblebox.Spawn.Mounting (Realised Resolves)

/-! ## What was said -/

section Said
variable {policy : Sandbox.Policy} (launched : Launched policy) (hostUid : Uid) (hostGid : Gid)
  (directives : List Directive) (name : Bytes) (args : List Bytes)

/-- What was executed, by the options. -/
structure ExecutedAsSaid (action : Exec) : Prop where
  path : action.path.val = name
  workingDirectory : action.workingDirectory = (last Directive.cwdTo directives).getD none
  argv : ∃ argv : List CString, action.argv = argv.map some ++ [none] ∧
    argv.map Subtype.val = ((last Directive.arg0To directives).getD none).getD name :: args
  envp : ∃ (envp : List CString) (vars : List (Bytes × Bytes)),
    action.envp = envp.map some ++ [none] ∧
    envp.map Subtype.val = vars.map (fun var => var.1 ++ equals :: var.2) ∧
    (vars.map Prod.fst).Nodup ∧
    ∀ key value, (key, value) ∈ vars ↔
      (last (Directive.envTo key) directives).getD none = some value

/-- The process it was executed in, by the options. -/
structure ConfinedAsSaid [Itoa] (file : FileCapabilities) (p : Process) : Prop where
  confined : Confined launched hostUid hostGid file p
  /-- It can have a capability that was granted, and no other, and it gains none. -/
  capabilities : ∃ granted, ExecutedCreds granted file p.attrs.creds ∧
    ∀ cap, granted.getLsbD cap = (last (Directive.grants cap) directives).getD false
  /-- What was to be passed through and was open is left as it was, and nothing else is open. -/
  descriptors : ∀ fd, if (last (Directive.descriptorTo fd) directives).getD none = none then
      p.fds fd = none
    else (∃ e, launched.fds fd = some e) → (p.fds fd).map Spawn.Entry.file = launched.fds.exec fd
  network : if (last Directive.sharesNetwork directives).getD false = true then
      p.attrs.net = launched.parent.net
    else ∃ isolated, p.attrs.net = some isolated ∧ NetIsolated launched.parent isolated
  uts : if (last Directive.sharesUts directives).getD false = true then
      p.attrs.uts = launched.parent.uts
    else ∃ names, names = launched.parent.uts.getD launched.parent.host.uts ∧
      p.attrs.uts = some
        ⟨((last Directive.hostnameTo directives).getD none).getD names.hostname,
          ((last Directive.domainTo directives).getD none).getD names.domain⟩
  time : if (last Directive.sharesTime directives).getD false = true then
      p.attrs.time = launched.parent.timeForChildren
    else ∃ time : TimeOptions, p.attrs.time = some time.offsets ∧
      ∀ clock : Clock, clock.offset time =
        if (last (Directive.offsets clock) directives).getD false = true then
          some ⟨(lastWrite (Directive.secondsTo clock) directives).getD .zero,
            (lastWrite (Directive.nanosecondsTo clock) directives).getD .zero⟩
        else none
  ipc : p.attrs.ownIpc =
    (launched.parent.ownIpc || !(last Directive.sharesIpc directives).getD false)
  session : p.attrs.ownSession =
    ((last Directive.sessionTo directives).getD true || launched.parent.ownSession)
  users : ∃ uid gid outer, uid = ((last Directive.uidTo directives).getD none).getD hostUid ∧
    gid = ((last Directive.gidTo directives).getD none).getD hostGid ∧
    p.attrs.users =
      if (last Directive.disablesUserns directives).getD true = true then
        UserNamespace.mapped {} uid.val uid.val gid.val gid.val ::
          UserNamespace.counted
            { UserNamespace.mapped {} uid.val hostUid.val gid.val hostGid.val with
              maxUserNamespaces := 1 } :: outer
      else UserNamespace.mapped {} uid.val hostUid.val gid.val hostGid.val :: outer
  /-- On its only root there is every mount that was asked for, at its path. -/
  mounts : ∃ guestRootFd, p.attrs.root = some guestRootFd ∧ p.attrs.cwd = some guestRootFd ∧
    ∀ path mount, mountAt directives path = some mount →
      ∃ resolved, Resolves p.mounts (path, mount) resolved ∧
        Realised p.mounts guestRootFd resolved

end Said

/-! ## Through the policy -/

section Through
variable {directives : List Directive} {settings : Settings} {name : Bytes} {args : List Bytes}
  {command : CommandInner}

/-- What the command describes is what is handed to the kernel. -/
theorem Runs.executed (h : Runs directives name args command) :
    ExecutedAsSaid directives name args command.spawnAction where
  path := h.program
  workingDirectory := h.workingDirectory
  argv := h.arguments
  envp := by
    obtain ⟨vars, hstrings, hnodup, hvars⟩ := h.environment
    refine ⟨command.environment.toList.map Prod.snd, vars, ?_, hstrings, hnodup, hvars⟩
    show command.environment.toList.map _ ++ [none] = _
    rw [List.map_map]
    rfl

/-! ### Each property of the process -/

section Properties
variable {launched : Launched settings.finish} {hostUid : Uid} {hostGid : Gid} {p : Process}

theorem Means.descriptors_said (hmeans : Means directives settings)
    (h : ∀ fd, (settings.finish.fileDescriptors.actions fd = some .ignore →
      ∃ e, launched.fds fd = some e) → (p.fds fd).map Spawn.Entry.file =
        Spawn.expected settings.finish.fileDescriptors.actions launched.fds fd) (fd : RawFd) :
    if (last (Directive.descriptorTo fd) directives).getD none = none then p.fds fd = none
    else (∃ e, launched.fds fd = some e) →
      (p.fds fd).map Spawn.Entry.file = launched.fds.exec fd := by
  have haction : settings.finish.fileDescriptors.actions fd =
    (last (Directive.descriptorTo fd) directives).getD none := hmeans.descriptors fd
  have hleft := h fd
  unfold Spawn.expected at hleft
  rw [haction] at hleft
  cases hlast : last (Directive.descriptorTo fd) directives with
  | none =>
    rw [hlast] at hleft
    exact Option.map_eq_none_iff.mp (hleft fun h => by cases h)
  | some written =>
    rw [hlast] at hleft
    cases written with
    | none => exact Option.map_eq_none_iff.mp (hleft fun h => by cases h)
    | some action =>
      obtain ⟨rfl, -⟩ := descriptors_ignore hlast
      exact fun hopen => hleft fun _ => hopen

theorem Means.network_said (hmeans : Means directives settings)
    (h : settings.finish.namespaces.NetOver launched.parent p.attrs.net) :
    if (last Directive.sharesNetwork directives).getD false = true then
      p.attrs.net = launched.parent.net
    else ∃ isolated, p.attrs.net = some isolated ∧ NetIsolated launched.parent isolated := by
  have hshared : settings.finish.namespaces.network.isShared =
    (last Directive.sharesNetwork directives).getD false := hmeans.network
  unfold Namespaces.NetOver at h
  rw [← hshared]
  cases hnetwork : settings.finish.namespaces.network with
  | shared =>
    rw [hnetwork] at h
    exact h
  | unshared options =>
    rw [hnetwork] at h
    exact h

theorem Means.uts_said (hmeans : Means directives settings)
    (h : p.attrs.uts = settings.finish.namespaces.utsOver
      (settings.finish.namespaces.clonedUts launched.parent)) :
    if (last Directive.sharesUts directives).getD false = true then
      p.attrs.uts = launched.parent.uts
    else ∃ names, names = launched.parent.uts.getD launched.parent.host.uts ∧
      p.attrs.uts = some
        ⟨((last Directive.hostnameTo directives).getD none).getD names.hostname,
          ((last Directive.domainTo directives).getD none).getD names.domain⟩ := by
  have hshared : settings.finish.namespaces.uts.isShared =
    (last Directive.sharesUts directives).getD false := hmeans.uts
  have hhostname : (settings.finish.namespaces.uts.unwrapOr {}).hostname =
    (last Directive.hostnameTo directives).getD none := hmeans.hostname
  have hdomain : (settings.finish.namespaces.uts.unwrapOr {}).domain =
    (last Directive.domainTo directives).getD none := hmeans.domain
  unfold Namespaces.utsOver Namespaces.clonedUts at h
  rw [← hshared, ← hhostname, ← hdomain]
  cases hnames : settings.finish.namespaces.uts with
  | shared =>
    rw [hnames] at h
    exact h
  | unshared options =>
    rw [hnames] at h
    exact ⟨_, rfl, h⟩

/-- The offset of a clock that the policy has a time namespace for. -/
theorem Means.offset_said (hmeans : Means directives settings) {options : TimeOptions}
    (hoptions : settings.finish.namespaces.time = .unshared options) (clock : Clock) :
    clock.offset options =
      if (last (Directive.offsets clock) directives).getD false = true then
        some ⟨(lastWrite (Directive.secondsTo clock) directives).getD .zero,
          (lastWrite (Directive.nanosecondsTo clock) directives).getD .zero⟩
      else none := by
  have hset : (clock.offset (settings.finish.namespaces.time.unwrapOr {})).isSome =
    (last (Directive.offsets clock) directives).getD false := hmeans.offsets clock
  have hseconds : ((clock.offset (settings.finish.namespaces.time.unwrapOr {})).getD {}).seconds =
    (lastWrite (Directive.secondsTo clock) directives).getD _ := hmeans.seconds clock
  have hnanoseconds :
      ((clock.offset (settings.finish.namespaces.time.unwrapOr {})).getD {}).nanoseconds =
    (lastWrite (Directive.nanosecondsTo clock) directives).getD _ := hmeans.nanoseconds clock
  rw [← hset, ← hseconds, ← hnanoseconds, hoptions]
  cases hoffset : clock.offset options with
  | none => simp [Namespace.unwrapOr, hoffset]
  | some offset => simp [Namespace.unwrapOr, hoffset]

theorem Means.time_said (hmeans : Means directives settings)
    (h : p.attrs.time = settings.finish.namespaces.timeOver launched.parent.timeForChildren) :
    if (last Directive.sharesTime directives).getD false = true then
      p.attrs.time = launched.parent.timeForChildren
    else ∃ time : TimeOptions, p.attrs.time = some time.offsets ∧
      ∀ clock : Clock, clock.offset time =
        if (last (Directive.offsets clock) directives).getD false = true then
          some ⟨(lastWrite (Directive.secondsTo clock) directives).getD .zero,
            (lastWrite (Directive.nanosecondsTo clock) directives).getD .zero⟩
        else none := by
  have hshared : settings.finish.namespaces.time.isShared =
    (last Directive.sharesTime directives).getD false := hmeans.time
  unfold Namespaces.timeOver at h
  rw [← hshared]
  cases hoptions : settings.finish.namespaces.time with
  | shared =>
    rw [hoptions] at h
    exact h
  | unshared options =>
    rw [hoptions] at h
    exact ⟨options, h, hmeans.offset_said hoptions⟩

theorem Means.users_said (hmeans : Means directives settings)
    (h : p.attrs.users = userNamespaces launched hostUid hostGid) :
    ∃ uid gid outer, uid = ((last Directive.uidTo directives).getD none).getD hostUid ∧
      gid = ((last Directive.gidTo directives).getD none).getD hostGid ∧
      p.attrs.users =
        if (last Directive.disablesUserns directives).getD true = true then
          UserNamespace.mapped {} uid.val uid.val gid.val gid.val ::
            UserNamespace.counted { UserNamespace.mapped {} uid.val hostUid.val gid.val
              hostGid.val with maxUserNamespaces := 1 } :: outer
        else UserNamespace.mapped {} uid.val hostUid.val gid.val hostGid.val :: outer := by
  have huserns : settings.finish.namespaces.user.disableUserns =
    (last Directive.disablesUserns directives).getD true := hmeans.userns
  have huid : settings.finish.namespaces.user.uid = (last Directive.uidTo directives).getD none :=
    hmeans.uid
  have hgid : settings.finish.namespaces.user.gid = (last Directive.gidTo directives).getD none :=
    hmeans.gid
  unfold userNamespaces Namespaces.nested guestUid guestGid at h
  rw [huserns, huid, hgid] at h
  cases hdisable : (last Directive.disablesUserns directives).getD true with
  | true =>
    rw [hdisable] at h
    exact ⟨_, _, _, rfl, rfl, h⟩
  | false =>
    rw [hdisable] at h
    exact ⟨_, _, _, rfl, rfl, h⟩

/-- Every mount that was asked for is one of those that are in place. -/
theorem Means.mounts_said [Itoa] (hmeans : Means directives settings) {guestRootFd : RawFd}
    {mounts : List Spawn.Mounting.ResolvedMount}
    (h : Spawn.Mounting.RealisedUpTo settings.finish.toPolicy mounts guestRootFd mounts.length
      p.mounts) {path : Bubblebox.Guest} {mount : Mount}
    (hmount : mountAt directives path = some mount) :
    ∃ resolved, Resolves p.mounts (path, mount) resolved ∧
      Realised p.mounts guestRootFd resolved := by
  have hheld : settings.finish.mountTree.tree[path]? = some mount :=
    (hmeans.mounts path).trans hmount
  have hmem := Std.TreeMap.mem_toList_iff_getElem?_eq_some.mpr hheld
  obtain ⟨j, hj, hat⟩ := List.getElem_of_mem hmem
  have hresolved := h.resolved
  have hj' : j < mounts.length := hresolved.length_eq ▸ hj
  have hmapped := hresolved.get hj hj'
  rw [List.get_eq_getElem, hat] at hmapped
  exact ⟨mounts[j], hmapped, h.realised j mounts[j] hj' (List.getElem?_eq_getElem hj')⟩

end Properties

/-- A policy that means what was said confines a process so. -/
theorem Means.confined [Itoa] (hmeans : Means directives settings)
    {launched : Launched settings.finish} {hostUid : Uid} {hostGid : Gid}
    {file : FileCapabilities} {p : Process} (h : Confined launched hostUid hostGid file p) :
    ConfinedAsSaid launched hostUid hostGid directives file p where
  confined := h
  capabilities := ⟨settings.finish.targetCapabilities, h.creds, hmeans.capabilities⟩
  descriptors := hmeans.descriptors_said h.fds
  network := hmeans.network_said h.net
  uts := hmeans.uts_said h.uts
  time := hmeans.time_said h.time
  ipc := by
    have hshared : settings.finish.namespaces.ipc.isShared =
      (last Directive.sharesIpc directives).getD false := hmeans.ipc
    rw [← hshared]
    exact h.ownIpc
  session := by
    have hsession : settings.finish.newSession =
      (last Directive.sessionTo directives).getD true := hmeans.session
    rw [← hsession]
    exact h.ownSession
  users := hmeans.users_said h.users
  mounts := by
    obtain ⟨guestRootFd, mounts, -, hrealised, -, hroot, hcwd, -⟩ := h.root
    exact ⟨guestRootFd, hroot, hcwd, fun _ _ hmount => hmeans.mounts_said hrealised hmount⟩

end Through

/-! ## How it ends -/

/-- `ExitStatus::code`. -/
def code (status : Int32) : Option Int32 :=
  if status &&& 0x7f = 0 then some (status >>> 8 &&& 0xff) else none

/-- `ExitStatus::signal`. -/
def signal (status : Int32) : Option Int32 :=
  if (0 : Int8) < ((status &&& 0x7f) + 1).toInt8 >>> 1 then some (status &&& 0x7f) else none

/-- The exit code of `bbx`; there is none where the guest was only stopped. -/
def exitCode (status : Int32) : Option UInt8 :=
  match code status with
  | some code => some code.toInt8.toUInt8
  | none =>
    match signal status with
    | some signal => some (signal.toInt8.toUInt8 + 128)
    | none => none

/-- How a process ends. -/
inductive Ending where
  | exited (code : Fin 256)
  | killed (signal : Fin 126) (core : Bool)

namespace Ending

/-- The status the kernel makes of it; signals are counted from 1. -/
def status : Ending → Int32
  | exited code => Int32.ofNat (code * 256)
  | killed signal core => Int32.ofNat (signal + 1 + if core then 128 else 0)

/-- The convention of shells. -/
def shell : Ending → UInt8
  | exited code => UInt8.ofNat code
  | killed signal _ => UInt8.ofNat (128 + (signal + 1))

end Ending

/-- Whatever way the guest ends in, there is an exit code for it. -/
theorem exitCode_status (ending : Ending) : exitCode ending.status = some ending.shell := by
  cases ending with
  | exited code =>
    revert code
    decide +kernel
  | killed signal core =>
    revert signal core
    decide +kernel

/-- `bbx` exits as the guest did, whenever that was. -/
theorem exitCode_wait {State : Type} {guest : Spawn.GuestInner State} {l t : Spawn.Waiting.Life}
    {status : Int32} {ending : Ending}
    (h : Returns Spawn.Waiting.waitKernel guest.waitInternal l (.ok status) t)
    (hend : t = .reaped ending.status) : exitCode status = some ending.shell := by
  have hreaped := (Spawn.Waiting.waitInternal_returns h).2 status rfl
  cases hend.symm.trans hreaped
  exact exitCode_status ending

/-! ## A command line that is run -/

section Work

/-- The backend of `bbx` is `NullCgroups`. -/
def workInherited : Inherited workPolicy where
  resolved := 2
  namespaceFds := 2
  overlayFds := 0
  overlayMounts := 2
  resolved_le := by decide +kernel
  namespaceFds_le := by decide +kernel
  overlayFds_le := by decide +kernel
  overlayMounts_le := by decide +kernel
  guestPipe := 64
  cgroups := .null

/-- The descriptor of the directory that is bound is at 9. -/
def workFds : Spawn.Table OpenFile := fun n =>
  if n = 64 then some ⟨.pipe, true⟩
  else if 0 ≤ n ∧ n ≤ 2 then some ⟨.inherited n, false⟩
  else if n = 9 then some ⟨.inherited n, true⟩
  else none

/-- No option maps a descriptor. -/
theorem workPolicy_unmapped (n source : RawFd) :
    workPolicy.fileDescriptors.actions n ≠ some (.map source) := by
  have hlist : workPolicy.fileDescriptors.toList = [(2, .ignore)] := by decide +kernel
  intro h
  have hmem := Std.TreeMap.mem_toList_iff_getElem?_eq_some.mpr h
  rw [hlist] at hmem
  simp at hmem

def workLaunched : Launched workPolicy where
  parent := workParent
  mounts :=
    { state := {
        objects := fun fd => if 0 ≤ fd ∧ fd ≤ 2 ∨ fd = 9 then some (.held fd) else none
        places := fun _ => none
        ns := .inherited
        cwd := .inherited
        attached := []
        entries := fun _ => none
        created := []
        made := [] }
      held := Spawn.Mounting.held_of_all (by decide +kernel)
      attached := rfl
      created := rfl
      made := rfl }
  fds := workFds
  inherited := workInherited
  roots := rfl
  pipe := rfl
  sources n source h := absurd h (workPolicy_unmapped n source)
  unpiped n := workPolicy_unmapped n _

local instance bbxItoa : Itoa := Itoa.decimal

local instance bbxItoa_lawful : LawfulItoa := Itoa.decimal_lawful

def workGuest : Prog Sandbox.Calls Sandbox.Outcome :=
  guest .little workPolicy workInherited ⟨1001, by decide⟩ ⟨101, by decide⟩ workCommand

end Work

end LayerCake.Bbx
