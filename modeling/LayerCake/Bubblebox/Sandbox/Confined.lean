import LayerCake.Bubblebox.Sandbox.Finish

/-
  What the guest is when it executes the command.

  `Confined` lists what a policy asks for, beside what the process was made from. The guest
  comes to it in one order of its phases, and any call on the way may fail.

  What is proved:
    1. `clone_cloneFlags` — what the flags of the clone make of the parent.
    2. `guestPostClone_spec`, `launch_spec` — where the set up succeeds, the process is confined.
    3. `executed_confined` — in every state of every run of the guest, what was executed was
       executed in a process that is confined.
    4. `guest_contained` — and no state of any run, whatever failed, differs from the first in
       anything of the host.
  What the guest opens stays open in the model. It is not left to the command: a number that the
  policy says nothing about is closed, and one that it says to leave alone was open before.
-/

namespace LayerCake.Bubblebox.Sandbox

open LayerCake.Effects LayerCake.Meowix LayerCake.Linux
open LayerCake.Bubblebox.Spawn
open LayerCake.Meowix.Capabilities (ExecutedCreds FileCapabilities confinedCreds_exec)
open LayerCake.Bubblebox.Spawn.Mounting (Object Keeps Prepares)

/-! ## The clone -/

/-- The process that a parent makes, when nothing was done in it. -/
structure Launched (policy : Policy) where
  parent : Attrs
  mounts : Mounting.Launch policy.toPolicy
  fds : Table OpenFile
  inherited : Inherited policy
  /-- A namespace that is made with a tree has that at its root. -/
  roots : (parent.namespaces (ownNamespace mounts.state.ns)).roots = [.own]
  /-- `pipe2` with `O_CLOEXEC`. -/
  pipe : fds inherited.guestPipe = some ⟨.pipe, true⟩
  /-- The policy borrows what it maps, so that is open, and not the pipe. -/
  sources : ∀ n source, policy.fileDescriptors.actions n = some (.map source) →
    ∃ e, fds source = some e
  unpiped : ∀ n, policy.fileDescriptors.actions n ≠ some (.map inherited.guestPipe)

namespace Launched
variable {policy : Policy}

/-- The mount namespace that the guest will make for itself. -/
def own (self : Launched policy) : Object := ownNamespace self.mounts.state.ns

def process (self : Launched policy) : Process :=
  ⟨self.mounts.state, self.fds,
    self.parent.clone (cloneFlags policy self.inherited.cgroups.cloneArgsCgroup)⟩

end Launched

/-- The host names a guest is cloned with. -/
def Namespaces.clonedUts (self : Namespaces) (parent : Attrs) : Option UtsNamespace :=
  if self.uts.isShared then parent.uts else some (parent.uts.getD parent.host.uts)

/-- The network a guest is cloned with. -/
def Namespaces.clonedNet (self : Namespaces) (parent : Attrs) : Option NetNamespace :=
  if self.network.isShared then parent.net else parent.enterNetNamespace.net

theorem clone_cloneFlags (policy : Policy) (parent : Attrs) (cgroupFd : Bool) :
    parent.clone (cloneFlags policy cgroupFd) = { parent with
      users := {} :: parent.users.map (·.counted)
      creds := Capabilities.freshUserNamespace parent.host.lastCap
      keyAuthority := false
      net := policy.namespaces.clonedNet parent
      uts := policy.namespaces.clonedUts parent
      ownIpc := parent.ownIpc || !policy.namespaces.ipc.isShared
      ownPid := true
      noNewPrivs := true
      dispositions := fun signal =>
        if parent.dispositions signal = .handler then .default else parent.dispositions signal
      time := parent.timeForChildren
      placed := cgroupFd
      executed := none } := by
  have hmem : CloneFlag.newuser ∈ cloneFlags policy cgroupFd ∧
      CloneFlag.newpid ∈ cloneFlags policy cgroupFd ∧ CloneFlag.nnp ∈ cloneFlags policy cgroupFd ∧
      CloneFlag.clearSighand ∈ cloneFlags policy cgroupFd := by
    simp [cloneFlags]
  have hipc : CloneFlag.newipc ∈ cloneFlags policy cgroupFd ↔
      policy.namespaces.ipc.isShared = false := by
    cases cgroupFd <;> simp [cloneFlags]
  have hnet : CloneFlag.newnet ∈ cloneFlags policy cgroupFd ↔
      policy.namespaces.network.isShared = false := by
    cases cgroupFd <;> simp [cloneFlags]
  have huts : CloneFlag.newuts ∈ cloneFlags policy cgroupFd ↔
      policy.namespaces.uts.isShared = false := by
    cases cgroupFd <;> simp [cloneFlags]
  have hcgroup : CloneFlag.intoCgroup ∈ cloneFlags policy cgroupFd ↔ cgroupFd = true := by
    cases cgroupFd <;> simp [cloneFlags]
  unfold Attrs.clone Namespaces.clonedUts Namespaces.clonedNet
  cases hn : policy.namespaces.network.isShared <;>
    cases hu : policy.namespaces.uts.isShared <;>
    simp [hmem, hipc, hnet, huts, hcgroup, hn, hu, Attrs.enterUserNamespace,
      Attrs.enterNetNamespace]

/-! ## What is asked for -/

section Whole
variable {policy : Policy} (launched : Launched policy) (hostUid : Uid) (hostGid : Gid)
  (command : CommandInner)

/-- The user namespaces that the policy asks for. -/
def userNamespaces : List UserNamespace :=
  let uid := guestUid policy hostUid
  let gid := guestGid policy hostGid
  policy.namespaces.nested uid gid
    (UserNamespace.mapped {} uid.val hostUid.val gid.val hostGid.val)
    (launched.parent.users.map (·.counted))

/-- What a policy has a process be that was made by a parent and has executed a file. -/
structure Confined [Itoa] (file : FileCapabilities) (p : Process) : Prop where
  creds : ExecutedCreds policy.targetCapabilities file p.attrs.creds
  noNewPrivs : p.attrs.noNewPrivs = true
  dispositions : ∀ signal, 1 ≤ signal → signal ≤ _NSIG → signal ≠ SIGKILL →
    signal ≠ SIGSTOP → p.attrs.dispositions signal = .default
  blocked : p.attrs.blocked = 0
  users : p.attrs.users = userNamespaces launched hostUid hostGid
  uts : p.attrs.uts =
    policy.namespaces.utsOver (policy.namespaces.clonedUts launched.parent)
  net : policy.namespaces.NetOver launched.parent p.attrs.net
  time : p.attrs.time = policy.namespaces.timeOver launched.parent.timeForChildren
  ownIpc : p.attrs.ownIpc = (launched.parent.ownIpc || !policy.namespaces.ipc.isShared)
  ownPid : p.attrs.ownPid = true
  /-- It left the namespace of the host where it was placed, if it was to be. -/
  cgroup : p.attrs.cgroup = some launched.inherited.cgroups.places
  ns : p.mounts.ns = launched.own
  /-- Every mount of the policy is in place, on a root that is the only one there is. -/
  root : ∃ guestRootFd mounts, mounts.length = policy.mountTree.size ∧
    Mounting.RealisedUpTo policy.toPolicy mounts guestRootFd mounts.length p.mounts ∧
    p.attrs.namespaces launched.own = ⟨[.moved guestRootFd], true⟩ ∧
    p.attrs.root = some guestRootFd ∧ p.attrs.cwd = some guestRootFd ∧
    p.attrs.mountAttrs guestRootFd =
      launched.parent.mountAttrs guestRootFd ||| ROOT_MOUNT_ATTR.attrSet
  umask : p.attrs.umask = launched.parent.umask
  ownSession : p.attrs.ownSession = (policy.newSession || launched.parent.ownSession)
  sched : p.attrs.sched =
    (policy.scheduler.attributes.map (·.schedAttr)).or launched.parent.sched
  oomScoreAdj : p.attrs.oomScoreAdj =
    (policy.scheduler.oomScoreAdjustment.map UInt16.toNat).or launched.parent.oomScoreAdj
  keyAuthority : p.attrs.keyAuthority = false
  ownKeyring : p.attrs.ownKeyring = (policy.keyring = .reset || launched.parent.ownKeyring)
  reqkeyKeyring : p.attrs.reqkeyKeyring =
    if policy.keyring = .reset then KEY_REQKEY_DEFL_SESSION_KEYRING
    else launched.parent.reqkeyKeyring
  rlimits : p.attrs.rlimits = policy.rlimits.over launched.parent.rlimits
  fds : ∀ n, (policy.fileDescriptors.actions n = some .ignore → ∃ e, launched.fds n = some e) →
    (p.fds n).map Entry.file = expected policy.fileDescriptors.actions launched.fds n
  filters : p.attrs.filters = filtersOver policy launched.parent.filters

/-- The guest at the end of its set up, but for the last limits. -/
structure Finished [Itoa] (p : Process) : Prop where
  ns : p.mounts.ns = launched.own
  attrs : ∃ guestRootFd mounts net coreCookie, mounts.length = policy.mountTree.size ∧
    Mounting.RealisedUpTo policy.toPolicy mounts guestRootFd mounts.length p.mounts ∧
    policy.namespaces.NetOver launched.parent net ∧
    p.attrs = finished policy guestRootFd launched.own launched.parent.umask
      (userNamespaces launched hostUid hostGid) net coreCookie
      (prepared policy launched.own [] { launched.process.attrs with
        creds := Capabilities.dropped launched.parent.host.lastCap policy.targetCapabilities
        dispositions := reset (List.range' 1 _NSIG) launched.process.attrs.dispositions
        blocked := 0
        placed := launched.inherited.cgroups.places
        cgroup := some launched.inherited.cgroups.places })

/-! ## The set up -/

theorem guestPostClone_spec [Itoa] [LawfulItoa] (order : ByteOrder) :
    Safely kernel (Builds launched.own)
      (guestPostClone order policy launched.inherited hostUid hostGid (spawnCallback command))
      (fun action q => action = command.spawnAction ∧ Finished launched hostUid hostGid q)
      launched.process := by
  have hclone : launched.process.attrs = _ :=
    clone_cloneFlags policy launched.parent launched.inherited.cgroups.cloneArgsCgroup
  apply ((dropBoundingSet_spec policy (by rw [hclone])).weaken fun _ _ h => h.builds).bind
  intro _ p₁ _ hp₁
  apply (resetSignalDispositions_spec.weaken fun _ _ h => h.builds).bind
  intro _ p₂ _ hp₂
  apply ((guestPostCloneHook_spec order launched.inherited.cgroups (by
    rw [hp₂, hp₁, hclone])).weaken fun _ _ h => h.builds).bind
  intro _ p₃ _ hp₃
  apply (unshareCgroup_spec.weaken fun _ _ h => h.builds).bind
  intro _ p₄ _ hp₄
  have hstart : p₄ = { launched.process with attrs := { launched.process.attrs with
      creds := Capabilities.dropped launched.parent.host.lastCap policy.targetCapabilities
      dispositions := reset (List.range' 1 _NSIG) launched.process.attrs.dispositions
      blocked := 0
      placed := launched.inherited.cgroups.places
      cgroup := some launched.inherited.cgroups.places } } := by
    rw [hp₄, hp₃, hp₂, hp₁, hclone]
  have hmounts : p₄.mounts = launched.mounts.state := by rw [hstart]; rfl
  have husers : p₄.attrs.users = {} :: launched.parent.users.map (·.counted) := by
    rw [hstart, hclone]
  apply (prepareRoot_spec launched.inherited.toBuffers launched.mounts hmounts
    (show launched.own = _ by rw [hmounts]; rfl) husers hostUid _ hostGid _).bind
  intro r p₅ _ h₅
  obtain ⟨procFd, oldUmask, guestRootFd⟩ := r
  obtain ⟨hproc, hold, hns, ⟨mounts, hlength, hreal⟩, hattrs₅⟩ := h₅
  have hroots₀ : (launched.parent.namespaces launched.own).roots = [.own] := launched.roots
  have hroots : (p₅.attrs.namespaces launched.own).roots = [.own] := by
    rw [hattrs₅, hstart, hclone]
    simpa [prepared] using hroots₀
  have huts : policy.namespaces.uts.isShared = false → p₅.attrs.uts.isSome = true := by
    intro h
    rw [hattrs₅, hstart, hclone]
    simp [prepared, Namespaces.clonedUts, h]
  have hnet : policy.namespaces.network.isShared = false →
      ∃ net, p₅.attrs.net = some net ∧ net.devices = Loopback.fresh := by
    intro h
    rw [hattrs₅, hstart, hclone]
    simp [prepared, Namespaces.clonedNet, Attrs.enterNetNamespace, h]
  have hfinish := finishGuest_spec hns (by rw [hattrs₅]; rfl) hroots hreal.root_place hproc huts
    hnet (by rw [hattrs₅]; rfl) (by rw [hattrs₅, hstart, hclone]; rfl)
    (by rw [hattrs₅, hstart, hclone]; rfl) oldUmask (guestUid policy hostUid)
    (guestGid policy hostGid) command
  apply Safely.mono (hfinish.since.weaken fun _ _ h => h.builds)
  intro action q hq
  obtain ⟨k, haction, net, coreCookie, hover, hattrs⟩ := hq
  refine ⟨haction, k.ns.trans hns, guestRootFd, mounts, net, coreCookie, hlength,
    hreal.prepares k.mounts, ?_, ?_⟩
  · -- a guest that shares the network has that of the parent
    rw [hattrs₅, hstart, hclone] at hover
    revert hover
    unfold Namespaces.NetOver
    cases hnetwork : policy.namespaces.network with
    | unshared options => exact id
    | shared =>
      intro hover
      rw [hover]
      simp [prepared, Namespaces.clonedNet, hnetwork, Namespace.isShared]
  · have holdUmask : oldUmask = launched.parent.umask := hold.trans (by rw [hstart, hclone])
    rw [hattrs, hattrs₅, hstart, holdUmask]
    rfl

/-! ### The record on the pipe, and the last limits -/

theorem report_spec {p : Process} (order : ByteOrder) (result : Except PostSpawnGuest Unit) :
    Sat kernel (· = ·) (Steady launched.own) (report order result) (fun _ q => q = p) p := by
  have hwrite : ∀ segment, (performUntil (I := Calls) (.write segment) interrupted).Calls
      (fun op : Op => ∃ bytes, op = .write bytes) :=
    fun segment => ⟨⟨segment, rfl⟩, fun _ => trivial⟩
  refine Sat.bind ((writeAll_calls hwrite (encode order result)).sat (J := (· = p))
    (fun t op r t' hop ht hk => ?_) rfl |>.mono fun r t ht => sat_done.mpr ht)
  obtain ⟨bytes, rfl⟩ := hop
  have hsame : t' = t := hk.1
  rw [hsame]
  exact ⟨Std.Refl.refl t, ht⟩

/-- What was open and stayed so is all that the policy can leave. -/
theorem expected_of_staysOpen {actions : RawFd → Option Action} {T U : Table OpenFile}
    (h : StaysOpen T U)
    (hsources : ∀ n source, actions n = some (.map source) → ∃ e, T source = some e) {n : RawFd}
    (hignored : actions n = some .ignore → ∃ e, T n = some e) :
    expected actions U n = expected actions T n := by
  unfold expected
  cases haction : actions n with
  | none => rfl
  | some action =>
    cases action with
    | map source =>
      obtain ⟨e, he⟩ := hsources n source haction
      dsimp only
      rw [he, h source e he]
    | ignore =>
      obtain ⟨e, he⟩ := hignored haction
      simp only [Table.exec, he, h n e he]

theorem Process.exec_fds (p : Process) (file : FileCapabilities) (action : Exec) (n : RawFd) :
    ((p.exec file action).fds n).map Entry.file = p.fds.exec n := by
  simp [Process.exec, Function.comp_def]

/-- What a guest executes whose last limits are set. -/
theorem Finished.confined [Itoa] {p : Process} (h : Finished launched hostUid hostGid p)
    (hopen : StaysOpen launched.fds p.fds) {fds : Table OpenFile}
    (hfds : ∀ n, fds.exec n = expected policy.fileDescriptors.actions p.fds n)
    (file : FileCapabilities) (action : Exec) :
    Confined launched hostUid hostGid file
      (Process.exec ⟨p.mounts, fds, limited policy p.attrs⟩ file action) := by
  obtain ⟨hns, guestRootFd, mounts, net, coreCookie, hlength, hreal, hover, hattrs⟩ := h
  have hclone : launched.process.attrs = _ :=
    clone_cloneFlags policy launched.parent launched.inherited.cgroups.cloneArgsCgroup
  rw [hclone] at hattrs
  have hroots : (launched.parent.namespaces launched.own).roots = [.own] := launched.roots
  have hleft : ∀ n, (policy.fileDescriptors.actions n = some .ignore →
      ∃ e, launched.fds n = some e) →
      ((Process.exec ⟨p.mounts, fds, limited policy p.attrs⟩ file action).fds n).map Entry.file =
        expected policy.fileDescriptors.actions launched.fds n := by
    intro n hignored
    rw [Process.exec_fds, hfds, expected_of_staysOpen hopen launched.sources hignored]
  rw [hattrs] at hleft ⊢
  exact
    { creds := confinedCreds_exec policy.targetCapabilities file
      noNewPrivs := rfl
      dispositions := fun signal hpos hle hkill hstop => by
        have hreset : reset (List.range' 1 _NSIG) (fun signal =>
            if launched.parent.dispositions signal = .handler then .default
            else launched.parent.dispositions signal) signal = .default :=
          if_pos ⟨List.mem_range'_1.mpr ⟨hpos, by omega⟩, hkill, hstop⟩
        show (if reset _ _ signal = .handler then _ else reset _ _ signal) = _
        rw [hreset]
        exact if_neg (by simp)
      blocked := rfl
      users := rfl
      uts := rfl
      net := hover
      time := rfl
      ownIpc := rfl
      ownPid := rfl
      cgroup := rfl
      ns := hns
      root := ⟨guestRootFd, mounts, hlength, hreal, by
        simp [Process.exec, Attrs.exec, limited, finished, entered, prepared], rfl, rfl,
        Function.update_self ..⟩
      umask := rfl
      ownSession := rfl
      sched := rfl
      oomScoreAdj := rfl
      keyAuthority := rfl
      ownKeyring := rfl
      reqkeyKeyring := rfl
      rlimits := rfl
      fds := hleft
      filters := rfl }

theorem lift_spec {α : Type} {G : Process → Process → Prop} {p : Process} {call : Prog Calls α}
    {Q : α → Process → Prop} (h : Sat kernel (· = ·) G call Q p) :
    Safely kernel G (ExceptT.lift call : Setup α) Q p := by
  show Sat kernel (· = ·) G (Except.ok <$> call) _ p
  rw [map_eq_pure_bind]
  exact Sat.bind (h.mono fun a t ha => sat_done.mpr ha)

theorem launch_spec [Itoa] [LawfulItoa] (order : ByteOrder) :
    Safely kernel (Contained launched.own)
      (launch order policy launched.inherited hostUid hostGid command)
      (fun action q => action = command.spawnAction ∧
        ∀ file, Confined launched hostUid hostGid file (q.exec file action))
      launched.process := by
  apply Safely.bind
    ((guestPostClone_spec launched hostUid hostGid command order).since.weaken
      fun _ _ h => h.contained)
  intro action p₁ _ hp₁
  obtain ⟨k₁, haction, hfinished⟩ := hp₁
  apply ((lift_spec (report_spec launched order (.ok ()))).weaken fun _ _ h => h.contained).bind
  intro _ p₂ _ hp₂
  subst hp₂
  have hcreds : p₂.attrs.creds =
      Capabilities.limited p₂.attrs.host.lastCap policy.targetCapabilities := by
    obtain ⟨-, guestRootFd, mounts, net, coreCookie, -, -, -, hattrs⟩ := hfinished
    rw [hattrs]
    rfl
  have hopen : StaysOpen launched.fds p₂.fds := k₁.fds
  have hsources : ∀ n source, policy.fileDescriptors.actions n = some (.map source) →
      ∃ e, p₂.fds source = some e := by
    intro n source hmap
    obtain ⟨e, he⟩ := launched.sources n source hmap
    exact ⟨e, hopen source e he⟩
  apply (confine_spec (hopen _ _ launched.pipe) hsources launched.unpiped hcreds).bind
  intro _ q _ hq
  obtain ⟨fds, rfl, hfds⟩ := hq
  exact Safely.pure ⟨haction, fun file =>
    hfinished.confined launched hostUid hostGid hopen hfds file action⟩

/-! ## Over a whole run -/

/-- The calls of a guest that is not set up any more. -/
def Last (action : Option Exec) : Op → Prop
  | .execveat other => action = some other
  | .write _ | .exit _ => True
  | _ => False

/-- Nothing happens but that the action is executed. -/
def Executes (action : Option Exec) (p q : Process) : Prop :=
  q = p ∨ ∃ done file, action = some done ∧ q = p.exec file done

theorem execveat_executes {action : Exec} {p q : Process} {r : Calls.Res (.execveat action)}
    (hk : kernel p (.execveat action) r q) : Executes (some action) p q := by
  cases r with
  | ok u =>
    obtain ⟨file, rfl⟩ := hk
    exact .inr ⟨action, file, rfl, rfl⟩
  | error e => exact .inl hk

/-- Where nothing is executed, nothing happens at all. -/
theorem Last.same {op : Op} (hop : Last none op) {p q : Process} {r : Calls.Res op}
    (hk : kernel p op r q) : q = p := by
  cases op with
  | execveat other => cases hop
  | write bytes => exact hk.1
  | exit code => exact hk
  | _ => exact hop.elim

theorem report_calls (order : ByteOrder) (result : Except PostSpawnGuest Unit)
    (action : Option Exec) : (report order result).Calls (Last action) := by
  have hwrite : ∀ segment, (performUntil (I := Calls) (.write segment) interrupted).Calls
      (Last action) := fun _ => ⟨trivial, fun _ => trivial⟩
  exact (writeAll_calls hwrite _).bind fun _ => trivial

theorem fail_calls (order : ByteOrder) (e : Stop PostSpawnGuest) (action : Option Exec) :
    (fail order e).Calls (Last action) := by
  cases e with
  | error e => exact (report_calls order _ action).bind fun _ => ⟨trivial, fun _ => trivial⟩
  | undefined => trivial

theorem exec_calls (order : ByteOrder) (action : Exec) :
    (exec order action).Calls (Last (some action)) := by
  refine Prog.Calls.bind (p := (attempt .execveat (perform (I := Calls) (.execveat action))).run)
    ⟨rfl, fun r => ?_⟩ fun r => ?_
  · cases r <;> trivial
  · cases r with
    | ok u => trivial
    | error e => exact fail_calls order e _

/-- The action is executed once, and where it is not, the guest fails. -/
theorem exec_then (order : ByteOrder) (action : Exec) :
    (exec order action).Then (fun _ => False) (· = Op.execveat action) (Last none) := by
  refine Or.inr ⟨rfl, fun _ => rfl, fun r => ?_⟩
  cases r with
  | ok u => trivial
  | error e => exact fail_calls order (.error (.syscall ⟨.execveat, e⟩)) none

theorem fail_steps (order : ByteOrder) {e : Stop PostSpawnGuest} {rest : Prog Calls Outcome}
    {u t : Process} (hsteps : Steps kernel (fail order e) u rest t) : t = u :=
  ((fail_calls order e none).steps (J := (· = u))
    (fun _ _ _ _ hop hs hk => (hop.same hk).trans hs) rfl hsteps).1

theorem exec_steps (order : ByteOrder) {action : Exec} {rest : Prog Calls Outcome}
    {u t : Process} (hsteps : Steps kernel (exec order action) u rest t) :
    Executes (some action) u t := by
  have hthen := Steps.then (K := kernel) (J := (· = u)) (M := Executes (some action) u)
    (fun _ _ _ _ hop _ _ => hop.elim)
    (fun s op r v hop hs hk => by
      subst hop hs
      exact execveat_executes hk)
    (fun s op r v hop hs hk => by rwa [hop.same hk]) (exec_then order action) rfl hsteps
  rcases hthen with ⟨hsame, -⟩ | ⟨hexecutes, -⟩
  · exact .inl hsame
  · exact hexecutes

/-- An error is the end of the guest. -/
theorem fail_returns (order : ByteOrder) {e : Stop PostSpawnGuest} (he : e ≠ .undefined)
    {outcome : Outcome} {u t : Process} (hret : Returns kernel (fail order e) u outcome t) :
    outcome = .exited (-1) := by
  cases e with
  | error e =>
    obtain ⟨_, _, -, hret⟩ := Returns.of_bind hret
    obtain ⟨_, _, -, hret⟩ := Returns.of_bind hret
    exact (Returns.of_done hret).1
  | undefined => exact absurd rfl he

theorem exec_returns (order : ByteOrder) {action : Exec} {outcome : Outcome} {u t : Process}
    (hret : Returns kernel (exec order action) u outcome t) : outcome ≠ .undefined := by
  obtain ⟨r, v, hcall, hret⟩ := Returns.of_bind hret
  have hattempt : Safely kernel (fun _ _ => True)
      (attempt .execveat (perform (I := Calls) (.execveat action))) (fun _ _ => True) u :=
    attempt_spec (Sat.next fun _ _ _ => ⟨trivial, sat_done.mpr fun _ _ => trivial⟩)
  have hpost := Wp.returns hattempt hcall
  cases r with
  | ok _ =>
    rw [(Returns.of_done hret).1]
    exact fun h => by cases h
  | error e =>
    rw [fail_returns order hpost hret]
    exact fun h => by cases h

/-- Where a run is: in the set up, or at its end, where it has executed the command if anything. -/
theorem guest_steps [Itoa] [LawfulItoa] (order : ByteOrder) {rest : Prog Calls Outcome}
    {t : Process}
    (hrun : Steps kernel (guest order policy launched.inherited hostUid hostGid command)
      launched.process rest t) :
    Contained launched.own launched.process t ∨
      ∃ u action, Contained launched.own launched.process u ∧ Executes action u t ∧
        ∀ done, action = some done → done = command.spawnAction ∧
          ∀ file, Confined launched hostUid hostGid file (u.exec file done) := by
  have hlaunch := launch_spec launched hostUid hostGid command order
  have hcontained : ∀ {rest : Prog Calls (Except (Stop PostSpawnGuest) Exec)} {u : Process},
      Steps kernel (launch order policy launched.inherited hostUid hostGid command).run
        launched.process rest u → Contained launched.own launched.process u :=
    fun hsteps => hlaunch.steps_rel (fun p => Std.Refl.refl p) (fun _ _ _ => IsTrans.trans _ _ _)
      hsteps
  rcases Steps.of_bind hrun with ⟨rest', -, hsteps⟩ | ⟨r, u, hret, hsteps⟩
  · exact .inl (hcontained hsteps)
  · have hpost := Wp.returns (hlaunch.weaken fun _ _ _ => trivial) hret
    cases r with
    | error e =>
      exact .inr ⟨u, none, hcontained hret, .inl (fail_steps order hsteps), fun _ h => by cases h⟩
    | ok action =>
      refine .inr ⟨u, some action, hcontained hret, exec_steps order hsteps, fun done hdone => ?_⟩
      cases hdone
      exact hpost

theorem executed_process : launched.process.attrs.executed = none := by
  show (launched.parent.clone (cloneFlags policy _)).executed = none
  rw [clone_cloneFlags]

/-- Where something was executed in a run. -/
theorem executed_state [Itoa] [LawfulItoa] (order : ByteOrder) {rest : Prog Calls Outcome}
    {t : Process} {action : Exec} {file : FileCapabilities}
    (hrun : Steps kernel (guest order policy launched.inherited hostUid hostGid command)
      launched.process rest t)
    (hexec : t.attrs.executed = some (action, file)) :
    action = command.spawnAction ∧ Confined launched hostUid hostGid file t := by
  rcases guest_steps launched hostUid hostGid command order hrun with
    hcontained | ⟨u, done, hcontained, hexecutes, hconfined⟩
  · rw [hcontained.attrs.executed, executed_process] at hexec
    cases hexec
  · have hnone : u.attrs.executed = none := by
      rw [hcontained.attrs.executed, executed_process]
    rcases hexecutes with rfl | ⟨done, file', rfl, rfl⟩
    · rw [hnone] at hexec
      cases hexec
    · have hsame : (done, file') = (action, file) := Option.some.inj hexec
      cases hsame
      obtain ⟨haction, hu⟩ := hconfined action rfl
      exact ⟨haction, hu file⟩

/-- Whatever fails, no call of the guest changes anything of the host or a mount namespace but its
own, and none creates an entry on a mount of the host. What an overlay makes in its own `workdir`
is no call of the guest. No unchecked operation is undefined. -/
theorem guest_contained [Itoa] [LawfulItoa] (order : ByteOrder) :
    (∀ rest t, Steps kernel (guest order policy launched.inherited hostUid hostGid command)
        launched.process rest t →
      t.attrs.host = launched.parent.host ∧
      (∀ ns, ns ≠ launched.own → t.attrs.namespaces ns = launched.parent.namespaces ns) ∧
      ∀ dir ∈ t.mounts.created, t.mounts.OffHost dir) ∧
    ∀ outcome t, Returns kernel (guest order policy launched.inherited hostUid hostGid command)
        launched.process outcome t → outcome ≠ .undefined := by
  constructor
  · intro rest t hrun
    have hclone : launched.process.attrs = _ :=
      clone_cloneFlags policy launched.parent launched.inherited.cgroups.cloneArgsCgroup
    have hstart : ∀ u, Contained launched.own launched.process u →
        u.attrs.host = launched.parent.host ∧
        (∀ ns, ns ≠ launched.own → u.attrs.namespaces ns = launched.parent.namespaces ns) ∧
        ∀ dir ∈ u.mounts.created, u.mounts.OffHost dir := by
      intro u hu
      refine ⟨by rw [hu.attrs.host, hclone], fun ns hns => ?_, fun dir hdir => ?_⟩
      · rw [hu.attrs.namespaces ns hns, hclone]
      · rcases hu.mounts.created dir hdir with hold | hnew
        · rw [show launched.process.mounts.created = [] from launched.mounts.created] at hold
          exact absurd hold List.not_mem_nil
        · exact hnew
    rcases guest_steps launched hostUid hostGid command order hrun with
      hcontained | ⟨u, action, hcontained, hexecutes, -⟩
    · exact hstart t hcontained
    · rcases hexecutes with rfl | ⟨done, file, -, rfl⟩
      · exact hstart t hcontained
      · exact hstart u hcontained
  · intro outcome t hret
    obtain ⟨r, u, hlaunch, hret⟩ := Returns.of_bind hret
    have hpost := Wp.returns ((launch_spec launched hostUid hostGid command order).weaken
      fun _ _ _ => trivial) hlaunch
    cases r with
    | ok action => exact exec_returns order hret
    | error e =>
      rw [fail_returns order hpost hret]
      exact fun h => by cases h

end Whole

/-! ## A guest -/

/-- One mapping onto the number that the pipe has, and a descriptor to leave alone. -/
def workDescriptors : FdPolicy := Std.TreeMap.ofList [(66, .ignore), (64, .map 65)] compare

theorem workDescriptors_actions {n source : RawFd}
    (h : workDescriptors.actions n = some (.map source)) : n = 64 ∧ source = 65 := by
  have hmem : (n, Action.map source) ∈ workDescriptors.toList :=
    Std.TreeMap.mem_toList_iff_getElem?_eq_some.mpr h
  have hlist : workDescriptors.toList = [(64, .map 65), (66, .ignore)] := by decide
  rw [hlist] at hmem
  simpa using hmem

/-- Namespaces of its own, one capability, a limit and a filter. -/
def workSandbox : Policy where
  toPolicy := Mounting.workPolicy
  namespaces :=
    { uts := .unshared { hostname := some (ascii "work") }
      time := .unshared { monotonicOffset := some { seconds := ⟨60, by decide⟩ } } }
  targetCapabilities := Capabilities.bit 10
  fileDescriptors := workDescriptors
  validDescriptors := by decide
  rlimits := { nofile := some { soft := some 64, hard := some 64 } }
  scheduler :=
    { attributes := some { policy := .batch 10 }
      oomScoreAdjustment := some 500 }
  seccompFilter := some [⟨6, 0, 0, 0x7fff0000⟩]

/-- The systemd backend waits for the host to move the guest. -/
def workInherited : Inherited workSandbox where
  toBuffers := Mounting.workBuffers
  guestPipe := 64
  cgroups := .systemd .preClone

/-- A process of the host. -/
def workParent : Attrs where
  host :=
    { lastCap := 40
      vsock := true
      endian := .little
      refuses := fun _ _ _ => False
      uts := ⟨ascii "host", ascii "(none)"⟩
      net := ⟨false, false, Loopback.fresh⟩
      maxUserNamespaces := 63000 }
  creds := ⟨0, 0, 0, 0, 0⟩
  noNewPrivs := false
  dispositions := fun signal => if signal = 13 then .ignore else .default
  blocked := 0
  users := []
  uts := none
  net := none
  time := none
  timeForChildren := none
  ownIpc := false
  ownPid := false
  cgroup := none
  placed := false
  namespaces := fun _ => ⟨[.own], false⟩
  root := none
  cwd := none
  mountAttrs := fun _ => 0
  umask := 0o022
  ownSession := false
  sched := none
  oomScoreAdj := none
  coreCookie := false
  keyAuthority := true
  ownKeyring := false
  reqkeyKeyring := 0
  rlimits := fun _ => (1024, 4096)
  filters := []
  executed := none

/-- The descriptors of the policy, and one that is to be closed. -/
def workFds : Table OpenFile := fun n =>
  if n = 64 then some ⟨.pipe, true⟩
  else if 1 ≤ n ∧ n ≤ 8 ∨ n = 65 then some ⟨.inherited n, true⟩
  else if n = 66 ∨ n = 67 then some ⟨.inherited n, false⟩
  else none

def workLaunched : Launched workSandbox where
  parent := workParent
  mounts := Mounting.workLaunch
  fds := workFds
  inherited := workInherited
  roots := rfl
  pipe := rfl
  sources n source h := by
    rw [(workDescriptors_actions h).2]
    exact ⟨_, rfl⟩
  unpiped n h := by cases (workDescriptors_actions h).2

def workCommand : CommandInner where
  environment := ∅
  arguments := [some ⟨ascii "/bin/sh", by decide⟩, none]
  program := ⟨ascii "/bin/sh", by decide⟩
  workingDirectory := some Mounting.tmpWorkPath
  terminated := ⟨⟨ascii "/bin/sh", by decide⟩, [], rfl⟩

section Work

local instance sandboxItoa : Itoa := Itoa.decimal

local instance sandboxItoa_lawful : LawfulItoa := Itoa.decimal_lawful

def workGuest : Prog Calls Outcome :=
  guest .little workSandbox workInherited ⟨1000, by decide⟩ ⟨100, by decide⟩ workCommand

/-- It comes to the end of its calls. -/
theorem workGuest_returns : ∃ t action file,
    Returns kernel workGuest workLaunched.process .executed t ∧
    t.attrs.executed = some (action, file) := by
  have hrun : (run guestImpl 400 workGuest workLaunched.process).any
      (fun x => x.1 == .executed && x.2.attrs.executed.isSome) := by
    decide +kernel
  obtain ⟨⟨outcome, t⟩, hmem, hdone⟩ := (Option.any_eq_true _ _).mp hrun
  obtain ⟨houtcome, hexecuted⟩ := Bool.and_eq_true_iff.mp hdone
  obtain ⟨⟨action, file⟩, haction⟩ := Option.isSome_iff_exists.mp hexecuted
  cases eq_of_beq houtcome
  exact ⟨t, action, file, run_returns guestImpl_kernel 400 hmem, haction⟩

theorem guest_contained_work : ∃ t, Returns kernel workGuest workLaunched.process .executed t ∧
    t.attrs.host = workParent.host := by
  obtain ⟨t, action, file, hret, -⟩ := workGuest_returns
  exact ⟨t, hret, ((guest_contained workLaunched ⟨1000, by decide⟩
    ⟨100, by decide⟩ workCommand .little).1 _ t hret).1⟩

end Work

end LayerCake.Bubblebox.Sandbox
