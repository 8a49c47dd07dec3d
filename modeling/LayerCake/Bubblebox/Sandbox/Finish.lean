import LayerCake.Bubblebox.Sandbox.Phases

/-
  What the phases of the guest do to the process, from its root on.

  What is proved: each phase keeps `Steady`, is never undefined, and where it succeeds it has
  changed the process in one way.
    1. `isolateNetwork_spec`, `disableUserns_spec`, … — one of each phase.
    2. `finishGuest_spec` — the phases of `guest_post_clone` behind the mounts, together.
    3. `confine_spec` — the limits that are set after the record of success. The first of them,
       the policy of the file descriptors, closes what the guest has open.
-/

namespace LayerCake.Bubblebox.Sandbox

open LayerCake.Effects LayerCake.Meowix LayerCake.Linux
open LayerCake.Bubblebox.Spawn
open LayerCake.Bubblebox.Spawn.Mounting (Object Buffers Keeps Prepares)

/-! ## Behind the root -/

section After
variable {own : Object} {policy : Policy} {p q : Process}

/-- The names of a policy, over those the guest would have. -/
def Namespaces.utsOver (self : Namespaces) (inherited : Option UtsNamespace) :
    Option UtsNamespace :=
  match self.uts with
  | .unshared uts => inherited.map fun names =>
    ⟨uts.hostname.getD names.hostname, uts.domain.getD names.domain⟩
  | .shared => inherited

theorem setHostname_spec (hostname : Option Bytes) (huts : p.attrs.uts.isSome = true) :
    Safely kernel (Steady own) (setHostname hostname)
      (fun _ q => q = { p with attrs := { p.attrs with
        uts := p.attrs.uts.map fun names =>
          { names with hostname := hostname.getD names.hostname } } })
      p := by
  obtain ⟨names, hnames⟩ := Option.isSome_iff_exists.mp huts
  cases hostname with
  | none =>
    refine Safely.pure ?_
    simp
  | some hostname =>
    refine attempt_spec (perform_spec fun r q hk => ?_)
    have hset : p.attrs.mapUts (fun uts => { uts with hostname := hostname }) = { p.attrs with
        uts := p.attrs.uts.map fun names => { names with hostname := hostname } } := by
      simp [Attrs.mapUts, hnames]
    exact hset ▸ Sets.steady
      (f := fun a => a.mapUts fun uts => { uts with hostname := hostname }) hk
      (Confines.mapUts huts _)

theorem setDomain_spec (domain : Option Bytes) (huts : p.attrs.uts.isSome = true) :
    Safely kernel (Steady own) (setDomain domain)
      (fun _ q => q = { p with attrs := { p.attrs with
        uts := p.attrs.uts.map fun names => { names with domain := domain.getD names.domain } } })
      p := by
  obtain ⟨names, hnames⟩ := Option.isSome_iff_exists.mp huts
  cases domain with
  | none =>
    refine Safely.pure ?_
    simp
  | some domain =>
    refine attempt_spec (perform_spec fun r q hk => ?_)
    have hset : p.attrs.mapUts (fun uts => { uts with domain := domain }) = { p.attrs with
        uts := p.attrs.uts.map fun names => { names with domain := domain } } := by
      simp [Attrs.mapUts, hnames]
    exact hset ▸ Sets.steady (f := fun a => a.mapUts fun uts => { uts with domain := domain }) hk
      (Confines.mapUts huts _)

theorem configureUts_spec
    (huts : policy.namespaces.uts.isShared = false → p.attrs.uts.isSome = true) :
    Safely kernel (Steady own) (configureUts policy)
      (fun _ q => q = { p with attrs := { p.attrs with
        uts := policy.namespaces.utsOver p.attrs.uts } }) p := by
  unfold configureUts Namespaces.utsOver
  revert huts
  cases policy.namespaces.uts with
  | shared => exact fun _ => Safely.pure rfl
  | unshared uts =>
    intro huts
    apply (setHostname_spec uts.hostname (huts rfl)).bind
    intro _ q _ hq
    apply (setDomain_spec uts.domain (by rw [hq]; simpa using huts rfl)).mono
    intro _ t ht
    rw [ht, hq]
    simp [Function.comp_def]

/-- What a policy of its own makes of the network of the guest: the loopback device is up and has
its address. -/
def NetIsolated (a : Attrs) (net : NetNamespace) : Prop :=
  (∃ index, Loopback.fresh.names Loopback.ifrnLo = some index ∧
    net.devices.links = Loopback.withAddressUp Loopback.fresh.links index) ∧
  (a.host.vsock = true → net.vsockLocal = true)

/-- What the policy asks of the network. -/
def Namespaces.NetOver (self : Namespaces) (a : Attrs) (net : Option NetNamespace) : Prop :=
  match self.network with
  | .unshared _ => ∃ isolated, net = some isolated ∧ NetIsolated a isolated
  | .shared => net = a.net

theorem probeVsock_spec :
    Safely kernel (Steady own) probeVsock
      (fun vsock q => q = p ∧ (vsock = false → p.attrs.host.vsock = false)) p := by
  refine Sat.next fun r q hk => ?_
  obtain ⟨rfl, hvsock⟩ := hk
  refine ⟨Std.Refl.refl q, ?_⟩
  cases r with
  | ok u => exact sat_done.mpr ⟨rfl, fun h => by cases h⟩
  | error e =>
    by_cases he : e = .AFNOSUPPORT
    · subst he
      exact sat_done.mpr ⟨rfl, fun _ => hvsock rfl rfl⟩
    · show Sat kernel _ _ (if e = Errno.AFNOSUPPORT then _ else _) _ q
      rw [if_neg he]
      exact sat_done.mpr (by simp)

/-- Where it succeeds, what is known of the devices was done to those of the process. -/
theorem setupLoopback_spec {net : NetNamespace} (hnet : p.attrs.net = some net)
    (hfresh : net.devices = Loopback.fresh) :
    Safely kernel (Steady own) setupLoopback
      (fun _ q => ∃ devices index, Loopback.fresh.names Loopback.ifrnLo = some index ∧
        devices.links = Loopback.withAddressUp Loopback.fresh.links index ∧
        q = { p with attrs := { p.attrs with net := some { net with devices } } }) p := by
  refine Sat.next fun r q hk => ?_
  obtain ⟨devices, hrun, hq⟩ := hk
  obtain ⟨hsetup, -, -⟩ := Loopback.setupLoopback_spec r devices hrun
  have hdevices : p.attrs.devices = Loopback.fresh := by
    rw [← hfresh, Attrs.devices, hnet, Option.getD_some]
  rw [hdevices] at hsetup
  have hset : p.attrs.setDevices devices =
      { p.attrs with net := some { net with devices } } := by
    simp only [Attrs.setDevices, Attrs.mapNet, hnet]
  refine ⟨?_, ?_⟩
  · rw [hq]
    exact Steady.of_attrs (Confines.mapNet (by rw [hnet]; rfl) _)
  · cases r with
    | ok u =>
      obtain ⟨index, hname, hlinks⟩ := hsetup.up
      exact sat_done.mpr ⟨devices, index, hname, hlinks, by rw [hq, hset]⟩
    | error e =>
      refine sat_done.mpr fun h => hsetup.defined ?_
      cases e with
      | error e => cases h
      | undefined => rfl

theorem isolateNetwork_spec {procFd : RawFd} (hproc : p.IsProc procFd [])
    (hnet : policy.namespaces.network.isShared = false →
      ∃ net, p.attrs.net = some net ∧ net.devices = Loopback.fresh) :
    Safely kernel (Steady own) (isolateNetwork policy procFd)
      (fun _ q => ∃ net, q.attrs = { p.attrs with net } ∧ policy.namespaces.NetOver p.attrs net)
      p := by
  unfold isolateNetwork Namespaces.NetOver
  revert hnet
  cases policy.namespaces.network with
  | shared => exact fun _ => Safely.pure ⟨_, rfl, rfl⟩
  | unshared options =>
    intro hnet
    obtain ⟨net, hsome, hfresh⟩ := hnet rfl
    apply probeVsock_spec.bind
    intro vsock p₁ _ h₁
    obtain ⟨rfl, hvsock⟩ := h₁
    refine Safely.bind (Q := fun _ q => ∃ net : NetNamespace, q.attrs = { p₁.attrs with net } ∧
      net.devices = Loopback.fresh ∧ (p₁.attrs.host.vsock = true → net.vsockLocal = true)) ?_
      fun _ p₂ _ hp₂ => ?_
    · cases vsock with
      | true =>
        apply (onMounts_spec (isolateVsock_spec hproc (by rw [hsome]; rfl))).mono
        intro _ q hq
        exact ⟨_, hq, rfl, fun _ => rfl⟩
      | false =>
        refine Safely.pure ⟨net, ?_, hfresh, fun h => ?_⟩
        · rw [← hsome]
        · rw [hvsock rfl] at h
          cases h
    · obtain ⟨net', hattrs₂, hfresh₂, hlocal⟩ := hp₂
      apply (setupLoopback_spec (by rw [hattrs₂]) hfresh₂).mono
      intro _ q hq
      obtain ⟨devices, index, hname, hlinks, rfl⟩ := hq
      exact ⟨some { net' with devices }, by rw [hattrs₂], _, rfl, ⟨index, hname, hlinks⟩, hlocal⟩

theorem restoreUmask_spec (oldUmask : UInt32) :
    Safely kernel (Steady own) (restoreUmask oldUmask)
      (fun _ q => q = { p with attrs := { p.attrs with umask := oldUmask } }) p := by
  refine Sat.next fun r q hk => ?_
  obtain ⟨rfl, rfl⟩ := hk
  exact ⟨Steady.of_attrs (.of_eq rfl rfl rfl), sat_done.mpr rfl⟩

theorem newSession_spec (policy : Policy) :
    Safely kernel (Steady own) (newSession policy)
      (fun _ q => q = { p with attrs := { p.attrs with
        ownSession := policy.newSession || p.attrs.ownSession } }) p := by
  unfold newSession
  split
  · next h =>
    rw [h]
    exact attempt_spec (perform_spec fun r q hk =>
      Sets.steady (f := fun a => { a with ownSession := true }) hk (.of_eq rfl rfl rfl))
  · next h =>
    rw [Bool.not_eq_true] at h
    refine Safely.pure ?_
    simp [h]

/-! ## User namespaces -/

/-- The namespaces of a guest that was in `user`: it has left that for another, if it is to
make none. -/
def Namespaces.nested (self : Namespaces) (uid : Uid) (gid : Gid) (user : UserNamespace)
    (outer : List UserNamespace) : List UserNamespace :=
  if self.user.disableUserns then
    UserNamespace.mapped {} uid.val uid.val gid.val gid.val ::
      UserNamespace.counted { user with maxUserNamespaces := 1 } :: outer.map (·.counted)
  else user :: outer

theorem unshare_newuser (a : Attrs) : a.unshare CLONE_NEWUSER = a.enterUserNamespace := by
  have huser : (CLONE_NEWUSER &&& CLONE_NEWUSER != 0) = true := by decide
  have hcgroup : (CLONE_NEWUSER &&& CLONE_NEWCGROUP != 0) = false := by decide
  have htime : (CLONE_NEWUSER &&& CLONE_NEWTIME != 0) = false := by decide
  have hnet : (CLONE_NEWUSER &&& CLONE_NEWNET != 0) = false := by decide
  simp only [Attrs.unshare, huser, hcgroup, htime, hnet, Bool.false_eq_true, if_true, if_false]

/-- The capabilities of the new namespace are those the guest had kept in the old one. -/
theorem disableUserns_spec [Itoa] [LawfulItoa] {procFd : RawFd} (hproc : p.IsProc procFd [])
    {user : UserNamespace}
    {outer : List UserNamespace} (husers : p.attrs.users = user :: outer)
    (hcreds : p.attrs.creds =
      Capabilities.dropped p.attrs.host.lastCap policy.targetCapabilities)
    (hkey : p.attrs.keyAuthority = false) (uid : Uid) (gid : Gid) :
    Safely kernel (Steady own) (disableUserns policy procFd uid gid)
      (fun _ q => q.attrs = { p.attrs with users := policy.namespaces.nested uid gid user outer })
      p := by
  unfold disableUserns Namespaces.nested
  split
  · apply (onMounts_spec (limitUserNamespaces_spec hproc husers)).bind
    intro _ p₁ h₁ hattrs₁
    have hown : Confines own p₁.attrs (p₁.attrs.unshare CLONE_NEWUSER) := by
      rw [unshare_newuser]
      exact .of_eq rfl rfl rfl
    apply (onMounts_spec (unshareOther_spec (by decide) hown)).andThen h₁
    intro _ p₂ h₂ hp₂
    rw [unshare_newuser] at hp₂
    have hfresh : p₂.attrs.creds = Capabilities.freshUserNamespace p₂.attrs.host.lastCap := by
      rw [hp₂.1]
      rfl
    apply (dropBoundingSet_spec policy hfresh).andThen h₂
    intro _ p₃ h₃ hp₃
    apply (onMounts_spec (writeSimpleUidGidMap_spec _ _ _ _ (hproc.keeps h₃.mounts.toKeeps))).mono
    intro _ q hq
    rw [hq, hp₃, hp₂.1, hattrs₁]
    simp only [Attrs.mapUser, Attrs.enterUserNamespace, ← hcreds, ← hkey]
    rfl
  · refine Safely.pure ?_
    rw [← husers]

theorem setCapabilities_spec
    (hcreds : p.attrs.creds =
      Capabilities.dropped p.attrs.host.lastCap policy.targetCapabilities) :
    Safely kernel (Steady own) (setCapabilities policy)
      (fun _ q => q = { p with attrs := { p.attrs with
        creds := Capabilities.limited p.attrs.host.lastCap policy.targetCapabilities } }) p := by
  refine attemptWith_spec (perform_spec fun r q hk => ?_)
  have hrun : (r, q) = _ := hk
  rw [hcreds, Capabilities.setCapabilities_dropped, Prod.mk.injEq] at hrun
  rw [hrun.2]
  exact ⟨Steady.of_attrs (.of_eq rfl rfl rfl), fun _ _ => rfl⟩

/-! ## The scheduler and the keyrings -/

theorem applySchedulerAttributes_spec (attributes : Option Scheduler.Attributes) :
    Safely kernel (Steady own) (applySchedulerAttributes attributes)
      (fun _ q => q = { p with attrs := { p.attrs with
        sched := (attributes.map (·.schedAttr)).or p.attrs.sched } }) p := by
  cases attributes with
  | none => exact Safely.pure rfl
  | some attributes =>
    exact attempt_spec (perform_spec fun r q hk =>
      Sets.steady (f := fun a => { a with sched := some attributes.schedAttr }) hk
        (.of_eq rfl rfl rfl))

/-- Whether it has a cookie depends on the machine. -/
theorem createCoreSchedulingCookie_spec (create : Bool) :
    Safely kernel (Steady own) (createCoreSchedulingCookie create)
      (fun _ q => ∃ coreCookie, q = { p with attrs := { p.attrs with coreCookie } }) p := by
  unfold createCoreSchedulingCookie
  split
  · refine Sat.next fun r q hk => ?_
    obtain ⟨hsteady, hset⟩ : Steady own _ q ∧ _ := Sets.steady
      (f := fun a => { a with coreCookie := true }) hk (.of_eq rfl rfl rfl)
    refine ⟨hsteady, ?_⟩
    cases r with
    | ok u => exact sat_done.mpr ⟨true, hset u rfl⟩
    | error e =>
      have hq : q = p := hk
      show Sat kernel _ _ (if e = Errno.NODEV then _ else _) _ q
      split
      · exact sat_done.mpr ⟨p.attrs.coreCookie, hq⟩
      · exact sat_done.mpr (by simp)
  · exact Safely.pure ⟨_, rfl⟩

theorem applySchedulerPolicy_spec [Itoa] [LawfulItoa] {procFd : RawFd} (hproc : p.IsProc procFd [])
    (scheduler : Scheduler) :
    Safely kernel (Steady own) (applySchedulerPolicy procFd scheduler)
      (fun _ q => ∃ coreCookie, q.attrs = { p.attrs with
        sched := (scheduler.attributes.map (·.schedAttr)).or p.attrs.sched
        oomScoreAdj := (scheduler.oomScoreAdjustment.map UInt16.toNat).or p.attrs.oomScoreAdj
        coreCookie }) p := by
  apply (applySchedulerAttributes_spec scheduler.attributes).bind
  intro _ p₁ h₁ hp₁
  have hproc := hproc.keeps h₁.mounts.toKeeps
  apply (onMounts_spec (applyOomScoreAdjustment_spec scheduler.oomScoreAdjustment hproc)).bind
  intro _ p₂ _ hattrs₂
  apply (createCoreSchedulingCookie_spec scheduler.createCoreSchedulingCookie).mono
  intro _ q hq
  obtain ⟨coreCookie, rfl⟩ := hq
  refine ⟨coreCookie, ?_⟩
  rw [hattrs₂, hp₁]

theorem assumeNoAuthority_spec (hkey : p.attrs.keyAuthority = false) :
    Safely kernel (Steady own)
      (attempt .keyctl (perform (I := Calls) (.keyctlAssumeAuthority 0))) (fun _ q => q = p) p := by
  refine attempt_spec (perform_spec fun r q hk => ?_)
  obtain ⟨hsteady, hset⟩ : Steady own _ q ∧ _ := Sets.steady
    (f := fun a => { a with keyAuthority := (0 : Int32) != 0 }) hk (.of_eq rfl rfl rfl)
  refine ⟨hsteady, fun a ha => ?_⟩
  have hnone : ((0 : Int32) != 0) = false := by decide
  rw [hset a ha, hnone, ← hkey]

theorem applyKeyringPolicy_spec (hkey : p.attrs.keyAuthority = false) (keyring : Keyring) :
    Safely kernel (Steady own) (applyKeyringPolicy keyring)
      (fun _ q => q = { p with attrs := { p.attrs with
        ownKeyring := keyring = .reset || p.attrs.ownKeyring
        reqkeyKeyring := if keyring = .reset then KEY_REQKEY_DEFL_SESSION_KEYRING
          else p.attrs.reqkeyKeyring } }) p := by
  cases keyring with
  | inheritAuthority => exact Safely.pure rfl
  | inherit => exact assumeNoAuthority_spec hkey
  | reset =>
    apply (assumeNoAuthority_spec hkey).bind
    intro _ p₁ _ hp₁
    subst hp₁
    refine Safely.bind (Q := fun _ q => q = { p₁ with attrs := { p₁.attrs with
      ownKeyring := true } }) (attempt_spec (perform_spec fun r q hk => ?_)) fun _ p₂ _ hp₂ => ?_
    · exact Sets.steady (f := fun a => { a with ownKeyring := true }) hk (.of_eq rfl rfl rfl)
    · subst hp₂
      refine attempt_spec (perform_spec fun r q hk => ?_)
      exact Sets.steady (f := fun a => { a with
        reqkeyKeyring := KEY_REQKEY_DEFL_SESSION_KEYRING }) hk (.of_eq rfl rfl rfl)

/-- From the root of the guest, the working directory stays inside. -/
theorem spawnCallback_spec (command : CommandInner) (hroot : p.attrs.root = p.attrs.cwd) :
    Safely kernel (Steady own) (spawnCallback command)
      (fun action q => action = command.spawnAction ∧ (∃ cwd, q.mounts = { p.mounts with cwd }) ∧
        q.attrs = p.attrs) p := by
  refine Safely.bind (Q := fun _ q => (∃ cwd, q.mounts = { p.mounts with cwd }) ∧
    q.attrs = p.attrs) ?_ fun _ q _ hq => Safely.pure ⟨rfl, hq⟩
  cases command.workingDirectory with
  | none => exact Safely.pure ⟨⟨p.mounts.cwd, rfl⟩, rfl⟩
  | some workingDirectory =>
    apply (onMounts_spec (settled_spec (M := Prepares)
      (Mounting.guestAsCStr_spec (Q := fun _ t => t = p.mounts) fun _ => rfl)
      (MakesOnly.quiet (makesOnly_guestAsCStr PATH_MAX workingDirectory.inner)))).bind
    intro path p₁ _ hp₁
    obtain ⟨hmounts, hattrs, -⟩ := hp₁
    apply (chdir_spec path).mono
    intro _ q hq
    obtain ⟨⟨cwd, hcwd⟩, hq⟩ := hq
    refine ⟨⟨cwd, by rw [hcwd, hmounts]⟩, ?_⟩
    rw [hq, hattrs, hroot, ite_self]

/-! ## The last limits -/

/-- One more limit, of a resource that had none. -/
theorem limitsOver_concat {table : List (UInt32 × Option Rlimit)} {resource : UInt32}
    (hnew : resource ∉ table.map Prod.fst) (inherited : UInt32 → UInt64 × UInt64)
    (limit : Option Rlimit) :
    limitsOver (table ++ [(resource, limit)]) inherited = match limit with
      | some limit => Function.update (limitsOver table inherited) resource limit.intoRaw
      | none => limitsOver table inherited := by
  have hlookup : table.lookup resource = none := by
    rw [List.lookup_eq_none_iff]
    intro entry hentry
    exact bne_iff_ne.mpr fun h => hnew (h ▸ List.mem_map_of_mem hentry)
  funext other
  by_cases hother : other = resource
  · subst hother
    cases limit <;> simp [limitsOver, List.lookup_append, hlookup]
  · have hne : (other == resource) = false := by simp [hother]
    cases limit <;> simp [limitsOver, List.lookup_append, List.lookup_cons, hne, hother]

theorem table_nodup (policy : Rlimits) : (policy.table.map Prod.fst).Nodup := by
  show List.Nodup [RLIMIT_AS, RLIMIT_CORE, RLIMIT_CPU, RLIMIT_DATA, RLIMIT_FSIZE, RLIMIT_LOCKS,
    RLIMIT_MEMLOCK, RLIMIT_MSGQUEUE, RLIMIT_NICE, RLIMIT_NOFILE, RLIMIT_NPROC, RLIMIT_RTPRIO,
    RLIMIT_RTTIME, RLIMIT_SIGPENDING, RLIMIT_STACK]
  decide

theorem implementLimit_spec (resource : UInt32) (limit : Option Rlimit) :
    Safely kernel (Steady own) (implementLimit resource limit)
      (fun _ q => q = { p with attrs := { p.attrs with
        rlimits := match limit with
          | some limit => Function.update p.attrs.rlimits resource limit.intoRaw
          | none => p.attrs.rlimits } }) p := by
  cases limit with
  | none => exact Safely.pure rfl
  | some limit =>
    exact attempt_spec (perform_spec fun r q hk =>
      Sets.steady (f := fun a => { a with
        rlimits := Function.update a.rlimits resource limit.intoRaw }) hk (.of_eq rfl rfl rfl))

theorem applyResourceLimitPolicy_spec (limits : Rlimits) :
    Safely kernel (Steady own) (applyResourceLimitPolicy limits)
      (fun _ q => q = { p with attrs := { p.attrs with
        rlimits := limits.over p.attrs.rlimits } }) p := by
  refine Safely.foldlM (G := Steady own) (fun pre _ t => t = { p with attrs := { p.attrs with
    rlimits := limitsOver pre p.attrs.rlimits } }) (fun pre limit post _ t hsplit ht => ?_) rfl
  have hnew : limit.1 ∉ pre.map Prod.fst := by
    have hnodup := table_nodup limits
    rw [hsplit, List.map_append, List.map_cons] at hnodup
    exact fun hmem => (List.nodup_append.mp hnodup).2.2 _ hmem _ List.mem_cons_self rfl
  apply (implementLimit_spec limit.1 limit.2).mono
  intro _ q hq
  rw [hq, ht, limitsOver_concat hnew]

theorem simulates_fds : Simulates Op.fds (fun _ r => r) fdKernel kernel Process.fds := by
  intro p op r q hk
  obtain ⟨fds, hfds, rfl⟩ := hk
  exact hfds

/-- What the calls on the descriptors make of the table, and that they change nothing else. -/
theorem withinFds_spec {part : ExceptT PostSpawnGuest (Prog FdCalls) Unit}
    {P : Table OpenFile → Prop}
    (h : Wp fdKernel part.run (fun r fds => r = .ok () → P fds) p.fds) :
    Safely kernel (Contained own) (within Op.fds (fun _ r => r) part)
      (fun _ q => ∃ fds : Table OpenFile, q = { p with fds } ∧ P fds) p := by
  have hrest : Sat kernel (· = ·) (Contained own) (part.run.embed Op.fds fun _ r => r)
      (fun _ q => ∃ fds, q = { p with fds }) p := by
    have hcalls : (part.run.embed (J := Calls) Op.fds fun _ r => r).Calls
        fun op => ∃ o, op = Op.fds o := Prog.embed_calls (fun o => ⟨o, rfl⟩) part.run
    refine hcalls.sat (J := fun q => ∃ fds, q = { p with fds }) (fun t op r u hop ht hk => ?_)
      ⟨p.fds, rfl⟩
    obtain ⟨o, rfl⟩ := hop
    obtain ⟨fds, -, rfl⟩ := hk
    obtain ⟨fds', rfl⟩ := ht
    exact ⟨⟨Std.Refl.refl p.mounts, Confines.refl p.attrs⟩, fds, rfl⟩
  refine within_spec ((((Sat.embed simulates_fds h).and hrest).weaken
    fun _ _ h => h.2).mono fun r q hq a ha => ?_)
  obtain ⟨hfds, fds, rfl⟩ := hq
  exact ⟨fds, rfl, hfds ha⟩

/-- What is left open for the command is what the policy asks for. -/
theorem fileDescriptorPolicy_spec {guestPipe : RawFd}
    (hpipe : p.fds guestPipe = some ⟨.pipe, true⟩)
    (hsources : ∀ n source, policy.fileDescriptors.actions n = some (.map source) →
      ∃ e, p.fds source = some e)
    (hunpiped : ∀ n, policy.fileDescriptors.actions n ≠ some (.map guestPipe)) :
    Safely kernel (Contained own) (fileDescriptorPolicy policy guestPipe)
      (fun _ q => ∃ fds : Table OpenFile, q = { p with fds } ∧
        ∀ n, fds.exec n = expected policy.fileDescriptors.actions p.fds n) p := by
  have htable := applyFileDescriptorPolicy_table policy.fileDescriptors policy.validDescriptors
    p.fds guestPipe .pipe hpipe hsources hunpiped
  exact withinFds_spec (Wp.bind (htable.mono fun r fds hr => wp_done.mpr hr.2))

theorem setAmbientCapabilities_limited (lastCap : Fin 64) (target : Capabilities.CapabilitySet)
    {c : Capabilities.Creds}
    (h : (Capabilities.setAmbientCapabilities lastCap target).run
      (Capabilities.limited lastCap target) = (.ok (), c)) :
    c = Capabilities.confinedCreds target := by
  unfold Capabilities.setAmbientCapabilities at h
  rw [List.range_eq_range'] at h
  have hraise := Capabilities.setAmbientCapabilitiesFrom_raisable lastCap target 64 0 _ _ rfl h
  have hknown := Capabilities.and_fullSet lastCap fun i hi => (hraise i (Nat.zero_le i) hi).1
  obtain ⟨ambient, hrun, hambient⟩ :=
    Capabilities.setAmbientCapabilitiesFrom_spec lastCap target 64 0 _ rfl hraise
  have hsame : ambient = target := by
    apply BitVec.eq_of_getLsbD_eq
    intro i _
    rw [hambient i]
    simp [Capabilities.limited]
  rw [hrun] at h
  cases h
  rw [hsame]
  simp [Capabilities.limited, Capabilities.confinedCreds,
    BitVec.and_comm (Capabilities.fullSet lastCap), hknown]

theorem setAmbientCapabilities_spec
    (hcreds : p.attrs.creds =
      Capabilities.limited p.attrs.host.lastCap policy.targetCapabilities) :
    Safely kernel (Steady own)
      (attemptWith .syscall
        (perform (I := Calls) (.setAmbientCapabilities policy.targetCapabilities)))
      (fun _ q => q = { p with attrs := { p.attrs with
        creds := Capabilities.confinedCreds policy.targetCapabilities } }) p := by
  refine attemptWith_spec (perform_spec fun r q hk => ?_)
  have hrun : (r, q) = _ := hk
  rw [hcreds] at hrun
  generalize hout : (Capabilities.setAmbientCapabilities p.attrs.host.lastCap
    policy.targetCapabilities).run _ = out at hrun
  obtain ⟨result, creds⟩ := out
  obtain ⟨rfl, rfl⟩ := Prod.mk.inj hrun
  refine ⟨Steady.of_attrs (.of_eq rfl rfl rfl), fun u hu => ?_⟩
  rw [hu] at hout
  rw [setAmbientCapabilities_limited _ _ hout]

/-- The filters, the newest first. -/
def filtersOver (policy : Policy) (inherited : List (List SockFilter)) : List (List SockFilter) :=
  match policy.seccompFilter with
  | some filter => filter :: inherited
  | none => inherited

theorem seccompSetModeFilter_spec (filter : List SockFilter) :
    Safely kernel (Steady own) (seccompSetModeFilter filter)
      (fun _ q => q = { p with attrs := { p.attrs with
        filters := filter :: p.attrs.filters } }) p := by
  unfold seccompSetModeFilter
  split
  · exact attempt_spec (perform_spec fun r q hk =>
      Sets.steady (f := fun a => { a with filters := filter :: a.filters }) hk (.of_eq rfl rfl rfl))
  · exact Safely.error

/-- What the last limits make of the process. -/
def limited (policy : Policy) (a : Attrs) : Attrs :=
  { a with
    rlimits := policy.rlimits.over a.rlimits
    creds := Capabilities.confinedCreds policy.targetCapabilities
    filters := filtersOver policy a.filters }

theorem confine_spec {guestPipe : RawFd}
    (hpipe : p.fds guestPipe = some ⟨.pipe, true⟩)
    (hsources : ∀ n source, policy.fileDescriptors.actions n = some (.map source) →
      ∃ e, p.fds source = some e)
    (hunpiped : ∀ n, policy.fileDescriptors.actions n ≠ some (.map guestPipe))
    (hcreds : p.attrs.creds =
      Capabilities.limited p.attrs.host.lastCap policy.targetCapabilities) :
    Safely kernel (Contained own) (confine policy guestPipe)
      (fun _ q => ∃ fds : Table OpenFile, q = ⟨p.mounts, fds, limited policy p.attrs⟩ ∧
        ∀ n, fds.exec n = expected policy.fileDescriptors.actions p.fds n) p := by
  apply (fileDescriptorPolicy_spec hpipe hsources hunpiped).bind
  intro _ p₁ _ hp₁
  obtain ⟨fds, rfl, hfds⟩ := hp₁
  apply ((applyResourceLimitPolicy_spec policy.rlimits).weaken fun _ _ h => h.contained).bind
  intro _ p₂ _ hp₂
  apply ((setAmbientCapabilities_spec (by rw [hp₂]; exact hcreds)).weaken
    fun _ _ h => h.contained).bind
  intro _ p₃ _ hp₃
  subst hp₂
  unfold limited filtersOver
  cases policy.seccompFilter with
  | none => exact Safely.pure ⟨fds, hp₃, hfds⟩
  | some filter =>
    apply ((seccompSetModeFilter_spec filter).weaken fun _ _ h => h.contained).mono
    intro _ q hq
    exact ⟨fds, by rw [hq, hp₃], hfds⟩

/-- What the phases behind the root make of the process. -/
def finished (policy : Policy) (guestRootFd : RawFd) (own : Object) (oldUmask : UInt32)
    (users : List UserNamespace) (net : Option NetNamespace) (coreCookie : Bool) (a : Attrs) :
    Attrs :=
  { entered guestRootFd own a with
    uts := policy.namespaces.utsOver a.uts
    net
    umask := oldUmask
    ownSession := policy.newSession || a.ownSession
    users
    creds := Capabilities.limited a.host.lastCap policy.targetCapabilities
    sched := (policy.scheduler.attributes.map (·.schedAttr)).or a.sched
    oomScoreAdj := (policy.scheduler.oomScoreAdjustment.map UInt16.toNat).or a.oomScoreAdj
    coreCookie
    ownKeyring := policy.keyring = .reset || a.ownKeyring
    reqkeyKeyring := if policy.keyring = .reset then KEY_REQKEY_DEFL_SESSION_KEYRING
      else a.reqkeyKeyring }

theorem finishGuest_spec [Itoa] [LawfulItoa] {procFd guestRootFd : RawFd} {user : UserNamespace}
    {outer : List UserNamespace} (hns : p.mounts.ns = own) (hroot : p.attrs.root = none)
    (hroots : (p.attrs.namespaces own).roots = [.own])
    (hplace : p.mounts.places guestRootFd = some (.root guestRootFd))
    (hproc : p.IsProc procFd [])
    (huts : policy.namespaces.uts.isShared = false → p.attrs.uts.isSome = true)
    (hnet : policy.namespaces.network.isShared = false →
      ∃ net, p.attrs.net = some net ∧ net.devices = Loopback.fresh)
    (husers : p.attrs.users = user :: outer)
    (hcreds : p.attrs.creds =
      Capabilities.dropped p.attrs.host.lastCap policy.targetCapabilities)
    (hkey : p.attrs.keyAuthority = false) (oldUmask : UInt32) (uid : Uid) (gid : Gid)
    (command : CommandInner) :
    Safely kernel (Steady own)
      (finishGuest policy procFd oldUmask guestRootFd uid gid (spawnCallback command))
      (fun action q => action = command.spawnAction ∧ ∃ net coreCookie,
        policy.namespaces.NetOver p.attrs net ∧
        q.attrs = finished policy guestRootFd own oldUmask
          (policy.namespaces.nested uid gid user outer) net coreCookie p.attrs) p := by
  apply (enterRoot_spec hns hroot hroots hplace).bind
  intro _ p₁ h₁ hattrs₁
  apply (configureUts_spec (by rw [hattrs₁]; exact huts)).andThen h₁
  intro _ p₂ h₂ hp₂
  apply (isolateNetwork_spec (hproc.keeps h₂.mounts.toKeeps) (by
    rw [hp₂, hattrs₁]; exact hnet)).andThen h₂
  intro _ p₃ h₃ hp₃
  obtain ⟨net, hattrs₃, hover⟩ := hp₃
  rw [hp₂, hattrs₁] at hattrs₃ hover
  apply (restoreUmask_spec oldUmask).andThen h₃
  intro _ p₄ h₄ hp₄
  apply (newSession_spec policy).andThen h₄
  intro _ p₅ h₅ hp₅
  have hattrs₅ : p₅.attrs = { entered guestRootFd own p.attrs with
      uts := policy.namespaces.utsOver p.attrs.uts
      net
      umask := oldUmask
      ownSession := policy.newSession || p.attrs.ownSession } := by
    rw [hp₅, hp₄, hattrs₃]
    rfl
  apply (disableUserns_spec (hproc.keeps h₅.mounts.toKeeps) (by rw [hattrs₅]; exact husers)
    (by rw [hattrs₅]; exact hcreds) (by rw [hattrs₅]; exact hkey) uid gid).andThen h₅
  intro _ p₆ h₆ hattrs₆
  apply (setCapabilities_spec (by rw [hattrs₆, hattrs₅]; exact hcreds)).andThen h₆
  intro _ p₇ h₇ hp₇
  apply (applySchedulerPolicy_spec (hproc.keeps h₇.mounts.toKeeps) policy.scheduler).andThen h₇
  intro _ p₈ h₈ hp₈
  obtain ⟨coreCookie, hattrs₈⟩ := hp₈
  apply (applyKeyringPolicy_spec (by rw [hattrs₈, hp₇, hattrs₆, hattrs₅]; exact hkey)
    policy.keyring).andThen h₈
  intro _ p₉ h₉ hp₉
  apply (spawnCallback_spec command (by rw [hp₉, hattrs₈, hp₇, hattrs₆, hattrs₅]; rfl)).mono
  intro action q hq
  obtain ⟨haction, -, hattrs⟩ := hq
  refine ⟨haction, net, coreCookie, hover, ?_⟩
  rw [hattrs, hp₉, hattrs₈, hp₇, hattrs₆, hattrs₅]
  rfl

end After

end LayerCake.Bubblebox.Sandbox
