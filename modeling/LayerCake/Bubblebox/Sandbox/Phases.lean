import LayerCake.Bubblebox.Sandbox.Procfs

/-
  What the phases of the guest do to the process, up to its root.

  What is proved: each phase keeps `Steady`, is never undefined, and where it succeeds it has
  changed the process in one way, which its specification states as an equation.
    1. `resetSignalDispositions_spec` — no signal is left ignored.
    2. `guestPostCloneHook_spec` — the guest goes on only where its backend has placed it.
    3. `prepareRoot_spec` — the mounts are in place underneath the root of the guest, which is
       not entered yet, in a mount namespace of its own.
    4. `enterRoot_spec` — the mount that was the root is gone, and the guest is at the new one.
-/

namespace LayerCake.Bubblebox.Sandbox

open LayerCake.Effects LayerCake.Meowix LayerCake.Linux
open LayerCake.Bubblebox.Spawn
open LayerCake.Bubblebox.Spawn.Mounting (Object Buffers Keeps Prepares)

/-! ## One call -/

section Calls
variable {α ε : Type} {own : Object} {p q : Process} {f : Attrs → Attrs}

/-- The `?` on a call. -/
theorem attempt_spec {G : Process → Process → Prop} {syscall : Syscall}
    {call : Prog Calls (Except Errno α)} {Q : α → Process → Prop}
    (h : Sat kernel (· = ·) G call (fun r t => ∀ a, r = .ok a → Q a t) p) :
    Safely kernel G (attempt syscall call) Q p := by
  refine sat_tryCall (h.mono fun r t hr => ?_)
  cases r with
  | ok a => exact sat_done.mpr (hr a rfl)
  | error e => exact sat_done.mpr (by simp)

theorem attemptWith_spec {G : Process → Process → Prop} {into : ε → PostSpawnGuest}
    {call : Prog Calls (Except ε α)} {Q : α → Process → Prop}
    (h : Sat kernel (· = ·) G call (fun r t => ∀ a, r = .ok a → Q a t) p) :
    Safely kernel G (attemptWith into call) Q p := by
  refine Sat.bind (h.mono fun r t hr => ?_)
  cases r with
  | ok a => exact sat_done.mpr (hr a rfl)
  | error e => exact sat_done.mpr (by simp)

/-- A call that sets some of the attributes. -/
theorem Sets.steady {r : Except ε α} (h : Sets p q r f) (hown : Confines own p.attrs (f p.attrs)) :
    Steady own p q ∧ ∀ a, r = .ok a → q = { p with attrs := f p.attrs } := by
  cases r with
  | ok a =>
    have hq : q = { p with attrs := f p.attrs } := h
    rw [hq]
    exact ⟨Steady.of_attrs hown, fun _ _ => rfl⟩
  | error e =>
    have hq : q = p := h
    rw [hq]
    exact ⟨Std.Refl.refl p, fun _ ha => by cases ha⟩

theorem SetsIf.steady {r : Except ε α} {condition : Prop} (h : SetsIf p q r condition f)
    (hc : condition) (hown : Confines own p.attrs (f p.attrs)) :
    Steady own p q ∧ ∀ a, r = .ok a → q = { p with attrs := f p.attrs } := by
  cases r with
  | ok a => exact Sets.steady (r := (.ok a : Except ε α)) (h.1 hc) hown
  | error e => exact Sets.steady (r := (.error e : Except ε α)) h hown

/-- One call, by what the kernel does. -/
theorem perform_spec {op : Op} {Q : Calls.Res op → Process → Prop}
    (h : ∀ r q, kernel p op r q → Steady own p q ∧ Q r q) :
    Sat kernel (· = ·) (Steady own) (perform (I := Calls) op) Q p :=
  Sat.next fun r q hk => ⟨(h r q hk).1, sat_done.mpr (h r q hk).2⟩

end Calls

/-! ## Before the mounts -/

section Before
variable {own : Object} {p q : Process}

/-- A new user namespace comes with capabilities enough to drop all others. -/
theorem dropBoundingSet_spec (policy : Policy)
    (hcreds : p.attrs.creds = Capabilities.freshUserNamespace p.attrs.host.lastCap) :
    Safely kernel (Steady own) (dropBoundingSet policy)
      (fun _ q => q = { p with attrs := { p.attrs with
        creds := Capabilities.dropped p.attrs.host.lastCap policy.targetCapabilities } }) p := by
  refine attemptWith_spec (perform_spec fun r q hk => ?_)
  have hrun : (r, q) = _ := hk
  rw [hcreds, Capabilities.dropBoundingSet_fresh, Prod.mk.injEq] at hrun
  rw [hrun.2]
  exact ⟨Steady.of_attrs (.of_eq rfl rfl rfl), fun _ _ => rfl⟩

/-- The signals are reset, but for those that cannot be handled. -/
def reset (signals : List Nat) (dispositions : Nat → Disposition) (signal : Nat) : Disposition :=
  if signal ∈ signals ∧ signal ≠ SIGKILL ∧ signal ≠ SIGSTOP then .default
  else dispositions signal

theorem reset_nil (dispositions : Nat → Disposition) : reset [] dispositions = dispositions := by
  funext signal
  simp [reset]

theorem reset_concat (signals : List Nat) (dispositions : Nat → Disposition) (signal : Nat) :
    reset (signals ++ [signal]) dispositions =
      if signal = SIGKILL ∨ signal = SIGSTOP then reset signals dispositions
      else Function.update (reset signals dispositions) signal .default := by
  funext other
  by_cases hother : other = signal
  · subst hother
    split
    · next h => rcases h with h | h <;> simp [reset, h]
    · next h => simp [reset, not_or.mp h]
  · split
    · simp [reset, hother]
    · simp [reset, hother]

theorem resetSignal_spec (signal : Nat) :
    Safely kernel (Steady own) (resetSignal signal)
      (fun _ q => q = { p with attrs := { p.attrs with
        dispositions := if signal = SIGKILL ∨ signal = SIGSTOP then p.attrs.dispositions
          else Function.update p.attrs.dispositions signal .default } }) p := by
  unfold resetSignal
  split
  · exact Safely.pure rfl
  · refine attempt_spec (perform_spec fun r q hk => ?_)
    exact Sets.steady (f := fun a => { a with
      dispositions := Function.update a.dispositions signal .default }) hk (.of_eq rfl rfl rfl)

theorem resetSignalDispositions_spec :
    Safely kernel (Steady own) resetSignalDispositions
      (fun _ q => q = { p with attrs := { p.attrs with
        dispositions := reset (List.range' 1 _NSIG) p.attrs.dispositions
        blocked := 0 } }) p := by
  refine Safely.bind (Q := fun _ q => q = { p with attrs := { p.attrs with
    dispositions := reset (List.range' 1 _NSIG) p.attrs.dispositions } }) ?_ fun _ q _ hq => ?_
  · refine Safely.foldlM (G := Steady own) (fun pre _ t => t = { p with attrs := { p.attrs with
      dispositions := reset pre p.attrs.dispositions } }) (fun pre signal post _ t _ ht => ?_) ?_
    · apply (resetSignal_spec signal).mono
      intro _ q hq
      rw [hq, ht, reset_concat]
    · rw [reset_nil]
  · subst hq
    refine attempt_spec (perform_spec fun r t hk => ?_)
    cases r with
    | ok u =>
      obtain ⟨blocked, hblocked, rfl⟩ := hk
      refine ⟨Steady.of_attrs (.of_eq rfl rfl rfl), fun _ _ => ?_⟩
      rw [hblocked rfl]
    | error e =>
      have ht : t = _ := hk
      rw [ht]
      exact ⟨Std.Refl.refl _, fun _ ha => by cases ha⟩

/-! ### The cgroups -/

/-- Whatever its byte order, a count that is not zero has a byte that is not. -/
theorem value_ne_zero {e : Endian} {bytes : Bytes} (h : e.value bytes ≠ 0) :
    bytes.any (· != 0) = true := by
  by_contra hzero
  rw [Bool.not_eq_true, List.any_eq_false] at hzero
  apply h
  have hleast : ∀ digit ∈ (e.leastFirst bytes).map UInt8.toNat, digit = 0 := by
    intro digit hdigit
    obtain ⟨byte, hbyte, rfl⟩ := List.mem_map.mp hdigit
    have hmem : byte ∈ bytes := by
      cases e with
      | little => exact hbyte
      | big => exact List.mem_reverse.mp hbyte
    rw [show byte = 0 by simpa using hzero byte hmem]
    rfl
  rw [Endian.value, List.eq_replicate_of_mem hleast]
  exact Nat.ofDigits_replicate_zero

/-- A part that makes calls of another interface. -/
theorem within_spec {I : Interface} {α : Type} {op : I.Op → Op}
    {res : ∀ o, Calls.Res (op o) → I.Res o} {part : ExceptT PostSpawnGuest (Prog I) α}
    {G : Process → Process → Prop} {Q : α → Process → Prop}
    (h : Sat kernel (· = ·) G (part.run.embed op res) (fun r t => ∀ a, r = .ok a → Q a t) p) :
    Safely kernel G (within op res part) Q p := by
  refine Sat.bind (h.mono fun r t hr => ?_)
  cases r with
  | ok a => exact sat_done.mpr (hr a rfl)
  | error e => exact sat_done.mpr fun h => by cases h

/-- The calls of the cgroups, in front of the kernel of the guest. -/
def cgroupsKernel : Kernel Cgroups.CgroupCalls Process := fun p op r q => kernel p (.cgroups op) r q

theorem cgroupsKernel_steady {op : Cgroups.CgroupOp} {r : Cgroups.CgroupCalls.Res op}
    (h : cgroupsKernel p op r q) : Steady own p q := by
  have hq : q = { p with attrs := p.attrs.heard op r } := h
  rw [hq]
  refine Steady.of_attrs ?_
  unfold Attrs.heard
  split
  · exact .of_eq rfl rfl rfl
  · exact Confines.refl _

/-- The guest waits until the host has moved it. -/
theorem awaitHost_spec (e : Endian) :
    Partly cgroupsKernel (Steady own) (Cgroups.guestPostCloneHook e .preClone)
      (fun _ q => q = { p with attrs := { p.attrs with placed := true } }) p := by
  refine Partly.bind (Q := fun value q => q = { p with attrs := { p.attrs with
    placed := p.attrs.placed || value.any (· != 0) } })
    (sat_tryCall (Sat.callUntil (· = p) rfl (stable_eq _) ?_ ?_)) fun value q hq => ?_
  · -- an interrupted call read nothing
    intro t r t' ht hk hr
    subst ht
    cases r with
    | ok value => cases hr
    | error e => exact ⟨cgroupsKernel_steady hk, hk⟩
  · intro t r t' ht hk _
    subst ht
    refine ⟨cgroupsKernel_steady hk, sat_done.mpr ?_⟩
    cases r with
    | ok value =>
      refine sat_done.mpr fun a ha => ?_
      cases ha
      exact hk
    | error e => exact sat_done.mpr fun a ha => by cases ha
  · show Partly cgroupsKernel (Steady own) (if value.length ≠ 8 then throw .incompleteWrite
      else if e.value value = 0 then throw (.other .invalidCgroupsState) else pure () :
        ExceptT PostSpawnGuest (Prog Cgroups.CgroupCalls) Unit) _ q
    split
    · exact sat_done.mpr fun a ha => by cases ha
    · split
      · exact sat_done.mpr fun a ha => by cases ha
      · next hvalue =>
        rw [value_ne_zero hvalue, Bool.or_true] at hq
        exact Partly.pure hq

/-- A guest that goes on is where its backend places it. -/
theorem guestPostCloneHook_spec (order : ByteOrder) (cgroups : Backend)
    (hplaced : p.attrs.placed = cgroups.cloneArgsCgroup) :
    Safely kernel (Steady own) (guestPostCloneHook order cgroups)
      (fun _ q => q = { p with attrs := { p.attrs with placed := cgroups.places } }) p := by
  have hsim : Simulates Op.cgroups (fun _ r => r) cgroupsKernel kernel fun p => p :=
    fun _ _ _ _ hk => hk
  have hidle : Partly cgroupsKernel (Steady own) (pure () :
      ExceptT PostSpawnGuest (Prog Cgroups.CgroupCalls) Unit)
      (fun _ q => q = { p with attrs := { p.attrs with placed := cgroups.cloneArgsCgroup } }) p :=
    Partly.pure (by rw [← hplaced])
  refine within_spec (Sat.embed hsim ?_)
  cases cgroups with
  | null => exact hidle
  | owned => exact hidle
  | systemd state =>
    cases state with
    | preClone => exact awaitHost_spec (endianOf order)
    | postClone tree unitName => exact sat_done.mpr fun a ha => by cases ha

theorem unshare_newcgroup (a : Attrs) :
    a.unshare CLONE_NEWCGROUP = { a with cgroup := some a.placed } := by
  have huser : (CLONE_NEWCGROUP &&& CLONE_NEWUSER != 0) = false := by decide
  have hcgroup : (CLONE_NEWCGROUP &&& CLONE_NEWCGROUP != 0) = true := by decide
  have htime : (CLONE_NEWCGROUP &&& CLONE_NEWTIME != 0) = false := by decide
  have hnet : (CLONE_NEWCGROUP &&& CLONE_NEWNET != 0) = false := by decide
  simp only [Attrs.unshare, huser, hcgroup, htime, hnet, Bool.false_eq_true, if_true, if_false]

theorem unshareCgroup_spec :
    Safely kernel (Steady own) (onMounts (Mounting.unshare CLONE_NEWCGROUP))
      (fun _ q => q = { p with attrs := { p.attrs with cgroup := some p.attrs.placed } }) p := by
  have hown : Confines own p.attrs (p.attrs.unshare CLONE_NEWCGROUP) := by
    rw [unshare_newcgroup]
    exact .of_eq rfl rfl rfl
  apply (onMounts_spec (unshareOther_spec (by decide) hown)).mono
  intro _ q hq
  rw [hq.1, unshare_newcgroup]

end Before

/-! ## The mounts -/

section Mounts
variable {own : Object} {policy : Policy} {p q : Process}

theorem setUmask_spec (mode : UInt32) :
    Safely kernel (Steady own) (setUmask mode)
      (fun old q => old = p.attrs.umask ∧ q = { p with attrs := { p.attrs with umask := mode } })
      p := by
  refine attempt_spec (perform_spec fun r q hk => ?_)
  obtain ⟨rfl, rfl⟩ := hk
  refine ⟨Steady.of_attrs (.of_eq rfl rfl rfl), fun old hold => ?_⟩
  cases hold
  exact ⟨rfl, rfl⟩

theorem makePrivate_spec (hns : p.mounts.ns = own) (hroot : p.attrs.root = none) :
    Safely kernel (Steady own) makePrivate
      (fun _ q => q = { p with
        attrs := p.attrs.mapNamespace own fun ns => { ns with isPrivate := true } }) p := by
  subst hns
  refine attempt_spec (perform_spec fun r q hk => ?_)
  exact SetsIf.steady (f := fun a => a.mapNamespace p.mounts.ns fun ns =>
    { ns with isPrivate := true }) hk ⟨rfl, rfl, hroot⟩ (Confines.mapNamespace _)

/-- The mounts that the passes left in the slots, with a root that none of them is. -/
theorem realisedUpTo_zero [Itoa] {todo : List ((Bubblebox.Guest × Mount) × Nat)}
    {s t : Mounting.State}
    {items : List Mounting.ResolvedMount} {spare : Spare Mounting.ResolvedMount}
    {guestRootFd : RawFd}
    (hfilled : Mounting.Filled policy.mountTree.size spare todo s)
    (hresolved : List.Forall₂ (Mounting.Resolves s) policy.mountTree.tree.toList items)
    (hperm : items.Perm (spare.written.map Prod.snd)) (hst : Prepares s t)
    (hattached : s.attached = []) (hnew : s.objects guestRootFd = none)
    (hplace : t.places guestRootFd = some (.root guestRootFd))
    (hoff : t.OffHost (.root guestRootFd)) :
    Mounting.RealisedUpTo policy.toPolicy items guestRootFd 0 t where
  resolved := hresolved.imp fun _ _ hres => hres.keeps hst.toKeeps
  nodup := by
    rw [(hperm.filterMap _).nodup_iff, List.filterMap_map]
    exact hfilled.nodup
  root_place := hplace
  root_offHost := hoff
  root_new hmem := by
    -- the mounts were open before the root was
    obtain ⟨x, hx, hxfd⟩ := List.mem_filterMap.mp hmem
    obtain ⟨m, -, hres⟩ := exists_of_mem_left hresolved.flip hx
    have hopen := Mounting.Resolves.isOpen hres hxfd
    rw [hnew] at hopen
    cases hopen
  layout := by
    have hnone : ∀ e ∈ t.attached, False := by
      rw [hst.attached, hattached]
      exact fun e he => List.not_mem_nil he
    exact ⟨fun _ => [], rfl, fun e he => (hnone e he).elim, fun e he => (hnone e he).elim⟩
  realised j _ hj := absurd hj (Nat.not_lt_zero j)

/-- What `prepareRoot` makes of the process. -/
def prepared (policy : Policy) (own : Object) (users : List UserNamespace) (a : Attrs) : Attrs :=
  { a with
    users
    time := policy.namespaces.timeOver a.time
    timeForChildren := policy.namespaces.timeOver a.timeForChildren
    umask := 0
    root := none
    cwd := none
    namespaces := Function.update a.namespaces own { a.namespaces own with isPrivate := true } }

/-- Where the binds have left the guest. -/
structure BindsDone [Itoa] (policy : Policy) (own : Object) (binds : Binds) (p : Process) :
    Prop where
  filled : Mounting.Filled policy.mountTree.size binds.1.spare
    (Mounting.ofPass .bind policy.mountTree.tree.toList.zipIdx) p.mounts
  cloned : List.Forall₂ (Mounting.LayerCloned p.mounts) binds.2.1.overlayFds.items
    (Mounting.layersOf policy.mountTree.tree.toList.zipIdx)
  overlays : binds.2.1.overlayMounts.items.map Mounting.OverlayMount.mapping =
    Mounting.ofPass .overlay policy.mountTree.tree.toList.zipIdx
  count : binds.2.2 = (Mounting.ofPass .bind policy.mountTree.tree.toList.zipIdx).length
  held : Mounting.Held policy.mountTree.tree.toList p.mounts
  attached : p.mounts.attached = []
  ns : p.mounts.ns = own
  root : p.attrs.root = none
  cwd : p.attrs.cwd = none

theorem finishMounts_spec [Itoa] [LawfulItoa] {binds : Binds} (h : BindsDone policy own binds p)
    {user : UserNamespace} {outer : List UserNamespace} (husers : p.attrs.users = user :: outer)
    (hostUid guestUid : Uid) (hostGid guestGid : Gid) :
    Safely kernel (Steady own) (finishMounts policy hostUid guestUid hostGid guestGid binds)
      (fun r q => q.IsProc r.1 [] ∧ r.2.1 = p.attrs.umask ∧
        r.2.2.2.length = policy.mountTree.size ∧
        Mounting.RealisedUpTo policy.toPolicy r.2.2.2 r.2.2.1 0 q.mounts ∧
        q.attrs = prepared policy own
          (user.mapped guestUid.val hostUid.val guestGid.val hostGid.val :: outer) p.attrs) p := by
  have hsize : policy.mountTree.tree.toList.length = policy.mountTree.size :=
    Std.TreeMap.length_toList
  apply (onMounts_spec (setupProcfs_spec policy)).bind
  intro procFd p₁ h₁ hproc
  obtain ⟨hproc, hattrs₁⟩ := hproc
  apply (onMounts_spec (writeSimpleUidGidMap_spec _ _ _ _ hproc)).bind
  intro _ p₂ k₂ hattrs₂
  have h₂ : Steady own p p₂ := IsTrans.trans _ _ _ h₁ k₂
  have hproc := hproc.keeps k₂.mounts.toKeeps
  have hfilled := h.filled.keeps h₂.mounts.toKeeps
  have hcloned := h.cloned.imp fun _ _ hl => hl.keeps h₂.mounts.toKeeps
  rw [← hsize] at hfilled
  apply (onMounts_spec (quiet_spec (quiet_finishOverlayMountResolution _ _ _)
    (Mounting.finishOverlayMountResolution_spec hfilled hcloned h.overlays))).bind
  intro r₃ p₃ k₃ hoverlays
  obtain ⟨⟨-, hfilled, hnOverlay⟩, hattrs₃⟩ := hoverlays
  have hproc := hproc.keeps k₃.mounts.toKeeps
  apply (onMounts_spec (configureTime_spec policy hproc)).bind
  intro _ p₄ k₄ hattrs₄
  have h₄ : Steady own p p₄ := IsTrans.trans _ _ _ h₂ (IsTrans.trans _ _ _ k₃ k₄)
  have hproc := hproc.keeps k₄.mounts.toKeeps
  -- what is made from here on has the permissions the policy gives it
  apply (setUmask_spec 0).bind
  intro oldUmask p₅ k₅ humask
  obtain ⟨hold, hp₅⟩ := humask
  have hns : p₅.mounts.ns = own := by rw [hp₅, h₄.ns, h.ns]
  have hattrs₄ : p₄.attrs = { p.attrs with
      users := user.mapped guestUid.val hostUid.val guestGid.val hostGid.val :: outer
      time := policy.namespaces.timeOver p.attrs.time
      timeForChildren := policy.namespaces.timeOver p.attrs.timeForChildren } := by
    rw [hattrs₄, hattrs₃, hattrs₂, hattrs₁]
    simp [Attrs.mapUser, husers]
  have hroot : p₅.attrs.root = none := by rw [hp₅, hattrs₄]; exact h.root
  apply (makePrivate_spec hns hroot).bind
  intro _ p₆ k₆ hp₆
  have h₆ : Steady own p p₆ := IsTrans.trans _ _ _ h₄ (IsTrans.trans _ _ _ k₅ k₆)
  have hfilled := hfilled.keeps
    (k₄.mounts.toKeeps.trans (k₅.mounts.toKeeps.trans k₆.mounts.toKeeps))
  apply (onMounts_spec (quiet_spec (quiet_resolveNonbindMappings _ _)
    (Mounting.resolveNonbindMappings_spec hfilled (h.held.keeps h₆.mounts.toKeeps)))).bind
  intro r₇ p₇ k₇ hnonbinds
  obtain ⟨⟨-, hfilled, hnNonBinds⟩, hattrs₇⟩ := hnonbinds
  rw [hsize] at hfilled
  have hcount : binds.2.2 + r₃.2 + r₇.2 = policy.mountTree.size := by
    rw [h.count, hnOverlay, hnNonBinds, Mounting.passes_length policy.mountTree]
  obtain ⟨items, hitems, hresolved, hperm⟩ :=
    Spare.setLen_of_perm (Mounting.passes_perm _) hfilled.written
  apply (onMounts_spec (quiet_spec (Q := fun _ _ => True) (makesOnly_okOr _ _)
    (Mounting.okOr_spec fun _ => trivial))).bind
  intro _ p₈ k₈ hattrs₈
  refine Safely.bind (Q := fun a t => t = p₈ ∧ a = items)
    (Safely.orUndefined (by rw [hcount, ← hsize, hitems]) ⟨rfl, rfl⟩) fun a p₉ _ h₉ => ?_
  obtain ⟨rfl, rfl⟩ := h₉
  apply (onMounts_spec (quiet_spec quiet_makeRoot Mounting.makeRoot_spec)).bind
  intro guestRootFd q k₁₀ hmade
  obtain ⟨⟨hnew, hplace, hoff⟩, hattrs₁₀⟩ := hmade
  have h₉ : Steady own p p₉ := IsTrans.trans _ _ _ h₆ (IsTrans.trans _ _ _ k₇ k₈)
  have hattached : p₉.mounts.attached = [] := by rw [h₉.mounts.attached, h.attached]
  refine Safely.pure ⟨?_, hold.trans ?_, ?_, ?_, ?_⟩
  · exact hproc.keeps (k₅.mounts.toKeeps.trans (k₆.mounts.toKeeps.trans (k₇.mounts.toKeeps.trans
      (k₈.mounts.toKeeps.trans k₁₀.mounts.toKeeps))))
  · rw [hattrs₄]
  · rw [← hresolved.length_eq, hsize]
  · exact realisedUpTo_zero (hfilled.keeps k₈.mounts.toKeeps)
      (hresolved.imp fun _ _ hres => hres.keeps k₈.mounts.toKeeps) hperm k₁₀.mounts hattached hnew
      hplace hoff
  · rw [hattrs₁₀, hattrs₈.2, hattrs₇, hp₆, hp₅, hattrs₄]
    simp [prepared, Attrs.mapNamespace, h.root, h.cwd]

theorem prepareRoot_spec [Itoa] [LawfulItoa] (buffers : Buffers policy.toPolicy)
    (launch : Mounting.Launch policy.toPolicy) (hp : p.mounts = launch.state)
    (hown : own = ownNamespace p.mounts.ns)
    {user : UserNamespace} {outer : List UserNamespace} (husers : p.attrs.users = user :: outer)
    (hostUid guestUid : Uid) (hostGid guestGid : Gid) :
    Safely kernel (Builds own) (prepareRoot policy buffers hostUid guestUid hostGid guestGid)
      (fun r q => q.IsProc r.1 [] ∧ r.2.1 = p.attrs.umask ∧ q.mounts.ns = own ∧
        (∃ mounts, mounts.length = policy.mountTree.size ∧
          Mounting.RealisedUpTo policy.toPolicy mounts r.2.2 mounts.length q.mounts) ∧
        q.attrs = prepared policy own
          (user.mapped guestUid.val hostUid.val guestGid.val hostGid.val :: outer) p.attrs) p := by
  have hsize : policy.mountTree.tree.toList.length = policy.mountTree.size :=
    Std.TreeMap.length_toList
  have hheld : Mounting.Held policy.mountTree.tree.toList p.mounts := hp ▸ launch.held
  have hbinds : Safely kernel (Bound Prepares own)
      (onMounts (Mounting.resolveBindMappings policy.mountTree.tree.toList
        ⟨0, ⟨buffers.resolved, []⟩⟩ buffers.scratch)) _ p :=
    onMounts_spec (mounts_spec
      (Mounting.resolveBindMappings_spec rfl buffers.room hheld ⟨.nil, .nil, rfl⟩)
      (resolveBindMappings_own policy.mountTree.tree.toList _ _))
  apply (hbinds.since.weaken fun _ _ h => h.builds).bind
  intro binds p₁ _ h₁
  obtain ⟨k₁, ⟨-, hfilled, hcloned, hoverlays, hcount⟩, hattrs₁, hns⟩ := h₁
  have hdone : BindsDone policy own binds p₁ :=
    { filled := hsize ▸ hfilled
      cloned := hcloned
      overlays := hoverlays
      count := hcount
      held := hheld.keeps k₁.mounts.toKeeps
      attached := by rw [k₁.mounts.attached, hp, launch.attached]
      ns := hns.trans hown.symm
      root := by rw [hattrs₁]
      cwd := by rw [hattrs₁] }
  have husers₁ : p₁.attrs.users = user :: outer := by rw [hattrs₁]; exact husers
  have hfinish := finishMounts_spec hdone husers₁ hostUid guestUid hostGid guestGid
  apply (hfinish.since.weaken fun _ _ h => h.builds).bind
  intro r p₂ _ h₂
  obtain ⟨procFd, oldUmask, guestRootFd, mounts⟩ := r
  obtain ⟨k₂, hproc, hold, hlength, hreal, hattrs₂⟩ := h₂
  have hall := Mounting.realiseAll_spec (i := mounts.length) hreal
  rw [List.take_length] at hall
  have hrealise : Safely kernel (Settled Keeps own)
      (onMounts (Mounting.realiseAll guestRootFd mounts)) _ p₂ :=
    onMounts_spec (settled_spec hall (partly_realiseAll guestRootFd mounts))
  apply (hrealise.since.weaken fun _ _ h => h.toBound).bind
  intro _ q _ hq
  obtain ⟨k₃, hreal, hattrs₃⟩ := hq
  refine Safely.pure ⟨hproc.keeps k₃.mounts, ?_, ?_, ⟨mounts, hlength, hreal⟩, ?_⟩
  · rw [hold, hattrs₁]
  · rw [k₃.ns, k₂.ns, hdone.ns]
  · rw [hattrs₃, hattrs₂, hattrs₁]
    rfl

/-! ## The root -/

/-- What `enterRoot` makes of the process. -/
def entered (guestRootFd : RawFd) (own : Object) (a : Attrs) : Attrs :=
  { a with
    mountAttrs := Function.update a.mountAttrs guestRootFd
      (a.mountAttrs guestRootFd ||| ROOT_MOUNT_ATTR.attrSet)
    root := some guestRootFd
    cwd := some guestRootFd
    namespaces := Function.update a.namespaces own
      { a.namespaces own with roots := [.moved guestRootFd] } }

/-- A call that goes to another directory, if it does anything. -/
theorem goes_steady {ε α : Type} {r : Except ε α} {q : Process} {dir : Option RawFd}
    (hok : ∀ a, r = .ok a →
      ∃ cwd, q = ⟨{ p.mounts with cwd }, p.fds, { p.attrs with cwd := dir }⟩)
    (herror : ∀ e, r = .error e → q = p) :
    Steady own p q ∧ ∀ a, r = .ok a →
      (∃ cwd, q.mounts = { p.mounts with cwd }) ∧ q.attrs = { p.attrs with cwd := dir } := by
  cases r with
  | ok a =>
    obtain ⟨cwd, rfl⟩ := hok a rfl
    exact ⟨⟨⟨⟨.of_eq rfl rfl rfl, .refl _⟩, Mounting.prepares_of_same⟩, rfl⟩,
      fun _ _ => ⟨⟨cwd, rfl⟩, rfl⟩⟩
  | error e =>
    rw [herror e rfl]
    exact ⟨Std.Refl.refl p, fun _ ha => by cases ha⟩

theorem fchdir_spec (fd : RawFd) :
    Safely kernel (Steady own) (attempt .fchdir (perform (I := Calls) (.fchdir fd)))
      (fun _ q => (∃ cwd, q.mounts = { p.mounts with cwd }) ∧
        q.attrs = { p.attrs with cwd := (p.mounts.places fd).map (·.tree) }) p := by
  refine attempt_spec (perform_spec fun r q hk => goes_steady (fun a hr => ?_) fun e hr => ?_)
  · subst hr
    exact hk
  · subst hr
    exact hk

theorem chdir_spec (path : Bytes) :
    Safely kernel (Steady own) (attempt .chdir (perform (I := Calls) (.chdir path)))
      (fun _ q => (∃ cwd, q.mounts = { p.mounts with cwd }) ∧ q.attrs = { p.attrs with
        cwd := if Path.isAbsolute path then p.attrs.root else p.attrs.cwd }) p := by
  refine attempt_spec (perform_spec fun r q hk => goes_steady (fun a hr => ?_) fun e hr => ?_)
  · subst hr
    exact hk
  · subst hr
    exact hk

theorem mountSetattr_spec (fd : RawFd) :
    Safely kernel (Steady own)
      (attempt .mountSetattr
        (perform (I := Calls) (.mountSetattr fd [] AT_EMPTY_PATH ROOT_MOUNT_ATTR)))
      (fun _ q => q = { p with attrs := { p.attrs with
        mountAttrs := Function.update p.attrs.mountAttrs fd
          (p.attrs.mountAttrs fd ||| ROOT_MOUNT_ATTR.attrSet) } }) p := by
  refine attempt_spec (perform_spec fun r q hk => ?_)
  cases r with
  | ok u =>
    obtain ⟨mountAttrs, rfl, hset⟩ := hk
    refine ⟨Steady.of_attrs (.of_eq rfl rfl rfl), fun _ _ => ?_⟩
    rw [hset rfl rfl rfl]
  | error e =>
    have hq : q = p := hk
    rw [hq]
    exact ⟨Std.Refl.refl p, fun _ ha => by cases ha⟩

/-- The old root of the namespace is gone, and the guest is at the root of the new one. -/
theorem enterRoot_spec {fd : RawFd} (hns : p.mounts.ns = own) (hroot : p.attrs.root = none)
    (hroots : (p.attrs.namespaces own).roots = [.own])
    (hplace : p.mounts.places fd = some (.root fd)) :
    Safely kernel (Steady own) (enterRoot fd) (fun _ q => q.attrs = entered fd own p.attrs) p := by
  subst hns
  apply (mountSetattr_spec fd).bind
  intro _ p₁ h₁ hp₁
  apply (fchdir_spec fd).bind
  intro _ p₂ h₂ hp₂
  obtain ⟨⟨cwd, hmounts₂⟩, hattrs₂⟩ := hp₂
  subst hp₁
  rw [show ({ p with attrs := _ } : Process).mounts.places fd = _ from hplace] at hattrs₂
  have hns₂ : p₂.mounts.ns = p.mounts.ns := by rw [hmounts₂]
  have hplace₂ : p₂.mounts.places fd = some (.root fd) := by rw [hmounts₂]; exact hplace
  have hroot₂ : p₂.attrs.root = none := by rw [hattrs₂]; exact hroot
  have hroots₂ : p₂.attrs.namespaces = p.attrs.namespaces := by rw [hattrs₂]
  rw [← hns₂] at hroots ⊢
  refine Safely.bind (Q := fun _ q => q = { p₂ with
    attrs := p₂.attrs.mapNamespace p₂.mounts.ns (·.moveBeneath fd) })
    (attempt_spec (perform_spec fun r q hk => ?_)) fun _ p₃ _ hp₃ => ?_
  · exact SetsIf.steady (f := fun a => a.mapNamespace p₂.mounts.ns (·.moveBeneath fd)) hk
      ⟨rfl, rfl, rfl, hroot₂, hplace₂⟩ (Confines.mapNamespace _)
  refine Safely.bind (Q := fun _ q => q = { p₃ with
    attrs := { p₃.attrs with root := p₃.attrs.cwd } })
    (attempt_spec (perform_spec fun r q hk => ?_)) fun _ p₄ _ hp₄ => ?_
  · exact SetsIf.steady (f := fun a => { a with root := a.cwd }) hk rfl (.of_eq rfl rfl rfl)
  -- the old root is what covers the new one
  have hroots₄ : (p₄.attrs.namespaces p₄.mounts.ns).roots = [.own, .moved fd] := by
    rw [hp₄, hp₃]
    simp [Attrs.mapNamespace, MountNamespace.moveBeneath, hroots₂, hroots]
  have hcwd₄ : p₄.attrs.cwd = some fd := by
    rw [hp₄, hp₃]
    simp [Attrs.mapNamespace, hattrs₂, Tree.Node.root]
  refine Safely.bind (Q := fun _ q => q = { p₄ with
    attrs := p₄.attrs.mapNamespace p₄.mounts.ns fun ns => { ns with roots := ns.roots.drop 1 } })
    (attempt_spec (perform_spec fun r q hk => ?_)) fun _ p₅ _ hp₅ => ?_
  · have hns₄ : p₄.mounts.ns = p₂.mounts.ns := by rw [hp₄, hp₃]
    rw [← hns₄]
    exact SetsIf.steady (f := fun a => a.mapNamespace p₄.mounts.ns fun ns =>
      { ns with roots := ns.roots.drop 1 }) hk ⟨rfl, rfl, _, _, _, hcwd₄, hroots₄⟩
      (Confines.mapNamespace _)
  apply (chdir_spec [sep]).mono
  intro _ q hq
  have habsolute : Path.isAbsolute [sep] = true := rfl
  rw [hq.2, hp₅, hp₄, hp₃, hattrs₂]
  simp [Attrs.mapNamespace, MountNamespace.moveBeneath, entered, hroots, habsolute, Tree.Node.root]

end Mounts

end LayerCake.Bubblebox.Sandbox
