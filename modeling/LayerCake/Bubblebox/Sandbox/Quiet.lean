import LayerCake.Bubblebox.Sandbox.Setup

/-
  The parts of `guest_post_clone` that make calls of the mounts, as parts of the guest.

  No call of them changes anything of the host, or a mount namespace but `own`, which the guest
  makes for itself, and none closes a descriptor (`Spares`). Most of them change nothing but the
  mounts: their calls are `Quiet`, so what was proved of them over the mounts alone holds of the
  guest (`quiet_spec`).
  The others write to files of procfs, and are in `Sandbox.Procfs`.

  What is proved:
    1. `quiet_…` — which parts are quiet.
    2. `partly_realiseAll` — nor does the loop over the mounts change anything else, although
       it writes to the files it makes: none of them is a file of procfs.
    3. `resolveBindMappings_own` — the binds leave the guest in a mount namespace of its own.
-/

namespace LayerCake.Bubblebox.Sandbox

open LayerCake.Effects LayerCake.Meowix LayerCake.Linux
open LayerCake.Bubblebox.Spawn
open LayerCake.Bubblebox.Spawn.Mounting (Object OpenHow BENEATH_HOW CAPTURE_FLAGS Keeps Prepares
  Within)

/-! ## What no call gives up -/

/-- Nothing of the host changes, and no mount namespace but `own`. -/
structure Confines (own : Object) (a b : Attrs) : Prop where
  host : b.host = a.host
  namespaces : ∀ ns, ns ≠ own → b.namespaces ns = a.namespaces ns
  executed : b.executed = a.executed

/-- What is open stays so. -/
def StaysOpen (T U : Table OpenFile) : Prop := ∀ n e, T n = some e → U n = some e

/-- No call closes a descriptor, either. -/
structure Spares (own : Object) (p q : Process) : Prop where
  attrs : Confines own p.attrs q.attrs
  fds : StaysOpen p.fds q.fds

/-- And what `M` says of the mounts. -/
structure Bound (M : Mounting.State → Mounting.State → Prop) (own : Object) (p q : Process) :
    Prop extends Spares own p q where
  mounts : M p.mounts q.mounts

/-- Nor does the process leave the namespace it is in. -/
structure Settled (M : Mounting.State → Mounting.State → Prop) (own : Object) (p q : Process) :
    Prop extends Bound M own p q where
  ns : q.mounts.ns = p.mounts.ns

/-- And no mount is moved. -/
abbrev Steady : Object → Process → Process → Prop := Settled Prepares

/-- No mount is lost. -/
abbrev Builds : Object → Process → Process → Prop := Bound Keeps

/-- What the guest keeps to the end: it may close what it has open. -/
structure Contained (own : Object) (p q : Process) : Prop where
  mounts : Keeps p.mounts q.mounts
  attrs : Confines own p.attrs q.attrs

section Bound
variable {own : Object} {M : Mounting.State → Mounting.State → Prop} {a b : Attrs}
  {p q : Process}

theorem Confines.refl (a : Attrs) : Confines own a a := ⟨rfl, fun _ _ => rfl, rfl⟩

theorem Confines.trans {c : Attrs} (h : Confines own a b) (h' : Confines own b c) :
    Confines own a c :=
  ⟨h'.host.trans h.host, fun ns hns => (h'.namespaces ns hns).trans (h.namespaces ns hns),
    h'.executed.trans h.executed⟩

theorem StaysOpen.refl (T : Table OpenFile) : StaysOpen T T := fun _ _ h => h

theorem StaysOpen.trans {T U V : Table OpenFile} (h : StaysOpen T U) (h' : StaysOpen U V) :
    StaysOpen T V := fun n e hn => h' n e (h n e hn)

theorem StaysOpen.of_eq {T U : Table OpenFile} (h : U = T) : StaysOpen T U := by
  rw [h]
  exact .refl T

instance : Std.Refl (Spares own) := ⟨fun p => ⟨Confines.refl p.attrs, StaysOpen.refl p.fds⟩⟩

instance : IsTrans Process (Spares own) :=
  ⟨fun _ _ _ h h' => ⟨h.attrs.trans h'.attrs, h.fds.trans h'.fds⟩⟩

instance [Std.Refl M] : Std.Refl (Bound M own) :=
  ⟨fun p => ⟨Std.Refl.refl p, Std.Refl.refl p.mounts⟩⟩

instance [IsTrans Mounting.State M] : IsTrans Process (Bound M own) :=
  ⟨fun _ _ _ h h' => ⟨IsTrans.trans _ _ _ h.toSpares h'.toSpares,
    IsTrans.trans _ _ _ h.mounts h'.mounts⟩⟩

instance [Std.Refl M] : Std.Refl (Settled M own) :=
  ⟨fun p => ⟨Std.Refl.refl p, rfl⟩⟩

instance [IsTrans Mounting.State M] : IsTrans Process (Settled M own) :=
  ⟨fun _ _ _ h h' => ⟨IsTrans.trans _ _ _ h.toBound h'.toBound, h'.ns.trans h.ns⟩⟩

instance : Std.Refl (Contained own) :=
  ⟨fun p => ⟨Std.Refl.refl p.mounts, Confines.refl p.attrs⟩⟩

instance : IsTrans Process (Contained own) :=
  ⟨fun _ _ _ h h' => ⟨IsTrans.trans _ _ _ h.mounts h'.mounts, h.attrs.trans h'.attrs⟩⟩

theorem Bound.builds (h : Bound Prepares own p q) : Builds own p q :=
  ⟨h.toSpares, h.mounts.toKeeps⟩

theorem Steady.builds (h : Steady own p q) : Builds own p q := h.toBound.builds

theorem Builds.contained (h : Builds own p q) : Contained own p q := ⟨h.mounts, h.attrs⟩

theorem Steady.contained (h : Steady own p q) : Contained own p q := h.builds.contained

/-- Where nothing but the attributes changes. -/
theorem Steady.of_attrs (h : Confines own p.attrs a) : Steady own p { p with attrs := a } :=
  ⟨⟨⟨h, StaysOpen.refl p.fds⟩, Std.Refl.refl p.mounts⟩, rfl⟩

/-- A call that opens nothing, or what it opens has a number of its own. -/
theorem Numbers.stays {op : Mounting.Op} {r : Mounting.Calls.Res op} (h : Numbers p q op r) :
    StaysOpen p.fds q.fds := by
  have hopened : ∀ {r : Except Errno RawFd} {cloexec : Bool}, Opened p q r cloexec →
      StaysOpen p.fds q.fds := by
    intro r cloexec h
    cases r with
    | ok fd =>
      obtain ⟨hfree, object, -, hfds⟩ := h
      intro n e hn
      rw [hfds, Function.update_of_ne (ne_of_free hfree hn).symm, hn]
    | error e => exact .of_eq h
  cases op with
  | openTree | openTreeAttr | fsopen | fsmount | openat2 => exact hopened h
  | _ => exact .of_eq h

/-- What of the attributes is neither the host's nor a mount namespace. -/
theorem Confines.of_eq (hhost : b.host = a.host) (hns : b.namespaces = a.namespaces)
    (hex : b.executed = a.executed) : Confines own a b :=
  ⟨hhost, fun _ _ => by rw [hns], hex⟩

theorem Confines.mapUser (f : UserNamespace → UserNamespace) : Confines own a (a.mapUser f) :=
  .of_eq rfl rfl rfl

theorem Confines.mapNet (h : a.net.isSome = true) (f : NetNamespace → NetNamespace) :
    Confines own a (a.mapNet f) := by
  obtain ⟨net, hnet⟩ := Option.isSome_iff_exists.mp h
  unfold Attrs.mapNet
  rw [hnet]
  exact .of_eq rfl rfl rfl

theorem Confines.mapUts (h : a.uts.isSome = true) (f : UtsNamespace → UtsNamespace) :
    Confines own a (a.mapUts f) := by
  obtain ⟨uts, huts⟩ := Option.isSome_iff_exists.mp h
  unfold Attrs.mapUts
  rw [huts]
  exact .of_eq rfl rfl rfl

theorem Confines.mapNamespace (f : MountNamespace → MountNamespace) :
    Confines own a (a.mapNamespace own f) :=
  ⟨rfl, fun _ hns => Function.update_of_ne hns .., rfl⟩

end Bound

/-! ## Programs over the mounts -/

/-- The calls of the mounts, in front of the kernel of the guest. -/
def mountsKernel : Kernel Mounting.Calls Process := fun p op r q => kernel p (.mounts op) r q

/-- The call changes nothing but the mounts. -/
def Quiet : Mounting.Op → Prop
  | .unshare _ | .setns .. | .chdir _ | .write .. => False
  | _ => True

theorem Quiet.beside {op : Mounting.Op} (hop : Quiet op) {p : Process} {r : Mounting.Calls.Res op}
    {a : Attrs} (h : Beside p op r a) : a = p.attrs := by
  cases op with
  | unshare | setns | chdir | write => exact hop.elim
  | openTree | openTreeAttr | statx | fsopen | fsconfigSetString | fsconfigSetFd | fsconfigSetFlag
  | fsconfigCmdCreate | fsconfigCmdCreateExcl | fsmount | mkdirat | openat2 | symlinkat
  | moveMount => exact h

/-- A quiet call leaves the process in its mount namespace. -/
theorem Quiet.ns {op : Mounting.Op} (hop : Quiet op) {s t : Mounting.State}
    {r : Mounting.Calls.Res op} (h : Mounting.kernel s op r t) : t.ns = s.ns := by
  have hopens : ∀ {s t : Mounting.State} {r : Except Errno RawFd} {object : Object → Prop}
      {place : RawFd → Option Mounting.Place → Prop},
      Mounting.Opens s t r object place → t.ns = s.ns := by
    intro s t r object place h
    cases r with
    | ok fd =>
      obtain ⟨_, _, -, -, -, rfl⟩ := h
      rfl
    | error e => exact congrArg _ h
  have hconfigures : ∀ {s t : Mounting.State} {r : Except Errno Unit} {fd : RawFd}
      {next : Object → Object → Prop}, Mounting.Configures s t r fd next → t.ns = s.ns := by
    intro s t r fd next h
    cases r with
    | ok u =>
      obtain ⟨_, _, -, -, -, -, rfl⟩ := h
      rfl
    | error e => exact congrArg _ h
  have hspills : ∀ {s t : Mounting.State}, s.Spills t → t.ns = s.ns := by
    rintro s t ⟨_, _, -, rfl⟩
    rfl
  have hcreates : ∀ {s t : Mounting.State} {r : Except Errno Unit} {fd : RawFd} {path : Bytes}
      {kind : Mounting.Kind},
      Mounting.Tries s t r (fun _ => s.Creates fd path kind t) → t.ns = s.ns := by
    intro s t r fd path kind h
    cases r with
    | ok u =>
      change s.Creates fd path kind t at h
      unfold Mounting.State.Creates at h
      split at h
      · split at h
        · exact hspills h
        · rw [h.2]
          rfl
      · exact hspills h
    | error e => exact congrArg _ h
  cases op with
  | unshare | setns | chdir | write => exact hop.elim
  | openTree | openTreeAttr | fsopen | fsmount => exact hopens h
  | fsconfigSetString | fsconfigSetFd | fsconfigSetFlag | fsconfigCmdCreate
  | fsconfigCmdCreateExcl => exact hconfigures h
  | statx => exact congrArg _ h.1
  | mkdirat | symlinkat => exact hcreates h
  | openat2 dirfd path how =>
    cases r with
    | ok fd =>
      obtain ⟨s', hs', h⟩ := h
      have hns : s'.ns = s.ns := hopens hs'
      rw [← hns]
      split at h
      · split at h
        · split at h
          · exact hspills h
          · split at h
            · rw [h]
              rfl
            · exact hspills h
            · rw [h]
        · exact hspills h
      · rw [h]
    | error e => exact congrArg _ h
  | moveMount =>
    cases r with
    | ok u =>
      obtain ⟨_, rfl, -⟩ := h
      rfl
    | error e => exact congrArg _ h

section Programs
variable {α : Type} {own : Object} {M : Mounting.State → Mounting.State → Prop} {p : Process}
  {phase : Mounting.Setup α} {Q : α → Process → Prop}

theorem onMounts_spec {G : Process → Process → Prop} (h : Safely mountsKernel G phase Q p) :
    Safely kernel G (onMounts phase) Q p := by
  have hsim : Simulates Op.mounts (fun _ r => r) mountsKernel kernel fun p => p :=
    fun _ _ _ _ hk => hk
  exact Safely.embed hsim h

theorem simulates_mounts :
    Simulates (fun o => o) (fun _ r => r) Mounting.kernel mountsKernel Process.mounts :=
  fun _ _ _ _ hk => hk.1

/-- Nor does any leave the namespace that the process is in. -/
structure Stays (own : Object) (p q : Process) : Prop extends Spares own p q where
  ns : q.mounts.ns = p.mounts.ns

/-- A call that leaves the attributes. -/
theorem Spares.of_attrs {q : Process} (hattrs : q.attrs = p.attrs)
    (hfds : StaysOpen p.fds q.fds) : Spares own p q := by
  refine ⟨?_, hfds⟩
  rw [hattrs]
  exact Confines.refl _

theorem Stays.of_attrs {q : Process} (hattrs : q.attrs = p.attrs) (hfds : StaysOpen p.fds q.fds)
    (hns : q.mounts.ns = p.mounts.ns) : Stays own p q :=
  ⟨Spares.of_attrs hattrs hfds, hns⟩

/-- What a quiet program leaves of the rest. -/
theorem MakesOnly.quiet (hquiet : MakesOnly Quiet phase) :
    Partly mountsKernel (Stays own) phase
      (fun _ q => q.attrs = p.attrs ∧ q.mounts.ns = p.mounts.ns) p := by
  refine MakesOnly.partly hquiet
    (J := fun q : Process => q.attrs = p.attrs ∧ q.mounts.ns = p.mounts.ns)
    (fun t op r t' hop ht hk => ?_) ⟨rfl, rfl⟩
  obtain ⟨hmounts, hbeside, hnumbers⟩ := hk
  have hsame := hop.beside hbeside
  have hns := Quiet.ns hop hmounts
  exact ⟨.of_attrs hsame hnumbers.stays hns, by rw [hsame, hns]; exact ht⟩

/-- A specification over the mounts, and what is known of the rest. -/
theorem mounts_spec {Q : α → Mounting.State → Prop} {Q' : α → Process → Prop}
    (h : Safely Mounting.kernel M phase Q p.mounts)
    (h' : Partly mountsKernel (Spares own) phase Q' p) :
    Safely mountsKernel (Bound M own) phase (fun a q => Q a q.mounts ∧ Q' a q) p :=
  ((Safely.share simulates_mounts h).partly h').weaken fun _ _ hst => ⟨hst.2, hst.1⟩

theorem settled_spec {Q : α → Mounting.State → Prop} {Q' : α → Process → Prop}
    (h : Safely Mounting.kernel M phase Q p.mounts)
    (h' : Partly mountsKernel (Stays own) phase Q' p) :
    Safely mountsKernel (Settled M own) phase (fun a q => Q a q.mounts ∧ Q' a q) p :=
  ((Safely.share simulates_mounts h).partly h').weaken fun _ _ hst =>
    ⟨⟨hst.2.toSpares, hst.1⟩, hst.2.ns⟩

theorem quiet_spec {Q : α → Mounting.State → Prop} (hquiet : MakesOnly Quiet phase)
    (h : Safely Mounting.kernel M phase Q p.mounts) :
    Safely mountsKernel (Settled M own) phase (fun a q => Q a q.mounts ∧ q.attrs = p.attrs) p :=
  (settled_spec h (MakesOnly.quiet hquiet)).mono fun _ _ hq => ⟨hq.1, hq.2.1⟩

end Programs

/-! ## Quiet programs -/

section Quiets
variable {P : Mounting.Op → Prop}

theorem calls_perform {op : Mounting.Op} (h : P op) :
    (perform (I := Mounting.Calls) op).Calls P := ⟨h, fun _ => trivial⟩

theorem calls_performUntil {op : Mounting.Op} {again : Mounting.Calls.Res op → Bool} (h : P op) :
    (performUntil (I := Mounting.Calls) op again).Calls P := ⟨h, fun _ => trivial⟩

theorem makesOnly_attempt {α : Type} {syscall : Syscall}
    {call : Prog Mounting.Calls (Except Errno α)} (h : call.Calls P) :
    MakesOnly P (Mounting.attempt syscall call) := by
  apply Prog.Calls.bind h
  intro r
  cases r <;> trivial

/-- The `?` on a call, where it succeeds. -/
theorem partly_attempt {α : Type} {G : Process → Process → Prop} {syscall : Syscall}
    {call : Prog Mounting.Calls (Except Errno α)} {Q : α → Process → Prop} {p : Process}
    (h : Sat mountsKernel (· = ·) G call (fun r t => ∀ a, r = .ok a → Q a t) p) :
    Partly mountsKernel G (Mounting.attempt syscall call) Q p := by
  refine sat_tryCall (h.mono fun r t hr => ?_)
  cases r with
  | ok a => exact sat_done.mpr fun b hb => by cases hb; exact hr a rfl
  | error e => exact sat_done.mpr fun b hb => by cases hb

theorem makesOnly_okOr (condition : Bool) (e : PostSpawnGuestOther) :
    MakesOnly P (Mounting.okOr condition e) := by
  unfold Mounting.okOr
  split
  · exact .pure _
  · exact .throw _

theorem makesOnly_asCStr (N : Nat) (bytes : Bytes) : MakesOnly P (Mounting.asCStr N bytes) := by
  unfold Mounting.asCStr
  cases withCStr N bytes <;> trivial

theorem makesOnly_statx {fd : RawFd} {path : Bytes} {flags mask : UInt32}
    (h : P (.statx fd path flags mask)) : MakesOnly P (Mounting.statx fd path flags mask) :=
  makesOnly_attempt (calls_perform h)

theorem makesOnly_sameFileIdentity (h : ∀ fd path flags mask, P (.statx fd path flags mask))
    (lhs rhs : RawFd) : MakesOnly P (Mounting.sameFileIdentity lhs rhs) := by
  refine (makesOnly_statx (h _ _ _ _)).bind fun statxL => ?_
  refine (makesOnly_statx (h _ _ _ _)).bind fun statxR => ?_
  split
  · exact .pure _
  · exact .pure _

theorem quiet_fsopen (fsname : Bytes) (flags : UInt32) :
    MakesOnly Quiet (Mounting.fsopen fsname flags) := makesOnly_attempt (calls_perform trivial)

theorem quiet_fsconfigSetString (fd : RawFd) (key value : Bytes) :
    MakesOnly Quiet (Mounting.fsconfigSetString fd key value) :=
  makesOnly_attempt (calls_perform trivial)

theorem quiet_fsconfigSetFd (fd : RawFd) (key : Bytes) (aux : RawFd) :
    MakesOnly Quiet (Mounting.fsconfigSetFd fd key aux) :=
  makesOnly_attempt (calls_perform trivial)

theorem quiet_fsconfigCmdCreateExcl (fd : RawFd) :
    MakesOnly Quiet (Mounting.fsconfigCmdCreateExcl fd) :=
  makesOnly_attempt (calls_perform trivial)

theorem quiet_fsmount (fd : RawFd) (flags attributes : UInt32) :
    MakesOnly Quiet (Mounting.fsmount fd flags attributes) :=
  makesOnly_attempt (calls_perform trivial)

theorem quiet_openat2Retry (fd : RawFd) (path : Bytes) (how : OpenHow) :
    MakesOnly Quiet (Mounting.openat2Retry fd path how) :=
  makesOnly_attempt (calls_performUntil trivial)

theorem quiet_mkdirat (fd : RawFd) (path : Bytes) (mode : UInt32) :
    MakesOnly Quiet (Mounting.mkdirat fd path mode) := makesOnly_attempt (calls_perform trivial)

theorem quiet_mountFs (fsFd : RawFd) (destination : Bubblebox.Guest)
    (attributes : MountAttributes) :
    MakesOnly Quiet (Mounting.mountFs fsFd destination attributes) :=
  (quiet_fsmount _ _ _).bind fun _ => .pure _

theorem quiet_formatPercent [Itoa] (percent : UInt64) :
    MakesOnly (I := Mounting.Calls) Quiet (Mounting.formatPercent percent) := by
  refine (MakesOnly.orStop _).bind fun written => ?_
  refine (MakesOnly.orStop _).bind fun written => ?_
  exact (MakesOnly.orUndefined _).bind fun _ => .orUndefined _

theorem quiet_applyTmpfsSize [Itoa] (fsFd : RawFd) (size : TmpfsSize) (maxInodes : Option UInt64) :
    MakesOnly Quiet (Mounting.applyTmpfsSize fsFd size maxInodes) := by
  unfold Mounting.applyTmpfsSize
  refine MakesOnly.bind ?_ fun size => ?_
  · cases size with
    | unlimited => exact .pure _
    | bytes bytes => exact makesOnly_asCStr _ _
    | percent percent => exact quiet_formatPercent percent
  refine (quiet_fsconfigSetString _ _ _).bind fun _ => ?_
  cases maxInodes with
  | some maxInodes => exact (makesOnly_asCStr _ _).bind fun _ => quiet_fsconfigSetString _ _ _
  | none => exact .pure _

/-! ### The overlays -/

theorem quiet_setLayers (fsFd : RawFd) (key : Bytes) (overlayFds : Vec RawFd) (n mountI : Nat) :
    MakesOnly Quiet (Mounting.setLayers fsFd key overlayFds n mountI) :=
  .foldlM (fun _ _ => (MakesOnly.orUndefined _).bind fun _ =>
    (quiet_fsconfigSetFd _ _ _).bind fun _ => .pure _) _ _

theorem quiet_openVerified (mountFd : RawFd) (path : Bytes) (identityFd : RawFd) :
    MakesOnly Quiet (Mounting.openVerified mountFd path identityFd) := by
  refine (quiet_openat2Retry _ _ _).bind fun fd => ?_
  refine (makesOnly_sameFileIdentity (fun _ _ _ _ => trivial) _ _).bind fun same => ?_
  exact (makesOnly_okOr _ _).bind fun _ => .pure _

theorem quiet_makeUpperDirs [Itoa] (size : TmpfsSize) (maxInodes : Option UInt64) :
    MakesOnly Quiet (Mounting.makeUpperDirs size maxInodes) := by
  refine (quiet_fsopen _ _).bind fun tmpfsFd => ?_
  refine (quiet_applyTmpfsSize _ _ _).bind fun _ => ?_
  refine (quiet_fsconfigCmdCreateExcl _).bind fun _ => ?_
  refine (quiet_fsmount _ _ _).bind fun tmpfs => ?_
  refine (quiet_mkdirat _ _ _).bind fun _ => (quiet_mkdirat _ _ _).bind fun _ => ?_
  have hopen : ∀ path, MakesOnly Quiet (Mounting.openat2 tmpfs path Mounting.TMPFS_DIR_HOW) :=
    fun _ => makesOnly_attempt (calls_perform trivial)
  exact (hopen _).bind fun _ => (hopen _).bind fun _ => .pure _

theorem quiet_setUpperDirs [Itoa] (fsFd : RawFd) (overlayFds : Vec RawFd) (mountI : Nat)
    (upperdirs : Option UpperDirs) :
    MakesOnly Quiet (Mounting.setUpperDirs fsFd overlayFds mountI upperdirs) := by
  match upperdirs with
  | some (.fd _ upperdir upperdirFd workdir workdirFd) =>
    refine (MakesOnly.orUndefined _).bind fun mountFd => ?_
    refine (quiet_openVerified _ _ _).bind fun _ => (quiet_openVerified _ _ _).bind fun _ => ?_
    exact (quiet_fsconfigSetFd _ _ _).bind fun _ =>
      (quiet_fsconfigSetFd _ _ _).bind fun _ => .pure _
  | some (.tmpfs size maxInodes) =>
    refine (quiet_makeUpperDirs _ _).bind fun fds => ?_
    exact (quiet_fsconfigSetFd _ _ _).bind fun _ =>
      (quiet_fsconfigSetFd _ _ _).bind fun _ => .pure _
  | none => exact .pure _

theorem quiet_finishOverlayMountResolution [Itoa] (resolved : Mounting.Resolved)
    (overlayFds : Vec RawFd)
    (overlayMounts : Vec Mounting.OverlayMount) :
    MakesOnly Quiet (Mounting.finishOverlayMountResolution resolved overlayFds overlayMounts) := by
  refine (MakesOnly.foldlM (fun acc overlay => ?_) _ _).bind fun _ => .pure _
  refine (quiet_fsopen _ _).bind fun fsFd => ?_
  refine (quiet_setLayers _ _ _ _ _).bind fun _ => (quiet_setLayers _ _ _ _ _).bind fun _ => ?_
  refine (quiet_setUpperDirs _ _ _ _).bind fun _ => ?_
  refine (makesOnly_attempt (calls_perform trivial)).bind fun _ => ?_
  refine (quiet_fsconfigCmdCreateExcl _).bind fun _ => ?_
  exact (MakesOnly.orUndefined _).bind fun _ => (quiet_mountFs _ _ _).bind fun _ => .pure _

/-! ### The other mounts -/

theorem quiet_resolveProcfs [Itoa] (hidepid : ProcHidepid) (gid : Option UInt32)
    (subset : ProcSubset)
    (pidns : ProcPidNamespace) (attributes : MountAttributes) (destination : Bubblebox.Guest) :
    MakesOnly Quiet (Mounting.resolveProcfs hidepid gid subset pidns attributes destination) := by
  have hgid : ∀ fsFd, MakesOnly Quiet (Mounting.setGid fsFd gid) := by
    intro fsFd
    cases gid with
    | some gid => exact (makesOnly_asCStr _ _).bind fun _ => quiet_fsconfigSetString _ _ _
    | none => exact .pure _
  have hsubset : ∀ fsFd, MakesOnly Quiet (Mounting.setSubset fsFd subset) := by
    intro fsFd
    unfold Mounting.setSubset
    split
    · exact quiet_fsconfigSetString _ _ _
    · exact .pure _
  have hpidns : ∀ fsFd, MakesOnly Quiet (Mounting.setPidns fsFd pidns) := by
    intro fsFd
    cases pidns with
    | fd fd => exact quiet_fsconfigSetFd _ _ _
    | guest => exact .pure _
  refine (quiet_fsopen _ _).bind fun fsFd => (quiet_fsconfigSetString _ _ _).bind fun _ => ?_
  refine (hgid fsFd).bind fun _ => (hsubset fsFd).bind fun _ => (hpidns fsFd).bind fun _ => ?_
  exact (quiet_fsconfigCmdCreateExcl _).bind fun _ => quiet_mountFs _ _ _

theorem quiet_resolveNonbind [Itoa] (destination : Bubblebox.Guest) (source : Mount) :
    MakesOnly Quiet (Mounting.resolveNonbind destination source) := by
  cases source with
  | procfs hidepid gid subset pidns attributes =>
    exact (quiet_resolveProcfs hidepid gid subset pidns attributes destination).map
  | mqueue attributes =>
    refine MakesOnly.map ((quiet_fsopen _ _).bind fun fsFd => ?_)
    exact (makesOnly_attempt (calls_perform trivial)).bind fun _ => quiet_mountFs _ _ _
  | tmpfs size maxInodes owner permissions attributes =>
    refine MakesOnly.map ((quiet_fsopen _ _).bind fun fsFd => ?_)
    refine (quiet_applyTmpfsSize _ _ _).bind fun _ => (MakesOnly.orUndefined _).bind fun _ => ?_
    refine (quiet_fsconfigSetString _ _ _).bind fun _ => ?_
    exact (quiet_fsconfigCmdCreateExcl _).bind fun _ => quiet_mountFs _ _ _
  | file | symlink | emptyDirectory | overlay | bind => exact .pure _

theorem quiet_resolveNonbindMappings [Itoa] (mappings : List (Bubblebox.Guest × Mount))
    (resolved : Mounting.Resolved) :
    MakesOnly Quiet (Mounting.resolveNonbindMappings mappings resolved) := by
  refine ((makesOnly_okOr _ _).bind fun _ => makesOnly_okOr _ _).bind fun _ => ?_
  refine (MakesOnly.foldlM (fun acc mapping => ?_) _ _).bind fun _ => .pure _
  refine (quiet_resolveNonbind _ _).bind fun resolvedMount => ?_
  cases resolvedMount with
  | none => exact .pure _
  | some resolvedMount => exact (MakesOnly.orUndefined _).bind fun _ => .pure _

theorem quiet_makeRoot : MakesOnly Quiet Mounting.makeRoot := by
  refine (quiet_fsopen _ _).bind fun fsFd => (quiet_fsconfigSetString _ _ _).bind fun _ => ?_
  exact (quiet_fsconfigCmdCreateExcl _).bind fun _ => quiet_fsmount _ _ _

theorem quiet_setupProcfs (policy : Policy) : MakesOnly Quiet (setupProcfs policy) := by
  have hsubset : ∀ fsFd, MakesOnly Quiet (setProcSubset policy fsFd) := by
    intro fsFd
    unfold setProcSubset
    split
    · exact quiet_fsconfigSetString _ _ _
    · exact .pure _
  refine (quiet_fsopen _ _).bind fun fsFd => (hsubset fsFd).bind fun _ => ?_
  refine (quiet_fsconfigSetString _ _ _).bind fun _ => ?_
  exact (quiet_fsconfigCmdCreateExcl _).bind fun _ => quiet_fsmount _ _ _

end Quiets

/-! ## The mounts at their destinations -/

section Realise
variable {own : Object} {p : Process}

theorem quiet_statxEntry (parentFd : RawFd) (fileName : Bytes) (mask : UInt32) :
    MakesOnly Quiet (Mounting.statxEntry parentFd fileName mask) := by
  refine Prog.Calls.bind (calls_perform trivial) fun r => ?_
  cases r with
  | ok statx => trivial
  | error e =>
    dsimp only
    split <;> trivial

theorem quiet_checkAbsent (parentFd : RawFd) (fileName : Bytes) :
    MakesOnly Quiet (Mounting.checkAbsent parentFd fileName) :=
  (quiet_statxEntry _ _ _).bind fun _ => makesOnly_okOr _ _

theorem makesOnly_guestAsCStr {P : Mounting.Op → Prop} (N : Nat) (path : Bubblebox.GuestInner) :
    MakesOnly P (Mounting.guestAsCStr N path) := by
  unfold Mounting.guestAsCStr
  split
  · split <;> trivial
  · trivial

theorem quiet_openParentInRoot (rootFd : RawFd) (path : Bubblebox.Guest) :
    MakesOnly Quiet (Mounting.openParentInRoot rootFd path) :=
  (quiet_openat2Retry _ _ _).bind fun _ => .pure _

theorem quiet_moveMount (fromDirfd : RawFd) (fromPath : Bytes) (toDirfd : RawFd) (toPath : Bytes)
    (flags : UInt32) :
    MakesOnly Quiet (Mounting.moveMount fromDirfd fromPath toDirfd toPath flags) :=
  makesOnly_attempt (calls_perform trivial)

/-- Every arm but that of a file is quiet. -/
theorem quiet_realiseIn (parentFd : RawFd) (fileName : Bytes) (resolved : Mounting.ResolvedMount)
    (h : ∀ file destination, resolved ≠ .file file destination) :
    MakesOnly Quiet (Mounting.realiseIn parentFd fileName resolved) := by
  cases resolved with
  | fd fd destination isDirectory =>
    cases isDirectory with
    | true =>
      refine (quiet_statxEntry _ _ _).bind fun statx => ?_
      refine MakesOnly.bind ?_ fun _ => quiet_moveMount _ _ _ _ _
      cases statx with
      | some statx => exact makesOnly_okOr _ _
      | none => exact quiet_mkdirat _ _ _
    | false =>
      refine (quiet_statxEntry _ _ _).bind fun statx => ?_
      refine MakesOnly.bind ?_ fun _ => quiet_moveMount _ _ _ _ _
      cases statx with
      | some statx => exact makesOnly_okOr _ _
      | none => exact (quiet_openat2Retry _ _ _).bind fun _ => .pure _
  | file file destination => exact absurd rfl (h file destination)
  | symlink source destination =>
    refine (quiet_checkAbsent _ _).bind fun _ => (makesOnly_guestAsCStr _ _).bind fun _ => ?_
    exact makesOnly_attempt (calls_perform trivial)
  | directory owner permissions destination =>
    exact (quiet_checkAbsent _ _).bind fun _ => quiet_mkdirat _ _ _

/-- What `openat2` opens, whether it creates it or not. -/
theorem openat2_object {s t : Mounting.State} {dirfd fd : RawFd} {path : Bytes} {how : OpenHow}
    (hk : Mounting.kernel s (.openat2 dirfd path how) (.ok fd) t) :
    ∃ b, s.objects dirfd = some b ∧ t.objects fd = some (.opened b path how) := by
  obtain ⟨s', hopens, hcreates⟩ := hk
  obtain ⟨-, _, place, ⟨b, hb, rfl⟩, -, rfl⟩ := Mounting.opens_spec hopens rfl
  have hobject : (s.opens fd (.opened b path how) place).objects fd =
      some (.opened b path how) := Function.update_self ..
  have hspills : ∀ {u : Mounting.State}, u.Spills t → t.objects = u.objects := by
    rintro u ⟨_, _, -, rfl⟩
    rfl
  refine ⟨b, hb, ?_⟩
  by_cases hhow : how.creates = true
  · simp only [if_pos hhow] at hcreates
    split at hcreates
    · split at hcreates
      · rw [hspills hcreates, hobject]
      · split at hcreates
        · rw [hcreates]
          exact hobject
        · rw [hspills hcreates, hobject]
        · rw [hcreates, hobject]
    · rw [hspills hcreates, hobject]
  · rw [if_neg hhow] at hcreates
    rw [hcreates, hobject]

theorem partly_openat2Retry {dirfd : RawFd} {path : Bytes} {how : OpenHow} :
    Partly mountsKernel (Stays own) (Mounting.openat2Retry dirfd path how)
      (fun fd q => q.attrs = p.attrs ∧ ∃ b, q.mounts.objects fd = some (.opened b path how)) p := by
  have hquiet : Quiet (.openat2 dirfd path how) := trivial
  refine partly_attempt (Sat.callUntil (fun q : Process => q.attrs = p.attrs) rfl (stable_eq _)
    (fun t r t' ht hk _ => ?_) fun t r t' ht hk _ => ?_)
  · obtain ⟨hmounts, hattrs, hnumbers⟩ := hk
    exact ⟨.of_attrs hattrs hnumbers.stays (hquiet.ns hmounts), hattrs.trans ht⟩
  · obtain ⟨hmounts, hattrs, hnumbers⟩ := hk
    refine ⟨.of_attrs hattrs hnumbers.stays (hquiet.ns hmounts), sat_done.mpr fun fd hfd => ?_⟩
    subst hfd
    obtain ⟨b, -, hobject⟩ := openat2_object hmounts
    exact ⟨hattrs.trans ht, b, hobject⟩

/-- What is written to a file that the guest creates goes to no file of procfs. -/
theorem partly_realiseFile (file : File) (parentFd : RawFd) (fileName : Bytes) :
    Partly mountsKernel (Stays own) (Mounting.realiseFile file parentFd fileName)
      (fun _ q => q.attrs = p.attrs) p := by
  have hcreates : (Mounting.FILE_HOW file.permissions).creates = true := by
    show ((O_CREAT ||| O_RDWR).toUInt64 &&& O_CREAT.toUInt64 != 0) = true
    decide
  apply (MakesOnly.quiet (quiet_checkAbsent parentFd fileName)).bind
  intro _ t ht
  apply partly_openat2Retry.bind
  intro fd u hu
  obtain ⟨hattrs, b, hobject⟩ := hu
  have hfile : u.fileOf fd = none := by
    simp [Process.fileOf, hobject, procPath, hcreates]
  have hwrite : ∀ bytes, Prog.Calls (I := Mounting.Calls) (fun op => ∃ bytes, op = .write fd bytes)
      (performUntil (I := Mounting.Calls) (.write fd bytes) interrupted) :=
    fun bytes => ⟨⟨bytes, rfl⟩, fun _ => trivial⟩
  refine Sat.bind (((writeAll_calls hwrite file.contents).sat
    (J := fun q : Process => q.attrs = p.attrs ∧ q.fileOf fd = none) ?_
    ⟨hattrs.trans ht.1, hfile⟩).mono fun r v hv => ?_)
  · intro v op r w hop hv hk
    obtain ⟨bytes, rfl⟩ := hop
    obtain ⟨⟨hmounts, -⟩, hbeside, hnumbers⟩ := hk
    have hsame : w.attrs = v.attrs := by
      cases r with
      | ok n =>
        have hset : w.attrs = v.written fd bytes n := hbeside
        rw [hset, Process.written_none hv.2]
      | error e => exact hbeside
    have hfile' : w.fileOf fd = v.fileOf fd := by
      unfold Process.fileOf
      rw [hmounts]
    have hns : w.mounts.ns = v.mounts.ns := by rw [hmounts]
    exact ⟨.of_attrs hsame hnumbers.stays hns, by rw [hsame, hfile']; exact hv⟩
  · match r with
    | .ok () => exact sat_done.mpr fun _ _ => hv.1
    | .error ⟨_, some e⟩ => exact sat_done.mpr fun _ ha => by cases ha
    | .error ⟨_, none⟩ => exact sat_done.mpr fun _ ha => by cases ha

/-- The loop changes nothing but the mounts. -/
theorem partly_realiseAll (guestRootFd : RawFd) (mounts : List Mounting.ResolvedMount) :
    Partly mountsKernel (Stays own) (Mounting.realiseAll guestRootFd mounts)
      (fun _ q => q.attrs = p.attrs) p := by
  refine Partly.foldlM (fun q : Process => q.attrs = p.attrs) (fun _ resolved t _ ht => ?_) rfl
  rw [Mounting.realise_eq]
  apply (MakesOnly.quiet (quiet_openParentInRoot guestRootFd resolved.destination)).bind
  intro parent u hu
  have hbody : Partly mountsKernel (Stays own) (Mounting.realiseIn parent.1 parent.2 resolved)
      (fun _ q => q.attrs = u.attrs) u := by
    cases resolved with
    | file file destination => exact partly_realiseFile file parent.1 parent.2
    | fd | symlink | directory =>
      exact (MakesOnly.quiet (quiet_realiseIn _ _ _ (by simp))).mono fun _ _ hv => hv.1
  exact hbody.mono fun _ v hv => by rw [hv, hu.1, ht]

end Realise

/-! ## The binds -/

/-- The mount namespace that the guest makes for itself, from the one it was cloned in. -/
def ownNamespace (ns : Object) : Object :=
  .tree (.unshared ns) [sep] (CAPTURE_FLAGS ||| AT_RECURSIVE)

section Binds
variable {own : Object} {p : Process}

/-- What is at the descriptor is a mount namespace that is kept. -/
def HoldsNamespace (a : Attrs) (fd : RawFd) (ns : Object) (q : Process) : Prop :=
  q.mounts.objects fd = some ns ∧ ∃ root cwd, q.attrs = { a with root, cwd }

/-- The calls with which the guest goes through the namespaces it captured. -/
def Roams : Mounting.Op → Prop
  | .setns _ flags => flags = CLONE_NEWNS
  | .openTreeAttr .. | .chdir _ | .statx .. => True
  | _ => False

theorem Roams.keeps {op : Mounting.Op} (hop : Roams op) {a : Attrs} {fd : RawFd} {ns : Object}
    (hns : ns.isContext = false) {t u : Process} {r : Mounting.Calls.Res op}
    (ht : HoldsNamespace a fd ns t) (hk : mountsKernel t op r u) :
    Spares own t u ∧ HoldsNamespace a fd ns u := by
  obtain ⟨hmounts, hbeside, hnumbers⟩ := hk
  obtain ⟨hfd, root, cwd, hattrs⟩ := ht
  have hinert : op.Inert fun _ => True := by
    cases op <;> trivial
  have hkeeps : u.mounts.objects fd = some ns :=
    (hinert.prepares hmounts).objects fd ns hfd hns
  have hroot : ∃ root cwd, u.attrs = { t.attrs with root, cwd } := by
    cases op with
    | setns nsFd flags =>
      cases r with
      | ok _ =>
        have hflags : flags = CLONE_NEWNS := hop
        have h : Enters t nsFd flags u.attrs := hbeside
        rw [Enters, if_pos hflags] at h
        exact ⟨_, _, h⟩
      | error e => exact ⟨_, _, hbeside⟩
    | chdir path =>
      cases r with
      | ok _ => exact ⟨_, _, hbeside⟩
      | error e => exact ⟨_, _, hbeside⟩
    | openTreeAttr | statx => exact ⟨_, _, hbeside⟩
    | _ => exact hop.elim
  obtain ⟨root', cwd', hsame⟩ := hroot
  rw [hattrs] at hsame
  refine ⟨⟨?_, hnumbers.stays⟩, hkeeps, root', cwd', hsame⟩
  rw [hattrs]
  exact .of_eq (by rw [hsame]) (by rw [hsame]) (by rw [hsame])

theorem roams_enter (fd : RawFd) : MakesOnly Roams (Mounting.enter fd) :=
  (makesOnly_attempt (calls_perform (show Roams (.setns fd CLONE_NEWNS) from rfl))).bind
    fun _ => makesOnly_attempt (calls_perform trivial)

theorem roams_cloneStep (spare : Spare Mounting.ResolvedMount) (bind : Mounting.NamespaceFd) :
    MakesOnly Roams (Mounting.cloneStep spare bind) := by
  refine (roams_enter _).bind fun _ => ?_
  refine (makesOnly_attempt (calls_perform trivial)).bind fun fd => ?_
  refine MakesOnly.bind ?_ fun _ => (MakesOnly.orUndefined _).bind fun _ => .pure _
  cases bind.fileInfo with
  | some info =>
    refine (makesOnly_sameFileIdentity (fun _ _ _ _ => trivial) _ _).bind fun _ => ?_
    exact makesOnly_okOr _ _
  | none => exact .pure _

theorem roams_cloneLayer (detached : List RawFd) (nsFd : RawFd) :
    MakesOnly Roams (Mounting.cloneLayer detached nsFd) :=
  (roams_enter _).bind fun _ => (makesOnly_attempt (calls_perform trivial)).bind fun _ => .pure _

theorem quiet_captureStep (scratch : Mounting.Scratch)
    (mapping : (Bubblebox.Guest × Mount) × Nat) :
    MakesOnly Quiet (Mounting.captureStep scratch mapping) := by
  obtain ⟨⟨destination, source⟩, index⟩ := mapping
  have hopen : ∀ dirfd path flags, MakesOnly Quiet (Mounting.openTree dirfd path flags) :=
    fun _ _ _ => makesOnly_attempt (calls_perform trivial)
  have hbind : ∀ dirfd flags info attributes isRecursive, MakesOnly Quiet
      (Mounting.captureBind scratch index destination dirfd flags info attributes isRecursive) :=
    fun _ _ _ _ _ => (hopen _ _ _).bind fun _ => (MakesOnly.orUndefined _).bind fun _ => .pure _
  have hlayer : ∀ overlayFds dir, MakesOnly Quiet (Mounting.captureLayer overlayFds dir) :=
    fun _ _ => (hopen _ _ _).bind fun _ => .orUndefined _
  cases source with
  | bind source => cases source <;> exact hbind _ _ _ _ _
  | overlay lowerdirs datadirs upperdirs attributes =>
    refine (MakesOnly.orUndefined _).bind fun _ => (MakesOnly.foldlM hlayer _ _).bind fun _ => ?_
    refine MakesOnly.bind ?_ fun _ => .pure _
    match upperdirs with
    | some (.fd ..) => exact hlayer _ _
    | some (.tmpfs ..) => exact .pure _
    | none => exact .pure _
  | _ => exact .pure _

/-- `unshare` of the mount namespace changes nothing else. -/
theorem unshare_newns (a : Attrs) : a.unshare CLONE_NEWNS = a := by
  have huser : (CLONE_NEWNS &&& CLONE_NEWUSER != 0) = false := by decide
  have hcgroup : (CLONE_NEWNS &&& CLONE_NEWCGROUP != 0) = false := by decide
  have htime : (CLONE_NEWNS &&& CLONE_NEWTIME != 0) = false := by decide
  have hnet : (CLONE_NEWNS &&& CLONE_NEWNET != 0) = false := by decide
  simp [Attrs.unshare, huser, hcgroup, htime, hnet]

/-- The same, where the process may leave its namespace later. -/
theorem MakesOnly.stays {α : Type} {phase : Mounting.Setup α} (hquiet : MakesOnly Quiet phase) :
    Partly mountsKernel (Spares own) phase
      (fun _ q => q.attrs = p.attrs ∧ q.mounts.ns = p.mounts.ns) p :=
  Sat.weaken (MakesOnly.quiet hquiet) fun _ _ h => h.toSpares

/-- The guest enters the namespace that a descriptor refers to, at its root. -/
theorem enter_own {fd : RawFd} {ns : Object} {a : Attrs} (h : HoldsNamespace a fd ns p) :
    Partly mountsKernel (Spares own) (Mounting.enter fd)
      (fun _ q => q.attrs = { a with root := none, cwd := none } ∧ q.mounts.ns = ns) p := by
  obtain ⟨hfd, root, cwd, hattrs⟩ := h
  refine Partly.bind (Q := fun _ q => q.attrs = { a with root := none, cwd := none } ∧
    q.mounts.ns = ns) (partly_attempt (Sat.next fun r q hk => ?_)) fun _ q hq => ?_
  · obtain ⟨hmounts, hbeside, hnumbers⟩ := hk
    cases r with
    | ok u =>
      have henters : Enters p fd CLONE_NEWNS q.attrs := hbeside
      rw [Enters, if_pos rfl] at henters
      simp only [Mounting.kernel, Mounting.Tries, if_true] at hmounts
      obtain ⟨o, cwd', ho, hmounts⟩ := hmounts
      rw [hfd, Option.some.injEq] at ho
      have hconfines : Confines own p.attrs q.attrs :=
        .of_eq (by rw [henters]) (by rw [henters]) (by rw [henters])
      rw [hattrs] at henters
      exact ⟨⟨hconfines, hnumbers.stays⟩,
        sat_done.mpr fun _ _ => ⟨henters, by rw [hmounts, ho]⟩⟩
    | error e =>
      exact ⟨.of_attrs hbeside hnumbers.stays, sat_done.mpr fun _ ha => by cases ha⟩
  · refine partly_attempt (Sat.next fun r t hk => ?_)
    obtain ⟨hmounts, hbeside, hnumbers⟩ := hk
    obtain ⟨hq, hns⟩ := hq
    cases r with
    | ok u =>
      have hsame : t.attrs = q.attrs := by
        have h : t.attrs = { q.attrs with
            cwd := if Path.isAbsolute [sep] then q.attrs.root else q.attrs.cwd } := hbeside
        rw [h, hq]
        rfl
      obtain ⟨cwd', -, hmounts⟩ := hmounts
      exact ⟨.of_attrs hsame hnumbers.stays,
        sat_done.mpr fun _ _ => ⟨by rw [hsame, hq], by rw [hmounts, hns]⟩⟩
    | error e =>
      exact ⟨.of_attrs hbeside hnumbers.stays, sat_done.mpr fun _ ha => by cases ha⟩

/-- The binds leave the guest in a mount namespace of its own, at its root. -/
theorem resolveBindMappings_own (mappings : List (Bubblebox.Guest × Mount))
    (resolved : Mounting.Resolved) (scratch : Mounting.Scratch) :
    Partly mountsKernel (Spares own)
      (Mounting.resolveBindMappings mappings resolved scratch)
      (fun _ q => q.attrs = { p.attrs with root := none, cwd := none } ∧
        q.mounts.ns = ownNamespace p.mounts.ns) p := by
  have hcheck : MakesOnly Quiet (resolved.check mappings.length) :=
    (makesOnly_okOr _ _).bind fun _ => makesOnly_okOr _ _
  refine (MakesOnly.stays hcheck).bind fun _ q₁ h₁ => ?_
  refine (MakesOnly.stays (makesOnly_okOr _ _)).bind fun _ q₂ h₂ => ?_
  refine (MakesOnly.stays (MakesOnly.foldlM quiet_captureStep _ _)).bind fun scratch q₃ h₃ => ?_
  have hattrs₃ : q₃.attrs = p.attrs := by rw [h₃.1, h₂.1, h₁.1]
  have hns₃ : q₃.mounts.ns = p.mounts.ns := by rw [h₃.2, h₂.2, h₁.2]
  -- the copy of the namespace
  refine Partly.bind (Q := fun _ q => q.attrs = p.attrs ∧
    q.mounts.ns = .unshared p.mounts.ns) (partly_attempt (Sat.next fun r q hk => ?_))
    fun _ q₄ h₄ => ?_
  · obtain ⟨hmounts, hbeside, hnumbers⟩ := hk
    cases r with
    | ok u =>
      have hsame : q.attrs = q₃.attrs := hbeside.2.trans (unshare_newns _)
      simp only [Mounting.kernel, Mounting.Tries, if_true] at hmounts
      obtain ⟨cwd, hmounts⟩ := hmounts
      exact ⟨.of_attrs hsame hnumbers.stays, sat_done.mpr fun _ _ =>
        ⟨hsame.trans hattrs₃, by rw [hmounts, hns₃]⟩⟩
    | error e =>
      exact ⟨.of_attrs hbeside hnumbers.stays, sat_done.mpr fun _ ha => by cases ha⟩
  -- what is captured of it
  refine Partly.bind (Q := fun fd q => HoldsNamespace p.attrs fd (ownNamespace p.mounts.ns) q)
    (partly_attempt (Sat.next fun r q hk => ?_)) fun originalNs q₅ h₅ => ?_
  · obtain ⟨hmounts, hbeside, hnumbers⟩ := hk
    have hsame : q.attrs = q₄.attrs := hbeside
    refine ⟨.of_attrs hsame hnumbers.stays,
      sat_done.mpr fun fd hfd => ⟨?_, q₄.attrs.root, q₄.attrs.cwd, ?_⟩⟩
    · subst hfd
      obtain ⟨-, _, place, ⟨b, hb, rfl⟩, -, hmounts⟩ := Mounting.opens_spec hmounts rfl
      have hbase : q₄.mounts.base .cwd [sep] = some q₄.mounts.ns := rfl
      rw [hbase, Option.some.injEq] at hb
      rw [hmounts, ← hb, h₄.2]
      exact Function.update_self ..
    · rw [hsame, h₄.1]
  have hroams : ∀ t op (r : Mounting.Calls.Res op) t', Roams op →
      HoldsNamespace p.attrs originalNs (ownNamespace p.mounts.ns) t → mountsKernel t op r t' →
      Spares own t t' ∧
        HoldsNamespace p.attrs originalNs (ownNamespace p.mounts.ns) t' :=
    fun t op r t' hop ht hk => hop.keeps rfl ht hk
  refine (MakesOnly.partly (MakesOnly.foldlM roams_cloneStep _ _) hroams h₅).bind
    fun spare q₆ h₆ => ?_
  refine (MakesOnly.partly (MakesOnly.foldlM roams_cloneLayer _ _) hroams h₆).bind
    fun detached q₇ h₇ => ?_
  exact (enter_own h₇).bind fun _ q₈ h₈ => Partly.pure h₈

end Binds

end LayerCake.Bubblebox.Sandbox
