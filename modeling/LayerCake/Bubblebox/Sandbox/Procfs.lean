import LayerCake.Bubblebox.Sandbox.Quiet

/-
  What the guest sets by writing to files of procfs.

  What is proved:
    1. `openProc_spec`, `writeChecked_spec` — what is opened from a descriptor of procfs is the
       file of the path, and a value that is written to it whole is set.
    2. `writeSimpleUidGidMap_spec`, `enterTimeNamespace_spec`, `isolateVsock_spec`,
       `limitUserNamespaces_spec`, `applyOomScoreAdjustment_spec` — the texts mean what the
       policy asks for.
-/

namespace LayerCake.Bubblebox.Sandbox

open LayerCake.Effects LayerCake.Meowix LayerCake.Linux
open LayerCake.Bubblebox.Spawn
open LayerCake.Bubblebox.Spawn.Mounting (Object OpenHow BENEATH_HOW Keeps Prepares
  Within)

/-! ## Files of procfs -/

/-- The descriptor is of procfs, at the path from the root of its mount. -/
def Process.IsProc (p : Process) (fd : RawFd) (path : Bytes) : Prop :=
  (p.mounts.objects fd).bind procPath = some path

section Procfs
variable {own : Object} {p q : Process} {fd : RawFd} {path value : Bytes}

theorem procPath_not_context {o : Object} (h : procPath o = some path) : o.isContext = false := by
  cases o with
  | mounted | opened => rfl
  | _ => cases h

theorem Process.IsProc.keeps (h : p.IsProc fd path) (hpq : Keeps p.mounts q.mounts) :
    q.IsProc fd path := by
  obtain ⟨o, ho, hpath⟩ := Option.bind_eq_some_iff.mp h
  have hq := hpq.objects fd o ho (procPath_not_context hpath)
  exact Option.bind_eq_some_iff.mpr ⟨o, hq, hpath⟩

theorem Process.IsProc.fileOf (h : p.IsProc fd path) : p.fileOf fd = procFile? path := by
  unfold Process.fileOf
  rw [show (p.mounts.objects fd).bind procPath = some path from h]
  rfl

/-- Whether there is a `subset` option or not, what is configured is procfs. -/
theorem setProcSubset_spec (policy : Policy) {s : Mounting.State} {c : Object}
    (hc : s.objects fd = some c) (hproc : fsname c = some (ascii "proc")) :
    Safely Mounting.kernel Prepares (setProcSubset policy fd)
      (fun _ t => ∃ c, t.objects fd = some c ∧ fsname c = some (ascii "proc")) s := by
  unfold setProcSubset
  split
  · exact (Mounting.fsconfigSetString_spec trivial hc).mono fun _ t ht => ⟨_, ht, hproc⟩
  · exact Safely.pure ⟨c, hc, hproc⟩

theorem setupProcfs_spec (policy : Policy) :
    Safely mountsKernel (Steady own) (setupProcfs policy)
      (fun fd q => q.IsProc fd [] ∧ q.attrs = p.attrs) p := by
  refine quiet_spec (Q := fun fd t => (t.objects fd).bind procPath = some [])
    (quiet_setupProcfs policy) (Mounting.fsopen_spec.bind fun fsFd s₁ _ h₁ => ?_)
  apply (setProcSubset_spec policy h₁.2 rfl).bind
  intro _ s₂ _ h₂
  obtain ⟨c, hc, hproc⟩ := h₂
  apply (Mounting.fsconfigSetString_spec trivial hc).bind
  intro _ s₃ _ h₃
  apply (Mounting.fsconfigCmdCreateExcl_spec trivial h₃).bind
  intro _ s₄ _ h₄
  apply (Mounting.fsmount_spec h₄).mono
  intro fd t ht
  simp [ht.2.1, procPath, fsname, hproc]

/-- What is opened from a descriptor of procfs is the file of the path. -/
theorem openProc_spec {how : OpenHow} (hhow : how.creates = false) {dir : Bytes}
    (h : p.IsProc fd dir) :
    Safely mountsKernel (Steady own) (Mounting.openat2Retry fd path how)
      (fun fd' q => q.IsProc fd' (procJoin dir path) ∧ q.attrs = p.attrs) p := by
  obtain ⟨o, ho, hdir⟩ := Option.bind_eq_some_iff.mp h
  have hopens : Safely Mounting.kernel (Within fun _ => True)
      (Mounting.openat2Retry fd path how) _ p.mounts := Mounting.openat2Retry_spec hhow ho
  refine quiet_spec (Q := fun fd' t => (t.objects fd').bind procPath = some (procJoin dir path))
    (quiet_openat2Retry fd path how) (hopens.mono fun fd' t ht => ?_)
  simp [ht.2.1, procPath, hhow, hdir]

theorem safely_attempt {α : Type} {G : Process → Process → Prop} {syscall : Syscall}
    {call : Prog Mounting.Calls (Except Errno α)} {Q : α → Process → Prop}
    (h : Sat mountsKernel (· = ·) G call (fun r t => ∀ a, r = .ok a → Q a t) p) :
    Safely mountsKernel G (Mounting.attempt syscall call) Q p := by
  refine sat_tryCall (h.mono fun r t hr => ?_)
  cases r with
  | ok a => exact sat_done.mpr (hr a rfl)
  | error e => exact sat_done.mpr (by simp)

/-- The value is set, unless it was not written whole. -/
theorem writeChecked_spec {file : ProcFile} (h : p.fileOf fd = some file)
    (hown : Confines own p.attrs (file.set value p.attrs)) :
    Safely mountsKernel (Steady own) (Mounting.writeChecked fd value)
      (fun _ q => q.attrs = file.set value p.attrs) p := by
  refine Safely.bind (Q := fun n q =>
      q.attrs = if n = value.length then file.set value p.attrs else p.attrs)
    (safely_attempt (Sat.callUntil (· = p) rfl (stable_eq _) ?_ ?_)) fun n q _ hq => ?_
  · -- an interrupted call wrote nothing
    intro t r t' ht hk hr
    subst ht
    obtain ⟨⟨hmounts, -⟩, hattrs, hfds⟩ := hk
    cases r with
    | ok n => cases hr
    | error e =>
      have hsame : t' = t := Process.ext hmounts hfds hattrs
      rw [hsame]
      exact ⟨Std.Refl.refl t, rfl⟩
  · intro t r t' ht hk _
    subst ht
    obtain ⟨⟨hmounts, -⟩, hbeside, hfds⟩ := hk
    cases r with
    | ok n =>
      have hattrs : t'.attrs = if n = value.length then file.set value t.attrs else t.attrs := by
        have hset : t'.attrs = t.written fd value n := hbeside
        rw [hset, Process.written_file h]
      have hconf : Confines own t.attrs t'.attrs := by
        rw [hattrs]
        split
        · exact hown
        · exact Confines.refl _
      have hprepares : Prepares t.mounts t'.mounts := by
        rw [hmounts]
        exact Std.Refl.refl _
      have hns : t'.mounts.ns = t.mounts.ns := by rw [hmounts]
      refine ⟨⟨⟨⟨hconf, .of_eq hfds⟩, hprepares⟩, hns⟩, sat_done.mpr fun m hm => ?_⟩
      cases hm
      exact hattrs
    | error e =>
      have hsame : t' = t := Process.ext hmounts hfds hbeside
      rw [hsame]
      exact ⟨Std.Refl.refl t, sat_done.mpr fun _ ha => by cases ha⟩
  · show Safely mountsKernel (Steady own)
      (if n ≠ value.length then throw (.error .incompleteWrite) else pure () : Mounting.Setup Unit)
      _ q
    split
    · exact Safely.error
    · next hn =>
      rw [if_pos (not_not.mp hn)] at hq
      exact Safely.pure hq

/-- A file of procfs is opened and written to. -/
theorem writeFile_spec (file : ProcFile) {how : OpenHow} (hhow : how.creates = false) {dir : Bytes}
    (h : p.IsProc fd dir) (hfile : procFile? (procJoin dir path) = some file)
    (hown : Confines own p.attrs (file.set value p.attrs)) :
    Safely mountsKernel (Steady own) (do
        let fd ← Mounting.openat2Retry fd path how
        Mounting.writeChecked fd value)
      (fun _ q => q.attrs = file.set value p.attrs) p := by
  apply (openProc_spec hhow h).bind
  intro fd' q _ hq
  obtain ⟨hproc, hattrs⟩ := hq
  rw [← hattrs] at hown ⊢
  exact writeChecked_spec (hproc.fileOf.trans hfile) hown

/-! ## The id maps -/

/-- One id of each kind is mapped, and the groups are fixed. -/
def UserNamespace.mapped (self : UserNamespace) (destUid sourceUid destGid sourceGid : UInt32) :
    UserNamespace :=
  { self with
    uidMap := some (destUid.toNat, sourceUid.toNat, 1)
    gidMap := some (destGid.toNat, sourceGid.toNat, 1)
    setgroupsDenied := true }

theorem Attrs.mapUser_mapUser (a : Attrs) (f g : UserNamespace → UserNamespace) :
    (a.mapUser f).mapUser g = a.mapUser (g ∘ f) := by
  unfold Attrs.mapUser
  cases a.users <;> rfl

/-- The line of an id is written to the file of procfs. -/
theorem writeMap_spec [Itoa] [LawfulItoa] (file : ProcFile) {dir buffer : Bytes}
    (dest source : UInt32)
    (h : p.IsProc fd dir) (hfile : procFile? (procJoin dir path) = some file)
    (hbuffer : buffer.length = Mounting.sizeUidGidMapBuffer 4)
    (hown : Confines own p.attrs (file.set (Mounting.mapLine dest source) p.attrs)) :
    Safely mountsKernel (Steady own) (Mounting.writeMap fd path buffer dest source)
      (fun buffer' q => buffer'.length = Mounting.sizeUidGidMapBuffer 4 ∧
        q.attrs = file.set (Mounting.mapLine dest source) p.attrs) p := by
  obtain ⟨buffer', hbuffer', heq⟩ := Mounting.writeMap_eq fd path dest source hbuffer
  have hsplit : Mounting.writeMap fd path buffer dest source = (do
      (do let fd ← Mounting.openat2Retry fd path BENEATH_HOW
          Mounting.writeChecked fd (Mounting.mapLine dest source))
      return buffer') := by
    rw [heq, bind_assoc]
  rw [hsplit]
  apply (writeFile_spec file (by decide) h hfile hown).bind
  intro _ q _ hq
  exact Safely.pure ⟨hbuffer', hq⟩

theorem writeSimpleUidGidMap_spec [Itoa] [LawfulItoa] (sourceUid sourceGid destUid destGid : UInt32)
    (h : p.IsProc fd []) :
    Safely mountsKernel (Steady own)
      (Mounting.writeSimpleUidGidMap fd sourceUid sourceGid destUid destGid true)
      (fun _ q => q.attrs = p.attrs.mapUser (·.mapped destUid sourceUid destGid sourceGid)) p := by
  have hzeroed : (List.replicate
      (max (Mounting.sizeUidGidMapBuffer 4) (Mounting.sizeUidGidMapBuffer 4)) (0 : UInt8)).length =
      Mounting.sizeUidGidMapBuffer 4 := by
    rw [List.length_replicate, Nat.max_self]
  apply (openProc_spec (by decide) h).bind
  intro selfFd p₁ _ h₁
  obtain ⟨hself, hattrs₁⟩ := h₁
  apply (writeMap_spec .uidMap destUid sourceUid hself (by decide) hzeroed
    (Confines.mapUser _)).bind
  intro buffer p₂ h₂ hwritten
  obtain ⟨hbuffer, hattrs₂⟩ := hwritten
  have hself₂ := hself.keeps h₂.mounts.toKeeps
  apply (writeFile_spec .setgroups (by decide) hself₂ (by decide)
    (Confines.mapUser _)).bind
  intro _ p₃ h₃ hattrs₃
  have hself₃ := hself₂.keeps h₃.mounts.toKeeps
  apply (writeMap_spec .gidMap destGid sourceGid hself₃ (by decide) hbuffer
    (Confines.mapUser _)).bind
  intro _ p₄ _ hattrs₄
  refine Safely.pure ?_
  rw [hattrs₄.2, hattrs₃, hattrs₂, hattrs₁]
  simp only [ProcFile.set, Attrs.mapUser_mapUser, Mounting.readMap_mapLine]
  rfl

/-! ## The time namespace -/

/-- What the kernel reads of an offset. -/
def rawOffset (timeOffset : Mounting.TimeOffset) : Int × Nat :=
  (timeOffset.seconds.toInt, timeOffset.nanoseconds.toNat)

theorem setOffset_monotonic (ns : TimeNamespace) (timeOffset : Mounting.TimeOffset) :
    ns.setOffset (Mounting.offsetLine (ascii "monotonic ") timeOffset) =
      { ns with monotonic := some (rawOffset timeOffset) } := by
  have hclock : ascii "monotonic " = ascii "monotonic" ++ ascii " " := by decide
  simp [TimeNamespace.setOffset, hclock, Mounting.readOffset_offsetLine, rawOffset,
    show (32 : UInt8) ∉ ascii "monotonic" by decide]

theorem setOffset_boottime (ns : TimeNamespace) (timeOffset : Mounting.TimeOffset) :
    ns.setOffset (Mounting.offsetLine (ascii "boottime ") timeOffset) =
      { ns with boottime := some (rawOffset timeOffset) } := by
  have hclock : ascii "boottime " = ascii "boottime" ++ ascii " " := by decide
  simp [TimeNamespace.setOffset, hclock, Mounting.readOffset_offsetLine, rawOffset,
    show (32 : UInt8) ∉ ascii "boottime" by decide,
    show ascii "boottime" ≠ ascii "monotonic" by decide]

theorem writeOffset_spec [Itoa] [LawfulItoa] {clock buffer : Bytes}
    (timeOffset : Mounting.TimeOffset)
    (hclock : clock.length ≤ 10) (hbuffer : buffer.length = Mounting.sizeOffsetBuffer)
    (h : p.IsProc fd Mounting.TIMENS_OFFSETS) :
    Safely mountsKernel (Steady own) (Mounting.writeOffset fd clock buffer timeOffset)
      (fun buffer' q => buffer'.length = Mounting.sizeOffsetBuffer ∧
        q.attrs = { p.attrs with
          timeForChildren :=
            p.attrs.timeForChildren.map (·.setOffset (Mounting.offsetLine clock timeOffset)) })
      p := by
  obtain ⟨buffer', hbuffer', heq⟩ := Mounting.writeOffset_eq fd timeOffset hclock hbuffer
  rw [heq]
  have hfile : p.fileOf fd = some .timensOffsets := by
    rw [h.fileOf]
    decide
  apply (writeChecked_spec hfile (.of_eq rfl rfl rfl)).bind
  intro _ q _ hq
  exact Safely.pure ⟨hbuffer', hq⟩

theorem writeTimensOffsets_spec [Itoa] [LawfulItoa]
    (monotonicOffset boottimeOffset : Option Mounting.TimeOffset)
    (h : p.IsProc fd []) (htime : p.attrs.timeForChildren = some {}) :
    Safely mountsKernel (Steady own)
      (Mounting.writeTimensOffsets fd monotonicOffset boottimeOffset)
      (fun _ q => q.attrs = { p.attrs with
        timeForChildren := some ⟨monotonicOffset.map rawOffset, boottimeOffset.map rawOffset⟩ })
      p := by
  apply (openProc_spec (by decide) h).bind
  intro offsetsFd p₁ _ h₁
  obtain ⟨hproc, hattrs₁⟩ := h₁
  -- the first clock, whether it has an offset or not
  refine Safely.bind (Q := fun buffer q => buffer.length = Mounting.sizeOffsetBuffer ∧
      q.attrs = { p.attrs with timeForChildren := some ⟨monotonicOffset.map rawOffset, none⟩ })
    ?_ fun buffer p₂ h₂ hmonotonic => ?_
  · cases monotonicOffset with
    | none =>
      refine Safely.pure ⟨List.length_replicate, ?_⟩
      rw [hattrs₁]
      exact congrArg (fun time => { p.attrs with timeForChildren := time }) htime
    | some timeOffset =>
      apply (writeOffset_spec timeOffset (by decide) List.length_replicate hproc).mono
      intro buffer q hq
      refine ⟨hq.1, ?_⟩
      simp [hq.2, hattrs₁, htime, setOffset_monotonic]
  · obtain ⟨hbuffer, hattrs₂⟩ := hmonotonic
    cases boottimeOffset with
    | none => exact Safely.pure hattrs₂
    | some timeOffset =>
      apply (writeOffset_spec timeOffset (by decide) hbuffer (hproc.keeps h₂.mounts.toKeeps)).bind
      intro _ p₃ _ hq
      refine Safely.pure ?_
      simp [hq.2, hattrs₂, setOffset_boottime]

/-- `unshare`, but of the mount namespace. -/
theorem unshareOther_spec {flags : UInt32} (hflags : flags ≠ CLONE_NEWNS)
    (hown : Confines own p.attrs (p.attrs.unshare flags)) :
    Safely mountsKernel (Steady own) (Mounting.unshare flags)
      (fun _ q => q = { p with attrs := p.attrs.unshare flags } ∧
        (flags &&& CLONE_NEWUSER ≠ 0 → p.attrs.HasRoom)) p := by
  refine safely_attempt (Sat.next fun r q hk => ?_)
  cases r with
  | ok u =>
    obtain ⟨hmounts, ⟨hroom, hattrs⟩, hfds⟩ := hk
    simp only [Mounting.kernel, Mounting.Tries, if_neg hflags] at hmounts
    have hq : q = { p with attrs := p.attrs.unshare flags } := Process.ext hmounts hfds hattrs
    rw [hq]
    exact ⟨Steady.of_attrs hown, sat_done.mpr fun _ _ => ⟨rfl, hroom⟩⟩
  | error e =>
    obtain ⟨hmounts, hattrs, hfds⟩ := hk
    have hq : q = p := Process.ext hmounts hfds hattrs
    rw [hq]
    exact ⟨Std.Refl.refl p, sat_done.mpr fun _ ha => by cases ha⟩

theorem unshare_newtime (a : Attrs) :
    a.unshare CLONE_NEWTIME = { a with timeForChildren := some {} } := by
  have huser : (CLONE_NEWTIME &&& CLONE_NEWUSER != 0) = false := by decide
  have hcgroup : (CLONE_NEWTIME &&& CLONE_NEWCGROUP != 0) = false := by decide
  have htime : (CLONE_NEWTIME &&& CLONE_NEWTIME != 0) = true := by decide
  have hnet : (CLONE_NEWTIME &&& CLONE_NEWNET != 0) = false := by decide
  simp only [Attrs.unshare, huser, hcgroup, htime, hnet, Bool.false_eq_true, if_true, if_false]

theorem unshare_newnet (a : Attrs) : a.unshare CLONE_NEWNET = a.enterNetNamespace := by
  have huser : (CLONE_NEWNET &&& CLONE_NEWUSER != 0) = false := by decide
  have hcgroup : (CLONE_NEWNET &&& CLONE_NEWCGROUP != 0) = false := by decide
  have htime : (CLONE_NEWNET &&& CLONE_NEWTIME != 0) = false := by decide
  have hnet : (CLONE_NEWNET &&& CLONE_NEWNET != 0) = true := by decide
  simp only [Attrs.unshare, huser, hcgroup, htime, hnet, Bool.false_eq_true, if_true, if_false]

/-- The time namespace for children is entered. -/
theorem setnsTime_spec (h : p.IsProc fd TIME_FOR_CHILDREN) :
    Safely mountsKernel (Steady own) (Mounting.setns fd CLONE_NEWTIME)
      (fun _ q => q.attrs = { p.attrs with time := p.attrs.timeForChildren }) p := by
  have htime : CLONE_NEWTIME ≠ CLONE_NEWNS := by decide
  refine safely_attempt (Sat.next fun r q hk => ?_)
  cases r with
  | ok u =>
    obtain ⟨hmounts, henters, hfds⟩ := hk
    simp only [Mounting.kernel, Mounting.Tries, if_neg htime] at hmounts
    have hattrs : q.attrs = { p.attrs with time := p.attrs.timeForChildren } := by
      have henters : Enters p fd CLONE_NEWTIME q.attrs := henters
      rw [Enters, if_neg htime, if_pos rfl] at henters
      obtain ⟨time, hentered, hattrs⟩ := henters
      rw [hattrs, hentered h]
    have hq : q = { p with attrs := { p.attrs with time := p.attrs.timeForChildren } } :=
      Process.ext hmounts hfds hattrs
    rw [hq]
    exact ⟨Steady.of_attrs (.of_eq rfl rfl rfl), sat_done.mpr fun _ _ => rfl⟩
  | error e =>
    obtain ⟨hmounts, hattrs, hfds⟩ := hk
    have hq : q = p := Process.ext hmounts hfds hattrs
    rw [hq]
    exact ⟨Std.Refl.refl p, sat_done.mpr fun _ ha => by cases ha⟩

/-- The offsets that a policy gives the clocks. -/
def TimeOptions.offsets (self : TimeOptions) : TimeNamespace :=
  let offset (timeOffset : TimeOffset) : Int × Nat :=
    (timeOffset.seconds.val.toInt, timeOffset.nanoseconds.val.toNat)
  ⟨self.monotonicOffset.map offset, self.boottimeOffset.map offset⟩

theorem enterTimeNamespace_spec [Itoa] [LawfulItoa] (time : TimeOptions) (h : p.IsProc fd []) :
    Safely mountsKernel (Steady own) (enterTimeNamespace fd time)
      (fun _ q => q.attrs = { p.attrs with
        time := some time.offsets
        timeForChildren := some time.offsets }) p := by
  apply (unshareOther_spec (by decide) (by
    rw [unshare_newtime]
    exact .of_eq rfl rfl rfl)).bind
  intro _ p₁ h₁ hattrs₁
  obtain ⟨hp₁, -⟩ := hattrs₁
  rw [unshare_newtime] at hp₁
  have htime : p₁.attrs.timeForChildren = some {} := by rw [hp₁]
  apply (writeTimensOffsets_spec _ _ (h.keeps h₁.mounts.toKeeps) htime).andThen h₁
  intro _ p₂ h₂ hattrs₂
  apply (openProc_spec (by decide) (h.keeps h₂.mounts.toKeeps)).bind
  intro timensFd p₃ _ h₃
  obtain ⟨hproc, hattrs₃⟩ := h₃
  apply (setnsTime_spec hproc).mono
  intro _ q hq
  rw [hq, hattrs₃, hattrs₂, hp₁]
  simp [TimeOptions.offsets, rawOffset, TimeOffset.intoRaw, Function.comp_def]

/-- The time namespace of a policy, over the one the guest would be in. -/
def Namespaces.timeOver (self : Namespaces) (inherited : Option TimeNamespace) :
    Option TimeNamespace :=
  match self.time with
  | .unshared time => some time.offsets
  | .shared => inherited

theorem configureTime_spec [Itoa] [LawfulItoa] (policy : Policy) (h : p.IsProc fd []) :
    Safely mountsKernel (Steady own) (configureTime policy fd)
      (fun _ q => q.attrs = { p.attrs with
        time := policy.namespaces.timeOver p.attrs.time
        timeForChildren := policy.namespaces.timeOver p.attrs.timeForChildren }) p := by
  unfold configureTime Namespaces.timeOver
  cases policy.namespaces.time with
  | unshared time => exact enterTimeNamespace_spec time h
  | shared => exact Safely.pure rfl

/-! ## The sysctls -/

theorem openBeneathAndWrite_spec (file : ProcFile) (h : p.IsProc fd [])
    (hfile : procFile? path = some file) (hown : Confines own p.attrs (file.set value p.attrs)) :
    Safely mountsKernel (Steady own) (openBeneathAndWrite fd path value)
      (fun _ q => q.attrs = file.set value p.attrs) p :=
  writeFile_spec file (by decide) h (by rwa [procJoin, if_pos rfl]) hown

/-- The guest is then in a network namespace with vsock of its own, whose loopback is down. -/
theorem isolateVsock_spec (h : p.IsProc fd []) (hnet : p.attrs.net.isSome = true) :
    Safely mountsKernel (Steady own) (isolateVsock fd)
      (fun _ q => q.attrs = { p.attrs with net := some ⟨true, true, Loopback.fresh⟩ }) p := by
  have hlocal : (ascii "local" == ascii "local") = true := by decide
  obtain ⟨net, hsome⟩ := Option.isSome_iff_exists.mp hnet
  apply (openBeneathAndWrite_spec .childNsMode h (by decide)
    (Confines.mapNet hnet _)).bind
  intro _ p₁ _ hattrs₁
  have hmode : p₁.attrs = { p.attrs with net := some { net with childVsockLocal := true } } := by
    rw [hattrs₁]
    simp only [ProcFile.set, Attrs.mapNet, hsome, hlocal]
  apply (unshareOther_spec (by decide) (by
    rw [unshare_newnet]
    exact .of_eq rfl rfl rfl)).mono
  intro _ q hq
  rw [hq.1, unshare_newnet, hmode]
  simp [Attrs.enterNetNamespace]

/-- No more than one user namespace may be made in the innermost one. -/
theorem limitUserNamespaces_spec (h : p.IsProc fd []) {user : UserNamespace}
    {outer : List UserNamespace} (husers : p.attrs.users = user :: outer) :
    Safely mountsKernel (Steady own)
      (openBeneathAndWrite fd (ascii "sys/user/max_user_namespaces") (ascii "1"))
      (fun _ q => q.attrs =
        { p.attrs with users := { user with maxUserNamespaces := 1 } :: outer }) p := by
  have hone : readNat (ascii "1") = some 1 := by decide
  have hset : ProcFile.set (ascii "1") p.attrs .maxUserNamespaces =
      { p.attrs with users := { user with maxUserNamespaces := 1 } :: outer } := by
    simp [ProcFile.set, Attrs.mapUser, husers, hone]
  rw [← hset]
  refine openBeneathAndWrite_spec .maxUserNamespaces h (by decide) ?_
  rw [hset]
  exact .of_eq rfl rfl rfl

theorem applyOomScoreAdjustment_spec [Itoa] [LawfulItoa] (oomScoreAdjustment : Option UInt16)
    (h : p.IsProc fd []) :
    Safely mountsKernel (Steady own) (applyOomScoreAdjustment fd oomScoreAdjustment)
      (fun _ q => q.attrs = { p.attrs with
        oomScoreAdj := (oomScoreAdjustment.map UInt16.toNat).or p.attrs.oomScoreAdj }) p := by
  cases oomScoreAdjustment with
  | none => exact Safely.pure rfl
  | some oomScoreAdjustment =>
    apply (writeFile_spec .oomScoreAdj (by decide) h (by decide)
      (.of_eq rfl rfl rfl)).mono
    intro _ q hq
    have hlt : oomScoreAdjustment.toNat < 2 ^ 128 :=
      Nat.lt_of_lt_of_le oomScoreAdjustment.toNat_lt (by decide)
    rw [hq]
    simp [ProcFile.set, format_natCast hlt, readNat_decimal]

end Procfs

end LayerCake.Bubblebox.Sandbox
