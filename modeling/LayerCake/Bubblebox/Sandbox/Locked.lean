import LayerCake.Bubblebox.Sandbox.Confined

/-
  What holds of the command, whatever it does, and of the guest between its last limits.

  `disable_userns` sets a limit in a user namespace that the guest then leaves for another. The
  command may set what it likes in that one: the limit is out of its reach.

  The filter is installed last, so it is only to let through what is left of the guest.

  What is proved:
    1. `Locked.step`, `Locked.steps` — no call, and so no program, changes how many user
       namespaces a process is in, where one around the innermost has no room.
    2. `no_further_userns` — which is so for the command, where the policy asks for it.
    3. `filtered_calls` — in every run, once the filter is installed what is left of the guest
       makes no call but `execveat`, `write` and `exit`.
-/

namespace LayerCake.Bubblebox.Sandbox

open LayerCake.Effects LayerCake.Meowix LayerCake.Linux
open LayerCake.Bubblebox.Spawn
open LayerCake.Bubblebox.Spawn.Mounting (Object)

/-! ## User namespaces -/

/-- The user namespaces around the innermost one are the same. -/
structure SameUsers (a b : Attrs) : Prop where
  outer : b.users.tail = a.users.tail
  length : b.users.length = a.users.length

/-- Around the innermost user namespace there is one of which no more can be made. -/
def Attrs.Locked (a : Attrs) : Prop := ∃ user ∈ a.users.tail, user.IsFull

section Users
variable {a b c : Attrs} {p q : Process}

theorem SameUsers.of_eq (h : b.users = a.users) : SameUsers a b := ⟨by rw [h], by rw [h]⟩

theorem SameUsers.trans (h : SameUsers a b) (h' : SameUsers b c) : SameUsers a c :=
  ⟨h'.outer.trans h.outer, h'.length.trans h.length⟩

theorem SameUsers.mapUser (f : UserNamespace → UserNamespace) : SameUsers a (a.mapUser f) := by
  cases hu : a.users with
  | nil => exact .of_eq (by simp [Attrs.mapUser, hu])
  | cons user outer => exact ⟨by simp [Attrs.mapUser, hu], by simp [Attrs.mapUser, hu]⟩

theorem Attrs.Locked.same (h : a.Locked) (hsame : SameUsers a b) : b.Locked := by
  obtain ⟨user, huser, hfull⟩ := h
  exact ⟨user, hsame.outer ▸ huser, hfull⟩

theorem Attrs.Locked.not_hasRoom (h : a.Locked) : ¬ a.HasRoom := by
  obtain ⟨user, huser, hfull⟩ := h
  exact fun hroom => hroom user (List.mem_of_mem_tail huser) hfull

/-! ### Every call -/

/-- A call that neither installs a filter nor executes anything. -/
def Early : Op → Prop
  | .seccompSetModeFilter _ | .execveat _ => False
  | _ => True

/-- What only the calls change that are about it. -/
structure Leaves (a b : Attrs) : Prop where
  users : a.Locked → SameUsers a b
  filters : b.filters = a.filters
  executed : b.executed = a.executed

theorem Leaves.of_eq (husers : b.users = a.users) (hfilters : b.filters = a.filters)
    (hexecuted : b.executed = a.executed) : Leaves a b :=
  ⟨fun _ => .of_eq husers, hfilters, hexecuted⟩

theorem Leaves.of_same (h : b = a) : Leaves a b := .of_eq (by rw [h]) (by rw [h]) (by rw [h])

theorem Leaves.of_process (h : q = p) : Leaves p.attrs q.attrs := .of_same (by rw [h])

theorem Sets.leaves {ε α : Type} {r : Except ε α} {f : Attrs → Attrs} (h : Sets p q r f)
    (hf : ∀ a, Leaves a (f a)) : Leaves p.attrs q.attrs := by
  cases r with
  | ok _ =>
    have hq : q = { p with attrs := f p.attrs } := h
    rw [hq]
    exact hf p.attrs
  | error _ => exact .of_process h

theorem SetsIf.leaves {ε α : Type} {r : Except ε α} {condition : Prop} {f : Attrs → Attrs}
    (h : SetsIf p q r condition f) : Leaves p.attrs q.attrs := by
  cases r with
  | ok _ =>
    obtain ⟨-, namespaces, root, rfl⟩ := h
    exact .of_eq rfl rfl rfl
  | error _ => exact .of_process h

theorem Sheds.leaves {r : Except SyscallError Unit} {sequence : Capabilities.CapM Unit}
    (h : Sheds p q r sequence) : Leaves p.attrs q.attrs := by
  obtain ⟨-, rfl⟩ := Prod.mk.inj h
  exact .of_eq rfl rfl rfl

theorem Leaves.mapNet (f : NetNamespace → NetNamespace) : Leaves a (a.mapNet f) := by
  unfold Attrs.mapNet
  cases a.net <;> exact .of_eq rfl rfl rfl

theorem Leaves.mapUts (f : UtsNamespace → UtsNamespace) : Leaves a (a.mapUts f) := by
  unfold Attrs.mapUts
  cases a.uts <;> exact .of_eq rfl rfl rfl

theorem Leaves.mapUser (f : UserNamespace → UserNamespace) : Leaves a (a.mapUser f) :=
  ⟨fun _ => .mapUser f, rfl, rfl⟩

/-- A write to a file of procfs sets at most the innermost user namespace. -/
theorem Leaves.set (file : ProcFile) (value : Bytes) : Leaves a (file.set value a) := by
  cases file with
  | uidMap | gidMap | setgroups => exact .mapUser _
  | timensOffsets | oomScoreAdj => exact .of_eq rfl rfl rfl
  | maxUserNamespaces =>
    simp only [ProcFile.set]
    split
    · exact .of_eq rfl rfl rfl
    · exact .mapUser _
  | childNsMode => exact .mapNet _

/-- A user namespace is not made where there is no room for it. -/
theorem Leaves.unshare {flags : UInt32} (hroom : flags &&& CLONE_NEWUSER ≠ 0 → a.HasRoom) :
    Leaves a (a.unshare flags) := by
  refine ⟨fun hlocked => .of_eq ?_, ?_, ?_⟩
  · have huser : (flags &&& CLONE_NEWUSER != 0) = false := by
      have h : ¬ flags &&& CLONE_NEWUSER ≠ 0 := fun huser => hlocked.not_hasRoom (hroom huser)
      simpa using h
    unfold Attrs.unshare
    simp only [huser, Bool.false_eq_true, if_false]
    split <;> split <;> split <;> rfl
  · unfold Attrs.unshare
    dsimp only
    split <;> split <;> split <;> split <;> rfl
  · unfold Attrs.unshare
    dsimp only
    split <;> split <;> split <;> split <;> rfl

theorem Beside.leaves {op : Mounting.Op} {r : Mounting.Calls.Res op} (h : Beside p op r a) :
    Leaves p.attrs a := by
  cases op with
  | unshare flags =>
    cases r with
    | ok _ =>
      obtain ⟨hroom, rfl⟩ := h
      exact .unshare hroom
    | error _ => exact .of_same h
  | setns fd flags =>
    cases r with
    | ok _ =>
      have henters : Enters p fd flags a := h
      unfold Enters at henters
      split at henters
      · rw [henters]
        exact .of_eq rfl rfl rfl
      · split at henters
        · obtain ⟨time, -, rfl⟩ := henters
          exact .of_eq rfl rfl rfl
        · exact .of_same henters.2
    | error _ => exact .of_same h
  | chdir path =>
    cases r with
    | ok _ =>
      rw [show a = _ from h]
      exact .of_eq rfl rfl rfl
    | error _ => exact .of_same h
  | write fd value =>
    cases r with
    | ok n =>
      rw [show a = p.written fd value n from h]
      cases hfile : p.fileOf fd with
      | none =>
        rw [Process.written_none hfile]
        exact .of_same rfl
      | some file =>
        rw [Process.written_file hfile]
        split
        · exact .set file value
        · exact .of_same rfl
    | error _ => exact .of_same h
  | openTree | openTreeAttr | statx | fsopen | fsconfigSetString | fsconfigSetFd | fsconfigSetFlag
  | fsconfigCmdCreate | fsconfigCmdCreateExcl | fsmount | mkdirat | openat2 | symlinkat
  | moveMount => exact .of_same h

theorem Early.leaves {op : Op} (hop : Early op) {r : Calls.Res op} (hk : kernel p op r q) :
    Leaves p.attrs q.attrs := by
  cases op with
  | mounts op => exact Beside.leaves hk.2.1
  | dropBoundingSet | setCapabilities | setAmbientCapabilities => exact Sheds.leaves hk
  | setupLoopback =>
    obtain ⟨devices, -, rfl⟩ := hk
    exact .mapNet _
  | fds op =>
    obtain ⟨fds, -, rfl⟩ := hk
    exact .of_eq rfl rfl rfl
  | cgroups op =>
    have hq : q = { p with attrs := p.attrs.heard op r } := hk
    rw [hq]
    unfold Attrs.heard
    split <;> exact .of_eq rfl rfl rfl
  | sethostname | setdomainname =>
    simp only [kernel] at hk
    exact hk.leaves fun _ => .mapUts _
  | rtSigaction | setsid | schedSetattr | createCoreSchedulingCookie | keyctlAssumeAuthority
  | keyctlJoinSessionKeyring | keyctlSetReqkeyKeyring | prlimit64 =>
    simp only [kernel] at hk
    exact hk.leaves fun _ => .of_eq rfl rfl rfl
  | seccompSetModeFilter | execveat => exact hop.elim
  | updateMountPropagationFlags | moveMountCwd | chroot | umount2 =>
    simp only [kernel] at hk
    exact hk.leaves
  | rtSigprocmask how set =>
    cases r with
    | ok _ =>
      obtain ⟨blocked, -, rfl⟩ := hk
      exact .of_eq rfl rfl rfl
    | error _ => exact .of_process hk
  | umask mode =>
    obtain ⟨-, rfl⟩ := hk
    exact .of_eq rfl rfl rfl
  | mountSetattr =>
    cases r with
    | ok _ =>
      obtain ⟨mountAttrs, rfl, -⟩ := hk
      exact .of_eq rfl rfl rfl
    | error _ => exact .of_process hk
  | fchdir | chdir =>
    cases r with
    | ok _ =>
      obtain ⟨cwd, rfl⟩ := hk
      exact .of_eq rfl rfl rfl
    | error _ => exact .of_process hk
  | socket | write => exact .of_process hk.1
  | exit => exact .of_process hk

/-- What the other two change. -/
theorem seccomp_leaves {filter : List SockFilter} {r : Calls.Res (.seccompSetModeFilter filter)}
    (hk : kernel p (.seccompSetModeFilter filter) r q) :
    q = p ∨ q = { p with attrs := { p.attrs with filters := filter :: p.attrs.filters } } := by
  cases r with
  | ok _ => exact .inr hk
  | error _ => exact .inl hk

theorem execveat_leaves {action : Exec} {r : Calls.Res (.execveat action)}
    (hk : kernel p (.execveat action) r q) :
    q = p ∨ ∃ file, q = p.exec file action := by
  cases r with
  | ok _ => exact .inr hk
  | error _ => exact .inl hk

theorem Locked.step {op : Op} {r : Calls.Res op} (hlocked : p.attrs.Locked)
    (hk : kernel p op r q) : SameUsers p.attrs q.attrs := by
  by_cases hop : Early op
  · exact (hop.leaves hk).users hlocked
  · cases op with
    | seccompSetModeFilter filter => rcases seccomp_leaves hk with rfl | rfl <;> exact .of_eq rfl
    | execveat action => rcases execveat_leaves hk with rfl | ⟨file, rfl⟩ <;> exact .of_eq rfl
    | _ => exact absurd trivial hop

/-- Whatever the program. -/
theorem Locked.steps {α : Type} {program rest : Prog Calls α} (hlocked : p.attrs.Locked)
    (hrun : Steps kernel program p rest q) : SameUsers p.attrs q.attrs ∧ q.attrs.Locked := by
  induction hrun with
  | refl => exact ⟨.of_eq rfl, hlocked⟩
  | @head _ p _ u _ _ hd _ ih =>
    have hsame : SameUsers p.attrs u.attrs := by
      cases hd with
      | again hk _ => exact Locked.step hlocked hk
      | next hk _ => exact Locked.step hlocked hk
    obtain ⟨hrest, hlast⟩ := ih (hlocked.same hsame)
    exact ⟨hsame.trans hrest, hlast⟩

end Users

/-! ## The command -/

section Command
variable {policy : Policy} (launched : Launched policy) (hostUid : Uid) (hostGid : Gid)
  (command : CommandInner)

/-- The namespace that the guest left has the limit it set there, and has the guest's own. -/
theorem Confined.locked [Itoa] {file : Capabilities.FileCapabilities} {t : Process}
    (hconfined : Confined launched hostUid hostGid file t)
    (hdisable : policy.namespaces.user.disableUserns = true) :
    t.attrs.Locked ∧ t.attrs.users.length = launched.parent.users.length + 2 := by
  unfold Attrs.Locked
  rw [hconfined.users]
  simp only [userNamespaces, Namespaces.nested, if_pos hdisable]
  refine ⟨⟨_, List.mem_cons_self, ?_⟩, by simp⟩
  exact Nat.le_refl 1

/-- Where the policy asks for it, no program that was executed gets another user namespace. -/
theorem no_further_userns [Itoa] [LawfulItoa] (order : ByteOrder)
    (hdisable : policy.namespaces.user.disableUserns = true) {rest : Prog Calls Outcome}
    {t : Process}
    (hrun : Steps kernel (guest order policy launched.inherited hostUid hostGid command)
      launched.process rest t)
    (hexec : t.attrs.executed.isSome = true) {α : Type} {program left : Prog Calls α} {u : Process}
    (hprogram : Steps kernel program t left u) :
    u.attrs.users.length = launched.parent.users.length + 2 ∧
      u.attrs.users.tail = t.attrs.users.tail ∧
      ∀ flags r v, flags &&& CLONE_NEWUSER ≠ 0 → kernel u (.mounts (.unshare flags)) r v →
        ∃ e, r = .error e := by
  obtain ⟨⟨action, file⟩, haction⟩ := Option.isSome_iff_exists.mp hexec
  obtain ⟨-, hconfined⟩ := executed_state launched hostUid hostGid command order hrun haction
  obtain ⟨hlocked, hlength⟩ := hconfined.locked launched hostUid hostGid hdisable
  obtain ⟨hsame, hstill⟩ := Locked.steps hlocked hprogram
  refine ⟨hsame.length.trans hlength, hsame.outer, fun flags r v huser hk => ?_⟩
  cases r with
  | ok a => exact absurd (hk.2.1.1 huser) hstill.not_hasRoom
  | error e => exact ⟨e, rfl⟩

/-! ## The filter -/

theorem SetsUp.early {op : Op} (h : SetsUp op) : Early op := by
  cases op with
  | seccompSetModeFilter | execveat => exact h.elim
  | _ => trivial

theorem early_report (order : ByteOrder) (result : Except PostSpawnGuest Unit) :
    (report order result).Calls Early := by
  have hwrite : ∀ segment, (performUntil (I := Calls) (.write segment) interrupted).Calls Early :=
    fun _ => ⟨trivial, fun _ => trivial⟩
  exact (writeAll_calls hwrite _).bind fun _ => trivial

/-- The filter of the policy is installed. -/
def Installs (policy : Policy) (op : Op) : Prop :=
  ∃ filter, policy.seccompFilter = some filter ∧ op = .seccompSetModeFilter filter

theorem confine_then (guestPipe : RawFd) :
    (confine policy guestPipe).run.Then Early (Installs policy) (fun _ => False) := by
  refine MakesOnly.then ((setsUp_fileDescriptorPolicy guestPipe).mono
    fun _ => SetsUp.early) fun _ => ?_
  refine MakesOnly.then ((setsUp_applyResourceLimitPolicy policy.rlimits).mono
    fun _ => SetsUp.early) fun _ => ?_
  refine MakesOnly.then (calls_attemptWith ⟨trivial, fun _ => trivial⟩) fun _ => ?_
  cases hfilter : policy.seccompFilter with
  | none => trivial
  | some filter =>
    show (seccompSetModeFilter filter).run.Then Early (Installs policy) fun _ => False
    unfold seccompSetModeFilter
    split
    · refine Prog.Then.bind (p := perform (I := Calls) (.seccompSetModeFilter filter))
        (.inr ⟨⟨filter, hfilter, rfl⟩, fun _ => rfl, fun _ => trivial⟩) (fun r => ?_) fun r => ?_
      · cases r <;> trivial
      · cases r <;> trivial
    · trivial

/-- Nothing is called between the filter and the end of `launch`. -/
theorem launch_then [Itoa] (order : ByteOrder) :
    (launch order policy launched.inherited hostUid hostGid command).run.Then Early
      (Installs policy) (fun _ => False) := by
  have hsets := setsUp_guestPostClone order launched.inherited hostUid hostGid command
  refine MakesOnly.then (hsets.mono fun _ => SetsUp.early) fun action => ?_
  refine MakesOnly.then (p := ExceptT.lift (report order (.ok ()))) ?_ fun _ => ?_
  · show (Except.ok <$> report order (.ok ())).Calls Early
    rw [map_eq_pure_bind]
    exact (early_report order _).bind fun _ => trivial
  · refine Prog.Then.bind (f := ExceptT.bindCont fun _ => pure action) (confine_then _)
      (fun r => ?_) fun r => ?_
    · cases r <;> trivial
    · cases r <;> trivial

/-- A program that makes no calls is at its end. -/
theorem done_of_calls {I : Interface} {α : Type} {p : Prog I α} (h : p.Calls fun _ => False) :
    ∃ a, p = .done a := by
  cases p with
  | done a => exact ⟨a, rfl⟩
  | call op again k => exact h.1.elim

/-- The filters of a run: those the guest came with, or that of the policy before them. -/
def Filtered (policy : Policy) (inherited : List (List SockFilter)) (p : Process) : Prop :=
  p.attrs.filters = inherited ∨ p.attrs.filters = filtersOver policy inherited

theorem Last.filters {action : Option Exec} {op : Op} (hop : Last action op) {p q : Process}
    {r : Calls.Res op} (hk : kernel p op r q) : q.attrs.filters = p.attrs.filters := by
  cases op with
  | execveat other => rcases execveat_leaves hk with rfl | ⟨file, rfl⟩ <;> rfl
  | write bytes => rw [hk.1]
  | exit code => rw [show q = p from hk]
  | _ => exact hop.elim

theorem Installs.filtered {op : Op} (hop : Installs policy op) {p q : Process} {r : Calls.Res op}
    (hp : p.attrs.filters = launched.parent.filters) (hk : kernel p op r q) :
    Filtered policy launched.parent.filters q := by
  obtain ⟨filter, hfilter, rfl⟩ := hop
  unfold Filtered filtersOver
  rw [hfilter, ← hp]
  rcases seccomp_leaves hk with rfl | rfl
  · exact .inl rfl
  · exact .inr rfl

/-- In every run, once the filter is installed the guest makes no call but to execute the
command, to report an error and to exit. -/
theorem filtered_calls [Itoa] [LawfulItoa] (order : ByteOrder) {rest : Prog Calls Outcome}
    {t : Process}
    (hrun : Steps kernel (guest order policy launched.inherited hostUid hostGid command)
      launched.process rest t) :
    t.attrs.filters = launched.parent.filters ∨
      t.attrs.filters = filtersOver policy launched.parent.filters ∧
        rest.Calls (Last (some command.spawnAction)) := by
  have hstart : launched.process.attrs.filters = launched.parent.filters := by
    show (launched.parent.clone (cloneFlags policy _)).filters = _
    rw [clone_cloneFlags]
  -- what is left of a guest whose set up is over
  have hlast : ∀ r u,
      Returns kernel (launch order policy launched.inherited hostUid hostGid command).run
        launched.process r u → (conclude order r).Calls (Last (some command.spawnAction)) := by
    intro r u hret
    have hpost := Wp.returns ((launch_spec launched hostUid hostGid command order).weaken
      fun _ _ _ => trivial) hret
    cases r with
    | ok action =>
      rw [hpost.1]
      exact exec_calls order command.spawnAction
    | error e => exact fail_calls order e _
  have hlaunch : ∀ {rest : Prog Calls (Except (Stop PostSpawnGuest) Exec)} {u : Process},
      Steps kernel (launch order policy launched.inherited hostUid hostGid command).run
        launched.process rest u → u.attrs.filters = launched.parent.filters ∨
          Filtered policy launched.parent.filters u ∧ rest.Calls fun _ => False := by
    intro rest u hsteps
    refine (Steps.then (J := fun p => p.attrs.filters = launched.parent.filters)
      (M := Filtered policy launched.parent.filters)
      (fun p op r q hop hp hk => (hop.leaves hk).filters.trans hp)
      (fun p op r q hop hp hk => hop.filtered launched hp hk)
      (fun p op r q hop _ _ => hop.elim) (launch_then launched hostUid hostGid command order) hstart
      hsteps).imp_left fun h => h.1
  rcases Steps.of_bind hrun with ⟨rest', rfl, hsteps⟩ | ⟨r, u, hret, hsteps⟩
  · rcases hlaunch hsteps with hkept | ⟨hfiltered, hnone⟩
    · exact .inl hkept
    · obtain ⟨r, rfl⟩ := done_of_calls hnone
      exact hfiltered.imp_right fun h => ⟨h, hlast r t hsteps⟩
  · have hfiltered : Filtered policy launched.parent.filters u := by
      rcases hlaunch hret with hkept | ⟨hfiltered, -⟩
      · exact .inl hkept
      · exact hfiltered
    obtain ⟨hsame, hcalls⟩ := (hlast r u hret).steps
      (J := fun p => p.attrs.filters = u.attrs.filters)
      (fun p op r q hop hp hk => (hop.filters hk).trans hp) rfl hsteps
    unfold Filtered at hfiltered
    rw [← hsame] at hfiltered
    exact hfiltered.imp_right fun h => ⟨h, hcalls⟩

end Command

section Work

local instance lockedItoa : Itoa := Itoa.decimal

local instance lockedItoa_lawful : LawfulItoa := Itoa.decimal_lawful

/-- The command of a guest that was not to make user namespaces makes none. -/
theorem no_further_userns_work : ∃ t, Returns kernel workGuest workLaunched.process .executed t ∧
    t.attrs.users.length = 2 ∧
      ∀ r v, kernel t (.mounts (.unshare CLONE_NEWUSER)) r v → ∃ e, r = .error e := by
  obtain ⟨t, action, file, hret, hexecuted⟩ := workGuest_returns
  obtain ⟨hlength, -, hunshare⟩ := no_further_userns workLaunched
    ⟨1000, by decide⟩ ⟨100, by decide⟩ workCommand .little rfl hret (by rw [hexecuted]; rfl)
    (Steps.refl (K := kernel) (perform (I := Calls) (.mounts (.unshare CLONE_NEWUSER))) t)
  exact ⟨t, hret, hlength, fun r v hk => hunshare CLONE_NEWUSER r v (by decide) hk⟩

theorem filtered_calls_work : ∃ t, Returns kernel workGuest workLaunched.process .executed t ∧
    (t.attrs.filters = [] ∨ t.attrs.filters = filtersOver workSandbox []) := by
  obtain ⟨t, action, file, hret, -⟩ := workGuest_returns
  exact ⟨t, hret, (filtered_calls workLaunched ⟨1000, by decide⟩
    ⟨100, by decide⟩ workCommand .little hret).imp_right fun h => h.1⟩

end Work

end LayerCake.Bubblebox.Sandbox
