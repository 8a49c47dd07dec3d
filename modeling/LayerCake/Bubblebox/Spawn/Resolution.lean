import LayerCake.Bubblebox.Spawn.ResolveHost

/-
  The three passes of `spawn/mounts.rs` together, in the order in which
  `guest_post_clone` (`spawn/mod.rs`) runs them, on the buffers of `clone_into`.

  What is proved: the three kinds of mounts are all there are (`passes_perm`), so every
  slot is written once (`resolveMappings_spec`), and an overlay is given the mounts of
  its own directories (`given_overlay`). `resolved_once` puts them together.
-/

namespace LayerCake.Bubblebox.Spawn.Mounting

open LayerCake.Effects LayerCake.Meowix LayerCake.Linux

/-! ## The passes -/

/-- Every mapping is resolved by one of the passes. -/
theorem passes_perm (mappings : List ((Guest × Mount) × Nat)) :
    (ofPass .bind mappings ++ ofPass .overlay mappings ++ ofPass .nonbind mappings).Perm
      mappings := by
  induction mappings with
  | nil => exact .nil
  | cons m mappings ih =>
    have hcons : ∀ pass, ofPass pass (m :: mappings) =
        if Mount.pass m.1.2 = pass then m :: ofPass pass mappings else ofPass pass mappings := by
      intro pass
      simp [ofPass, List.filter_cons]
    rw [hcons, hcons, hcons]
    cases hm : Mount.pass m.1.2 with
    | bind => exact ih.cons m
    -- the mapping is moved in front of those of the passes before
    | overlay =>
      show (ofPass .bind mappings ++ m :: ofPass .overlay mappings ++ _).Perm _
      rw [List.append_assoc, List.cons_append]
      refine List.perm_middle.trans (.cons m ?_)
      rw [← List.append_assoc]
      exact ih
    | nonbind => exact List.perm_middle.trans (ih.cons m)

/-- Together they have a mapping for each slot. -/
theorem passes_length (tree : MountTree) :
    (ofPass .bind tree.tree.toList.zipIdx).length +
      (ofPass .overlay tree.tree.toList.zipIdx).length +
      (ofPass .nonbind tree.tree.toList.zipIdx).length = tree.size := by
  have hlen := (passes_perm tree.tree.toList.zipIdx).length_eq
  rw [List.length_append, List.length_append, List.length_zipIdx] at hlen
  exact hlen.trans Std.TreeMap.length_toList

/-- The capacities that `clone_into` asks for, or more. -/
structure Buffers (policy : Policy) where
  resolved : Nat
  namespaceFds : Nat
  overlayFds : Nat
  overlayMounts : Nat
  resolved_le : policy.mountTree.size ≤ resolved
  namespaceFds_le : policy.mountTree.size ≤ namespaceFds
  overlayFds_le : policy.mountTree.hostMountCount ≤ overlayFds
  overlayMounts_le : policy.mountTree.size ≤ overlayMounts

namespace Buffers
variable {policy : Policy}

def scratch (self : Buffers policy) : Scratch :=
  ⟨.withCapacity self.namespaceFds, .withCapacity self.overlayFds, .withCapacity self.overlayMounts⟩

end Buffers

/-- What `guest_post_clone` does between the passes: it writes the id maps, enters the
time namespace and stops the propagation of mounts. -/
structure Interludes where
  Value : Type
  first : ExceptT PostSpawnGuest (Prog Calls) Value
  second : Value → ExceptT PostSpawnGuest (Prog Calls) Unit
  first_inert : first.run.Calls (Op.Inert fun _ => True)
  second_inert : ∀ value, (second value).run.Calls (Op.Inert fun _ => True)

/-- Code without unchecked operations. -/
def checked {α : Type} (p : ExceptT PostSpawnGuest (Prog Calls) α) : Setup α :=
  ExceptT.mk do
    match ← p.run with
    | .ok a => return .ok a
    | .error e => return .error (.error e)

/-- What the passes leave. -/
structure Resolution where
  resolved : Resolved
  nBinds : Nat
  nOverlay : Nat
  nNonBinds : Nat

/-- The three passes, with what comes between them. -/
def resolveMappings [Itoa] (policy : Policy) (buffers : Buffers policy) (between : Interludes) :
    Setup Resolution := do
  let mappings := policy.mountTree.tree.toList
  let (resolved, scratch, nBinds) ←
    resolveBindMappings mappings ⟨0, ⟨buffers.resolved, []⟩⟩ buffers.scratch
  let value ← checked between.first
  let (resolved, nOverlay) ←
    finishOverlayMountResolution resolved scratch.overlayFds scratch.overlayMounts
  checked (between.second value)
  let (resolved, nNonBinds) ← resolveNonbindMappings mappings resolved
  return { resolved, nBinds, nOverlay, nNonBinds }

/-- The guest when it begins to set up its mounts: what the policy holds is open, and no
mount was moved and no entry created yet. -/
structure Launch (policy : Policy) where
  state : State
  held : Held policy.mountTree.tree.toList state
  attached : state.attached = []
  created : state.created = []
  made : state.made = []

theorem checked_spec {α : Type} {s : State} {p : ExceptT PostSpawnGuest (Prog Calls) α}
    (hp : p.run.Calls (Op.Inert fun _ => True)) :
    Safely kernel Prepares (checked p) (fun _ _ => True) s := by
  have hcalls := hp.sat (K := kernel) (G := Prepares) (J := fun _ => True) (s := s)
    (fun t op r t' hop _ hk => ⟨hop.prepares hk, trivial⟩) trivial
  refine Sat.bind (hcalls.mono fun r t _ => ?_)
  cases r with
  | ok a => exact sat_done.mpr trivial
  | error e => exact sat_done.mpr (by simp)

section Together
variable {policy : Policy}

/-- The validator counted enough host mounts. -/
theorem Buffers.room (buffers : Buffers policy) :
    Room policy.mountTree.tree.toList.zipIdx buffers.scratch := by
  have hsize : policy.mountTree.tree.toList.zipIdx.length = policy.mountTree.size := by
    rw [List.length_zipIdx]
    exact Std.TreeMap.length_toList
  refine ⟨hsize ▸ buffers.namespaceFds_le, ?_, hsize ▸ buffers.overlayMounts_le⟩
  refine Nat.le_trans ?_ buffers.overlayFds_le
  have hcount := validateFrom_count _ _ _ _ policy.valid
  rw [hcount, Nat.zero_add]
  -- the validator counts one for upper directories of either kind
  have hlayers : ∀ m : Mount, (Mount.layers m).length ≤ m.hostMounts := by
    intro m
    cases m with
    | overlay lowerdirs datadirs upperdirs attributes =>
      cases upperdirs with
      | none => simp [Mount.layers, Mount.parent, Mount.hostMounts]
      | some upperdirs =>
        cases upperdirs <;> simp [Mount.layers, Mount.parent, Mount.hostMounts, Nat.add_assoc]
    | _ => exact Nat.zero_le _
  generalize policy.mountTree.tree.toList = mappings
  have hgen : ∀ n, (layersOf (mappings.zipIdx n)).length ≤
      (mappings.map fun m => m.2.hostMounts).sum := by
    induction mappings with
    | nil => intro n; exact Nat.le_refl _
    | cons m mappings ih =>
      intro n
      have := ih (n + 1)
      have := hlayers m.2
      simp only [List.zipIdx_cons, layersOf, List.flatMap_cons, List.length_append, List.map_cons,
        List.sum_cons] at *
      omega
  exact hgen 0

theorem given_withLayers (c : Object) (key key' : Bytes) (dirs : List RawFd) :
    (c.withLayers key dirs).given key' =
      c.given key' ++ if key = key' then dirs.map .layer else [] := by
  induction dirs generalizing c with
  | nil => simp [Object.withLayers]
  | cons dir dirs ih =>
    have hstep := ih (c.setFd key (.layer dir))
    rw [Object.withLayers] at hstep ⊢
    rw [List.foldl_cons, hstep, Object.given]
    split
    · simp
    · simp

/-- An overlay is given the mounts of its own directories. -/
theorem given_overlay [Itoa] (lowerdirs datadirs : List RawFd) (upperdirs : Option UpperDirs)
    (attributes : UInt32) :
    let o := Object.mounted (.overlay lowerdirs datadirs upperdirs) attributes
    o.given (ascii "lowerdir+") = lowerdirs.map .layer ∧
      o.given (ascii "datadir+") = datadirs.map .layer ∧
      ∀ parent upperdir upperdirFd workdir workdirFd,
        upperdirs = some (.fd parent upperdir upperdirFd workdir workdirFd) →
        o.given (ascii "upperdir") = [.opened (.layer parent) upperdir HOST_DIR_HOW] ∧
        o.given (ascii "workdir") = [.opened (.layer parent) workdir HOST_DIR_HOW] := by
  -- the upper directories are set under keys of their own
  have hkeep : ∀ (c : Object) key, ascii "upperdir" ≠ key → ascii "workdir" ≠ key →
      (c.withUpperDirs upperdirs).given key = c.given key := by
    intro c key hupper hwork
    match upperdirs with
    | none => rfl
    | some (.fd ..) => simp [Object.withUpperDirs, Object.given, hupper, hwork]
    | some (.tmpfs ..) => simp [Object.withUpperDirs, Object.given, hupper, hwork]
  have hdata : ascii "datadir+" ≠ ascii "lowerdir+" := by decide
  refine ⟨?_, ?_, ?_⟩
  · simp only [Object.given, Object.overlay]
    rw [hkeep _ _ (by decide) (by decide), given_withLayers, given_withLayers]
    simp [Object.given, hdata]
  · simp only [Object.given, Object.overlay]
    rw [hkeep _ _ (by decide) (by decide), given_withLayers, given_withLayers]
    simp [Object.given, hdata.symm]
  · intro parent upperdir upperdirFd workdir workdirFd hfd
    subst hfd
    have hupper : ascii "lowerdir+" ≠ ascii "upperdir" ∧ ascii "datadir+" ≠ ascii "upperdir" ∧
        ascii "workdir" ≠ ascii "upperdir" := by decide
    have hwork : ascii "lowerdir+" ≠ ascii "workdir" ∧ ascii "datadir+" ≠ ascii "workdir" := by
      decide
    constructor
    · simp [Object.given, Object.overlay, Object.withUpperDirs, given_withLayers, hupper]
    · simp [Object.given, Object.overlay, Object.withUpperDirs, given_withLayers, hwork,
        hupper.2.2.symm]

/-- The passes together fill every slot with the resolution of its own mapping. -/
theorem resolveMappings_spec [Itoa] [LawfulItoa] (buffers : Buffers policy) (between : Interludes)
    {s : State}
    (hheld : Held policy.mountTree.tree.toList s) :
    Safely kernel Prepares (resolveMappings policy buffers between)
      (fun r t => r.nBinds + r.nOverlay + r.nNonBinds = policy.mountTree.size ∧
        ∃ todo, todo.Perm policy.mountTree.tree.toList.zipIdx ∧
          Filled policy.mountTree.size r.resolved.spare todo t) s := by
  have hsize : policy.mountTree.tree.toList.length = policy.mountTree.size :=
    Std.TreeMap.length_toList
  unfold resolveMappings
  refine (resolveBindMappings_spec rfl buffers.room hheld ⟨.nil, .nil, rfl⟩).bind
    fun r₁ s₁ h₁ hbinds => ?_
  obtain ⟨-, hfilled, hcloned, hmounts, hnBinds⟩ := hbinds
  apply (checked_spec between.first_inert).bind
  intro value s₂ h₂ _
  have hcloned' := hcloned.imp fun _ _ hl => hl.keeps h₂.toKeeps
  refine (finishOverlayMountResolution_spec (hfilled.keeps h₂.toKeeps) hcloned' hmounts).bind
    fun r₃ s₃ h₃ hoverlays => ?_
  obtain ⟨-, hfilled, hnOverlay⟩ := hoverlays
  apply (checked_spec (between.second_inert value)).bind
  intro _ s₄ h₄ _
  have hst : Keeps s s₄ :=
    h₁.toKeeps.trans (h₂.toKeeps.trans (h₃.toKeeps.trans h₄.toKeeps))
  refine (resolveNonbindMappings_spec (hfilled.keeps h₄.toKeeps) (hheld.keeps hst)).bind
    fun r₅ s₅ h₅ hnonbinds => ?_
  obtain ⟨-, hfilled, hnNonBinds⟩ := hnonbinds
  rw [hsize] at hfilled
  refine Safely.pure ⟨?_, _, passes_perm _, hfilled⟩
  rw [hnBinds, hnOverlay, hnNonBinds, passes_length policy.mountTree]

/-- In every run of the three passes no unchecked operation is undefined. When they
succeed, they have counted all mappings, each slot was written once, with the resolution
of the mapping of its index, and each overlay was given what was captured of its own
directories, in their order. -/
theorem resolved_once [Itoa] [LawfulItoa] (policy : Policy) (buffers : Buffers policy)
    (between : Interludes)
    (launch : Launch policy) {r : Except (Stop PostSpawnGuest) Resolution} {t : State}
    (hrun : Returns kernel (resolveMappings policy buffers between).run launch.state r t) :
    r ≠ .error .undefined ∧ ∀ out, r = .ok out →
      out.nBinds + out.nOverlay + out.nNonBinds = policy.mountTree.size ∧
      (∀ w ∈ out.resolved.spare.written, w.1 < policy.mountTree.size) ∧
      (∀ i m, policy.mountTree.tree.toList[i]? = some m →
        ∃ x, out.resolved.spare.Once i x ∧ Resolves t m x) ∧
      ∀ i destination lowerdirs datadirs upperdirs attributes,
        policy.mountTree.tree.toList[i]? =
          some (destination, .overlay lowerdirs datadirs upperdirs attributes) →
        ∃ fd o, out.resolved.spare.Once i (.fd fd destination true) ∧ t.objects fd = some o ∧
          o.given (ascii "lowerdir+") = lowerdirs.map .layer ∧
          o.given (ascii "datadir+") = datadirs.map .layer ∧
          ∀ parent upperdir upperdirFd workdir workdirFd,
            upperdirs = some (.fd parent upperdir upperdirFd workdir workdirFd) →
            o.given (ascii "upperdir") = [.opened (.layer parent) upperdir HOST_DIR_HOW] ∧
            o.given (ascii "workdir") = [.opened (.layer parent) workdir HOST_DIR_HOW] := by
  have hpost := Wp.returns ((resolveMappings_spec buffers between launch.held).weaken
    fun _ _ _ => trivial) hrun
  cases r with
  | error e =>
    refine ⟨fun he => ?_, fun out hout => by cases hout⟩
    cases he
    exact hpost rfl
  | ok out =>
    refine ⟨(by intro he; cases he), fun out' hout => ?_⟩
    cases hout
    obtain ⟨hcount, todo, hperm, hfilled⟩ := hpost
    have hsize : policy.mountTree.tree.toList.length = policy.mountTree.size :=
      Std.TreeMap.length_toList
    have honce : ∀ i m, policy.mountTree.tree.toList[i]? = some m →
        ∃ x, out.resolved.spare.Once i x ∧ Resolves t m x :=
      fun i m hi => Spare.once_of_perm hperm hfilled.written hi
    refine ⟨hcount, fun w hw => ?_, honce, ?_⟩
    · obtain ⟨m, hm, hwm, -⟩ := exists_of_mem_left hfilled.written hw
      rw [hwm, ← hsize]
      exact (index_lt (hperm.mem_iff.mp hm)).1
    · intro i destination lowerdirs datadirs upperdirs attributes hi
      obtain ⟨x, hx, hres⟩ := honce i _ hi
      cases x with
      | fd fd destination' isDirectory =>
        obtain ⟨rfl, -, o, hobj, hfd⟩ := hres
        cases hobj
        exact ⟨fd, _, hx, hfd, given_overlay lowerdirs datadirs upperdirs _⟩
      | file | symlink | directory => cases hres

end Together

/-! ## A policy -/

def hostsPath : Guest := ⟨⟨ascii "/", ascii "hosts"⟩, ascii "/hosts", rfl⟩

def tmpPath : Guest := ⟨⟨ascii "/", ascii "tmp"⟩, ascii "/tmp", rfl⟩

def tmpWorkPath : Guest := ⟨⟨ascii "/tmp", ascii "work"⟩, ascii "/tmp/work", rfl⟩

def hostsFile : Mount := .bind (.file 7 (ascii "hosts") 8 LAYER_ATTRIBUTES false)

def smallTmpfs : Mount := .tmpfs (.percent 50) none .user 0o755 LAYER_ATTRIBUTES

def workUpperDirs : UpperDirs := .fd 4 (ascii "upper") 5 (ascii "work") 6

def workOverlay : Mount := .overlay [1, 2] [3] (some workUpperDirs) LAYER_ATTRIBUTES

/-- A file of the host, and an overlay that is written to the host, on a tmpfs. -/
def workPolicy : Policy where
  mountTree :=
    { ((MountTree.empty.mount workOverlay tmpWorkPath).mount hostsFile hostsPath).mount smallTmpfs
        tmpPath with
      hostMountCount := 4 }
  valid := by decide +kernel

theorem workPolicy_toList : workPolicy.mountTree.tree.toList =
    [(hostsPath, hostsFile), (tmpPath, smallTmpfs), (tmpWorkPath, workOverlay)] := rfl

/-- `Held`, as a check that runs. -/
theorem held_of_all {mappings : List (Guest × Mount)} {s : State}
    (h : (mappings.all fun m =>
      (Mount.descriptors m.2).all fun fd => s.objects fd == some (.held fd)) = true) :
    Held mappings s := by
  intro m hm fd hfd
  have hm' := List.all_eq_true.mp h m hm
  simpa using List.all_eq_true.mp hm' fd hfd

/-- A guest that has the descriptors of the policy. -/
def workLaunch : Launch workPolicy where
  state := {
    objects := fun fd => if 1 ≤ fd ∧ fd ≤ 8 then some (.held fd) else none
    places := fun _ => none
    ns := .inherited
    cwd := .inherited
    attached := []
    entries := fun _ => none
    created := []
    made := [] }
  held := held_of_all (by decide +kernel)
  attached := rfl
  created := rfl
  made := rfl

def workBuffers : Buffers workPolicy where
  resolved := 3
  namespaceFds := 3
  overlayFds := 4
  overlayMounts := 3
  resolved_le := by decide +kernel
  namespaceFds_le := by decide +kernel
  overlayFds_le := by decide +kernel
  overlayMounts_le := by decide +kernel

def noInterludes : Interludes where
  Value := Unit
  first := pure ()
  second _ := pure ()
  first_inert := trivial
  second_inert _ := trivial

section Work

local instance workItoa : Itoa := Itoa.decimal

local instance workItoa_lawful : LawfulItoa := Itoa.decimal_lawful

/-- The passes succeed, and the overlay is given the clones of its own directories. -/
theorem resolved_work :
    ∃ out t, Returns kernel (resolveMappings workPolicy workBuffers noInterludes).run
        workLaunch.state (.ok out) t ∧
      out.nBinds + out.nOverlay + out.nNonBinds = 3 ∧
      ∃ fd o, out.resolved.spare.Once 2 (.fd fd tmpWorkPath true) ∧
        t.objects fd = some o ∧ o.given (ascii "lowerdir+") = [.layer 1, .layer 2] ∧
        o.given (ascii "upperdir") = [.opened (.layer 4) (ascii "upper") HOST_DIR_HOW] := by
  have hrun : (run mountImpl 100 (resolveMappings workPolicy workBuffers noInterludes).run
      workLaunch.state).any (fun x => x.1.toBool) := by
    decide +kernel
  obtain ⟨⟨r, t⟩, hmem, hok⟩ := (Option.any_eq_true _ _).mp hrun
  cases r with
  | error e => cases hok
  | ok out =>
    have hret := run_returns mountImpl_kernel 100 hmem
    obtain ⟨hcount, -, -, hoverlay⟩ :=
      (resolved_once workPolicy workBuffers noInterludes workLaunch hret).2 out rfl
    obtain ⟨fd, o, honce, hobj, hlower, -, hupper⟩ :=
      hoverlay 2 tmpWorkPath [1, 2] [3] (some workUpperDirs) LAYER_ATTRIBUTES rfl
    exact ⟨out, t, hret, hcount, fd, o, honce, hobj, hlower, (hupper _ _ _ _ _ rfl).1⟩

end Work

end LayerCake.Bubblebox.Spawn.Mounting
