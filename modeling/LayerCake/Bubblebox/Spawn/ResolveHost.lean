import LayerCake.Bubblebox.Spawn.Resolve

/-
  The passes that resolve the mounts which come from the host
  (`resolve_bind_mappings`, `finish_overlay_mount_resolution`).

  The first captures the directories of all bind mounts and overlays, and then clones
  what was captured: the bind mounts into their slots, the directories of the overlays
  into `overlay_fds`, in the order of their capture. The second takes them from there
  with one running index. `LayersAt` says which of them belong to the overlays that are
  still to be done; it is what keeps the index in step.

  What is proved: both extend `Filled` by the mounts of their kind
  (`resolveBindMappings_spec`, `finishOverlayMountResolution_spec`), from one lemma for
  the body of each loop.
-/

namespace LayerCake.Bubblebox.Spawn.Mounting

open LayerCake.Effects LayerCake.Meowix LayerCake.Linux LayerCake.Tree

/-! ## `resolve_bind_mappings` -/

/-- The mapping an element of `overlay_mounts` was made of. -/
def OverlayMount.mapping (self : OverlayMount) : (Guest × Mount) × Nat :=
  ((self.destination, .overlay self.lowerdirs self.datadirs self.upperdirs self.attributes),
    self.index)

/-- The directories of the host that overlays among the mappings are made of, in order. -/
def layersOf (mappings : List ((Guest × Mount) × Nat)) : List RawFd :=
  mappings.flatMap fun m => Mount.layers m.1.2

theorem layersOf_append (ms ms' : List ((Guest × Mount) × Nat)) :
    layersOf (ms ++ ms') = layersOf ms ++ layersOf ms' := List.flatMap_append

/-- Only overlays are made of directories of the host. -/
theorem layersOf_overlays (ms : List ((Guest × Mount) × Nat)) :
    layersOf (ofPass .overlay ms) = layersOf ms := by
  induction ms with
  | nil => rfl
  | cons m ms ih =>
    obtain ⟨⟨destination, mount⟩, i⟩ := m
    cases mount with
    | overlay lowerdirs datadirs upperdirs attributes =>
      exact congrArg (Mount.layers (.overlay lowerdirs datadirs upperdirs attributes) ++ ·) ih
    | _ => exact ih

theorem layersOf_concat (ms : List ((Guest × Mount) × Nat)) (m : (Guest × Mount) × Nat) :
    layersOf (ms ++ [m]) = layersOf ms ++ Mount.layers m.1.2 := by
  simp [layersOf]

/-- The element is that of the bind mount `m`: from its namespace the mount of `m` can be
cloned. -/
def Captured [Itoa] (s : State) (bind : NamespaceFd) (m : (Guest × Mount) × Nat) : Prop :=
  bind.index = m.2 ∧ bind.destination = m.1.1 ∧ ∃ ns, s.objects bind.fd = some ns ∧
    ns.isContext = false ∧ Mount.object m.1.2 = some (.detached ns bind.clonePath bind.cloneFlags
      (cloneAttr bind.attributes), bind.fileInfo.isNone)

/-- The namespace is that of the directory `dir`. -/
def LayerCaptured (s : State) (fd dir : RawFd) : Prop :=
  s.objects fd = some (.tree (.held dir) [] CAPTURE_FLAGS)

def Scratch.capacities (self : Scratch) : Nat × Nat × Nat :=
  (self.namespaceFds.capacity, self.overlayFds.capacity, self.overlayMounts.capacity)

/-- The vectors are large enough for all mappings. -/
structure Room (mappings : List ((Guest × Mount) × Nat)) (scratch : Scratch) : Prop where
  namespaceFds : mappings.length ≤ scratch.namespaceFds.capacity
  overlayFds : (layersOf mappings).length ≤ scratch.overlayFds.capacity
  overlayMounts : mappings.length ≤ scratch.overlayMounts.capacity

/-- What the first loop has captured of the mappings `pre`. -/
structure Capturing [Itoa] (scratch : Scratch) (pre : List ((Guest × Mount) × Nat)) (s : State) :
    Prop where
  namespaceFds : List.Forall₂ (Captured s) scratch.namespaceFds.items (ofPass .bind pre)
  overlayFds : List.Forall₂ (LayerCaptured s) scratch.overlayFds.items (layersOf pre)
  overlayMounts : scratch.overlayMounts.items.map OverlayMount.mapping = ofPass .overlay pre

section Capture
variable {s t : State} {scratch : Scratch} {pre : List ((Guest × Mount) × Nat)}

theorem Captured.keeps [Itoa] {bind : NamespaceFd} {m : (Guest × Mount) × Nat}
    (h : Captured s bind m)
    (hst : Keeps s t) : Captured t bind m := by
  obtain ⟨hindex, hdest, ns, hns, hctx, hobj⟩ := h
  exact ⟨hindex, hdest, ns, hst.objects _ ns hns hctx, hctx, hobj⟩

theorem LayerCaptured.keeps {fd dir : RawFd} (h : LayerCaptured s fd dir) (hst : Keeps s t) :
    LayerCaptured t fd dir := hst.objects _ _ h rfl

theorem Capturing.keeps [Itoa] (h : Capturing scratch pre s) (hst : Keeps s t) :
    Capturing scratch pre t :=
  ⟨h.namespaceFds.imp fun _ _ hc => hc.keeps hst, h.overlayFds.imp fun _ _ hl => hl.keeps hst,
    h.overlayMounts⟩

theorem captureLayer_spec {fds : Vec RawFd} {dir : RawFd} {dirs : List RawFd}
    (h : List.Forall₂ (LayerCaptured s) fds.items dirs) (hroom : dirs.length < fds.capacity)
    (hdir : s.objects dir = some (.held dir)) :
    Safely kernel Prepares (captureLayer fds dir)
      (fun fds' t => fds'.capacity = fds.capacity ∧
        List.Forall₂ (LayerCaptured t) fds'.items (dirs ++ [dir])) s := by
  unfold captureLayer
  have hb : s.base (.fd dir) [] = some (.held dir) := hdir
  apply (openTree_spec hb).bind
  intro fd t hst hfd
  have hlen : fds.items.length < fds.capacity := by rw [h.length_eq]; exact hroom
  refine Safely.orUndefined (Vec.push_eq_some hlen) ⟨rfl, ?_⟩
  exact List.rel_append (h.imp fun _ _ hl => hl.keeps hst.toKeeps) (.cons hfd.2 .nil)

theorem captureLayers_spec {fds : Vec RawFd} {dirs new : List RawFd}
    (h : List.Forall₂ (LayerCaptured s) fds.items dirs)
    (hroom : (dirs ++ new).length ≤ fds.capacity)
    (hnew : ∀ dir ∈ new, s.objects dir = some (.held dir)) :
    Safely kernel Prepares (new.foldlM captureLayer fds)
      (fun fds' t => fds'.capacity = fds.capacity ∧
        List.Forall₂ (LayerCaptured t) fds'.items (dirs ++ new)) s := by
  refine (Safely.foldlM (fun done (fds' : Vec RawFd) t => Keeps s t ∧
    fds'.capacity = fds.capacity ∧ List.Forall₂ (LayerCaptured t) fds'.items (dirs ++ done)) ?_
    ⟨Keeps.refl s, rfl, by simpa using h⟩).mono fun _ _ hinv => hinv.2
  intro done dir post fds' t hsplit hinv
  obtain ⟨hst, hcap, hcaptured⟩ := hinv
  have hroom' : (dirs ++ done).length < fds'.capacity := by
    rw [hcap]
    rw [hsplit, ← List.append_assoc, List.length_append, List.length_cons] at hroom
    omega
  have hdir : t.objects dir = some (.held dir) :=
    hst.objects dir _ (hnew dir (by rw [hsplit]; simp)) rfl
  apply (captureLayer_spec hcaptured hroom' hdir).since.mono
  intro fds'' u hu
  obtain ⟨htu, hcap', hcaptured'⟩ := hu
  exact ⟨hst.trans htu.toKeeps, hcap'.trans hcap, by rwa [← List.append_assoc]⟩

/-- One more bind mount is captured. -/
theorem captureBind_spec [Itoa] {m : (Guest × Mount) × Nat} {dirfd : RawFd} {flags : UInt32}
    {fileInfo : Option (Bytes × RawFd × Bool)} {attributes : MountAttributes} {isRecursive : Bool}
    (h : Capturing scratch pre s)
    (hroom : (ofPass .bind pre).length < scratch.namespaceFds.capacity)
    (hdirfd : s.objects dirfd = some (.held dirfd)) (hm : Mount.pass m.1.2 = .bind)
    (hobj : ∀ bind : NamespaceFd, bind.fileInfo = fileInfo → bind.isRecursive = isRecursive →
      Mount.object m.1.2 = some (.detached (.tree (.held dirfd) [] flags) bind.clonePath
        bind.cloneFlags (cloneAttr attributes), fileInfo.isNone)) :
    Safely kernel Prepares
      (captureBind scratch m.2 m.1.1 dirfd flags fileInfo attributes isRecursive)
      (fun scratch' t => scratch'.capacities = scratch.capacities ∧
        Capturing scratch' (pre ++ [m]) t) s := by
  have hlayers : Mount.layers m.1.2 = [] := by
    obtain ⟨⟨destination, mount⟩, i⟩ := m
    cases mount with
    | bind mount => rfl
    | _ => cases hm
  unfold captureBind
  have hb : s.base (.fd dirfd) [] = some (.held dirfd) := hdirfd
  apply (openTree_spec hb).bind
  intro fd t hst hfd
  have hlen : scratch.namespaceFds.items.length < scratch.namespaceFds.capacity := by
    rw [h.namespaceFds.length_eq]
    exact hroom
  refine Safely.bind (Q := fun fds u => u = t ∧ fds = _)
    (Safely.orUndefined (Vec.push_eq_some hlen) ⟨rfl, rfl⟩) ?_
  intro fds u _ hfds
  obtain ⟨rfl, rfl⟩ := hfds
  refine Safely.pure ⟨rfl, ?_, ?_, ?_⟩
  · rw [ofPass_own pre hm]
    refine List.rel_append (h.keeps hst.toKeeps).namespaceFds (.cons ?_ .nil)
    exact ⟨rfl, rfl, _, hfd.2, rfl, hobj _ rfl rfl⟩
  · rw [layersOf_concat, hlayers, List.append_nil]
    exact (h.keeps hst.toKeeps).overlayFds
  · rw [ofPass_other pre (by simp [hm])]
    exact h.overlayMounts

/-- One more overlay is captured. -/
theorem captureOverlay_spec [Itoa] {destination : Guest} {lowerdirs datadirs : List RawFd}
    {upperdirs : Option UpperDirs} {attributes : MountAttributes} {i : Nat}
    (h : Capturing scratch pre s)
    (hmounts : (ofPass .overlay pre).length < scratch.overlayMounts.capacity)
    (hfds : (layersOf pre ++ Mount.layers (.overlay lowerdirs datadirs upperdirs attributes)).length
      ≤ scratch.overlayFds.capacity)
    (hheld : ∀ dir ∈ Mount.layers (.overlay lowerdirs datadirs upperdirs attributes),
      s.objects dir = some (.held dir)) :
    Safely kernel Prepares
      (captureStep scratch ((destination, .overlay lowerdirs datadirs upperdirs attributes), i))
      (fun scratch' t => scratch'.capacities = scratch.capacities ∧ Capturing scratch'
        (pre ++ [((destination, .overlay lowerdirs datadirs upperdirs attributes), i)]) t) s := by
  have hlen : scratch.overlayMounts.items.length < scratch.overlayMounts.capacity := by
    rw [← h.overlayMounts, List.length_map] at hmounts
    exact hmounts
  refine Safely.bind (Q := fun mounts u => u = s ∧ mounts = _)
    (Safely.orUndefined (Vec.push_eq_some hlen) ⟨rfl, rfl⟩) ?_
  intro mounts u _ hpush
  obtain ⟨rfl, rfl⟩ := hpush
  rw [Mount.layers, ← List.append_assoc] at hfds
  have hfirst : (layersOf pre ++ (lowerdirs ++ datadirs)).length ≤ scratch.overlayFds.capacity := by
    rw [List.length_append] at hfds
    omega
  refine (captureLayers_spec h.overlayFds hfirst fun dir hdir =>
    hheld dir (List.mem_append_left _ hdir)).bind fun fds t hst hcaptured => ?_
  obtain ⟨hcap, hcaptured⟩ := hcaptured
  refine Safely.andThen (Q := fun (fds' : Vec RawFd) t =>
      fds'.capacity = scratch.overlayFds.capacity ∧ List.Forall₂ (LayerCaptured t) fds'.items
        (layersOf pre ++ Mount.layers (.overlay lowerdirs datadirs upperdirs attributes)))
    ?_ hst fun fds' t' hst' hcaptured' => ?_
  · -- the parent of the upper directories comes last
    rw [Mount.layers, ← List.append_assoc]
    split
    · next parent _ _ _ _ =>
      have hroom : (layersOf pre ++ (lowerdirs ++ datadirs)).length < fds.capacity := by
        rw [hcap]
        rw [List.length_append] at hfds
        exact Nat.lt_of_lt_of_le (Nat.lt_succ_self _) hfds
      have hparent : t.objects parent = some (.held parent) :=
        hst.objects parent _ (hheld parent (by simp [Mount.layers, Mount.parent])) rfl
      exact (captureLayer_spec hcaptured hroom hparent).mono fun _ _ hp => ⟨hp.1.trans hcap, hp.2⟩
    · next hnone =>
      have hparent : Mount.parent upperdirs = [] := by
        unfold Mount.parent
        split
        · next parent _ _ _ _ => exact absurd rfl (hnone parent _ _ _ _)
        · rfl
      rw [hparent, List.append_nil]
      exact Safely.pure ⟨hcap, hcaptured⟩
  · refine Safely.pure ⟨?_, ?_, ?_, ?_⟩
    · simp [Scratch.capacities, hcaptured'.1]
    · rw [ofPass_other pre (by simp [Mount.pass])]
      exact (h.keeps hst'.toKeeps).namespaceFds
    · rw [layersOf_concat]
      exact hcaptured'.2
    · have hown : ofPass .overlay (pre ++ [((destination, _), i)]) = _ ++ [((destination, _), i)] :=
        ofPass_own pre (rfl : Mount.pass (.overlay lowerdirs datadirs upperdirs attributes) = _)
      rw [hown, List.map_append, h.overlayMounts]
      rfl

/-- The first loop passes over the mounts that are made of nothing on the host. -/
theorem captureStep_spec [Itoa] {mappings : List (Guest × Mount)} {m : (Guest × Mount) × Nat}
    {post : List ((Guest × Mount) × Nat)} (hsplit : mappings.zipIdx = pre ++ m :: post)
    (hroom : Room mappings.zipIdx scratch) (hheld : Held mappings s)
    (h : Capturing scratch pre s) :
    Safely kernel Prepares (captureStep scratch m)
      (fun scratch' t => scratch'.capacities = scratch.capacities ∧
        Capturing scratch' (pre ++ [m]) t) s := by
  have hheldm := hheld m.1 (index_lt (hsplit ▸ List.mem_append_right pre List.mem_cons_self)).2
  have hpass : ∀ pass, (ofPass pass pre).length < mappings.zipIdx.length := by
    intro pass
    have := List.length_filter_le (fun m : (Guest × Mount) × Nat => Mount.pass m.1.2 = pass) pre
    rw [hsplit, List.length_append, List.length_cons]
    unfold ofPass
    omega
  have hlayers : (layersOf pre ++ Mount.layers m.1.2).length ≤ scratch.overlayFds.capacity := by
    refine Nat.le_trans ?_ hroom.overlayFds
    rw [hsplit, List.append_cons, layersOf_append, layersOf_concat]
    exact (List.sublist_append_left _ _).length_le
  obtain ⟨⟨destination, mount⟩, i⟩ := m
  cases mount with
  | bind mount =>
    have hspace := Nat.lt_of_lt_of_le (hpass .bind) hroom.namespaceFds
    cases mount with
    | file dirfd name fd attributes isSymlink =>
      refine captureBind_spec (m := ((destination, _), i)) h hspace
        (hheldm dirfd (by simp [Mount.descriptors])) rfl ?_
      intro bind hinfo hrec
      simp [Mount.object, NamespaceFd.clonePath, NamespaceFd.cloneFlags, hinfo, hrec]
    | directory fd attributes isRecursive =>
      refine captureBind_spec (m := ((destination, _), i)) h hspace
        (hheldm fd (by simp [Mount.descriptors])) rfl ?_
      intro bind hinfo hrec
      cases isRecursive <;>
        simp [Mount.object, NamespaceFd.clonePath, NamespaceFd.cloneFlags, hinfo, hrec]
  | overlay lowerdirs datadirs upperdirs attributes =>
    apply captureOverlay_spec h (Nat.lt_of_lt_of_le (hpass .overlay) hroom.overlayMounts) hlayers
    intro dir hdir
    apply hheldm dir
    revert hdir
    cases upperdirs with
    | none => simp [Mount.layers, Mount.parent, Mount.descriptors]
    | some upperdirs =>
      cases upperdirs with
      | fd => simp [Mount.layers, Mount.parent, Mount.descriptors]; tauto
      | tmpfs => simp [Mount.layers, Mount.parent, Mount.descriptors]
  | procfs | mqueue | file | symlink | emptyDirectory | tmpfs =>
    refine Safely.pure ⟨rfl, ?_, ?_, ?_⟩
    · rw [ofPass_other pre (by simp [Mount.pass])]
      exact h.namespaceFds
    · simpa [layersOf_concat, Mount.layers] using h.overlayFds
    · rw [ofPass_other pre (by simp [Mount.pass])]
      exact h.overlayMounts

theorem enter_spec {fd : RawFd} {ns : Object} (hns : s.objects fd = some ns) :
    Safely kernel Prepares (enter fd) (fun _ t => ∀ path, t.base .cwd path = some ns) s := by
  apply (setns_spec hns).bind
  intro _ t _ ht
  subst ht
  exact chdir_spec.mono fun _ _ h => h.2

/-- The second loop resolves one more bind mount. -/
theorem cloneStep_spec [Itoa] {size : Nat} {spare : Spare ResolvedMount}
    {done : List ((Guest × Mount) × Nat)} {bind : NamespaceFd} {m : (Guest × Mount) × Nat}
    (h : Filled size spare done s) (hm : m.2 < size) (hbind : Captured s bind m) :
    Safely kernel Prepares (cloneStep spare bind)
      (fun spare' t => Filled size spare' (done ++ [m]) t) s := by
  obtain ⟨hindex, hdest, ns, hns, -, hobj⟩ := hbind
  apply (enter_spec hns).bind
  intro _ t hst hbase
  apply (openTreeAttr_spec (hbase _)).andThen hst
  intro fd u hst' hfd
  obtain ⟨hfresh, hfd, hplace⟩ := hfd
  refine Safely.bind (Q := fun _ _ => True) ?_ fun _ v huv _ => ?_
  · split
    · apply sameFileIdentity_spec.bind
      intro same v _ _
      exact okOr_spec fun _ => trivial
    · exact Safely.pure trivial
  · have hsv : Keeps s v := hst'.toKeeps.trans huv.toKeeps
    have hres : NewlyResolves s v m.1 (.fd fd bind.destination bind.fileInfo.isNone) := by
      refine ⟨⟨hdest, ?_, _, hobj, ?_⟩, fun fd' hfd' => ?_⟩
      · exact (huv.toKeeps.place hfd).trans hplace
      · exact huv.objects fd _ hfd rfl
      · cases hfd'
        exact hst.toKeeps.fresh hfresh
    obtain ⟨write, hwrite, hfilled⟩ := h.write hsv hm hres.1 hres.2
    rw [hindex]
    refine Safely.bind (Q := fun w x => x = v ∧ w = write)
      (Safely.orUndefined hwrite ⟨rfl, rfl⟩) ?_
    intro w x _ hw
    obtain ⟨rfl, rfl⟩ := hw
    exact Safely.pure hfilled

/-- The directory `dir` has its mount, which is an overlay's to be given. -/
def LayerCloned (s : State) (fd dir : RawFd) : Prop := s.objects fd = some (.layer dir)

theorem LayerCloned.keeps {fd dir : RawFd} (h : LayerCloned s fd dir) (hst : Keeps s t) :
    LayerCloned t fd dir := hst.objects _ _ h rfl

/-- The third loop replaces one more namespace by its mount. -/
theorem cloneLayer_spec {detached done : List RawFd} {nsFd dir : RawFd}
    (h : List.Forall₂ (LayerCloned s) detached done) (hns : LayerCaptured s nsFd dir) :
    Safely kernel Prepares (cloneLayer detached nsFd)
      (fun detached' t => List.Forall₂ (LayerCloned t) detached' (done ++ [dir])) s := by
  apply (enter_spec hns).bind
  intro _ t hst hbase
  apply (openTreeAttr_spec (hbase _)).andThen hst
  intro fd u hst' hfd
  refine Safely.pure (List.rel_append (h.imp fun _ _ hl => hl.keeps hst'.toKeeps) (.cons ?_ .nil))
  exact hfd.2.1

theorem Room.of_capacities {mappings : List ((Guest × Mount) × Nat)} {scratch' : Scratch}
    (h : Room mappings scratch) (hcap : scratch'.capacities = scratch.capacities) :
    Room mappings scratch' := by
  simp only [Scratch.capacities, Prod.mk.injEq] at hcap
  obtain ⟨hns, hfds, hmounts⟩ := hcap
  exact ⟨hns ▸ h.namespaceFds, hfds ▸ h.overlayFds, hmounts ▸ h.overlayMounts⟩

/-- What the first loop leaves. -/
theorem capture_spec [Itoa] {mappings : List (Guest × Mount)} (hroom : Room mappings.zipIdx scratch)
    (hheld : Held mappings s) (hstart : Capturing scratch [] s) :
    Safely kernel Prepares (mappings.zipIdx.foldlM captureStep scratch)
      (fun scratch' t => Capturing scratch' mappings.zipIdx t) s := by
  refine (Safely.foldlM (fun pre scratch' t => Held mappings t ∧
    scratch'.capacities = scratch.capacities ∧ Capturing scratch' pre t) ?_
    ⟨hheld, rfl, hstart⟩).mono fun _ _ hinv => hinv.2.2
  intro pre m post scratch' t hsplit hinv
  obtain ⟨hheld', hcap, hcaptured⟩ := hinv
  apply (captureStep_spec hsplit (hroom.of_capacities hcap) hheld' hcaptured).since.mono
  intro scratch'' u hu
  obtain ⟨htu, hcap', hcaptured'⟩ := hu
  exact ⟨hheld'.keeps htu.toKeeps, hcap'.trans hcap, hcaptured'⟩

/-- What the second loop leaves. -/
theorem clone_spec [Itoa] {mappings : List (Guest × Mount)} {spare : Spare ResolvedMount}
    {binds : List NamespaceFd} (h : Filled mappings.length spare [] s)
    (hbinds : List.Forall₂ (Captured s) binds (ofPass .bind mappings.zipIdx)) :
    Safely kernel Prepares (binds.foldlM cloneStep spare)
      (fun spare' t => Filled mappings.length spare' (ofPass .bind mappings.zipIdx) t) s := by
  refine (Safely.foldlM_forall₂ (fun pre spare' t => Keeps s t ∧
    Filled mappings.length spare' pre t) hbinds ?_ ⟨Keeps.refl s, h⟩).mono fun _ _ hinv => hinv.2
  intro pre m post bind spare' t hsplit hbind hinv
  obtain ⟨hst, hfilled⟩ := hinv
  have hmem : m ∈ ofPass .bind mappings.zipIdx := by
    rw [hsplit]
    simp
  have hlt := (index_lt (List.mem_filter.mp hmem).1).1
  apply (cloneStep_spec hfilled hlt (hbind.keeps hst)).since.mono
  intro spare'' u hu
  exact ⟨hst.trans hu.1.toKeeps, hu.2⟩

/-- What the third loop leaves. -/
theorem cloneLayers_spec {fds dirs : List RawFd} (h : List.Forall₂ (LayerCaptured s) fds dirs) :
    Safely kernel Prepares (fds.foldlM cloneLayer [])
      (fun detached t => List.Forall₂ (LayerCloned t) detached dirs) s := by
  refine (Safely.foldlM_forall₂ (fun pre detached t => Keeps s t ∧
    List.Forall₂ (LayerCloned t) detached pre) h ?_ ⟨Keeps.refl s, .nil⟩).mono
    fun _ _ hinv => hinv.2
  intro pre dir post nsFd detached t _ hns hinv
  apply (cloneLayer_spec hinv.2 (hns.keeps hinv.1)).since.mono
  intro detached' u hu
  exact ⟨hinv.1.trans hu.1.toKeeps, hu.2⟩

/-- After the first pass the slots of the bind mounts are written, and every directory
that an overlay is made of has its mount. -/
theorem resolveBindMappings_spec [Itoa] {mappings : List (Guest × Mount)} {resolved : Resolved}
    (hempty : resolved.spare.written = []) (hroom : Room mappings.zipIdx scratch)
    (hheld : Held mappings s) (hstart : Capturing scratch [] s) :
    Safely kernel Prepares (resolveBindMappings mappings resolved scratch)
      (fun r t => r.1.length = 0 ∧
        Filled mappings.length r.1.spare (ofPass .bind mappings.zipIdx) t ∧
        List.Forall₂ (LayerCloned t) r.2.1.overlayFds.items (layersOf mappings.zipIdx) ∧
        r.2.1.overlayMounts.items.map OverlayMount.mapping = ofPass .overlay mappings.zipIdx ∧
        r.2.2 = (ofPass .bind mappings.zipIdx).length) s := by
  apply Resolved.check_spec.bind
  intro _ _ _ hcheck
  obtain ⟨rfl, hlen, hslots⟩ := hcheck
  apply Safely.bind (Q := fun _ t => t = _) (okOr_spec fun _ => rfl)
  intro _ _ _ ht
  subst ht
  apply (capture_spec hroom hheld hstart).bind
  intro scratch' t _ hcaptured
  apply unshare_spec.bind
  intro _ u htu _
  have hbase : u.base .cwd [sep] = some u.ns := rfl
  apply (openTree_spec hbase).andThen htu
  intro originalNs v htv hns
  have hcaptured := hcaptured.keeps htv.toKeeps
  have hnone : Filled mappings.length resolved.spare [] v :=
    ⟨hslots, by rw [hempty]; exact .nil, by rw [hempty]; exact List.nodup_nil⟩
  apply (clone_spec hnone hcaptured.namespaceFds).bind
  intro spare w hvw hfilled
  have hlayers := hcaptured.overlayFds.imp fun _ _ hl => hl.keeps hvw.toKeeps
  apply (cloneLayers_spec hlayers).bind
  intro detached x hwx hcloned
  have hns' : x.objects originalNs = some _ :=
    (hvw.toKeeps.trans hwx.toKeeps).objects originalNs _ hns.2 rfl
  apply (enter_spec hns').bind
  intro _ y hxy _
  refine Safely.pure ⟨hlen, hfilled.keeps (hwx.toKeeps.trans hxy.toKeeps), ?_,
    hcaptured.overlayMounts, hcaptured.namespaceFds.length_eq⟩
  exact hcloned.imp fun _ _ hl => hl.keeps hxy.toKeeps

end Capture

/-! ## `finish_overlay_mount_resolution` -/

/-- From the index `i` on, the descriptors are the mounts of the directories `dirs`. -/
def LayersAt (s : State) (fds : List RawFd) (i : Nat) (dirs : List RawFd) : Prop :=
  ∀ j dir, dirs[j]? = some dir → ∃ fd, fds[i + j]? = some fd ∧ LayerCloned s fd dir

section Overlay
variable {s t : State} {fds : Vec RawFd} {dirs dirs' : List RawFd} {i : Nat} {fsFd : RawFd}
  {c : Object}

theorem LayersAt.keeps {fds : List RawFd} (h : LayersAt s fds i dirs) (hst : Keeps s t) :
    LayersAt t fds i dirs := by
  intro j dir hdir
  obtain ⟨fd, hfd, hcloned⟩ := h j dir hdir
  exact ⟨fd, hfd, hcloned.keeps hst⟩

theorem LayersAt.left {fds : List RawFd} (h : LayersAt s fds i (dirs ++ dirs')) :
    LayersAt s fds i dirs := by
  intro j dir hdir
  obtain ⟨hj, -⟩ := List.getElem?_eq_some_iff.mp hdir
  exact h j dir (by rw [List.getElem?_append_left hj, hdir])

/-- The second part begins where the first ends. -/
theorem LayersAt.right {fds : List RawFd} (h : LayersAt s fds i (dirs ++ dirs')) :
    LayersAt s fds (i + dirs.length) dirs' := by
  intro j dir hdir
  have hget : (dirs ++ dirs')[dirs.length + j]? = some dir := by
    rw [List.getElem?_append_right (Nat.le_add_right _ _), Nat.add_sub_cancel_left, hdir]
  rw [Nat.add_assoc]
  exact h _ dir hget

theorem LayersAt.of_forall₂ {fds : List RawFd} (h : List.Forall₂ (LayerCloned s) fds dirs) :
    LayersAt s fds 0 dirs := by
  intro j dir hdir
  obtain ⟨hj, hget⟩ := List.getElem?_eq_some_iff.mp hdir
  have hlen := h.length_eq
  have hfd := (List.forall₂_iff_get.mp h).2 j (by omega) hj
  rw [List.get_eq_getElem, List.get_eq_getElem, hget] at hfd
  exact ⟨_, by rw [Nat.zero_add, List.getElem?_eq_getElem], hfd⟩

theorem setLayers_spec {key : Bytes} (h : LayersAt s fds.items i dirs)
    (hc : s.objects fsFd = some c) :
    Safely kernel Prepares (setLayers fsFd key fds dirs.length i)
      (fun i' t => i' = i + dirs.length ∧ t.objects fsFd = some (c.withLayers key dirs)) s := by
  have hrange : List.Forall₂ (fun (_ : Nat) (_ : RawFd) => True) (List.range dirs.length) dirs :=
    List.forall₂_iff_get.mpr ⟨List.length_range, fun _ _ _ => trivial⟩
  refine (Safely.foldlM_forall₂ (fun pre i' t => Keeps s t ∧ i' = i + pre.length ∧
    t.objects fsFd = some (c.withLayers key pre)) hrange ?_ ⟨Keeps.refl s, rfl, hc⟩).mono
    fun _ _ hinv => hinv.2
  intro pre dir post _ i' t hsplit _ hinv
  obtain ⟨hst, rfl, hctx⟩ := hinv
  obtain ⟨fd, hfd, hcloned⟩ := h pre.length dir (by rw [hsplit]; simp)
  refine Safely.bind (Q := fun mountFd u => u = t ∧ mountFd = fd)
    (Safely.orUndefined hfd ⟨rfl, rfl⟩) fun mountFd u _ hmount => ?_
  obtain ⟨rfl, rfl⟩ := hmount
  apply (fsconfigSetFd_spec trivial hctx (hcloned.keeps hst)).bind
  intro _ v huv hset
  refine Safely.pure ⟨hst.trans huv.toKeeps, ?_, ?_⟩
  · rw [List.length_append, List.length_singleton, Nat.add_assoc]
  · rw [hset, Object.withLayers, Object.withLayers, List.foldl_append]
    rfl

theorem openVerified_spec {own : RawFd → Prop} {mountFd identityFd : RawFd} {path : Bytes}
    {o : Object} (ho : s.objects mountFd = some o) :
    Safely kernel (Within own) (openVerified mountFd path identityFd)
      (fun fd t => t.objects fd = some (.opened o path HOST_DIR_HOW)) s := by
  apply (openat2Retry_spec (by decide) ho).bind
  intro fd t _ hfd
  apply sameFileIdentity_spec.bind
  intro same u htu _
  apply Safely.bind (Q := fun _ v => v = u) (okOr_spec fun _ => rfl)
  intro _ v _ hv
  subst hv
  exact Safely.pure (htu.objects fd _ hfd.2.1 rfl)

/-- What configures other file systems only leaves this one as it is. -/
theorem beside {α : Type} {p : Setup α} {Q : α → State → Prop}
    (hopen : (s.objects fsFd).isSome = true) (h : Safely kernel (Within (· ≠ fsFd)) p Q s) :
    Safely kernel Prepares p (fun a t => t.objects fsFd = s.objects fsFd ∧ Q a t) s := by
  refine (h.since.mono fun a t ht => ⟨?_, ht.2⟩).weaken fun _ _ hst => hst.prepares
  exact ht.1.others fsFd (fun hne => hne rfl) hopen

/-- The tmpfs is made beside the overlay that is being configured. -/
theorem makeUpperDirs_spec [Itoa] [LawfulItoa] {size : TmpfsSize} {maxInodes : Option UInt64}
    (hopen : (s.objects fsFd).isSome = true) :
    Safely kernel (Within (· ≠ fsFd)) (makeUpperDirs size maxInodes)
      (fun r t =>
        t.objects r.1 = some (.opened (.upperTmpfs size maxInodes) (ascii "upperdir")
          TMPFS_DIR_HOW) ∧
        t.objects r.2 = some (.opened (.upperTmpfs size maxInodes) (ascii "workdir")
          TMPFS_DIR_HOW)) s := by
  apply fsopen_spec.bind
  intro tmpfsFd _ _ hfs
  have hne : tmpfsFd ≠ fsFd := by
    intro e
    rw [← e, hfs.1] at hopen
    cases hopen
  apply (applyTmpfsSize_spec (by exact hne) hfs.2).bind
  intro _ _ _ hsized
  apply (fsconfigCmdCreateExcl_spec (by exact hne) hsized).bind
  intro _ _ _ hcreated
  apply (fsmount_spec hcreated).bind
  intro tmpfs t₀ _ hmount
  obtain ⟨-, hobj, hplace⟩ := hmount
  have hhost := onHost_upperTmpfs size maxInodes
  have hoff : t₀.OffHost (.root tmpfs) := ⟨_, hobj, rfl, hhost⟩
  apply (mkdirat_spec (by decide) hplace hoff).bind
  intro _ t₁ h₁ _
  have hobj₁ := h₁.objects tmpfs _ hobj rfl
  have hplace₁ := (h₁.toKeeps.place hobj).trans hplace
  apply (mkdirat_spec (by decide) hplace₁ (hoff.keeps h₁.toKeeps)).bind
  intro _ t₂ h₂ _
  have hobj₂ := h₂.objects tmpfs _ hobj₁ rfl
  apply (openat2_spec (by decide) hobj₂).bind
  intro upperdirFd t₃ h₃ hupper
  have hobj₃ := h₃.objects tmpfs _ hobj₂ rfl
  apply (openat2_spec (by decide) hobj₃).bind
  intro workdirFd t₄ h₄ hwork
  exact Safely.pure ⟨h₄.objects upperdirFd _ hupper.2 rfl, hwork.2⟩

theorem setUpperDirs_spec [Itoa] [LawfulItoa] {upperdirs : Option UpperDirs}
    (h : LayersAt s fds.items i (Mount.parent upperdirs)) (hc : s.objects fsFd = some c) :
    Safely kernel Prepares (setUpperDirs fsFd fds i upperdirs)
      (fun i' t => i' = i + (Mount.parent upperdirs).length ∧
        t.objects fsFd = some (c.withUpperDirs upperdirs)) s := by
  have hopen : (s.objects fsFd).isSome = true := by
    rw [hc]
    rfl
  match upperdirs with
  | none => exact Safely.pure ⟨rfl, hc⟩
  | some (.fd parent upperdir upperdirFd workdir workdirFd) =>
    obtain ⟨fd, hfd, hcloned⟩ := h 0 parent rfl
    refine Safely.bind (Q := fun mountFd u => u = s ∧ mountFd = fd)
      (Safely.orUndefined hfd ⟨rfl, rfl⟩) fun mountFd u _ hmount => ?_
    obtain ⟨rfl, rfl⟩ := hmount
    apply (beside hopen (openVerified_spec hcloned)).bind
    intro workdir t hst hwork
    obtain ⟨hsame, hwork⟩ := hwork
    have hopen' := hst.isOpen fsFd hopen
    refine (beside hopen' (openVerified_spec (hcloned.keeps hst.toKeeps))).bind
      fun upperdir u htu hupper => ?_
    obtain ⟨hsame', hupper⟩ := hupper
    have hc' : u.objects fsFd = some c := hsame'.trans (hsame.trans hc)
    refine (fsconfigSetFd_spec trivial hc' (htu.objects workdir _ hwork rfl)).bind
      fun _ v huv hset => ?_
    refine (fsconfigSetFd_spec trivial hset (huv.objects upperdir _ hupper rfl)).bind
      fun _ w _ hset' => ?_
    exact Safely.pure ⟨rfl, hset'⟩
  | some (.tmpfs size maxInodes) =>
    apply (beside hopen (makeUpperDirs_spec hopen)).bind
    intro r t hst hmade
    obtain ⟨hsame, hupper, hwork⟩ := hmade
    have hc' : t.objects fsFd = some c := hsame.trans hc
    apply (fsconfigSetFd_spec trivial hc' hupper).bind
    intro _ u htu hset
    refine (fsconfigSetFd_spec trivial hset (htu.objects r.2 _ hwork rfl)).bind
      fun _ v _ hset' => ?_
    exact Safely.pure ⟨rfl, hset'⟩

/-- One more overlay is finished, with the mounts from its own index on. -/
theorem finishOverlayStep_spec [Itoa] [LawfulItoa] {size : Nat} {acc : Spare ResolvedMount × Nat}
    {overlay : OverlayMount} {done : List ((Guest × Mount) × Nat)} (h : Filled size acc.1 done s)
    (hm : overlay.index < size)
    (hlayers : LayersAt s fds.items acc.2 (Mount.layers overlay.mapping.1.2)) :
    Safely kernel Prepares (finishOverlayStep fds acc overlay)
      (fun acc' t => Filled size acc'.1 (done ++ [overlay.mapping]) t ∧
        acc'.2 = acc.2 + (Mount.layers overlay.mapping.1.2).length) s := by
  have hsplit : LayersAt s fds.items acc.2
      (overlay.lowerdirs ++ (overlay.datadirs ++ Mount.parent overlay.upperdirs)) := by
    rw [← List.append_assoc]
    exact hlayers
  apply fsopen_spec.bind
  intro fsFd s₁ h₁ hfs
  have hlower := hsplit.left.keeps h₁.toKeeps
  apply (setLayers_spec hlower hfs.2).andThen h₁
  intro i₂ s₂ h₂ hset
  obtain ⟨rfl, hset⟩ := hset
  have hdata := hsplit.right.left.keeps h₂.toKeeps
  apply (setLayers_spec hdata hset).andThen h₂
  intro i₃ s₃ h₃ hset
  obtain ⟨rfl, hset⟩ := hset
  have hupper := hsplit.right.right.keeps h₃.toKeeps
  apply (setUpperDirs_spec hupper hset).andThen h₃
  intro i₄ s₄ h₄ hset
  obtain ⟨rfl, hset⟩ := hset
  apply (fsconfigSetFlag_spec trivial hset).andThen h₄
  intro _ s₅ h₅ hset
  apply (fsconfigCmdCreateExcl_spec trivial hset).andThen h₅
  intro _ s₆ h₆ hset
  have hgetMut := Spare.getMut_eq_some (Nat.lt_of_lt_of_le hm h.room)
  refine Safely.bind (Q := fun w u => u = s₆ ∧ acc.1.getMut overlay.index = some w)
    (Safely.orUndefined hgetMut ⟨rfl, hgetMut⟩) fun w u _ hw => ?_
  obtain ⟨rfl, hw⟩ := hw
  apply (mountFs_spec hset).andThen h₆
  intro r v h₇ hmount
  have hres : NewlyResolves s v overlay.mapping.1 r := (hmount.since h₆.toKeeps).resolved rfl
  obtain ⟨w', hw', hfilled⟩ := h.write h₇.toKeeps hm hres.1 hres.2
  have hww : w' = w := Option.some.inj (hw'.symm.trans hw)
  subst hww
  refine Safely.pure ⟨hfilled, ?_⟩
  simp only [OverlayMount.mapping, Mount.layers, List.length_append]
  omega

/-- After the second pass the slots of the overlays are written as well. -/
theorem finishOverlayMountResolution_spec [Itoa] [LawfulItoa] {mappings : List (Guest × Mount)}
    {resolved : Resolved}
    {overlayMounts : Vec OverlayMount} {done : List ((Guest × Mount) × Nat)}
    (h : Filled mappings.length resolved.spare done s)
    (hfds : List.Forall₂ (LayerCloned s) fds.items (layersOf mappings.zipIdx))
    (hmounts : overlayMounts.items.map OverlayMount.mapping = ofPass .overlay mappings.zipIdx) :
    Safely kernel Prepares (finishOverlayMountResolution resolved fds overlayMounts)
      (fun r t => r.1.length = resolved.length ∧
        Filled mappings.length r.1.spare (done ++ ofPass .overlay mappings.zipIdx) t ∧
        r.2 = (ofPass .overlay mappings.zipIdx).length) s := by
  have hlayers : LayersAt s fds.items 0
      (layersOf (overlayMounts.items.map OverlayMount.mapping)) := by
    rw [hmounts, layersOf_overlays]
    exact .of_forall₂ hfds
  refine Safely.bind (Q := fun acc t => Filled mappings.length acc.1
    (done ++ overlayMounts.items.map OverlayMount.mapping) t) ?_ fun acc t _ hacc => ?_
  · refine (Safely.foldlM (fun pre acc t => Keeps s t ∧
      Filled mappings.length acc.1 (done ++ pre.map OverlayMount.mapping) t ∧
      acc.2 = (layersOf (pre.map OverlayMount.mapping)).length) ?_
      ⟨Keeps.refl s, by simpa using h, rfl⟩).mono fun _ _ hinv => hinv.2.1
    intro pre overlay post acc t hsplit hinv
    obtain ⟨hst, hfilled, hcount⟩ := hinv
    have hmem : overlay.mapping ∈ ofPass .overlay mappings.zipIdx := by
      rw [← hmounts, hsplit]
      simp
    have hlt : overlay.index < mappings.length := (index_lt (List.mem_filter.mp hmem).1).1
    have hown : LayersAt t fds.items acc.2 (Mount.layers overlay.mapping.1.2) := by
      rw [hsplit, List.append_cons, List.map_append, layersOf_append, List.map_append,
        List.map_singleton, layersOf_concat] at hlayers
      have := hlayers.left.right.keeps hst
      rwa [Nat.zero_add, ← hcount] at this
    apply (finishOverlayStep_spec hfilled hlt hown).since.mono
    intro acc' u hu
    obtain ⟨htu, hfilled', hcount'⟩ := hu
    rw [List.map_append, List.map_singleton]
    refine ⟨hst.trans htu.toKeeps, by rwa [← List.append_assoc], ?_⟩
    rw [hcount', hcount, layersOf_concat, List.length_append]
  · rw [hmounts] at hacc
    refine Safely.pure ⟨rfl, hacc, ?_⟩
    rw [← hmounts, List.length_map]

end Overlay

end LayerCake.Bubblebox.Spawn.Mounting
