import LayerCake.Bubblebox.Spawn.Realise

/-
  Why no call of the loop of `guest_post_clone` creates anything on the host.

  `RealisedUpTo` is the invariant of the loop: the first `i` mounts are in place, and the
  trees attached so far are at the destinations of those mounts (`Layout`). The mounts are
  in the order of their destinations, so
    1. a mount that is moved to its destination covers no mount before it
       (`RealisedUpTo.moves`);
    2. the walk from the root along the parent of the next destination ends in the tree of
       a mount that is mapped above it. The validator lets nothing be mapped underneath a
       mount that is not synthetic, so that tree is not the host's
       (`RealisedUpTo.parent`).
  `realised_in_order` says so of every step of every run, and that in no state of a run a
  call of the guest had created an entry on the host. An overlay whose directories are on
  the host makes its `work` there (`work_made_on_host`).
-/

namespace LayerCake.Bubblebox.Spawn.Mounting

open LayerCake.Effects LayerCake.Meowix LayerCake.Tree

/-! ## The mounts that are in place -/

def ResolvedMount.destination : ResolvedMount → Guest
  | .fd _ destination _ | .file _ destination | .symlink _ destination |
    .directory _ _ destination => destination

/-- The mount is attached at its destination, or the entry it stands for is there. -/
def Realised (s : State) (guestRootFd : RawFd) (resolved : ResolvedMount) : Prop :=
  let found := walk s.attached (.root guestRootFd) resolved.destination.names
  match resolved with
  | .fd fd .. => found = .root fd
  | .file .. => s.entries found = some .file
  | .symlink .. => s.entries found = some .symlink
  | .directory .. => s.entries found = some .directory

/-- The resolved mounts of a policy, in the order of its tree, and a root for them. -/
structure Prepared [Itoa] (policy : Policy) (mounts : List ResolvedMount) (guestRootFd : RawFd)
    (s : State) : Prop where
  resolved : List.Forall₂ (Resolves s) policy.mountTree.tree.toList mounts
  nodup : (mounts.filterMap ResolvedMount.fd?).Nodup
  root_place : s.places guestRootFd = some (.root guestRootFd)
  root_offHost : s.OffHost (.root guestRootFd)
  root_new : guestRootFd ∉ mounts.filterMap ResolvedMount.fd?

/-- `fd` is one of the first `i` mounts, and its place is the destination of that. -/
def MountedBefore (mounts : List ResolvedMount) (place : RawFd → List Bytes) (i : Nat)
    (fd : RawFd) : Prop :=
  ∃ j destination isDirectory, j < i ∧ mounts[j]? = some (.fd fd destination isDirectory) ∧
    place fd = destination.names

/-- The trees of the first `i` mounts are at `place`, attached to each other and the root. -/
structure Layout (mounts : List ResolvedMount) (guestRootFd : RawFd) (i : Nat) (s : State)
    (place : RawFd → List Bytes) : Prop where
  root : place guestRootFd = []
  located : Located s.attached place
  mounted : ∀ e ∈ s.attached, MountedBefore mounts place i e.2 ∧
    (e.1.tree = guestRootFd ∨ MountedBefore mounts place i e.1.tree)

/-- The first `i` mounts are realised. -/
structure RealisedUpTo [Itoa] (policy : Policy) (mounts : List ResolvedMount) (guestRootFd : RawFd)
    (i : Nat) (s : State) : Prop extends Prepared policy mounts guestRootFd s where
  layout : ∃ place, Layout mounts guestRootFd i s place
  realised : ∀ j resolved, j < i → mounts[j]? = some resolved → Realised s guestRootFd resolved

/-- Where the parent of a destination is. -/
def parentPlace (s : State) (guestRootFd : RawFd) (resolved : ResolvedMount) : Place :=
  walk s.attached (.root guestRootFd) resolved.destination.names.dropLast

/-- The directory is on the root, or on a synthetic one of the first `i` mounts. -/
def OnSynthetic (policy : Policy) (mounts : List ResolvedMount) (guestRootFd : RawFd) (i : Nat)
    (dir : Place) : Prop :=
  dir.tree = guestRootFd ∨ ∃ j ancestor mount isDirectory, j < i ∧
    policy.mountTree.tree.toList[j]? = some (ancestor, mount) ∧ mount.isSynthetic = true ∧
    mounts[j]? = some (.fd dir.tree ancestor isDirectory)

section Invariant
variable {policy : Policy} {mounts : List ResolvedMount} {guestRootFd : RawFd} {s t : State}
  {i j : Nat}

theorem Prepared.keeps [Itoa] (h : Prepared policy mounts guestRootFd s) (hst : Keeps s t) :
    Prepared policy mounts guestRootFd t where
  resolved := h.resolved.imp fun _ _ hr => hr.keeps hst
  nodup := h.nodup
  root_place := by
    obtain ⟨o, ho, -, -⟩ := h.root_offHost
    exact (hst.place ho).trans h.root_place
  root_offHost := h.root_offHost.keeps hst
  root_new := h.root_new

/-- The mapping a mount is the resolution of. -/
theorem Prepared.mapping [Itoa] (h : Prepared policy mounts guestRootFd s)
    {resolved : ResolvedMount}
    (hi : mounts[i]? = some resolved) : ∃ m, policy.mountTree.tree.toList[i]? = some m ∧
      Resolves s m resolved ∧ resolved.destination = m.1 := by
  obtain ⟨m, hm, hres⟩ := exists_getElem?_left h.resolved hi
  refine ⟨m, hm, hres, ?_⟩
  cases resolved with
  | fd => exact hres.1
  | file | symlink | directory => rw [show m = _ from hres]; rfl

/-- No descriptor stands for two mounts. -/
theorem Prepared.fd_ne [Itoa] (h : Prepared policy mounts guestRootFd s) {k : Nat} {fd fd' : RawFd}
    {a b : ResolvedMount} (hjk : j < k) (ha : mounts[j]? = some a) (hb : mounts[k]? = some b)
    (hafd : a.fd? = some fd) (hbfd : b.fd? = some fd') : fd ≠ fd' := by
  obtain ⟨hj, rfl⟩ := List.getElem?_eq_some_iff.mp ha
  obtain ⟨hk, rfl⟩ := List.getElem?_eq_some_iff.mp hb
  have hpair := List.pairwise_filterMap.mp h.nodup
  exact List.pairwise_iff_getElem.mp hpair j k hj hk hjk fd hafd fd' hbfd

/-- The next mount is neither the root nor one of those before. -/
theorem Prepared.unmounted [Itoa] (h : Prepared policy mounts guestRootFd s)
    (place : RawFd → List Bytes)
    {fd : RawFd} {resolved : ResolvedMount} (hi : mounts[i]? = some resolved)
    (hfd : resolved.fd? = some fd) :
    guestRootFd ≠ fd ∧ ∀ fd', MountedBefore mounts place i fd' → fd' ≠ fd := by
  refine ⟨fun e => ?_, fun fd' hbefore => ?_⟩
  · subst e
    exact h.root_new (List.mem_filterMap.mpr ⟨resolved, List.mem_of_getElem? hi, hfd⟩)
  · obtain ⟨j, destination, isDirectory, hji, hj, -⟩ := hbefore
    exact h.fd_ne hji hj hi rfl hfd

theorem MountedBefore.mono {place place' : RawFd → List Bytes} {fd : RawFd} {k : Nat}
    (h : MountedBefore mounts place i fd) (hik : i ≤ k) (hplace : place' fd = place fd) :
    MountedBefore mounts place' k fd := by
  obtain ⟨j, destination, isDirectory, hji, hj, hfd⟩ := h
  exact ⟨j, destination, isDirectory, Nat.lt_of_lt_of_le hji hik, hj, hplace.trans hfd⟩

theorem Realised.prepares {resolved : ResolvedMount} (h : Realised s guestRootFd resolved)
    (hst : Prepares s t) : Realised t guestRootFd resolved := by
  unfold Realised at h ⊢
  rw [hst.attached]
  cases resolved with
  | fd => exact h
  | file | symlink | directory => exact hst.entries _ _ h

theorem RealisedUpTo.prepares [Itoa] (h : RealisedUpTo policy mounts guestRootFd i s)
    (hst : Prepares s t) : RealisedUpTo policy mounts guestRootFd i t where
  toPrepared := h.toPrepared.keeps hst.toKeeps
  layout := by
    obtain ⟨place, hroot, hlocated, hmounted⟩ := h.layout
    refine ⟨place, hroot, ?_, ?_⟩
    · rwa [hst.attached]
    · rwa [hst.attached]
  realised j resolved hj hr := (h.realised j resolved hj hr).prepares hst

/-- The tree a walk from the root ends in is the root's or that of an earlier mount. -/
theorem Layout.tree_walk {place : RawFd → List Bytes} (h : Layout mounts guestRootFd i s place)
    (names : List Bytes) : (walk s.attached (.root guestRootFd) names).tree = guestRootFd ∨
      MountedBefore mounts place i (walk s.attached (.root guestRootFd) names).tree := by
  rcases Tree.tree_walk (t := s.attached) (.root guestRootFd) names with htree | ⟨e, he, htree⟩
  · exact .inl htree
  · rw [htree]
    exact .inr (h.mounted e he).1

/-- The parent of the next mount is on the root or on an earlier, synthetic mount. -/
theorem RealisedUpTo.parent [Itoa] (h : RealisedUpTo policy mounts guestRootFd i s)
    {resolved : ResolvedMount} (hi : mounts[i]? = some resolved) :
    s.OffHost (parentPlace s guestRootFd resolved) ∧
      OnSynthetic policy mounts guestRootFd i (parentPlace s guestRootFd resolved) := by
  obtain ⟨place, hlayout⟩ := h.layout
  let names := resolved.destination.names.dropLast
  have hprefix := place_walk_prefix hlayout.located hlayout.root names
  rcases hlayout.tree_walk names with htree | hbefore
  · refine ⟨?_, .inl htree⟩
    unfold State.OffHost parentPlace
    rw [htree]
    exact h.root_offHost
  · obtain ⟨j, destination, isDirectory, hji, hj, hplace⟩ := hbefore
    obtain ⟨m, hm, hres, hdest⟩ := h.mapping hj
    obtain ⟨m', hm', -, hdest'⟩ := h.mapping hi
    -- the walk to the parent passes the destination of that mount
    have hunder : m'.1.Under m.1 := by
      rw [← hdest, ← hdest', Guest.under_iff_names]
      exact (hplace ▸ hprefix).trans (List.dropLast_prefix _)
    have hsyn := (policy.ordered hji hm hm').2 hunder
    obtain ⟨rfl, -, o, hobj, ho⟩ := hres
    refine ⟨⟨o, ho, object_not_context hobj, ?_⟩,
      .inr ⟨j, m.1, m.2, isDirectory, hji, hm, hsyn, hj⟩⟩
    rw [object_onHost hobj, hsyn]
    rfl

/-- The place of a destination is the entry of its parent. -/
theorem walk_destination (s : State) (guestRootFd : RawFd) (resolved : ResolvedMount) :
    walk s.attached (.root guestRootFd) resolved.destination.names = top s.attached
      ((parentPlace s guestRootFd resolved).child resolved.destination.inner.fileName) := by
  obtain ⟨-, -, hnames, -⟩ := resolved.destination.names_spec
  rw [hnames, walk_append]
  rfl

/-- One more mount that is realised. -/
theorem RealisedUpTo.succ [Itoa] (h : RealisedUpTo policy mounts guestRootFd i s)
    {resolved : ResolvedMount} (hi : mounts[i]? = some resolved)
    (hreal : Realised s guestRootFd resolved) :
    RealisedUpTo policy mounts guestRootFd (i + 1) s where
  toPrepared := h.toPrepared
  layout := by
    obtain ⟨place, hroot, hlocated, hmounted⟩ := h.layout
    have hmono : ∀ fd, MountedBefore mounts place i fd → MountedBefore mounts place (i + 1) fd :=
      fun fd hfd => hfd.mono (Nat.le_succ i) rfl
    exact ⟨place, hroot, hlocated,
      fun e he => ⟨hmono _ (hmounted e he).1, (hmounted e he).2.imp_right (hmono _)⟩⟩
  realised j resolved' hj hr := by
    rcases Nat.lt_succ_iff_lt_or_eq.mp hj with hlt | rfl
    · exact h.realised j resolved' hlt hr
    · rw [hi, Option.some.injEq] at hr
      exact hr ▸ hreal

theorem State.moves_keeps (s : State) (fd : RawFd) (dir : Place) (fileName : Bytes) :
    Keeps s (s.moves fd dir fileName) :=
  ⟨fun _ h => h, fun _ _ h _ => h, fun _ _ => rfl, fun _ _ h => h, fun _ h => .inl h⟩

/-- The walk to an earlier mount does not pass the destination of this one. -/
theorem RealisedUpTo.walk_attach [Itoa] (h : RealisedUpTo policy mounts guestRootFd i s)
    {place : RawFd → List Bytes} (hlayout : Layout mounts guestRootFd i s place) {fd : RawFd}
    {destination : Guest} {isDirectory : Bool}
    (hi : mounts[i]? = some (.fd fd destination isDirectory)) {covered : Node RawFd Bytes}
    (hloc : location place covered = destination.names) {j : Nat} {resolved : ResolvedMount}
    (hlt : j < i) (hr : mounts[j]? = some resolved) :
    walk (s.attached ++ [(covered, fd)]) (.root guestRootFd) resolved.destination.names =
      walk s.attached (.root guestRootFd) resolved.destination.names := by
  apply walk_attach_of_not_prefix hlayout.located _ _
  intro pre hpre _ heq
  rw [location_root, hlayout.root, List.nil_append, hloc] at heq
  obtain ⟨m, hm, -, hdest⟩ := h.mapping hr
  obtain ⟨m', hm', -, hdest'⟩ := h.mapping hi
  apply (policy.ordered hlt hm hm').1
  rw [← hdest, ← hdest', Guest.under_iff_names]
  exact heq ▸ hpre

/-- The next mount, moved to its destination: it covers what is underneath that and nothing
else, and no mount before it is. -/
theorem RealisedUpTo.moves [Itoa] (h : RealisedUpTo policy mounts guestRootFd i s) {fd : RawFd}
    {destination : Guest} {isDirectory : Bool}
    (hi : mounts[i]? = some (.fd fd destination isDirectory)) :
    RealisedUpTo policy mounts guestRootFd (i + 1) (s.moves fd
      (parentPlace s guestRootFd (.fd fd destination isDirectory)) destination.inner.fileName) := by
  obtain ⟨place, hlayout⟩ := h.layout
  obtain ⟨hroot, hnew⟩ := h.unmounted place hi rfl
  let dir := parentPlace s guestRootFd (.fd fd destination isDirectory)
  let covered := top s.attached (dir.child destination.inner.fileName)
  have hcovered : covered = walk s.attached (.root guestRootFd) destination.names :=
    (walk_destination s guestRootFd (.fd fd destination isDirectory)).symm
  have htree : covered.tree = guestRootFd ∨ MountedBefore mounts place i covered.tree :=
    hcovered ▸ hlayout.tree_walk destination.names
  have hloc : location place covered = destination.names := by
    calc location place covered
        = location place (.root guestRootFd) ++ destination.names := by
          rw [hcovered, location_walk hlayout.located]
      _ = destination.names := by rw [location_root, hlayout.root, List.nil_append]
  -- so the new tree is attached to none of its own nodes
  have hne : ∀ fd', fd' = guestRootFd ∨ MountedBefore mounts place i fd' → fd' ≠ fd := by
    intro fd' hfd'
    rcases hfd' with rfl | hbefore
    · exact hroot
    · exact hnew fd' hbefore
  have hmono : ∀ fd', MountedBefore mounts place i fd' →
      MountedBefore mounts (Function.update place fd (location place covered)) (i + 1) fd' :=
    fun fd' hfd' => hfd'.mono (Nat.le_succ i) (Function.update_of_ne (hnew fd' hfd') ..)
  refine ⟨h.toPrepared.keeps (s.moves_keeps ..), ⟨_, ?_, hlayout.located.attach (m := fd)
    (n := covered) (fun e he => ⟨hnew _ (hlayout.mounted e he).1, hne _ (hlayout.mounted e he).2⟩)
    (hne _ htree), fun e he => ?_⟩, fun j resolved hj hr => ?_⟩
  · rw [Function.update_of_ne hroot, hlayout.root]
  · rcases List.mem_append.mp he with hold | hlast
    · exact ⟨hmono _ (hlayout.mounted e hold).1, (hlayout.mounted e hold).2.imp_right (hmono _)⟩
    · cases List.mem_singleton.mp hlast
      refine ⟨⟨i, destination, isDirectory, Nat.lt_succ_self i, hi, ?_⟩, htree.imp_right (hmono _)⟩
      rw [Function.update_self, hloc]
  · rcases Nat.lt_succ_iff_lt_or_eq.mp hj with hlt | rfl
    · have hwalk := h.walk_attach hlayout hi hloc hlt hr
      have hreal := h.realised j resolved hlt hr
      unfold Realised at hreal ⊢
      rw [← hwalk] at hreal
      exact hreal
    · rw [hi, Option.some.injEq] at hr
      subst hr
      show walk _ _ destination.names = .root fd
      obtain ⟨-, -, hnames, -⟩ := destination.names_spec
      rw [hnames]
      exact walk_attach_self hlayout.located rfl

end Invariant

/-! ## The loop realises the mounts in order -/

/-- What a step does with the parent it has opened. -/
def realiseIn (parentFd : RawFd) (fileName : Bytes) : ResolvedMount → Setup Unit
  | .fd fd _ true => realiseDirectoryFd fd parentFd fileName
  | .fd fd _ false => realiseFileFd fd parentFd fileName
  | .file file _ => realiseFile file parentFd fileName
  | .symlink source _ => realiseSymlink source parentFd fileName
  | .directory _ permissions _ => realiseDirectory permissions parentFd fileName

/-- Every step opens the parent first, and makes its calls there. -/
theorem realise_eq (guestRootFd : RawFd) (resolved : ResolvedMount) :
    realise guestRootFd resolved =
      openParentInRoot guestRootFd resolved.destination >>= fun r =>
        realiseIn r.1 r.2 resolved := by
  match resolved with
  | .fd _ _ true | .fd _ _ false | .file .. | .symlink .. | .directory .. => rfl

section Loop
variable {policy : Policy} {mounts : List ResolvedMount} {guestRootFd : RawFd} {s : State} {i : Nat}

/-- The parent of the next mount is open, off the host. -/
theorem openParentInRoot_spec [Itoa] (h : RealisedUpTo policy mounts guestRootFd i s)
    {resolved : ResolvedMount} (hi : mounts[i]? = some resolved) :
    Safely kernel Prepares (openParentInRoot guestRootFd resolved.destination)
      (fun r t => RealisedUpTo policy mounts guestRootFd i t ∧
        r.2 = resolved.destination.inner.fileName ∧
        Target t r.1 (parentPlace t guestRootFd resolved) r.2) s := by
  obtain ⟨hisName, -, hnames, hparent⟩ := resolved.destination.names_spec
  obtain ⟨o, ho, -⟩ := h.root_offHost
  apply (openat2Retry_spec (by decide) ho).bind
  intro pathFd t hst hpath
  obtain ⟨-, hobj, hplace⟩ := hpath
  have ht := h.prepares hst
  have hparentNames : pathNames resolved.destination.inner.parentDir =
      some resolved.destination.names.dropLast := by
    rw [hparent]
    exact pathNames_render fun n hn => hisName n (List.dropLast_subset _ hn)
  have hfd := hplace _ _ (by decide) h.root_place hparentNames
  rw [← hst.attached] at hfd
  refine Safely.pure ⟨ht, rfl, hisName _ ?_, by rw [hobj]; rfl, hfd, (ht.parent hi).1⟩
  rw [hnames]
  simp

/-- What is left of a step, once the parent is open. -/
theorem realiseIn_spec [Itoa] (h : RealisedUpTo policy mounts guestRootFd i s)
    {resolved : ResolvedMount}
    (hi : mounts[i]? = some resolved) {parentFd : RawFd}
    (htarget : Target s parentFd (parentPlace s guestRootFd resolved)
      resolved.destination.inner.fileName) :
    Safely kernel Keeps (realiseIn parentFd resolved.destination.inner.fileName resolved)
      (fun _ t => RealisedUpTo policy mounts guestRootFd (i + 1) t) s := by
  -- the step moves no mount before it has made the entry
  have hfound : ∀ t, Prepares s t →
      t.entries (walk t.attached (.root guestRootFd) resolved.destination.names) =
        t.entries (top s.attached ((parentPlace s guestRootFd resolved).child
          resolved.destination.inner.fileName)) := by
    intro t hst
    rw [hst.attached, walk_destination]
  have hmade : ∀ t, Prepares s t → Realised t guestRootFd resolved →
      RealisedUpTo policy mounts guestRootFd (i + 1) t :=
    fun t hst hreal => (h.prepares hst).succ hi hreal
  have hnew : ∀ fd, resolved.fd? = some fd → ∀ e ∈ s.attached, e.2 ≠ fd := by
    intro fd hfd e he
    obtain ⟨place, hlayout⟩ := h.layout
    exact (h.unmounted place hi hfd).2 _ (hlayout.mounted e he).1
  match resolved with
  | .fd fd destination isDirectory =>
    obtain ⟨m, -, hres, -⟩ := h.mapping hi
    have hmove : ∀ t, (∃ u, Prepares s u ∧ t = u.moves fd
        (parentPlace s guestRootFd (.fd fd destination isDirectory)) destination.inner.fileName) →
        RealisedUpTo policy mounts guestRootFd (i + 1) t := by
      intro t ht
      obtain ⟨u, hsu, rfl⟩ := ht
      unfold parentPlace
      rw [← hsu.attached]
      exact (h.prepares hsu).moves hi
    cases isDirectory with
    | true =>
      exact (realiseDirectoryFd_spec htarget hres.2.1 (hres.isOpen rfl) (hnew fd rfl)).mono
        fun _ t ht => hmove t ht
    | false =>
      exact (realiseFileFd_spec htarget hres.2.1 (hres.isOpen rfl) (hnew fd rfl)).mono
        fun _ t ht => hmove t ht
  | .file file destination =>
    refine (Prepares.safely (realiseFile_spec htarget)).mono fun _ t ht => hmade t ht.1 ?_
    exact (hfound t ht.1).trans ht.2
  | .symlink source destination =>
    refine (Prepares.safely (realiseSymlink_spec htarget)).mono fun _ t ht => hmade t ht.1 ?_
    exact (hfound t ht.1).trans ht.2
  | .directory owner permissions destination =>
    refine (Prepares.safely (realiseDirectory_spec htarget)).mono fun _ t ht => hmade t ht.1 ?_
    exact (hfound t ht.1).trans ht.2

/-- A step of the loop. -/
theorem realise_spec [Itoa] (h : RealisedUpTo policy mounts guestRootFd i s)
    {resolved : ResolvedMount}
    (hi : mounts[i]? = some resolved) :
    Safely kernel Keeps (realise guestRootFd resolved)
      (fun _ t => RealisedUpTo policy mounts guestRootFd (i + 1) t) s := by
  rw [realise_eq]
  apply (Prepares.safely (openParentInRoot_spec h hi)).bind
  intro r t _ hr
  obtain ⟨-, ht, hfileName, htarget⟩ := hr
  rw [hfileName] at htarget ⊢
  exact realiseIn_spec ht hi htarget

theorem realiseAll_spec [Itoa] (h : RealisedUpTo policy mounts guestRootFd 0 s) :
    Safely kernel Keeps (realiseAll guestRootFd (mounts.take i))
      (fun _ t => RealisedUpTo policy mounts guestRootFd (mounts.take i).length t) s := by
  refine Safely.foldlM (fun pre _ t => RealisedUpTo policy mounts guestRootFd pre.length t) ?_ h
  intro pre resolved post _ t hsplit hinv
  rw [List.length_append, List.length_singleton]
  apply realise_spec hinv
  have hget : (mounts.take i)[pre.length]? = some resolved := by rw [hsplit]; simp
  rw [List.getElem?_take] at hget
  split at hget
  · exact hget
  · cases hget

theorem makeRoot_spec :
    Safely kernel Prepares makeRoot
      (fun fd t => s.objects fd = none ∧ t.places fd = some (.root fd) ∧ t.OffHost (.root fd))
      s := by
  apply fsopen_spec.bind
  intro fsFd _ hst hfs
  apply (fsconfigSetString_spec trivial hfs.2).andThen hst
  intro _ _ hst hmode
  apply (fsconfigCmdCreateExcl_spec trivial hmode).andThen hst
  intro _ _ hst hcreated
  apply (fsmount_spec hcreated).mono
  intro fd t hfd
  exact ⟨hst.toKeeps.fresh hfd.1, hfd.2.2, _, hfd.2.1, rfl, rfl⟩

theorem prepareMounts_spec [Itoa] [LawfulItoa] (buffers : Buffers policy) (between : Interludes)
    (launch : Launch policy) :
    Safely kernel Prepares (prepareMounts policy buffers between)
      (fun r t => r.2.length = policy.mountTree.size ∧ RealisedUpTo policy r.2 r.1 0 t)
      launch.state := by
  have hsize : policy.mountTree.tree.toList.length = policy.mountTree.size :=
    Std.TreeMap.length_toList
  apply (resolveMappings_spec buffers between launch.held).bind
  intro r s₁ h₁ hr
  obtain ⟨hcount, todo, hperm, hfilled⟩ := hr
  obtain ⟨items, hitems, hresolved, hsame⟩ := Spare.setLen_of_perm hperm hfilled.written
  apply Safely.bind (Q := fun _ t => t = s₁) (okOr_spec fun _ => rfl)
  intro _ s₂ _ h₂
  subst h₂
  refine Safely.bind (Q := fun a t => t = s₂ ∧ a = items)
    (Safely.orUndefined (by rw [hcount, ← hsize, hitems]) ⟨rfl, rfl⟩) fun a s₃ _ h₃ => ?_
  obtain ⟨rfl, rfl⟩ := h₃
  apply makeRoot_spec.bind
  intro guestRootFd s₄ h₄ hroot
  refine Safely.pure ⟨by rw [← hresolved.length_eq, hsize], ⟨?_, ?_, hroot.2.1, hroot.2.2, ?_⟩,
    ⟨fun _ => [], rfl, ?_, ?_⟩, fun j _ hj => absurd hj (Nat.not_lt_zero j)⟩
  · exact hresolved.imp fun _ _ hres => hres.keeps h₄.toKeeps
  · rw [(hsame.filterMap _).nodup_iff, List.filterMap_map]
    exact hfilled.nodup
  · -- the mounts were open before the root was
    intro hmem
    obtain ⟨x, hx, hxfd⟩ := List.mem_filterMap.mp hmem
    obtain ⟨m, -, hres⟩ := exists_of_mem_left hresolved.flip hx
    have hopen := Resolves.isOpen hres hxfd
    rw [hroot.1] at hopen
    cases hopen
  · rw [h₄.attached, h₁.attached, launch.attached]
    exact fun e he => absurd he List.not_mem_nil
  · rw [h₄.attached, h₁.attached, launch.attached]
    exact fun e he => absurd he List.not_mem_nil

end Loop

/-! ## The guest at a step -/

/-- The guest up to the `i`-th step of the loop. -/
def realiseFirst [Itoa] (policy : Policy) (buffers : Buffers policy) (between : Interludes)
    (i : Nat) :
    Setup (RawFd × List ResolvedMount) := do
  let (guestRootFd, mounts) ← prepareMounts policy buffers between
  realiseAll guestRootFd (mounts.take i)
  return (guestRootFd, mounts)

/-- The guest is the first `i` steps and then the others. -/
theorem realiseMounts_eq [Itoa] (policy : Policy) (buffers : Buffers policy) (between : Interludes)
    (i : Nat) : realiseMounts policy buffers between =
      realiseFirst policy buffers between i >>= fun r => do
        realiseAll r.1 (r.2.drop i)
        return r.1 := by
  unfold realiseMounts realiseFirst
  rw [bind_assoc]
  congr 1
  funext r
  obtain ⟨guestRootFd, mounts⟩ := r
  show (realiseAll guestRootFd mounts >>= fun _ => pure guestRootFd) = _
  have hsplit : realiseAll guestRootFd mounts =
      realiseAll guestRootFd (mounts.take i) >>= fun _ =>
        realiseAll guestRootFd (mounts.drop i) := by
    unfold realiseAll
    conv => lhs; rw [← List.take_append_drop i mounts]
    rw [List.foldlM_append]
  rw [hsplit]
  simp only [bind_assoc, pure_bind]

/-- The loop where a step has opened the parent, or is over. -/
structure AtStep where
  guestRootFd : RawFd
  mounts : List ResolvedMount
  parent : Option (RawFd × Bytes)

/-- The guest up to where the `i`-th step has opened the parent. -/
def openStep [Itoa] (policy : Policy) (buffers : Buffers policy) (between : Interludes) (i : Nat) :
    Setup AtStep := do
  let (guestRootFd, mounts) ← realiseFirst policy buffers between i
  match mounts[i]? with
  | some resolved => do
    let parent ← openParentInRoot guestRootFd resolved.destination
    return ⟨guestRootFd, mounts, some parent⟩
  | none => return ⟨guestRootFd, mounts, none⟩

/-- The rest of the `i`-th step and the steps after it. -/
def fromStep (i : Nat) (step : AtStep) : Setup RawFd :=
  match step.mounts[i]?, step.parent with
  | some resolved, some (parentFd, fileName) => do
    realiseIn parentFd fileName resolved
    realiseAll step.guestRootFd (step.mounts.drop (i + 1))
    return step.guestRootFd
  | _, _ => return step.guestRootFd

/-- The guest comes to every step of the loop. -/
theorem realiseMounts_eq_openStep [Itoa] (policy : Policy) (buffers : Buffers policy)
    (between : Interludes) (i : Nat) :
    realiseMounts policy buffers between = openStep policy buffers between i >>= fromStep i := by
  unfold openStep
  rw [realiseMounts_eq policy buffers between i, bind_assoc]
  congr 1
  funext r
  obtain ⟨guestRootFd, mounts⟩ := r
  dsimp only
  cases hi : mounts[i]? with
  | none =>
    rw [List.drop_eq_nil_of_le (List.getElem?_eq_none_iff.mp hi)]
    simp only [realiseAll, List.foldlM_nil, pure_bind, fromStep, hi]
  | some resolved =>
    obtain ⟨hlt, hget⟩ := List.getElem?_eq_some_iff.mp hi
    have hstep : realiseAll guestRootFd (mounts.drop i) = realise guestRootFd resolved >>= fun _ =>
        realiseAll guestRootFd (mounts.drop (i + 1)) := by
      rw [List.drop_eq_getElem_cons hlt, hget]
      rfl
    dsimp only
    rw [hstep, realise_eq]
    simp only [bind_assoc, pure_bind, fromStep, hi]

section Main
variable {policy : Policy} (buffers : Buffers policy) (between : Interludes)
  (launch : Launch policy)

theorem realiseFirst_spec [Itoa] [LawfulItoa] (i : Nat) :
    Safely kernel Keeps (realiseFirst policy buffers between i)
      (fun r t => r.2.length = policy.mountTree.size ∧
        RealisedUpTo policy r.2 r.1 (r.2.take i).length t) launch.state := by
  refine ((prepareMounts_spec buffers between launch).weaken fun _ _ hst => hst.toKeeps).bind
    fun r s _ hr => ?_
  apply (realiseAll_spec hr.2).bind
  intro _ t _ ht
  exact Safely.pure ⟨hr.1, ht⟩

/-- Everything the guest creates, it creates off the host. -/
theorem realiseMounts_spec [Itoa] [LawfulItoa] :
    Safely kernel Keeps (realiseMounts policy buffers between) (fun _ _ => True) launch.state := by
  rw [realiseMounts_eq policy buffers between policy.mountTree.size]
  apply (realiseFirst_spec buffers between launch _).bind
  intro r t _ hr
  rw [List.drop_eq_nil_of_le (Nat.le_of_eq hr.1)]
  exact Safely.pure trivial

theorem openStep_spec [Itoa] [LawfulItoa] (i : Nat) :
    Safely kernel Keeps (openStep policy buffers between i)
      (fun step t => ∀ parentFd fileName, step.parent = some (parentFd, fileName) →
        ∃ resolved, step.mounts[i]? = some resolved ∧
          RealisedUpTo policy step.mounts step.guestRootFd i t ∧
          t.places parentFd = some (parentPlace t step.guestRootFd resolved)) launch.state := by
  apply (realiseFirst_spec buffers between launch i).bind
  intro r s _ hr
  obtain ⟨guestRootFd, mounts⟩ := r
  dsimp only at hr ⊢
  cases hi : mounts[i]? with
  | none => exact Safely.pure fun _ _ hparent => by cases hparent
  | some resolved =>
    have hlt := (List.getElem?_eq_some_iff.mp hi).1
    have hs : RealisedUpTo policy mounts guestRootFd i s := by
      have := hr.2
      rwa [List.length_take, Nat.min_eq_left (Nat.le_of_lt hlt)] at this
    apply (Prepares.safely (openParentInRoot_spec hs hi)).bind
    intro parent t _ ht
    apply Safely.pure
    intro parentFd fileName hparent
    cases hparent
    exact ⟨resolved, hi, ht.2.1, ht.2.2.2.place⟩

/-- The guest comes to the steps of the loop in the order of the destinations. At each of
them, every mapped ancestor of the destination is realised, and the parent that is open is
on the root of the guest or on a synthetic mount. In no state of a run had a call of the guest
created an entry on the host. -/
theorem realised_in_order [Itoa] [LawfulItoa] :
    (∀ i, realiseMounts policy buffers between =
      openStep policy buffers between i >>= fromStep i) ∧
    (∀ i step t parentFd fileName,
      Returns kernel (openStep policy buffers between i).run launch.state (.ok step) t →
      step.parent = some (parentFd, fileName) →
      ∃ destination mount, policy.mountTree.tree.toList[i]? = some (destination, mount) ∧
        (∀ ancestor ∈ policy.mountTree.tree, destination.Under ancestor → ancestor ≠ destination →
          ∃ j resolved, j < i ∧ step.mounts[j]? = some resolved ∧
            resolved.destination = ancestor ∧ Realised t step.guestRootFd resolved) ∧
        ∃ dir, t.places parentFd = some dir ∧ t.OffHost dir ∧
          OnSynthetic policy step.mounts step.guestRootFd i dir) ∧
    ∀ p t, Steps kernel (realiseMounts policy buffers between).run launch.state p t →
      ∀ dir ∈ t.created, t.OffHost dir := by
  refine ⟨realiseMounts_eq_openStep policy buffers between, ?_, ?_⟩
  · intro i step t parentFd fileName hrun hparent
    have hpost := Wp.returns ((openStep_spec buffers between launch i).weaken
      fun _ _ _ => trivial) hrun
    obtain ⟨resolved, hi, ht, hplace⟩ := hpost parentFd fileName hparent
    obtain ⟨m, hm, -, hdest⟩ := ht.mapping hi
    refine ⟨m.1, m.2, hm, ?_, _, hplace, ht.parent hi⟩
    intro ancestor hmem hunder hne
    obtain ⟨source, hsource⟩ := Option.isSome_iff_exists.mp
      (Std.TreeMap.mem_iff_isSome_getElem?.mp hmem)
    obtain ⟨j, hj⟩ := List.getElem?_of_mem
      (Std.TreeMap.mem_toList_iff_getElem?_eq_some.mpr hsource)
    -- an ancestor comes before what is underneath it
    have hji : j < i := by
      rcases Nat.lt_trichotomy j i with hlt | rfl | hgt
      · exact hlt
      · rw [hm, Option.some.injEq] at hj
        exact absurd (by rw [hj]) hne
      · exact absurd hunder (policy.ordered hgt hm hj).1
    obtain ⟨r, hr, hres⟩ := exists_getElem?_left ht.resolved.flip hj
    obtain ⟨m', hm', -, hdest'⟩ := ht.mapping hr
    rw [hj, Option.some.injEq] at hm'
    exact ⟨j, r, hji, hr, by rw [hdest', ← hm'], ht.realised j r hji hr⟩
  · intro p t hrun dir hdir
    have hkeeps : Keeps launch.state t :=
      (realiseMounts_spec buffers between launch).steps_rel Keeps.refl
        (fun _ _ _ => Keeps.trans) hrun
    rcases hkeeps.created dir hdir with hold | hnew
    · rw [launch.created] at hold
      exact absurd hold List.not_mem_nil
    · exact hnew

end Main

section Work

local instance layoutItoa : Itoa := Itoa.decimal

local instance layoutItoa_lawful : LawfulItoa := Itoa.decimal_lawful

/-- The parent of the overlay is on the tmpfs it is mapped underneath of. -/
theorem work_realised_in_order :
    ∃ step t parentFd fileName dir, Returns kernel
        (openStep workPolicy workBuffers noInterludes 2).run workLaunch.state (.ok step) t ∧
      step.parent = some (parentFd, fileName) ∧ t.places parentFd = some dir ∧ t.OffHost dir ∧
      ∃ resolved, resolved.destination = tmpPath ∧ Realised t step.guestRootFd resolved := by
  have hrun : (run mountImpl 200 (openStep workPolicy workBuffers noInterludes 2).run
      workLaunch.state).any (fun x => match x.1 with
        | .ok step => step.parent.isSome
        | .error _ => false) := by
    decide +kernel
  obtain ⟨⟨r, t⟩, hmem, hok⟩ := (Option.any_eq_true _ _).mp hrun
  cases r with
  | error e => cases hok
  | ok step =>
    obtain ⟨parent, hparent⟩ := Option.isSome_iff_exists.mp hok
    have hret := run_returns mountImpl_kernel 200 hmem
    obtain ⟨destination, mount, hm, hancestors, dir, hplace, hoff, -⟩ :=
      (realised_in_order workBuffers noInterludes workLaunch).2.1 2 step t _ _ hret hparent
    rw [workPolicy_toList] at hm
    cases hm
    obtain ⟨j, resolved, -, -, hdest, hreal⟩ := hancestors tmpPath (by decide +kernel)
      (by rw [← Guest.startsWith_iff]; decide +kernel) (fun e => by cases e)
    exact ⟨step, t, _, _, dir, hret, hparent, hplace, hoff, resolved, hdest, hreal⟩

/-- No entry was created on the host, neither by a call of the guest nor by a file system. -/
def State.Untouched (t : State) : Prop :=
  (∀ dir ∈ t.created, t.OffHost dir) ∧ ∀ dir ∈ t.made, dir.onHost = false

/-- The overlay makes `work` in the `workdir` it was given, which is on the host. -/
theorem work_made_on_host : ∃ p t,
    Steps kernel (realiseMounts workPolicy workBuffers noInterludes).run workLaunch.state p t ∧
      ¬ t.Untouched := by
  have hrun : (run mountImpl 200 (realiseMounts workPolicy workBuffers noInterludes).run
      workLaunch.state).any (fun x => x.2.made.any Object.onHost) := by
    decide +kernel
  obtain ⟨⟨r, t⟩, hmem, hmade⟩ := (Option.any_eq_true _ _).mp hrun
  obtain ⟨dir, hdir, hhost⟩ := List.any_eq_true.mp hmade
  refine ⟨_, t, run_returns mountImpl_kernel 200 hmem, fun huntouched => ?_⟩
  rw [huntouched.2 dir hdir] at hhost
  cases hhost

end Work

end LayerCake.Bubblebox.Spawn.Mounting
