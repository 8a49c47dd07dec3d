import LayerCake.Bubblebox.Spawn.Mounts

/-
  What the mounts of a policy are resolved to, and the pass that resolves those which
  come neither from the host nor from other mounts (`resolve_nonbind_mappings`).

  `Mount.object` says what each mount is to be resolved to: for a bind mount the clone
  of what was captured, for an overlay the file system configured with the clones of
  its own directories, in order. `Filled` says which slots were written with the
  resolutions of which mappings.

  What is proved: every helper is `Safely` what it should be, and the pass extends
  `Filled` by the mounts of its kind (`resolveNonbindMappings_spec`).
-/

namespace LayerCake.Bubblebox.Spawn.Mounting

open LayerCake.Effects LayerCake.Meowix LayerCake.Linux LayerCake.Tree

/-! ## What a mount is resolved to -/

/-- The value of the `size` option. -/
def sizeOption [Itoa] : TmpfsSize → Bytes
  | .unlimited => ascii "0"
  | .bytes bytes => Itoa.format bytes.toNat
  | .percent percent => Itoa.format percent.toNat ++ ascii "%"

namespace Object

def sized [Itoa] (c : Object) (size : TmpfsSize) (maxInodes : Option UInt64) : Object :=
  let c := c.setString (ascii "size") (sizeOption size)
  match maxInodes with
  | some maxInodes => c.setString (ascii "nr_inodes") (Itoa.format maxInodes.toNat)
  | none => c

def withGid [Itoa] (c : Object) : Option UInt32 → Object
  | some gid => c.setString (ascii "gid") (Itoa.format gid.toNat)
  | none => c

def withSubset (c : Object) (subset : ProcSubset) : Object :=
  if subset = .pid then c.setString (ascii "subset") (ascii "pid") else c

def withPidns (c : Object) : ProcPidNamespace → Object
  | .fd fd => c.setFd (ascii "pidns") (held fd)
  | .guest => c

def procfs [Itoa] (hidepid : ProcHidepid) (gid : Option UInt32) (subset : ProcSubset)
    (namespace_ : ProcPidNamespace) : Object :=
  (((((context (ascii "proc")).setString (ascii "hidepid") (ProcHidepid.option hidepid)).withGid
    gid).withSubset subset).withPidns namespace_).created true

def tmpfs [Itoa] (size : TmpfsSize) (maxInodes : Option UInt64) (permissions : Mode) : Object :=
  (((context (ascii "tmpfs")).sized size maxInodes).setString (ascii "mode")
    (octalMode permissions).dropLast).created true

/-- The mount captured for a directory of an overlay. -/
def layer (dir : RawFd) : Object :=
  .detached (.tree (.held dir) [] CAPTURE_FLAGS) [sep] OVERLAY_OPEN_TREE_FLAGS OVERLAY_MOUNT_ATTR

def withLayers (c : Object) (key : Bytes) (dirs : List RawFd) : Object :=
  dirs.foldl (fun c dir => c.setFd key (layer dir)) c

/-- The tmpfs behind the upper directories of an overlay. -/
def upperTmpfs [Itoa] (size : TmpfsSize) (maxInodes : Option UInt64) : Object :=
  .mounted (((context (ascii "tmpfs")).sized size maxInodes).created true)
    LAYER_ATTRIBUTES.intoMountAttr

def withUpperDirs [Itoa] (c : Object) : Option UpperDirs → Object
  | none => c
  | some (.fd parent upperdir _ workdir _) =>
    (c.setFd (ascii "workdir") (.opened (layer parent) workdir HOST_DIR_HOW)).setFd
      (ascii "upperdir") (.opened (layer parent) upperdir HOST_DIR_HOW)
  | some (.tmpfs size maxInodes) =>
    (c.setFd (ascii "upperdir")
        (.opened (upperTmpfs size maxInodes) (ascii "upperdir") TMPFS_DIR_HOW)).setFd
      (ascii "workdir") (.opened (upperTmpfs size maxInodes) (ascii "workdir") TMPFS_DIR_HOW)

def overlay [Itoa] (lowerdirs datadirs : List RawFd) (upperdirs : Option UpperDirs) : Object :=
  (((((context (ascii "overlay")).withLayers (ascii "lowerdir+") lowerdirs).withLayers
    (ascii "datadir+") datadirs).withUpperDirs upperdirs).setFlag (ascii "userxattr")).created true

end Object

namespace Mount

/-- The pass that resolves a mount. -/
inductive Pass where
  | bind | overlay | nonbind
  deriving DecidableEq

def pass : Mount → Pass
  | .bind _ => .bind
  | .overlay .. => .overlay
  | _ => .nonbind

/-- The mount it is resolved to, and whether that is of a directory; the others are
entries to be made in the guest. -/
def object [Itoa] : Mount → Option (Object × Bool)
  | .bind (.file dirfd name _ attributes isSymlink) =>
    some (.detached (.tree (.held dirfd) [] CAPTURE_FLAGS) name
      ((OPEN_TREE_CLONE ||| OPEN_TREE_CLOEXEC) ||| if isSymlink then AT_SYMLINK_NOFOLLOW else 0)
      (cloneAttr attributes), false)
  | .bind (.directory fd attributes true) =>
    some (.detached (.tree (.held fd) [] (CAPTURE_FLAGS ||| AT_RECURSIVE)) [sep]
      (OPEN_TREE_CLONE ||| OPEN_TREE_CLOEXEC ||| AT_RECURSIVE) (cloneAttr attributes), true)
  | .bind (.directory fd attributes false) =>
    some (.detached (.tree (.held fd) [] CAPTURE_FLAGS) [sep]
      (OPEN_TREE_CLONE ||| OPEN_TREE_CLOEXEC) (cloneAttr attributes), true)
  | .procfs hidepid gid subset namespace_ attributes =>
    some (.mounted (.procfs hidepid gid subset namespace_) attributes.intoMountAttr, true)
  | .mqueue attributes =>
    some (.mounted (.created (.context (ascii "mqueue")) false) attributes.intoMountAttr, true)
  | .tmpfs size maxInodes _ permissions attributes =>
    some (.mounted (.tmpfs size maxInodes permissions) attributes.intoMountAttr, true)
  | .overlay lowerdirs datadirs upperdirs attributes =>
    some (.mounted (.overlay lowerdirs datadirs upperdirs) attributes.intoMountAttr, true)
  | .file _ | .symlink _ | .emptyDirectory .. => none

/-- The parent of the upper directories, where they are on the host. -/
def parent : Option UpperDirs → List RawFd
  | some (.fd parent ..) => [parent]
  | _ => []

/-- The directories of the host a mount is an overlay of, in the order of their capture. -/
def layers : Mount → List RawFd
  | .overlay lowerdirs datadirs upperdirs _ => lowerdirs ++ datadirs ++ parent upperdirs
  | _ => []

/-- The descriptors a mount holds. -/
def descriptors : Mount → List RawFd
  | .bind (.file dirfd _ fd ..) => [dirfd, fd]
  | .bind (.directory fd ..) => [fd]
  | .procfs _ _ _ (.fd fd) _ => [fd]
  | .overlay lowerdirs datadirs upperdirs _ =>
    lowerdirs ++ datadirs ++ match upperdirs with
      | some (.fd parent _ upperdirFd _ workdirFd) => [parent, upperdirFd, workdirFd]
      | _ => []
  | _ => []

end Mount

/-- The descriptor of a resolved mount, if it is one. -/
def ResolvedMount.fd? : ResolvedMount → Option RawFd
  | .fd mountFd _ _ => some mountFd
  | _ => none

/-- `r` is the resolution of the mapping `m`. -/
def Resolves [Itoa] (s : State) (m : Guest × Mount) : ResolvedMount → Prop
  | .fd fd destination isDirectory =>
    destination = m.1 ∧ s.places fd = some (.root fd) ∧
      ∃ o, Mount.object m.2 = some (o, isDirectory) ∧ s.objects fd = some o
  | .file file destination => m = (destination, .file file)
  | .symlink source destination => m = (destination, .symlink source)
  | .directory owner permissions destination =>
    m = (destination, .emptyDirectory owner permissions)

/-- The descriptors of the mapped mounts refer to what the policy holds. -/
def Held (mappings : List (Guest × Mount)) (s : State) : Prop :=
  ∀ m ∈ mappings, ∀ fd ∈ Mount.descriptors m.2, s.objects fd = some (.held fd)

theorem object_not_context [Itoa] {m : Mount} {o : Object} {isDirectory : Bool}
    (h : Mount.object m = some (o, isDirectory)) : o.isContext = false := by
  unfold Mount.object at h
  split at h <;> cases h <;> rfl

/-! ### What is on the host -/

theorem onHost_procfs [Itoa] (hidepid : ProcHidepid) (gid : Option UInt32) (subset : ProcSubset)
    (namespace_ : ProcPidNamespace) :
    (Object.procfs hidepid gid subset namespace_).onHost = false := by
  have hpidns : (ascii "pidns" == Object.UPPERDIR) = false := by decide
  cases gid <;> cases subset <;> cases namespace_ <;>
    simp [Object.procfs, Object.withGid, Object.withSubset, Object.withPidns, Object.onHost, hpidns]

theorem onHost_upperTmpfs [Itoa] (size : TmpfsSize) (maxInodes : Option UInt64) :
    (Object.upperTmpfs size maxInodes).onHost = false := by
  cases maxInodes <;> rfl

theorem onHost_withLayers (c : Object) {key : Bytes} (hkey : key ≠ Object.UPPERDIR)
    (dirs : List RawFd) : (c.withLayers key dirs).onHost = c.onHost := by
  induction dirs generalizing c with
  | nil => rfl
  | cons dir dirs ih =>
    have hstep : (c.setFd key (.layer dir)).onHost = c.onHost := by simp [Object.onHost, hkey]
    exact (ih _).trans hstep

/-- An overlay is on the host if its `upperdir` is. -/
theorem onHost_overlay [Itoa] (lowerdirs datadirs : List RawFd) (upperdirs : Option UpperDirs)
    (attributes : MountAttributes) : (Object.overlay lowerdirs datadirs upperdirs).onHost =
      !(Mount.overlay lowerdirs datadirs upperdirs attributes).isSynthetic := by
  have hlayers : (((Object.context (ascii "overlay")).withLayers (ascii "lowerdir+")
      lowerdirs).withLayers (ascii "datadir+") datadirs).onHost = false := by
    rw [onHost_withLayers _ (by decide), onHost_withLayers _ (by decide)]
    rfl
  have hwork : (ascii "workdir" == Object.UPPERDIR) = false := by decide
  have hupper : (ascii "upperdir" == Object.UPPERDIR) = true := by decide
  match upperdirs with
  | none => exact hlayers
  | some (.fd ..) =>
    simp [Object.overlay, Object.withUpperDirs, Object.onHost, hlayers, hwork, hupper,
      Object.layer, Mount.isSynthetic]
  | some (.tmpfs size maxInodes) =>
    simp [Object.overlay, Object.withUpperDirs, Object.onHost, hlayers, hwork,
      onHost_upperTmpfs, Mount.isSynthetic]

/-- The mounts that are on the host are those that are not synthetic. -/
theorem object_onHost [Itoa] {m : Mount} {o : Object} {isDirectory : Bool}
    (h : Mount.object m = some (o, isDirectory)) : o.onHost = !m.isSynthetic := by
  cases m with
  | bind mount =>
    cases mount with
    | file =>
      cases h
      rfl
    | directory fd attributes isRecursive =>
      cases isRecursive
      · cases h
        rfl
      · cases h
        rfl
  | procfs hidepid gid subset namespace_ attributes =>
    cases h
    exact onHost_procfs hidepid gid subset namespace_
  | mqueue attributes =>
    cases h
    rfl
  | file | symlink | emptyDirectory => cases h
  | tmpfs size maxInodes owner permissions attributes =>
    cases h
    cases maxInodes <;> rfl
  | overlay lowerdirs datadirs upperdirs attributes =>
    cases h
    exact onHost_overlay lowerdirs datadirs upperdirs attributes

section Keeps
variable {s t : State}

theorem Held.keeps {mappings : List (Guest × Mount)} (h : Held mappings s) (hst : Keeps s t) :
    Held mappings t := fun m hm fd hfd => hst.objects fd _ (h m hm fd hfd) rfl

theorem Resolves.keeps [Itoa] {m : Guest × Mount} {r : ResolvedMount} (h : Resolves s m r)
    (hst : Keeps s t) : Resolves t m r := by
  cases r with
  | fd fd destination isDirectory =>
    obtain ⟨hdest, hplace, o, hobj, hfd⟩ := h
    exact ⟨hdest, (hst.place hfd).trans hplace, o, hobj,
      hst.objects fd o hfd (object_not_context hobj)⟩
  | file | symlink | directory => exact h

/-- What a resolved mount refers to is open. -/
theorem Resolves.isOpen [Itoa] {m : Guest × Mount} {r : ResolvedMount} (h : Resolves s m r)
    {fd : RawFd}
    (hfd : r.fd? = some fd) : (s.objects fd).isSome = true := by
  cases r with
  | fd fd' destination isDirectory =>
    cases hfd
    obtain ⟨-, -, o, -, ho⟩ := h
    rw [ho]
    rfl
  | file | symlink | directory => cases hfd

end Keeps

/-! ## The helpers -/

section Helpers
variable {s : State} {c : Object} {fsFd : RawFd} {own : RawFd → Prop}

theorem asCStr_spec {G : State → State → Prop} {N : Nat} {bytes : Bytes} {Q : Bytes → State → Prop}
    (h : Q bytes s) : Safely kernel G (asCStr N bytes) Q s := by
  unfold asCStr
  split
  · next c hc =>
    obtain ⟨rfl, -, -⟩ := withCStr_eq_ok hc
    exact Safely.pure h
  · exact Safely.error

theorem writeBytes_eq_ok {buffer bytes buffer' : Bytes} {offset offset' : Nat}
    (h : writeBytes buffer offset bytes = .ok (buffer', offset')) :
    offset' = offset + bytes.length ∧ offset' ≤ buffer'.length ∧
      buffer'.take offset' = buffer.take offset ++ bytes := by
  unfold writeBytes at h
  dsimp only at h
  split at h
  · next hle =>
    cases h
    have hlen : (buffer.take offset ++ bytes).length = offset + bytes.length := by
      rw [List.length_append, List.length_take]
      omega
    refine ⟨rfl, ?_, ?_⟩
    · rw [List.length_append, hlen]
      omega
    · rw [← hlen, List.take_left']
      rfl
  · cases h

theorem formatPercent_spec [Itoa] [LawfulItoa] {G : State → State → Prop} [Std.Refl G]
    [IsTrans State G]
    {percent : UInt64} {Q : Bytes → State → Prop} (h : Q (sizeOption (.percent percent)) s) :
    Safely kernel G (formatPercent percent) Q s := by
  unfold formatPercent
  refine Safely.bind (Q := fun r t => t = s ∧ r.2 ≤ r.1.length ∧
    r.1.take r.2 = Itoa.format percent.toNat) (Safely.orStop ?_) ?_
  · intro r hr
    obtain ⟨-, hle, htake⟩ := writeBytes_eq_ok hr
    exact ⟨rfl, hle, by simpa using htake⟩
  intro r t _ hr
  obtain ⟨rfl, hle, htake⟩ := hr
  refine Safely.bind (Q := fun r u => u = t ∧ r.2 ≤ r.1.length ∧
    r.1.take r.2 = sizeOption (.percent percent) ++ [0]) (Safely.orStop ?_) ?_
  · intro r' hr'
    obtain ⟨-, hle', htake'⟩ := writeBytes_eq_ok hr'
    refine ⟨rfl, hle', ?_⟩
    rw [htake', htake]
    simp [sizeOption]
  intro r' u _ hr'
  obtain ⟨rfl, hle', htake'⟩ := hr'
  refine Safely.bind (Q := fun size v => v = u ∧ size = sizeOption (.percent percent) ++ [0])
    (Safely.orUndefined (if_pos hle') ⟨rfl, htake'⟩) ?_
  intro size v _ hsize
  obtain ⟨rfl, rfl⟩ := hsize
  refine Safely.orUndefined (cStrFromBytesWithNul_concat ?_) h
  intro hmem
  rcases List.mem_append.mp hmem with hmem | hmem
  · rw [format_uint64] at hmem
    exact decimal_no_nul _ hmem
  · revert hmem
    decide

theorem applyTmpfsSize_spec [Itoa] [LawfulItoa] {size : TmpfsSize} {maxInodes : Option UInt64}
    (hown : own fsFd)
    (hc : s.objects fsFd = some c) :
    Safely kernel (Within own) (applyTmpfsSize fsFd size maxInodes)
      (fun _ t => t.objects fsFd = some (c.sized size maxInodes)) s := by
  unfold applyTmpfsSize
  refine Safely.bind (Q := fun bytes t => t = s ∧ bytes = sizeOption size) ?_ ?_
  · cases size with
    | unlimited => exact Safely.pure ⟨rfl, rfl⟩
    | bytes bytes => exact asCStr_spec ⟨rfl, rfl⟩
    | percent percent => exact formatPercent_spec ⟨rfl, rfl⟩
  intro bytes t _ hbytes
  obtain ⟨rfl, rfl⟩ := hbytes
  apply (fsconfigSetString_spec hown hc).bind
  intro _ u _ hu
  cases maxInodes with
  | none => exact Safely.pure hu
  | some maxInodes =>
    refine Safely.bind (Q := fun bytes v => v = u ∧ bytes = Itoa.format maxInodes.toNat)
      (asCStr_spec ⟨rfl, rfl⟩) ?_
    intro bytes v _ hbytes
    obtain ⟨rfl, rfl⟩ := hbytes
    exact fsconfigSetString_spec hown hu

theorem sameFileIdentity_spec {lhs rhs : RawFd} :
    Safely kernel (Within own) (sameFileIdentity lhs rhs) (fun _ _ => True) s := by
  unfold sameFileIdentity
  apply statx_spec.bind
  intro lhs t _ _
  apply statx_spec.bind
  intro rhs u _ _
  split
  · exact Safely.pure trivial
  · exact Safely.pure trivial

theorem octalMode_spec (permissions : Mode) :
    cStrFromBytesWithNul (octalMode permissions) = some (octalMode permissions).dropLast := by
  have hdigit : ∀ p : Mode, octalDigit p ≠ 0 := by
    intro p h
    have hlt : (p &&& 0o7).toNat ≤ 7 := by
      rw [UInt32.toNat_and]
      exact Nat.and_le_right
    have := congrArg UInt8.toNat h
    simp only [octalDigit, UInt8.toNat_add, UInt32.toNat_toUInt8, UInt8.toNat_ofNat] at this
    omega
  unfold cStrFromBytesWithNul
  rw [if_pos]
  refine ⟨rfl, ?_⟩
  show (0 : UInt8) ∉ [_, _, _, _]
  simp [List.mem_cons, Ne.symm (hdigit _)]

/-- What a new mount is, and that it is new. -/
def NewMount (s t : State) (destination : Guest) (o : Object) (r : ResolvedMount) : Prop :=
  ∃ fd, r = .fd fd destination true ∧ s.objects fd = none ∧ t.objects fd = some o ∧
    t.places fd = some (.root fd)

theorem mountFs_spec {destination : Guest} {attributes : MountAttributes}
    (hc : s.objects fsFd = some c) :
    Safely kernel Prepares (mountFs fsFd destination attributes)
      (fun r t => NewMount s t destination (c.mounted attributes.intoMountAttr) r) s := by
  unfold mountFs
  apply (fsmount_spec hc).bind
  intro fd t _ h
  obtain ⟨hfresh, hobj, hplace⟩ := h
  exact Safely.pure ⟨fd, rfl, hfresh, hobj, hplace⟩

end Helpers

/-! ## The slots that were written -/

/-- The slots were written for the mappings `done`, each with the resolution of its own,
and no descriptor stands in two of them. -/
structure Filled [Itoa] (size : Nat) (spare : Spare ResolvedMount)
    (done : List ((Guest × Mount) × Nat))
    (s : State) : Prop where
  room : size ≤ spare.slots
  written : List.Forall₂ (fun w m => w.1 = m.2 ∧ Resolves s m.1 w.2) spare.written done
  nodup : (spare.written.filterMap fun w => w.2.fd?).Nodup

/-- The mappings that one of the passes resolves. -/
def ofPass (pass : Mount.Pass) (mappings : List ((Guest × Mount) × Nat)) :
    List ((Guest × Mount) × Nat) :=
  mappings.filter fun m => Mount.pass m.1.2 = pass

theorem ofPass_append {pass : Mount.Pass} (ms ms' : List ((Guest × Mount) × Nat)) :
    ofPass pass (ms ++ ms') = ofPass pass ms ++ ofPass pass ms' := List.filter_append ..

theorem ofPass_own {pass : Mount.Pass} (ms : List ((Guest × Mount) × Nat))
    {m : (Guest × Mount) × Nat} (h : Mount.pass m.1.2 = pass) :
    ofPass pass (ms ++ [m]) = ofPass pass ms ++ [m] := by
  simp [ofPass, h]

theorem ofPass_other {pass : Mount.Pass} (ms : List ((Guest × Mount) × Nat))
    {m : (Guest × Mount) × Nat} (h : Mount.pass m.1.2 ≠ pass) :
    ofPass pass (ms ++ [m]) = ofPass pass ms := by
  simp [ofPass, h]

section Slots
variable {s t : State} {size : Nat} {spare : Spare ResolvedMount}
  {done : List ((Guest × Mount) × Nat)}

theorem Filled.keeps [Itoa] (h : Filled size spare done s) (hst : Keeps s t) :
    Filled size spare done t :=
  ⟨h.room, h.written.imp fun _ _ hw => ⟨hw.1, hw.2.keeps hst⟩, h.nodup⟩

/-- The mapping a slot is written for has its index below their number. -/
theorem index_lt {mappings : List (Guest × Mount)} {m : (Guest × Mount) × Nat}
    (h : m ∈ mappings.zipIdx) : m.2 < mappings.length ∧ m.1 ∈ mappings := by
  have hget : mappings[m.2]? = some m.1 := List.mk_mem_zipIdx_iff_getElem?.mp h
  exact ⟨(List.getElem?_eq_some_iff.mp hget).1, List.mem_of_getElem? hget⟩

/-- A resolution whose descriptor was not open in `s`. -/
def Fresh (s : State) (r : ResolvedMount) : Prop := ∀ fd, r.fd? = some fd → s.objects fd = none

/-- One more slot is written: there is room for it, and its descriptor is in no other. -/
theorem Filled.write [Itoa] (h : Filled size spare done s) (hst : Keeps s t)
    {m : (Guest × Mount) × Nat}
    (hm : m.2 < size) {r : ResolvedMount} (hr : Resolves t m.1 r) (hfresh : Fresh s r) :
    ∃ write, spare.getMut m.2 = some write ∧ Filled size (write r) (done ++ [m]) t := by
  refine ⟨_, Spare.getMut_eq_some (Nat.lt_of_lt_of_le hm h.room), h.room, ?_, ?_⟩
  · exact List.rel_append (h.keeps hst).written (.cons ⟨rfl, hr⟩ .nil)
  · -- what is in the other slots is open, and the new descriptor was not
    rw [List.filterMap_append, List.nodup_append]
    refine ⟨h.nodup, ?_, ?_⟩
    · cases hfd : r.fd? with
      | none => simp [hfd]
      | some fd => simp [hfd]
    · intro fd hold fd' hnew e
      subst e
      obtain ⟨w, hw, hwfd⟩ := List.mem_filterMap.mp hold
      have hrfd : r.fd? = some fd := by simpa using hnew
      obtain ⟨x, -, -, hres⟩ := exists_of_mem_left h.written hw
      have hopen := hres.isOpen hwfd
      rw [hfresh fd hrfd] at hopen
      cases hopen

end Slots

/-! ## `resolve_nonbind_mappings` -/

section Nonbind
variable {s : State} {destination : Guest}

/-- A resolution whose descriptor is new. -/
def NewlyResolves [Itoa] (s t : State) (m : Guest × Mount) (r : ResolvedMount) : Prop :=
  Resolves t m r ∧ Fresh s r

theorem NewMount.resolved [Itoa] {t : State} {o : Object} {r : ResolvedMount} {m : Mount}
    (h : NewMount s t destination o r) (hm : Mount.object m = some (o, true)) :
    NewlyResolves s t (destination, m) r := by
  obtain ⟨fd, rfl, hfresh, hobj, hplace⟩ := h
  refine ⟨⟨rfl, hplace, o, hm, hobj⟩, fun fd' hfd' => ?_⟩
  cases hfd'
  exact hfresh

/-- A new mount made after some more calls is still new. -/
theorem NewMount.since {s₀ t : State} {o : Object} {r : ResolvedMount} (hst : Keeps s₀ s)
    (h : NewMount s t destination o r) : NewMount s₀ t destination o r := by
  obtain ⟨fd, hr, hfresh, hobj, hplace⟩ := h
  exact ⟨fd, hr, hst.fresh hfresh, hobj, hplace⟩

theorem setGid_spec [Itoa] {fsFd : RawFd} {c : Object} {gid : Option UInt32}
    (hc : s.objects fsFd = some c) :
    Safely kernel Prepares (setGid fsFd gid)
      (fun _ t => t.objects fsFd = some (c.withGid gid)) s := by
  cases gid with
  | none => exact Safely.pure hc
  | some gid =>
    refine Safely.bind (Q := fun bytes t => t = s ∧ bytes = Itoa.format gid.toNat)
      (asCStr_spec ⟨rfl, rfl⟩) ?_
    intro bytes t _ hbytes
    obtain ⟨rfl, rfl⟩ := hbytes
    exact fsconfigSetString_spec trivial hc

theorem setSubset_spec {fsFd : RawFd} {c : Object} {subset : ProcSubset}
    (hc : s.objects fsFd = some c) :
    Safely kernel Prepares (setSubset fsFd subset)
      (fun _ t => t.objects fsFd = some (c.withSubset subset)) s := by
  unfold setSubset Object.withSubset
  split
  · exact fsconfigSetString_spec trivial hc
  · exact Safely.pure hc

theorem setPidns_spec {fsFd : RawFd} {c : Object} {namespace_ : ProcPidNamespace}
    (hheld : ∀ fd, namespace_ = .fd fd → s.objects fd = some (.held fd))
    (hc : s.objects fsFd = some c) :
    Safely kernel Prepares (setPidns fsFd namespace_)
      (fun _ t => t.objects fsFd = some (c.withPidns namespace_)) s := by
  cases namespace_ with
  | guest => exact Safely.pure hc
  | fd fd => exact fsconfigSetFd_spec trivial hc (hheld fd rfl)

theorem resolveProcfs_spec [Itoa] {hidepid : ProcHidepid} {gid : Option UInt32}
    {subset : ProcSubset}
    {namespace_ : ProcPidNamespace} {attributes : MountAttributes}
    (hheld : ∀ fd, namespace_ = .fd fd → s.objects fd = some (.held fd)) :
    Safely kernel Prepares (resolveProcfs hidepid gid subset namespace_ attributes destination)
      (fun r t => NewMount s t destination
        (.mounted (.procfs hidepid gid subset namespace_) attributes.intoMountAttr) r) s := by
  apply fsopen_spec.bind
  intro fsFd _ hst hfs
  apply (fsconfigSetString_spec trivial hfs.2).andThen hst
  intro _ _ hst hhidepid
  apply (setGid_spec hhidepid).andThen hst
  intro _ _ hst hgid
  apply (setSubset_spec hgid).andThen hst
  intro _ t hst hsubset
  have hheld' : ∀ fd, namespace_ = .fd fd → t.objects fd = some (.held fd) :=
    fun fd hns => hst.objects fd _ (hheld fd hns) rfl
  apply (setPidns_spec hheld' hsubset).andThen hst
  intro _ _ hst hpidns
  apply (fsconfigCmdCreateExcl_spec trivial hpidns).andThen hst
  intro _ _ hst hcreated
  exact (mountFs_spec hcreated).mono fun _ _ hr => hr.since hst.toKeeps

theorem resolveMqueue_spec {attributes : MountAttributes} :
    Safely kernel Prepares (resolveMqueue attributes destination)
      (fun r t => NewMount s t destination
        (.mounted (.created (.context (ascii "mqueue")) false) attributes.intoMountAttr) r) s := by
  apply fsopen_spec.bind
  intro fsFd _ hst hfs
  apply (fsconfigCmdCreate_spec trivial hfs.2).andThen hst
  intro _ _ hst hcreated
  exact (mountFs_spec hcreated).mono fun _ _ hr => hr.since hst.toKeeps

theorem resolveTmpfs_spec [Itoa] [LawfulItoa] {size : TmpfsSize} {maxInodes : Option UInt64}
    {permissions : Mode}
    {attributes : MountAttributes} :
    Safely kernel Prepares (resolveTmpfs size maxInodes permissions attributes destination)
      (fun r t => NewMount s t destination
        (.mounted (.tmpfs size maxInodes permissions) attributes.intoMountAttr) r) s := by
  apply fsopen_spec.bind
  intro fsFd _ hst hfs
  apply (applyTmpfsSize_spec trivial hfs.2).andThen hst
  intro _ t hst hsized
  refine Safely.andThen (Q := fun mode u => u = t ∧ mode = (octalMode permissions).dropLast)
    (Safely.orUndefined (octalMode_spec permissions) ⟨rfl, rfl⟩) hst ?_
  intro mode u hst hmode
  obtain ⟨rfl, rfl⟩ := hmode
  apply (fsconfigSetString_spec trivial hsized).andThen hst
  intro _ _ hst hmode
  apply (fsconfigCmdCreateExcl_spec trivial hmode).andThen hst
  intro _ _ hst hcreated
  exact (mountFs_spec hcreated).mono fun _ _ hr => hr.since hst.toKeeps

/-- The third pass resolves the mounts that are its own, and passes over the others. -/
theorem resolveNonbind_spec [Itoa] [LawfulItoa] {m : Mount} (hheld : Held [(destination, m)] s) :
    Safely kernel Prepares (resolveNonbind destination m)
      (fun r t => match r with
        | some r => Mount.pass m = .nonbind ∧ NewlyResolves s t (destination, m) r
        | none => Mount.pass m ≠ .nonbind) s := by
  cases m with
  | procfs hidepid gid subset namespace_ attributes =>
    refine (resolveProcfs_spec fun fd hns => ?_).mono (fun r t hr => ⟨rfl, hr.resolved rfl⟩)
      |>.map
    subst hns
    exact hheld _ (List.mem_singleton_self _) fd (List.mem_singleton_self fd)
  | mqueue attributes =>
    exact (resolveMqueue_spec.mono fun r t hr => ⟨rfl, hr.resolved rfl⟩).map
  | tmpfs size maxInodes owner permissions attributes =>
    exact (resolveTmpfs_spec.mono fun r t hr => ⟨rfl, hr.resolved rfl⟩).map
  | file file =>
    exact Safely.pure ⟨rfl, rfl, fun fd hfd => by cases hfd⟩
  | symlink source =>
    exact Safely.pure ⟨rfl, rfl, fun fd hfd => by cases hfd⟩
  | emptyDirectory owner permissions =>
    exact Safely.pure ⟨rfl, rfl, fun fd hfd => by cases hfd⟩
  | overlay | bind =>
    exact Safely.pure (by simp [Mount.pass])

variable {done : List ((Guest × Mount) × Nat)} {mappings : List (Guest × Mount)}

theorem Resolved.check_spec {resolved : Resolved} {size : Nat} :
    Safely kernel Prepares (resolved.check size)
      (fun _ t => t = s ∧ resolved.length = 0 ∧ size ≤ resolved.spare.slots) s := by
  unfold Resolved.check
  refine Safely.bind (Q := fun _ t => t = s ∧ resolved.length = 0)
    (okOr_spec fun h => ⟨rfl, by simpa using h⟩) ?_
  intro _ t _ hlen
  obtain ⟨rfl, hlen⟩ := hlen
  refine okOr_spec fun h => ⟨rfl, hlen, ?_⟩
  have hcap : size ≤ resolved.length + resolved.spare.slots := of_decide_eq_true h
  omega

theorem resolveNonbindStep_spec [Itoa] [LawfulItoa] {size : Nat} {acc : Spare ResolvedMount × Nat}
    {m : (Guest × Mount) × Nat} (h : Filled size acc.1 done s) (hm : m.2 < size)
    (hheld : Held [m.1] s) :
    Safely kernel Prepares (resolveNonbindStep acc m)
      (fun acc' t => Filled size acc'.1 (done ++ ofPass .nonbind [m]) t ∧
        acc'.2 = acc.2 + (ofPass .nonbind [m]).length) s := by
  apply (resolveNonbind_spec hheld).bind
  intro r t hst hr
  cases r with
  | none =>
    have hskip : ofPass .nonbind [m] = [] := ofPass_other [] hr
    rw [hskip]
    exact Safely.pure ⟨by simpa using h.keeps hst.toKeeps, rfl⟩
  | some r =>
    obtain ⟨hpass, hres, hfresh⟩ := hr
    have hown : ofPass .nonbind [m] = [m] := ofPass_own [] hpass
    obtain ⟨write, hwrite, hfilled⟩ := h.write hst.toKeeps hm hres hfresh
    rw [hown]
    refine Safely.bind (Q := fun w u => u = t ∧ w = write)
      (Safely.orUndefined hwrite ⟨rfl, rfl⟩) ?_
    intro w u _ hw
    obtain ⟨rfl, rfl⟩ := hw
    exact Safely.pure ⟨hfilled, rfl⟩

theorem resolveNonbindMappings_spec [Itoa] [LawfulItoa] {resolved : Resolved}
    (h : Filled mappings.length resolved.spare done s) (hheld : Held mappings s) :
    Safely kernel Prepares (resolveNonbindMappings mappings resolved)
      (fun r t => r.1.length = 0 ∧
        Filled mappings.length r.1.spare (done ++ ofPass .nonbind mappings.zipIdx) t ∧
        r.2 = (ofPass .nonbind mappings.zipIdx).length) s := by
  unfold resolveNonbindMappings
  apply Resolved.check_spec.bind
  intro _ t _ hcheck
  obtain ⟨rfl, hlen, -⟩ := hcheck
  refine Safely.bind (Q := fun acc t => Filled mappings.length acc.1
      (done ++ ofPass .nonbind mappings.zipIdx) t ∧
      acc.2 = (ofPass .nonbind mappings.zipIdx).length) ?_ fun acc u _ hacc => ?_
  · refine (Safely.foldlM (fun pre acc u => Held mappings u ∧
      Filled mappings.length acc.1 (done ++ ofPass .nonbind pre) u ∧
      acc.2 = (ofPass .nonbind pre).length) ?_ ⟨hheld, ?_, rfl⟩).mono fun _ _ hinv => hinv.2
    · intro pre m post acc u hsplit hinv
      obtain ⟨hheld', hfilled, hcount⟩ := hinv
      obtain ⟨hlt, hmem⟩ := index_lt (hsplit ▸ List.mem_append_right pre List.mem_cons_self)
      have hheldm : Held [m.1] u := fun m' hm' => hheld' m' (List.mem_singleton.mp hm' ▸ hmem)
      apply (resolveNonbindStep_spec hfilled hlt hheldm).since.mono
      intro acc' v hv
      obtain ⟨hst, hfilled', hcount'⟩ := hv
      refine ⟨hheld'.keeps hst.toKeeps, ?_, ?_⟩
      · rwa [ofPass_append, ← List.append_assoc]
      · rw [hcount', hcount, ofPass_append, List.length_append]
    · simpa [ofPass] using h
  · exact Safely.pure ⟨hlen, hacc⟩

end Nonbind

end LayerCake.Bubblebox.Spawn.Mounting
