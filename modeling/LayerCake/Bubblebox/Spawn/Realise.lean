import LayerCake.Bubblebox.GuestPaths
import LayerCake.Bubblebox.Spawn.Resolution

/-
  How the guest puts its resolved mounts in place: the loop of `guest_post_clone`
  (`spawn/mod.rs`), from the root it makes on.

  Correspondence (Rust ↔ Lean):
    `guest_root_fd`                         ↔ `makeRoot`
    the arms of `match resolved`            ↔ `realiseDirectoryFd`, `realiseFileFd`,
                                              `realiseFile`, `realiseSymlink`,
                                              `realiseDirectory`
    `for resolved in resolved_mappings`     ↔ the fold in `realiseMounts`
    `GuestInner::with_c_str`                ↔ `guestAsCStr`
  `with_c_str` on a `CStr` hands on the string itself, whatever its length.

  What is proved: in a directory that is not on the host, every arm creates at most the
  entry of its own name there, and those of `ResolvedMount::Fd` then attach their mount
  to it (`realiseDirectoryFd_spec`, `realiseFileFd_spec`, `realiseFile_spec`, …).
-/

namespace LayerCake.Bubblebox.Spawn.Mounting

open LayerCake.Effects LayerCake.Meowix LayerCake.Linux LayerCake.Tree

/-! ## The root -/

def makeRoot : Setup RawFd := do
  let guestRootFsFd ← fsopen (ascii "tmpfs") FSOPEN_CLOEXEC
  fsconfigSetString guestRootFsFd (ascii "mode") (ascii "755")
  fsconfigCmdCreateExcl guestRootFsFd
  fsmount guestRootFsFd FSMOUNT_CLOEXEC (MOUNT_ATTR_NOSUID ||| MOUNT_ATTR_NODEV)

/-! ## One resolved mount -/

/-- `statx` on an entry of a directory, of which `ENOENT` is not an error. -/
def statxEntry (parentFd : RawFd) (fileName : Bytes) (mask : UInt32) : Setup (Option Statx) :=
  ExceptT.mk do
    match ← perform (I := Calls) (.statx parentFd fileName AT_SYMLINK_NOFOLLOW mask) with
    | .ok statx => return .ok (some statx)
    | .error e =>
      if e = .NOENT then return .ok none else return .error (.error (.syscall ⟨.statx, e⟩))

/-- The `match` on `statx` in the arms that make their own entry. -/
def checkAbsent (parentFd : RawFd) (fileName : Bytes) : Setup Unit := do
  let statx ← statxEntry parentFd fileName 0
  okOr statx.isNone .destinationExists

/-- What is at a mount point is of the type `S_IFMT` has it be. -/
def Statx.isOfType (self : Statx) (type : UInt32) : Bool := self.mode.toUInt32 &&& S_IFMT == type

/-- `mkdirat` with the mode of a mount point. -/
def makeDirectoryMountPoint (parentFd : RawFd) (fileName : Bytes) : Setup Unit :=
  mkdirat parentFd fileName (S_IRWXU ||| S_IRGRP ||| S_IXGRP ||| S_IROTH ||| S_IXOTH)

def FILE_MOUNT_POINT_HOW : OpenHow :=
  { flags := (O_CREAT ||| O_WRONLY).toUInt64
    mode := (S_IRUSR ||| S_IWUSR ||| S_IRGRP ||| S_IROTH).toUInt64
    resolve := RESOLVE_BENEATH.toUInt64 }

def makeFileMountPoint (parentFd : RawFd) (fileName : Bytes) : Setup Unit := do
  let _ ← openat2Retry parentFd fileName FILE_MOUNT_POINT_HOW

/-- `ResolvedMount::Fd` of a directory. -/
def realiseDirectoryFd (fd parentFd : RawFd) (fileName : Bytes) : Setup Unit := do
  let statx ← statxEntry parentFd fileName STATX_TYPE
  (match statx with
    | some statx => okOr (statx.isOfType S_IFDIR) .invalidDirectoryMountPoint
    | none => makeDirectoryMountPoint parentFd fileName)
  moveMount fd [] parentFd fileName MOVE_MOUNT_F_EMPTY_PATH

/-- `ResolvedMount::Fd` of a file. -/
def realiseFileFd (fd parentFd : RawFd) (fileName : Bytes) : Setup Unit := do
  let statx ← statxEntry parentFd fileName STATX_TYPE
  (match statx with
    | some statx => okOr (statx.isOfType S_IFREG) .invalidRegularFileMountPoint
    | none => makeFileMountPoint parentFd fileName)
  moveMount fd [] parentFd fileName MOVE_MOUNT_F_EMPTY_PATH

/-- `write_all`, and what its error becomes. -/
def writeContents (fd : RawFd) (contents : Bytes) : Setup Unit :=
  ExceptT.mk do
    match ← writeAll
      (fun segment => performUntil (I := Calls) (.write fd segment) interrupted) contents with
    | .ok () => return .ok ()
    | .error ⟨_, some e⟩ => return .error (.error (.syscall e))
    | .error ⟨_, none⟩ => return .error (.error .incompleteWrite)

def FILE_HOW (permissions : Mode) : OpenHow :=
  { flags := (O_CREAT ||| O_RDWR).toUInt64
    mode := permissions.toUInt64
    resolve := RESOLVE_BENEATH.toUInt64 }

/-- `ResolvedMount::File`. -/
def realiseFile (file : File) (parentFd : RawFd) (fileName : Bytes) : Setup Unit := do
  checkAbsent parentFd fileName
  let fd ← openat2Retry parentFd fileName (FILE_HOW file.permissions)
  writeContents fd file.contents

/-- `GuestInner::with_c_str::<N>`, and its `?`. -/
def guestAsCStr (N : Nat) (path : Bubblebox.GuestInner) : Setup Bytes :=
  if path.parentDir.length + path.fileName.length + 1 < N then
    match cStrFromBytesWithNul (path.parentDir ++ sep :: path.fileName ++ [0]) with
    | some path => pure path
    | none => throw (.error .fromBytesWithNulError)
  else throw (.error .cStrBufferTooSmall)

/-- `ResolvedMount::Symlink`. -/
def realiseSymlink (source : Guest) (parentFd : RawFd) (fileName : Bytes) : Setup Unit := do
  checkAbsent parentFd fileName
  let source ← guestAsCStr PATH_MAX source.inner
  symlinkat source parentFd fileName

/-- `ResolvedMount::Directory`. -/
def realiseDirectory (permissions : Mode) (parentFd : RawFd) (fileName : Bytes) : Setup Unit := do
  checkAbsent parentFd fileName
  mkdirat parentFd fileName permissions

/-- The body of the loop. -/
def realise (guestRootFd : RawFd) : ResolvedMount → Setup Unit
  | .fd fd destination true => do
    let (parentFd, fileName) ← openParentInRoot guestRootFd destination
    realiseDirectoryFd fd parentFd fileName
  | .fd fd destination false => do
    let (parentFd, fileName) ← openParentInRoot guestRootFd destination
    realiseFileFd fd parentFd fileName
  | .file file destination => do
    let (parentFd, fileName) ← openParentInRoot guestRootFd destination
    realiseFile file parentFd fileName
  | .symlink source destination => do
    let (parentFd, fileName) ← openParentInRoot guestRootFd destination
    realiseSymlink source parentFd fileName
  | .directory _ permissions destination => do
    let (parentFd, fileName) ← openParentInRoot guestRootFd destination
    realiseDirectory permissions parentFd fileName

/-! ## The loop -/

/-- From the resolution of the mounts to the root they are put in. -/
def prepareMounts [Itoa] (policy : Policy) (buffers : Buffers policy) (between : Interludes) :
    Setup (RawFd × List ResolvedMount) := do
  let r ← resolveMappings policy buffers between
  let nResolved := r.nBinds + r.nOverlay + r.nNonBinds
  okOr (nResolved == policy.mountTree.size) .mappingsLengthMismatch
  let resolvedMappings ← orUndefined (r.resolved.spare.setLen nResolved)
  let guestRootFd ← makeRoot
  return (guestRootFd, resolvedMappings)

def realiseAll (guestRootFd : RawFd) (mounts : List ResolvedMount) : Setup Unit :=
  mounts.foldlM (fun _ resolved => realise guestRootFd resolved) ()

def realiseMounts [Itoa] (policy : Policy) (buffers : Buffers policy) (between : Interludes) :
    Setup RawFd := do
  let (guestRootFd, mounts) ← prepareMounts policy buffers between
  realiseAll guestRootFd mounts
  return guestRootFd

/-! ## What a step makes in the parent -/

/-- The name of an entry, in a directory that is not on the host. -/
structure Target (s : State) (parentFd : RawFd) (dir : Place) (fileName : Bytes) : Prop where
  isName : Path.IsName fileName
  isOpen : (s.objects parentFd).isSome = true
  place : s.places parentFd = some dir
  offHost : s.OffHost dir

section Targets
variable {s t : State} {parentFd : RawFd} {dir : Place} {fileName : Bytes}

theorem Target.keeps (h : Target s parentFd dir fileName) (hst : Keeps s t) :
    Target t parentFd dir fileName :=
  ⟨h.isName, hst.isOpen _ h.isOpen, (hst.places _ h.isOpen).trans h.place, h.offHost.keeps hst⟩

theorem statxEntry_spec {own : RawFd → Prop} {mask : UInt32} (hname : Path.IsName fileName) :
    Safely kernel (Within own) (statxEntry parentFd fileName mask)
      (fun statx t => t = s ∧ (statx = none → ∀ dir, s.places parentFd = some dir →
        s.entries (top s.attached (dir.child fileName)) = none)) s := by
  refine Sat.bind (perform_inert (by trivial) fun r t hk => ?_)
  obtain ⟨rfl, habsent⟩ := hk
  cases r with
  | ok statx => exact sat_done.mpr ⟨rfl, fun h => by cases h⟩
  | error e =>
    show Sat _ _ _ (if e = .NOENT then _ else _) _ _
    split
    · next he =>
      refine sat_done.mpr ⟨rfl, fun _ => ?_⟩
      exact habsent (by rw [he]) hname.ne_nil hname.no_sep rfl
    · exact sat_done.mpr (by simp)

theorem checkAbsent_spec (h : Target s parentFd dir fileName) :
    Safely kernel Prepares (checkAbsent parentFd fileName)
      (fun _ t => t = s ∧ s.entries (top s.attached (dir.child fileName)) = none) s := by
  apply (statxEntry_spec h.isName).bind
  intro statx t _ hstatx
  obtain ⟨rfl, habsent⟩ := hstatx
  exact okOr_spec fun hnone => ⟨rfl, habsent (by simpa using hnone) dir h.place⟩

theorem writeContents_spec {fd : RawFd} {contents : Bytes} :
    Safely kernel Prepares (writeContents fd contents) (fun _ t => t = s) s := by
  have hwrite : ∀ bytes, Prog.Calls (I := Calls) (fun op => ∃ bytes, op = Op.write fd bytes)
      (performUntil (I := Calls) (.write fd bytes) interrupted) :=
    fun bytes => ⟨⟨bytes, rfl⟩, fun _ => trivial⟩
  refine Sat.bind (((writeAll_calls hwrite contents).sat (J := (· = s)) ?_ rfl).mono
    fun r t ht => ?_)
  · intro t op r t' hop ht hk
    obtain ⟨bytes, rfl⟩ := hop
    obtain ⟨rfl, -⟩ := hk
    exact ⟨Std.Refl.refl _, ht⟩
  · match r with
    | .ok () => exact sat_done.mpr ht
    | .error ⟨_, some e⟩ => exact sat_done.mpr (by simp)
    | .error ⟨_, none⟩ => exact sat_done.mpr (by simp)

/-- The conversion is `with_c_str`, whose unchecked copies stay in their buffer. -/
theorem guestAsCStr_eq (N : Nat) (path : Bubblebox.GuestInner) :
    guestAsCStr N path =
      match path.withCStr N with
      | .ok c => pure c
      | .error .undefined => throw .undefined
      | .error (.error .cStrBufferTooSmall) => throw (.error .cStrBufferTooSmall)
      | .error (.error .fromBytesWithNulError) => throw (.error .fromBytesWithNulError) := by
  unfold guestAsCStr
  rw [Bubblebox.GuestInner.withCStr_eq]
  by_cases hlen : path.parentDir.length + path.fileName.length + 1 < N
  · rw [if_pos hlen, if_pos (Nat.succ_le_of_lt hlen)]
    cases cStrFromBytesWithNul (path.parentDir ++ sep :: path.fileName ++ [0]) <;> rfl
  · rw [if_neg hlen, if_neg fun h => hlen (Nat.lt_of_succ_le h)]

theorem guestAsCStr_spec {G : State → State → Prop} {N : Nat} {path : Bubblebox.GuestInner}
    {Q : Bytes → State → Prop} (h : ∀ bytes, Q bytes s) :
    Safely kernel G (guestAsCStr N path) Q s := by
  unfold guestAsCStr
  split
  · split
    · exact Safely.pure (h _)
    · exact Safely.error
  · exact Safely.error

theorem realiseFile_spec {file : File} (h : Target s parentFd dir fileName) :
    Safely kernel Prepares (realiseFile file parentFd fileName)
      (fun _ t => t.entries (top s.attached (dir.child fileName)) = some .file) s := by
  have hcreates : (FILE_HOW file.permissions).creates = true := by
    show ((O_CREAT ||| O_RDWR).toUInt64 &&& O_CREAT.toUInt64 != 0) = true
    decide
  apply (checkAbsent_spec h).bind
  intro _ t _ hst
  obtain ⟨rfl, habsent⟩ := hst
  refine (openat2Create_spec hcreates h.isName.no_sep h.place h.offHost habsent).bind
    fun fd u _ hu => ?_
  exact writeContents_spec.mono fun _ v hv => hv ▸ hu

theorem realiseSymlink_spec {source : Guest} (h : Target s parentFd dir fileName) :
    Safely kernel Prepares (realiseSymlink source parentFd fileName)
      (fun _ t => t.entries (top s.attached (dir.child fileName)) = some .symlink) s := by
  apply (checkAbsent_spec h).bind
  intro _ t _ hst
  obtain ⟨rfl, -⟩ := hst
  apply Safely.bind (Q := fun _ u => u = t) (guestAsCStr_spec fun _ => rfl)
  intro path u _ hu
  subst hu
  exact symlinkat_spec h.isName.no_sep h.place h.offHost

theorem realiseDirectory_spec {permissions : Mode} (h : Target s parentFd dir fileName) :
    Safely kernel Prepares (realiseDirectory permissions parentFd fileName)
      (fun _ t => t.entries (top s.attached (dir.child fileName)) = some .directory) s := by
  apply (checkAbsent_spec h).bind
  intro _ t _ hst
  obtain ⟨rfl, -⟩ := hst
  exact mkdirat_spec h.isName.no_sep h.place h.offHost

/-- A program that moves no mount, within one that does. -/
theorem Prepares.safely {α : Type} {p : Setup α} {Q : α → State → Prop}
    (h : Safely kernel Prepares p Q s) :
    Safely kernel Keeps p (fun a t => Prepares s t ∧ Q a t) s :=
  h.since.weaken fun _ _ hst => hst.toKeeps

/-- `s` with the detached mount `fd` moved to an entry of `dir`. -/
def State.moves (s : State) (fd : RawFd) (dir : Place) (fileName : Bytes) : State :=
  { s with attached := s.attached ++ [(top s.attached (dir.child fileName), fd)] }

/-- A mount point is checked or made, and then the mount is moved there. -/
theorem mountAt_spec {fd : RawFd} (h : Target s parentFd dir fileName)
    (hroot : s.places fd = some (.root fd)) (hfd : (s.objects fd).isSome = true)
    (hnew : ∀ e ∈ s.attached, e.2 ≠ fd) {check : Statx → Setup Unit} {make : Setup Unit}
    (hcheck : ∀ statx, Safely kernel Prepares (check statx) (fun _ _ => True) s)
    (hmake : s.entries (top s.attached (dir.child fileName)) = none →
      Safely kernel Prepares make (fun _ _ => True) s) :
    Safely kernel Keeps (do
        let statx ← statxEntry parentFd fileName STATX_TYPE
        (match statx with
          | some statx => check statx
          | none => make)
        moveMount fd [] parentFd fileName MOVE_MOUNT_F_EMPTY_PATH)
      (fun _ t => ∃ u, Prepares s u ∧ t = u.moves fd dir fileName) s := by
  apply (Prepares.safely (statxEntry_spec h.isName)).bind
  intro statx t _ hstatx
  obtain ⟨-, rfl, habsent⟩ := hstatx
  -- what is there is checked, or an entry is made where nothing is
  have hpoint : Safely kernel Prepares (match statx with
      | some statx => check statx
      | none => make) (fun _ _ => True) t := by
    cases statx with
    | some statx => exact hcheck statx
    | none => exact hmake (habsent rfl dir h.place)
  apply (Prepares.safely hpoint).bind
  intro _ u htu hu
  have hplace : u.places fd = some (.root fd) := (htu.places fd hfd).trans hroot
  have hnew' : ∀ e ∈ u.attached, e.2 ≠ fd := by
    rw [hu.1.attached]
    exact hnew
  apply (moveMount_spec h.isName.no_sep hplace hnew' (h.keeps htu).place).mono
  intro _ v hv
  exact ⟨u, hu.1, hv⟩

theorem realiseDirectoryFd_spec {fd : RawFd} (h : Target s parentFd dir fileName)
    (hroot : s.places fd = some (.root fd)) (hfd : (s.objects fd).isSome = true)
    (hnew : ∀ e ∈ s.attached, e.2 ≠ fd) :
    Safely kernel Keeps (realiseDirectoryFd fd parentFd fileName)
      (fun _ t => ∃ u, Prepares s u ∧ t = u.moves fd dir fileName) s :=
  mountAt_spec h hroot hfd hnew (fun _ => okOr_spec fun _ => trivial) fun _ =>
    (mkdirat_spec h.isName.no_sep h.place h.offHost).mono fun _ _ _ => trivial

theorem realiseFileFd_spec {fd : RawFd} (h : Target s parentFd dir fileName)
    (hroot : s.places fd = some (.root fd)) (hfd : (s.objects fd).isSome = true)
    (hnew : ∀ e ∈ s.attached, e.2 ≠ fd) :
    Safely kernel Keeps (realiseFileFd fd parentFd fileName)
      (fun _ t => ∃ u, Prepares s u ∧ t = u.moves fd dir fileName) s := by
  have hcreates : FILE_MOUNT_POINT_HOW.creates = true := by decide
  apply mountAt_spec h hroot hfd hnew (fun _ => okOr_spec fun _ => trivial)
  intro habsent
  refine (openat2Create_spec hcreates h.isName.no_sep h.place h.offHost habsent).bind
    fun _ _ _ _ => Safely.pure trivial

end Targets

end LayerCake.Bubblebox.Spawn.Mounting
