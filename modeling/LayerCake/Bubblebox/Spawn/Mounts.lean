import LayerCake.Bubblebox.Mounts
import LayerCake.Bubblebox.Spawn.MountCalls

/-
  How the guest resolves the mounts of a policy to detached mounts
  (`bubblebox/src/platform/linux/spawn/mounts.rs`, with `spawn/fmt.rs` and
  `paths::same_file_identity`).

  Correspondence (Rust ↔ Lean):
    `write_bytes`, `write_integer`     ↔ `writeBytes`, `writeInteger`
    `same_file_identity`               ↔ `sameFileIdentity`
    `open_parent_in_root`              ↔ `openParentInRoot`
    `apply_tmpfs_size`                 ↔ `applyTmpfsSize`
    `ResolvedMount`                    ↔ `ResolvedMount`
    the spare capacity of `resolved`   ↔ `Resolved.spare`
    `namespace_fd_scratch_space`, `overlay_mount_scratch_space`,
    `overlay_mounts`                   ↔ the fields of `Scratch`
    `resolve_bind_mappings`            ↔ `resolveBindMappings`
    `finish_overlay_mount_resolution`  ↔ `finishOverlayMountResolution`
    `resolve_nonbind_mappings`         ↔ `resolveNonbindMappings`
  Each loop is the fold of its body. The iterator of a `BTreeMap` knows its length,
  so its `size_hint` is that length.
-/

namespace LayerCake.Bubblebox.Spawn.Mounting

open LayerCake.Effects LayerCake.Meowix LayerCake.Linux

variable [Itoa]

/-! ## Helpers -/

/-- `fmt::write_bytes`: the buffer and the offset afterwards. -/
def writeBytes (buffer : Bytes) (offset : Nat) (bytes : Bytes) :
    Except PostSpawnGuest (Bytes × Nat) :=
  let last := offset + bytes.length
  if last ≤ buffer.length then .ok (buffer.take offset ++ bytes ++ buffer.drop last, last)
  else .error (.other .bufferTooSmall)

/-- `fmt::write_integer`. -/
def writeInteger (buffer : Bytes) (offset : Nat) (integer : Int) :
    Except PostSpawnGuest (Bytes × Nat) :=
  writeBytes buffer offset (Itoa.format integer)

/-- `with_c_str::<N>` on formatted bytes, and its `?`. -/
def asCStr (N : Nat) (bytes : Bytes) : Setup Bytes :=
  match withCStr N bytes with
  | .ok bytes => pure bytes
  | .error e => throw (.error (.ofWithCStr e))

def sameFileIdentity (lhs rhs : RawFd) : Setup Bool := do
  let lhs ← statx lhs [] (AT_EMPTY_PATH ||| AT_SYMLINK_NOFOLLOW) STATX_INO
  let rhs ← statx rhs [] (AT_EMPTY_PATH ||| AT_SYMLINK_NOFOLLOW) STATX_INO
  if lhs.mask &&& STATX_INO = 0 ∨ rhs.mask &&& STATX_INO = 0 then return false
  return lhs.devMajor == rhs.devMajor && lhs.devMinor == rhs.devMinor && lhs.ino == rhs.ino

/-- How `open_parent_in_root` opens the parent. -/
def PARENT_HOW : OpenHow :=
  { flags := (O_PATH ||| O_CLOEXEC ||| O_DIRECTORY).toUInt64
    mode := 0
    resolve := (RESOLVE_IN_ROOT ||| RESOLVE_NO_MAGICLINKS ||| RESOLVE_NO_SYMLINKS).toUInt64 }

def openParentInRoot (rootFd : RawFd) (path : Guest) : Setup (RawFd × Bytes) := do
  let pathFd ← openat2Retry rootFd path.inner.parentDir PARENT_HOW
  return (pathFd, path.inner.fileName)

/-- The formatted percentage, in a buffer of the size of a `u64`, a `%` and a null byte. -/
def formatPercent (percent : UInt64) : Setup Bytes := do
  let buffer := List.replicate (unsignedDecimalDigitsUpperBound 8 + 2) 0
  let (buffer, offset) ← orStop (writeInteger buffer 0 percent.toNat)
  let (buffer, offset) ← orStop (writeBytes buffer offset (ascii "%" ++ [0]))
  let size ← orUndefined (if offset ≤ buffer.length then some (buffer.take offset) else none)
  orUndefined (cStrFromBytesWithNul size)

def applyTmpfsSize (fsFd : RawFd) (size : TmpfsSize) (maxInodes : Option UInt64) : Setup Unit := do
  let size ← (match size with
    | .unlimited => pure (ascii "0")
    | .bytes bytes => asCStr (unsignedDecimalDigitsUpperBound 8 + 1) (Itoa.format bytes.toNat)
    | .percent percent => formatPercent percent)
  fsconfigSetString fsFd (ascii "size") size
  match maxInodes with
  | some maxInodes => do
    let maxInodes ← asCStr (unsignedDecimalDigitsUpperBound 8 + 1) (Itoa.format maxInodes.toNat)
    fsconfigSetString fsFd (ascii "nr_inodes") maxInodes
  | none => pure ()

/-- `b'0' + (permissions & 0o7)`. -/
def octalDigit (permissions : Mode) : UInt8 := 48 + (permissions &&& 0o7).toUInt8

/-- The `mode` of a tmpfs: the loop that fills in its four octal digits from the last,
and the null byte behind them. -/
def octalMode (permissions : Mode) : Bytes :=
  ((List.range 4).foldl (fun (acc : Bytes × Mode) _ => (octalDigit acc.2 :: acc.1, acc.2 >>> 3))
    ([0], permissions &&& 0o7777)).1

/-! ## Resolved mounts -/

inductive ResolvedMount where
  /-- A detached mount. -/
  | fd (fd : RawFd) (destination : Guest) (isDirectory : Bool)
  | file (file : File) (destination : Guest)
  | symlink (source destination : Guest)
  | directory (owner : Owner) (permissions : Mode) (destination : Guest)

/-- `resolved`: a vector of which only the spare capacity is written. -/
structure Resolved where
  length : Nat
  spare : Spare ResolvedMount

def Resolved.capacity (self : Resolved) : Nat := self.length + self.spare.slots

/-- The checks with which `resolve_bind_mappings` and `resolve_nonbind_mappings` begin. -/
def Resolved.check (self : Resolved) (size : Nat) : Setup Unit := do
  okOr (self.length == 0) .nonzeroResolvedLen
  okOr (size ≤ self.capacity) .bufferTooSmall

/-! ## `resolve_nonbind_mappings` -/

/-- The mount of the file system that has been configured. -/
def mountFs (fsFd : RawFd) (destination : Guest) (attributes : MountAttributes) :
    Setup ResolvedMount := do
  let fd ← fsmount fsFd FSMOUNT_CLOEXEC attributes.intoMountAttr
  return .fd fd destination true

/-- The `hidepid` option. -/
def ProcHidepid.option : ProcHidepid → Bytes
  | .off => ascii "off"
  | .noAccess => ascii "noaccess"
  | .invisible => ascii "invisible"
  | .ptraceable => ascii "ptraceable"

def setGid (fsFd : RawFd) : Option UInt32 → Setup Unit
  | some gid => do
    let gid ← asCStr (unsignedDecimalDigitsUpperBound 4 + 1) (Itoa.format gid.toNat)
    fsconfigSetString fsFd (ascii "gid") gid
  | none => pure ()

def setSubset (fsFd : RawFd) (subset : ProcSubset) : Setup Unit :=
  if subset = .pid then fsconfigSetString fsFd (ascii "subset") (ascii "pid") else pure ()

def setPidns (fsFd : RawFd) : ProcPidNamespace → Setup Unit
  | .fd fd => fsconfigSetFd fsFd (ascii "pidns") fd
  | .guest => pure ()

def resolveProcfs (hidepid : ProcHidepid) (gid : Option UInt32) (subset : ProcSubset)
    (namespace_ : ProcPidNamespace) (attributes : MountAttributes) (destination : Guest) :
    Setup ResolvedMount := do
  let fsFd ← fsopen (ascii "proc") FSOPEN_CLOEXEC
  fsconfigSetString fsFd (ascii "hidepid") (ProcHidepid.option hidepid)
  setGid fsFd gid
  setSubset fsFd subset
  setPidns fsFd namespace_
  fsconfigCmdCreateExcl fsFd
  mountFs fsFd destination attributes

/-- There is one `mqueue` instance in an IPC namespace, so this is not exclusive. -/
def resolveMqueue (attributes : MountAttributes) (destination : Guest) : Setup ResolvedMount := do
  let fsFd ← fsopen (ascii "mqueue") FSOPEN_CLOEXEC
  fsconfigCmdCreate fsFd
  mountFs fsFd destination attributes

def resolveTmpfs (size : TmpfsSize) (maxInodes : Option UInt64) (permissions : Mode)
    (attributes : MountAttributes) (destination : Guest) : Setup ResolvedMount := do
  let fsFd ← fsopen (ascii "tmpfs") FSOPEN_CLOEXEC
  applyTmpfsSize fsFd size maxInodes
  let mode ← orUndefined (cStrFromBytesWithNul (octalMode permissions))
  fsconfigSetString fsFd (ascii "mode") mode
  fsconfigCmdCreateExcl fsFd
  mountFs fsFd destination attributes

/-- The `match` of the loop; `none` is `continue`. -/
def resolveNonbind (destination : Guest) : Mount → Setup (Option ResolvedMount)
  | .procfs hidepid gid subset namespace_ attributes =>
    some <$> resolveProcfs hidepid gid subset namespace_ attributes destination
  | .mqueue attributes => some <$> resolveMqueue attributes destination
  | .file file => pure (some (.file file destination))
  | .symlink source => pure (some (.symlink source destination))
  | .emptyDirectory owner permissions => pure (some (.directory owner permissions destination))
  | .tmpfs size maxInodes _ permissions attributes =>
    some <$> resolveTmpfs size maxInodes permissions attributes destination
  | .overlay .. | .bind _ => pure none

/-- The body of the loop, which carries the spare slots and `n_non_binds`. -/
def resolveNonbindStep (acc : Spare ResolvedMount × Nat) (mapping : (Guest × Mount) × Nat) :
    Setup (Spare ResolvedMount × Nat) := do
  match ← resolveNonbind mapping.1.1 mapping.1.2 with
  | none => return acc
  | some resolvedMount => do
    let write ← orUndefined (acc.1.getMut mapping.2)
    return (write resolvedMount, acc.2 + 1)

def resolveNonbindMappings (mappings : List (Guest × Mount)) (resolved : Resolved) :
    Setup (Resolved × Nat) := do
  resolved.check mappings.length
  let (spare, nNonBinds) ← mappings.zipIdx.foldlM resolveNonbindStep (resolved.spare, 0)
  return ({ resolved with spare }, nNonBinds)

/-! ## `resolve_bind_mappings` -/

/-- An element of `namespace_fd_scratch_space`. -/
structure NamespaceFd where
  index : Nat
  fd : RawFd
  destination : Guest
  /-- The name of a file, the descriptor to verify it, and whether it is a symlink. -/
  fileInfo : Option (Bytes × RawFd × Bool)
  attributes : MountAttributes
  isRecursive : Bool

/-- An element of `overlay_mounts`. -/
structure OverlayMount where
  index : Nat
  destination : Guest
  lowerdirs : List RawFd
  datadirs : List RawFd
  upperdirs : Option UpperDirs
  attributes : MountAttributes

structure Scratch where
  namespaceFds : Vec NamespaceFd
  overlayFds : Vec RawFd
  overlayMounts : Vec OverlayMount

/-- The flags a namespace is captured with. -/
def CAPTURE_FLAGS : UInt32 := OPEN_TREE_NAMESPACE ||| OPEN_TREE_CLOEXEC ||| AT_EMPTY_PATH

/-- Capture the directory `dir` of an overlay. -/
def captureLayer (overlayFds : Vec RawFd) (dir : RawFd) : Setup (Vec RawFd) := do
  let namespaceFd ← openTree (.fd dir) [] CAPTURE_FLAGS
  orUndefined (overlayFds.push namespaceFd)

/-- The end of the body of the first loop, for a bind mount. -/
def captureBind (scratch : Scratch) (index : Nat) (destination : Guest) (dirfd : RawFd)
    (flags : UInt32) (fileInfo : Option (Bytes × RawFd × Bool)) (attributes : MountAttributes)
    (isRecursive : Bool) : Setup Scratch := do
  let fd ← openTree (.fd dirfd) [] flags
  let namespaceFds ← orUndefined (scratch.namespaceFds.push
    { index, fd, destination, fileInfo, attributes, isRecursive })
  return { scratch with namespaceFds }

/-- The body of the first loop. -/
def captureStep (scratch : Scratch) (mapping : (Guest × Mount) × Nat) : Setup Scratch :=
  let ((destination, source), index) := mapping
  match source with
  | .bind (.file dirfd name fd attributes isSymlink) =>
    captureBind scratch index destination dirfd CAPTURE_FLAGS (some (name, fd, isSymlink))
      attributes false
  | .bind (.directory fd attributes isRecursive) =>
    captureBind scratch index destination fd
      (if isRecursive then CAPTURE_FLAGS ||| AT_RECURSIVE else CAPTURE_FLAGS) none attributes
      isRecursive
  | .overlay lowerdirs datadirs upperdirs attributes => do
    let overlayMounts ← orUndefined (scratch.overlayMounts.push
      { index, destination, lowerdirs, datadirs, upperdirs, attributes })
    let overlayFds ← (lowerdirs ++ datadirs).foldlM captureLayer scratch.overlayFds
    let overlayFds ← (match upperdirs with
      | some (.fd parent ..) => captureLayer overlayFds parent
      | _ => pure overlayFds)
    return { scratch with overlayFds, overlayMounts }
  | _ => pure scratch

/-- No mount events propagate in or out of the clone. -/
def cloneAttr (attributes : MountAttributes) : MountAttr :=
  { attrSet := attributes.intoMountAttr.toUInt64
    attrClr := 0
    propagation := MS_PRIVATE.toUInt64
    usernsFd := 0 }

/-- `setns` to a mount namespace, and `chdir` to its root. -/
def enter (namespaceFd : RawFd) : Setup Unit := do
  setns namespaceFd CLONE_NEWNS
  chdir [sep]

/-- What is cloned of a captured namespace, and the flags for it. -/
def NamespaceFd.clonePath (self : NamespaceFd) : Bytes :=
  match self.fileInfo with
  | some (name, _, _) => name
  | none => [sep]

def NamespaceFd.cloneFlags (self : NamespaceFd) : UInt32 :=
  let flags := OPEN_TREE_CLONE ||| OPEN_TREE_CLOEXEC
  let flags := if self.isRecursive then flags ||| AT_RECURSIVE else flags
  match self.fileInfo with
  | some (_, _, isSymlink) => flags ||| if isSymlink then AT_SYMLINK_NOFOLLOW else 0
  | none => flags

/-- The body of the second loop. -/
def cloneStep (spare : Spare ResolvedMount) (bind : NamespaceFd) :
    Setup (Spare ResolvedMount) := do
  enter bind.fd
  let fd ← openTreeAttr .cwd bind.clonePath bind.cloneFlags (cloneAttr bind.attributes)
  (match bind.fileInfo with
    | some (_, originalFd, _) => do
      let same ← sameFileIdentity originalFd fd
      okOr same .hostSourcedFileMismatch
    | none => pure ())
  let write ← orUndefined (spare.getMut bind.index)
  return write (.fd fd bind.destination bind.fileInfo.isNone)

def OVERLAY_OPEN_TREE_FLAGS : UInt32 := OPEN_TREE_CLONE ||| OPEN_TREE_CLOEXEC ||| AT_RECURSIVE

/-- The attributes of the mounts an overlay is made of. -/
def LAYER_ATTRIBUTES : MountAttributes :=
  { readOnly := false
    noSetuid := true
    noDevices := true
    noExecution := false
    noSymlinkFollowing := false }

def OVERLAY_MOUNT_ATTR : MountAttr := cloneAttr LAYER_ATTRIBUTES

/-- The body of the third loop, which replaces the namespaces by mounts in place. -/
def cloneLayer (detached : List RawFd) (nsFd : RawFd) : Setup (List RawFd) := do
  enter nsFd
  let fd ← openTreeAttr .cwd [sep] OVERLAY_OPEN_TREE_FLAGS OVERLAY_MOUNT_ATTR
  return detached ++ [fd]

def resolveBindMappings (mappings : List (Guest × Mount)) (resolved : Resolved)
    (scratch : Scratch) : Setup (Resolved × Scratch × Nat) := do
  resolved.check mappings.length
  okOr (mappings.length ≤ scratch.namespaceFds.capacity) .bufferTooSmall
  let scratch ← mappings.zipIdx.foldlM captureStep scratch
  unshare CLONE_NEWNS
  let originalNs ← openTree .cwd [sep] (CAPTURE_FLAGS ||| AT_RECURSIVE)
  let spare ← scratch.namespaceFds.items.foldlM cloneStep resolved.spare
  let detached ← scratch.overlayFds.items.foldlM cloneLayer []
  enter originalNs
  return ({ resolved with spare },
    { scratch with overlayFds := { scratch.overlayFds with items := detached } },
    scratch.namespaceFds.items.length)

/-! ## `finish_overlay_mount_resolution` -/

/-- `get_unchecked(mount_i)`, handed to the overlay under `key`. -/
def setLayer (fsFd : RawFd) (key : Bytes) (overlayFds : Vec RawFd) (mountI : Nat) : Setup Nat := do
  let mountFd ← orUndefined overlayFds.items[mountI]?
  fsconfigSetFd fsFd key mountFd
  return mountI + 1

/-- The loop over `0..n`. -/
def setLayers (fsFd : RawFd) (key : Bytes) (overlayFds : Vec RawFd) (n mountI : Nat) : Setup Nat :=
  (List.range n).foldlM (fun mountI _ => setLayer fsFd key overlayFds mountI) mountI

def HOST_DIR_HOW : OpenHow :=
  { flags := (O_PATH ||| O_CLOEXEC ||| O_DIRECTORY).toUInt64
    mode := 0
    resolve := (RESOLVE_NO_MAGICLINKS ||| RESOLVE_BENEATH ||| RESOLVE_NO_XDEV).toUInt64 }

def TMPFS_DIR_HOW : OpenHow :=
  { flags := (O_PATH ||| O_DIRECTORY ||| O_CLOEXEC).toUInt64
    mode := 0
    resolve := (RESOLVE_BENEATH ||| RESOLVE_NO_MAGICLINKS).toUInt64 }

/-- Open a directory of the host and check that it is the one that was captured. -/
def openVerified (mountFd : RawFd) (path : Bytes) (identityFd : RawFd) : Setup RawFd := do
  let fd ← openat2Retry mountFd path HOST_DIR_HOW
  let same ← sameFileIdentity fd identityFd
  okOr same .hostSourcedFileMismatch
  return fd

/-- A tmpfs with the upper directories of an overlay, both of them opened. -/
def makeUpperDirs (size : TmpfsSize) (maxInodes : Option UInt64) : Setup (RawFd × RawFd) := do
  let tmpfsFd ← fsopen (ascii "tmpfs") FSOPEN_CLOEXEC
  applyTmpfsSize tmpfsFd size maxInodes
  fsconfigCmdCreateExcl tmpfsFd
  let tmpfs ← fsmount tmpfsFd FSMOUNT_CLOEXEC LAYER_ATTRIBUTES.intoMountAttr
  mkdirat tmpfs (ascii "upperdir") S_IRWXU
  mkdirat tmpfs (ascii "workdir") S_IRWXU
  let upperdirFd ← openat2 tmpfs (ascii "upperdir") TMPFS_DIR_HOW
  let workdirFd ← openat2 tmpfs (ascii "workdir") TMPFS_DIR_HOW
  return (upperdirFd, workdirFd)

def setUpperDirs (fsFd : RawFd) (overlayFds : Vec RawFd) (mountI : Nat) :
    Option UpperDirs → Setup Nat
  | some (.fd _ upperdir upperdirFd workdir workdirFd) => do
    let mountFd ← orUndefined overlayFds.items[mountI]?
    let workdir ← openVerified mountFd workdir workdirFd
    let upperdir ← openVerified mountFd upperdir upperdirFd
    fsconfigSetFd fsFd (ascii "workdir") workdir
    fsconfigSetFd fsFd (ascii "upperdir") upperdir
    return mountI + 1
  | some (.tmpfs size maxInodes) => do
    let (upperdirFd, workdirFd) ← makeUpperDirs size maxInodes
    fsconfigSetFd fsFd (ascii "upperdir") upperdirFd
    fsconfigSetFd fsFd (ascii "workdir") workdirFd
    return mountI
  | none => pure mountI

/-- The body of the loop, which carries the spare slots and `mount_i`. -/
def finishOverlayStep (overlayFds : Vec RawFd) (acc : Spare ResolvedMount × Nat)
    (overlay : OverlayMount) : Setup (Spare ResolvedMount × Nat) := do
  let fsFd ← fsopen (ascii "overlay") FSOPEN_CLOEXEC
  let mountI ← setLayers fsFd (ascii "lowerdir+") overlayFds overlay.lowerdirs.length acc.2
  let mountI ← setLayers fsFd (ascii "datadir+") overlayFds overlay.datadirs.length mountI
  let mountI ← setUpperDirs fsFd overlayFds mountI overlay.upperdirs
  fsconfigSetFlag fsFd (ascii "userxattr")
  fsconfigCmdCreateExcl fsFd
  let write ← orUndefined (acc.1.getMut overlay.index)
  let resolvedMount ← mountFs fsFd overlay.destination overlay.attributes
  return (write resolvedMount, mountI)

def finishOverlayMountResolution (resolved : Resolved) (overlayFds : Vec RawFd)
    (overlayMounts : Vec OverlayMount) : Setup (Resolved × Nat) := do
  let (spare, _) ← overlayMounts.items.foldlM (finishOverlayStep overlayFds) (resolved.spare, 0)
  return ({ resolved with spare }, overlayMounts.items.length)

end LayerCake.Bubblebox.Spawn.Mounting
