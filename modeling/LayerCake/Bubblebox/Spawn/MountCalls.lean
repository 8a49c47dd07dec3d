import Mathlib.Logic.Function.Basic
import LayerCake.Bubblebox.Paths
import LayerCake.Bubblebox.Spawn.Errors
import LayerCake.Effects.Unchecked
import LayerCake.Meowix.Linux
import LayerCake.Tree.Attached

/-
  The calls by which the guest builds its file system, and the kernel behind them.

  A descriptor refers to an object: the calls that made it, on the objects they were
  given. So two overlays can be told apart by what they were configured with, and a
  detached mount by the namespace and the path it was cloned from.

  Closing is left out. The source drops the descriptors of file system contexts, of
  namespaces and of the upper and work directories as soon as it is done with them, and
  a later call may be given their numbers. Here they stay open and every descriptor has
  a number of its own, which names the same objects: no call is made on a descriptor
  that was dropped.

  A mount is a tree of entries, named by the descriptor it was created with. Moving a
  detached mount attaches its tree to a node of another, whose subtree it covers. A
  path that is resolved in a root and without symlinks is walked name by name; where
  any other path leads is left open, and so is what a call does that the code makes on
  no path of its own. What the code creates is in `entries` and `created`; what an
  overlay creates in its `workdir` as it is created itself is in `made`.

  What is proved: what each call leaves behind, and that none of them but those that
  create an entry or move a mount changes the trees (`Op.Inert.prepares`).
-/

namespace LayerCake.Bubblebox.Spawn.Mounting

open LayerCake.Effects LayerCake.Meowix LayerCake.Linux LayerCake.Tree

/-! ## The calls -/

/-- `util::AtFd`. -/
inductive AtFd where
  | cwd
  | fd (fd : RawFd)
  deriving DecidableEq, Repr

/-- `linux::open_how`. -/
structure OpenHow where
  flags : UInt64
  mode : UInt64
  resolve : UInt64
  deriving DecidableEq, Repr

/-- `linux::mount_attr`. -/
structure MountAttr where
  attrSet : UInt64
  attrClr : UInt64
  propagation : UInt64
  usernsFd : UInt64
  deriving DecidableEq, Repr

/-- The fields of `linux::statx` that are read. -/
structure Statx where
  mask : UInt32
  mode : UInt16
  ino : UInt64
  devMajor : UInt32
  devMinor : UInt32
  deriving DecidableEq, Repr

inductive Op where
  | openTree (dirfd : AtFd) (path : Bytes) (flags : UInt32)
  | openTreeAttr (dirfd : AtFd) (path : Bytes) (flags : UInt32) (attr : MountAttr)
  | unshare (flags : UInt32)
  | setns (fd : RawFd) (flags : UInt32)
  | chdir (path : Bytes)
  | statx (dirfd : RawFd) (path : Bytes) (flags mask : UInt32)
  | fsopen (fsname : Bytes) (flags : UInt32)
  | fsconfigSetString (fd : RawFd) (key value : Bytes)
  | fsconfigSetFd (fd : RawFd) (key : Bytes) (aux : RawFd)
  | fsconfigSetFlag (fd : RawFd) (key : Bytes)
  | fsconfigCmdCreate (fd : RawFd)
  | fsconfigCmdCreateExcl (fd : RawFd)
  | fsmount (fd : RawFd) (flags attributes : UInt32)
  | mkdirat (dirfd : RawFd) (path : Bytes) (mode : UInt32)
  | openat2 (dirfd : RawFd) (path : Bytes) (how : OpenHow)
  | symlinkat (target : Bytes) (newdirfd : RawFd) (linkpath : Bytes)
  | moveMount (fromDirfd : RawFd) (fromPath : Bytes) (toDirfd : RawFd) (toPath : Bytes)
      (flags : UInt32)
  | write (fd : RawFd) (bytes : Bytes)
  deriving DecidableEq, Repr

@[reducible] def Calls : Interface where
  Op := Op
  Res
    | .openTree .. | .openTreeAttr .. | .fsopen .. | .fsmount .. | .openat2 .. => Except Errno RawFd
    | .statx .. => Except Errno Statx
    | .write .. => Except Errno Nat
    | _ => Except Errno Unit

/-! ## The kernel -/

/-- What a descriptor refers to. -/
inductive Object where
  /-- The file a descriptor of the policy refers to. -/
  | held (fd : RawFd)
  /-- The mount namespace the guest was cloned into. -/
  | inherited
  /-- A copy of a mount namespace. -/
  | unshared (ns : Object)
  /-- A mount namespace with a copy of the tree at a path. -/
  | tree (base : Object) (path : Bytes) (flags : UInt32)
  /-- A detached clone of the mount at a path. -/
  | detached (base : Object) (path : Bytes) (flags : UInt32) (attr : MountAttr)
  /-- A file system that is being configured. -/
  | context (fsname : Bytes)
  | setString (context : Object) (key value : Bytes)
  | setFd (context : Object) (key : Bytes) (value : Object)
  | setFlag (context : Object) (key : Bytes)
  | created (context : Object) (exclusive : Bool)
  /-- A detached mount of a file system that was created. -/
  | mounted (context : Object) (attributes : UInt32)
  /-- What was opened at a path. -/
  | opened (base : Object) (path : Bytes) (how : OpenHow)
  deriving DecidableEq, Repr

namespace Object

/-- Only the configuration of a file system changes after it was opened. -/
def isContext : Object → Bool
  | context .. | setString .. | setFd .. | setFlag .. | created .. => true
  | _ => false

/-- `upperdir`, where an overlay is written to. -/
def UPPERDIR : Bytes := ascii "upperdir"

/-- Whether what is created there is created on the host: in the host's own mounts,
their clones, and the overlays that have a directory of those as their `upperdir`. -/
def onHost : Object → Bool
  | held _ | inherited | unshared _ | tree .. | detached .. => true
  | context _ => false
  | setString c .. | setFlag c _ | created c _ | mounted c _ | opened c .. => c.onHost
  | setFd c key value => c.onHost || (key == UPPERDIR && value.onHost)

/-- What a file system was given under a key, in order. -/
def given (key : Bytes) : Object → List Object
  | setFd c k o => c.given key ++ if k = key then [o] else []
  | setString c .. | setFlag c _ | created c _ | mounted c _ => c.given key
  | _ => []

/-- Where a file system creates an entry as it is created: an overlay makes `work` in
its `workdir`. -/
def makesIn : Object → List Object
  | created c _ => c.given (ascii "workdir")
  | _ => []

end Object

/-- A directory or a file, by the mount it is on. -/
abbrev Place := Node RawFd Bytes

inductive Kind where
  | directory | file | symlink
  deriving DecidableEq, Repr

structure State where
  objects : RawFd → Option Object
  /-- Where the descriptors of mounts and their directories are. -/
  places : RawFd → Option Place
  ns : Object
  cwd : Object
  attached : Attached RawFd Bytes
  entries : Place → Option Kind
  /-- The directories in which entries were created. -/
  created : List Place
  /-- The directories in which a file system has created entries of its own. -/
  made : List Object

namespace State

/-- Where the kernel starts to resolve a path. -/
def base (s : State) (dirfd : AtFd) (path : Bytes) : Option Object :=
  if Path.isAbsolute path then some s.ns
  else match dirfd with
    | .cwd => some s.cwd
    | .fd fd => s.objects fd

def opens (s : State) (fd : RawFd) (o : Object) (place : Option Place) : State :=
  { s with
    objects := Function.update s.objects fd (some o)
    places := Function.update s.places fd place }

/-- `s` with the object of `fd` in its new configuration. -/
def configures (s : State) (fd : RawFd) (o : Object) : State :=
  { s with
    objects := Function.update s.objects fd (some o)
    made := s.made ++ o.makesIn }

def adds (s : State) (dir : Place) (name : Bytes) (kind : Kind) : State :=
  { s with
    entries := Function.update s.entries (top s.attached (dir.child name)) (some kind)
    created := s.created ++ [dir] }

/-- The call may create anything anywhere. -/
def Spills (s t : State) : Prop :=
  ∃ entries dirs, (∀ n k, s.entries n = some k → entries n = some k) ∧
    t = { s with entries, created := s.created ++ dirs }

/-- The call creates an entry of a directory, which must not have it. -/
def Creates (s : State) (dirfd : RawFd) (path : Bytes) (kind : Kind) (t : State) : Prop :=
  match s.places dirfd with
  | some dir =>
    if sep ∈ path then s.Spills t
    else s.entries (top s.attached (dir.child path)) = none ∧ t = s.adds dir path kind
  | none => s.Spills t

end State

/-- The names along a path; none of its components leads upwards. -/
def pathNames (path : Bytes) : Option (List Bytes) :=
  let components := Path.components path
  if .parentDir ∈ components then none
  else some ((components.map Component.name).filter (· ≠ []))

theorem pathNames_render {names : List Bytes} (h : ∀ n ∈ names, Path.IsName n) :
    pathNames (Path.render names) = some names := by
  unfold pathNames
  rw [Path.components_render h, if_neg (by simp), Path.filter_name h]

/-- The path is resolved inside its root and crosses no symlink. -/
def OpenHow.isLexical (how : OpenHow) : Bool :=
  let flags := (RESOLVE_IN_ROOT ||| RESOLVE_NO_SYMLINKS).toUInt64
  how.resolve &&& flags == flags

def OpenHow.creates (how : OpenHow) : Bool := how.flags &&& O_CREAT.toUInt64 != 0

section Kernel
variable {α : Type}

/-- A failed call changes nothing. -/
def Tries (s t : State) (r : Except Errno α) (done : α → Prop) : Prop :=
  match r with
  | .ok a => done a
  | .error _ => t = s

/-- The call opens a new descriptor. -/
def Opens (s t : State) (r : Except Errno RawFd) (object : Object → Prop)
    (place : RawFd → Option Place → Prop) : Prop :=
  Tries s t r fun fd => ∃ o p, object o ∧ place fd p ∧ s.objects fd = none ∧ t = s.opens fd o p

/-- The call configures a file system. -/
def Configures (s t : State) (r : Except Errno Unit) (fd : RawFd) (next : Object → Object → Prop) :
    Prop :=
  Tries s t r fun _ => ∃ c c', s.objects fd = some c ∧ c.isContext = true ∧ c'.isContext = true ∧
    next c c' ∧ t = s.configures fd c'

end Kernel

def kernel : Kernel Calls State
  -- the root of a namespace is no place of the guest's trees
  | s, .openTree dirfd path flags, r, t =>
    Opens s t r (fun o => ∃ b, s.base dirfd path = some b ∧ o = .tree b path flags)
      fun _ _ => True
  | s, .openTreeAttr dirfd path flags attr, r, t =>
    Opens s t r (fun o => ∃ b, s.base dirfd path = some b ∧ o = .detached b path flags attr)
      fun fd p => p = some (.root fd)
  -- where the working directory is in another namespace is left open until `chdir`
  | s, .unshare flags, r, t =>
    Tries s t r fun _ =>
      if flags = CLONE_NEWNS then ∃ cwd, t = { s with ns := .unshared s.ns, cwd } else t = s
  | s, .setns fd flags, r, t =>
    Tries s t r fun _ =>
      if flags = CLONE_NEWNS then ∃ o cwd, s.objects fd = some o ∧ t = { s with ns := o, cwd }
      else t = s
  | s, .chdir path, r, t =>
    Tries s t r fun _ => ∃ cwd, (path = [sep] → cwd = s.ns) ∧ t = { s with cwd }
  -- only the absence of an entry is told, and only of the entry itself
  | s, .statx dirfd path flags _, r, t =>
    t = s ∧ (r = .error .NOENT → path ≠ [] → sep ∉ path → flags = AT_SYMLINK_NOFOLLOW →
      ∀ dir, s.places dirfd = some dir → s.entries (top s.attached (dir.child path)) = none)
  | s, .fsopen fsname _, r, t => Opens s t r (fun o => o = .context fsname) fun _ _ => True
  | s, .fsconfigSetString fd key value, r, t =>
    Configures s t r fd fun c c' => c' = c.setString key value
  | s, .fsconfigSetFd fd key aux, r, t =>
    Configures s t r fd fun c c' => ∃ o, s.objects aux = some o ∧ c' = c.setFd key o
  | s, .fsconfigSetFlag fd key, r, t => Configures s t r fd fun c c' => c' = c.setFlag key
  | s, .fsconfigCmdCreate fd, r, t => Configures s t r fd fun c c' => c' = c.created false
  | s, .fsconfigCmdCreateExcl fd, r, t => Configures s t r fd fun c c' => c' = c.created true
  | s, .fsmount fd _ attributes, r, t =>
    Opens s t r (fun o => ∃ c, s.objects fd = some c ∧ o = .mounted c attributes)
      fun fd p => p = some (.root fd)
  | s, .mkdirat dirfd path _, r, t => Tries s t r fun _ => s.Creates dirfd path .directory t
  | s, .openat2 dirfd path how, r, t =>
    Tries s t r fun fd => ∃ s', Opens s s' (.ok fd)
        (fun o => ∃ b, s.objects dirfd = some b ∧ o = .opened b path how)
        (fun _ p => how.isLexical = true → ∀ dir names, s.places dirfd = some dir →
          pathNames path = some names → p = some (walk s.attached dir names)) ∧
      -- a file is created where there is nothing, not through a link
      if how.creates then
        match s.places dirfd with
        | some dir =>
          if sep ∈ path then s'.Spills t
          else match s.entries (top s.attached (dir.child path)) with
            | none => t = s'.adds dir path .file
            | some .symlink => s'.Spills t
            | some _ => t = s'
        | none => s'.Spills t
      else t = s'
  | s, .symlinkat _ newdirfd linkpath, r, t =>
    Tries s t r fun _ => s.Creates newdirfd linkpath .symlink t
  -- a detached mount covers what is on top at the entry
  | s, .moveMount fromDirfd fromPath toDirfd toPath flags, r, t =>
    Tries s t r fun _ => ∃ attached, t = { s with attached } ∧
      ∀ dir, fromPath = [] → flags = MOVE_MOUNT_F_EMPTY_PATH → sep ∉ toPath →
        s.places fromDirfd = some (.root fromDirfd) → (∀ e ∈ s.attached, e.2 ≠ fromDirfd) →
        s.places toDirfd = some dir →
        attached = s.attached ++ [(top s.attached (dir.child toPath), fromDirfd)]
  | s, .write _ bytes, r, t => t = s ∧ ∀ n, r = .ok n → n ≤ bytes.length

/-! ## What the calls keep -/

/-- The directory is on a mount that is not the host's. -/
def State.OffHost (s : State) (dir : Place) : Prop :=
  ∃ o, s.objects dir.tree = some o ∧ o.isContext = false ∧ o.onHost = false

/-- No descriptor is lost, nothing but a configuration changes its object, nothing is
removed, and what is new is not on the host. -/
structure Keeps (s t : State) : Prop where
  isOpen : ∀ fd, (s.objects fd).isSome = true → (t.objects fd).isSome = true
  objects : ∀ fd o, s.objects fd = some o → o.isContext = false → t.objects fd = some o
  places : ∀ fd, (s.objects fd).isSome = true → t.places fd = s.places fd
  entries : ∀ n k, s.entries n = some k → t.entries n = some k
  created : ∀ dir ∈ t.created, dir ∈ s.created ∨ t.OffHost dir

/-- And no mount is moved, and no file system configured but those in `own`. -/
structure Within (own : RawFd → Prop) (s t : State) : Prop extends Keeps s t where
  attached : t.attached = s.attached
  others : ∀ fd, ¬ own fd → (s.objects fd).isSome = true → t.objects fd = s.objects fd

/-- And no mount is moved. -/
abbrev Prepares : State → State → Prop := Within fun _ => True

section Keeps
variable {s t u : State} {own : RawFd → Prop}

theorem State.OffHost.keeps {dir : Place} (h : s.OffHost dir) (hst : Keeps s t) :
    t.OffHost dir := by
  obtain ⟨o, ho, hc, hhost⟩ := h
  exact ⟨o, hst.objects _ o ho hc, hc, hhost⟩

theorem Keeps.refl (s : State) : Keeps s s :=
  ⟨fun _ h => h, fun _ _ h _ => h, fun _ _ => rfl, fun _ _ h => h, fun _ h => .inl h⟩

theorem Keeps.trans (h : Keeps s t) (h' : Keeps t u) : Keeps s u where
  isOpen fd hfd := h'.isOpen fd (h.isOpen fd hfd)
  objects fd o hfd ho := h'.objects fd o (h.objects fd o hfd ho) ho
  places fd hfd := (h'.places fd (h.isOpen fd hfd)).trans (h.places fd hfd)
  entries n k hn := h'.entries n k (h.entries n k hn)
  created dir hdir := by
    rcases h'.created dir hdir with hold | hnew
    · rcases h.created dir hold with hold | hnew
      · exact .inl hold
      · exact .inr (hnew.keeps h')
    · exact .inr hnew

instance : Std.Refl Keeps := ⟨Keeps.refl⟩

instance : IsTrans State Keeps := ⟨fun _ _ _ => Keeps.trans⟩

instance : Std.Refl (Within own) := ⟨fun s => ⟨Keeps.refl s, rfl, fun _ _ _ => rfl⟩⟩

instance : IsTrans State (Within own) := ⟨fun _ _ _ h h' =>
  ⟨h.toKeeps.trans h'.toKeeps, h'.attached.trans h.attached, fun fd hown hfd =>
    (h'.others fd hown (h.isOpen fd hfd)).trans (h.others fd hown hfd)⟩⟩

theorem Within.prepares (h : Within own s t) : Prepares s t :=
  ⟨h.toKeeps, h.attached, fun _ hown _ => absurd trivial hown⟩

/-- A descriptor that is new now was not open before. -/
theorem Keeps.fresh (h : Keeps s t) {fd : RawFd} (hfd : t.objects fd = none) :
    s.objects fd = none := by
  cases hs : s.objects fd with
  | none => rfl
  | some o =>
    have := h.isOpen fd (by rw [hs]; rfl)
    rw [hfd] at this
    cases this

theorem Keeps.place (h : Keeps s t) {fd : RawFd} {o : Object} (hfd : s.objects fd = some o) :
    t.places fd = s.places fd := h.places fd (by rw [hfd]; rfl)

theorem State.opens_prepares {fd : RawFd} (h : s.objects fd = none) (o : Object)
    (p : Option Place) : Within own s (s.opens fd o p) := by
  have hne : ∀ fd', (s.objects fd').isSome = true → fd' ≠ fd := by
    intro fd' hfd' e
    rw [e, h] at hfd'
    cases hfd'
  refine ⟨⟨fun fd' hfd' => ?_, fun fd' o' ho' _ => ?_, fun fd' hfd' => ?_, fun _ _ h => h,
    fun _ h => .inl h⟩, rfl, fun fd' _ hfd' => ?_⟩
  · simpa [State.opens, Function.update_of_ne (hne fd' hfd')] using hfd'
  · have := hne fd' (by rw [ho']; rfl)
    simpa [State.opens, Function.update_of_ne this] using ho'
  · simp [State.opens, Function.update_of_ne (hne fd' hfd')]
  · simp [State.opens, Function.update_of_ne (hne fd' hfd')]

theorem State.configures_prepares {fd : RawFd} {c c' : Object} (h : s.objects fd = some c)
    (hc : c.isContext = true) (hown : own fd) : Within own s (s.configures fd c') := by
  refine ⟨⟨fun fd' hfd' => ?_, fun fd' o' ho' hctx => ?_, fun _ _ => rfl, fun _ _ h => h,
    fun _ h => .inl h⟩, rfl, fun fd' hfd' _ => ?_⟩
  · by_cases e : fd' = fd
    · subst e
      simp [State.configures]
    · simpa [State.configures, Function.update_of_ne e] using hfd'
  · have e : fd' ≠ fd := by
      intro e
      subst e
      rw [h] at ho'
      cases ho'
      rw [hc] at hctx
      cases hctx
    simpa [State.configures, Function.update_of_ne e] using ho'
  · have e : fd' ≠ fd := fun e => hfd' (e ▸ hown)
    simp [State.configures, Function.update_of_ne e]

/-- Creating an entry, on a mount that is not the host's. -/
theorem State.adds_prepares {dir : Place} (hdir : s.OffHost dir) {name : Bytes} {kind : Kind}
    (habsent : s.entries (top s.attached (dir.child name)) = none) :
    Within own s (s.adds dir name kind) := by
  refine ⟨⟨fun _ h => h, fun _ _ h _ => h, fun _ _ => rfl, fun n k hn => ?_, fun d hd => ?_⟩, rfl,
    fun _ _ _ => rfl⟩
  · have hne : n ≠ top s.attached (dir.child name) := by
      intro e
      rw [e, habsent] at hn
      cases hn
    simpa [State.adds, Function.update_of_ne hne] using hn
  · rcases List.mem_append.mp hd with hold | hnew
    · exact .inl hold
    · cases List.mem_singleton.mp hnew
      exact .inr hdir

/-- A call that creates an entry in a directory of a known place. -/
theorem Tries.creates {fd : RawFd} {dir : Place} {path : Bytes} {kind : Kind}
    {r : Except Errno Unit}
    (h : Tries s t r fun _ => s.Creates fd path kind t) (hsep : sep ∉ path)
    (hdir : s.places fd = some dir) (hoff : s.OffHost dir) :
    Within own s t ∧ ∀ u, r = .ok u → t.entries (top s.attached (dir.child path)) = some kind := by
  cases r with
  | error e =>
    cases h
    exact ⟨Std.Refl.refl s, fun _ hu => by cases hu⟩
  | ok u =>
    change s.Creates fd path kind t at h
    simp only [State.Creates, hdir, if_neg hsep] at h
    obtain ⟨habsent, rfl⟩ := h
    exact ⟨State.adds_prepares hoff habsent, fun _ _ => Function.update_self ..⟩

/-- Neither creates an entry nor moves a mount, and configures none but those in `own`. -/
def Op.Inert (own : RawFd → Prop) : Op → Prop
  | .mkdirat .. | .symlinkat .. | .moveMount .. => False
  | .fsconfigSetString fd .. | .fsconfigSetFd fd .. | .fsconfigSetFlag fd _ |
    .fsconfigCmdCreate fd | .fsconfigCmdCreateExcl fd => own fd
  | .openat2 _ _ how => how.creates = false
  | _ => True

theorem Opens.prepares {r : Except Errno RawFd} {object : Object → Prop}
    {place : RawFd → Option Place → Prop} (h : Opens s t r object place) : Within own s t := by
  cases r with
  | ok fd =>
    obtain ⟨o, p, -, -, hfd, rfl⟩ := h
    exact State.opens_prepares hfd o p
  | error e =>
    cases h
    exact Std.Refl.refl s

theorem Configures.prepares {r : Except Errno Unit} {fd : RawFd} {next : Object → Object → Prop}
    (h : Configures s t r fd next) (hown : own fd) : Within own s t := by
  cases r with
  | ok u =>
    obtain ⟨c, c', hfd, hc, -, -, rfl⟩ := h
    exact State.configures_prepares hfd hc hown
  | error e =>
    cases h
    exact Std.Refl.refl s

/-- A change of namespace or of directory is none of the trees. -/
theorem prepares_of_same {ns cwd : Object} : Within own s { s with ns, cwd } :=
  ⟨⟨fun _ h => h, fun _ _ h _ => h, fun _ _ => rfl, fun _ _ h => h, fun _ h => .inl h⟩, rfl,
    fun _ _ _ => rfl⟩

theorem Op.Inert.prepares {op : Op} (hop : op.Inert own) {r : Calls.Res op}
    (h : kernel s op r t) : Within own s t := by
  cases op with
  | mkdirat | symlinkat | moveMount => exact hop.elim
  | openTree | openTreeAttr | fsopen | fsmount => exact Opens.prepares h
  | fsconfigSetString | fsconfigSetFd | fsconfigSetFlag | fsconfigCmdCreate |
    fsconfigCmdCreateExcl => exact Configures.prepares h hop
  | unshare flags =>
    cases r with
    | ok u =>
      change if flags = CLONE_NEWNS then _ else _ at h
      split at h
      · obtain ⟨cwd, rfl⟩ := h
        exact prepares_of_same
      · cases h
        exact Std.Refl.refl s
    | error e =>
      cases h
      exact Std.Refl.refl s
  | setns fd flags =>
    cases r with
    | ok u =>
      change if flags = CLONE_NEWNS then _ else _ at h
      split at h
      · obtain ⟨o, cwd, -, rfl⟩ := h
        exact prepares_of_same
      · cases h
        exact Std.Refl.refl s
    | error e =>
      cases h
      exact Std.Refl.refl s
  | chdir path =>
    cases r with
    | ok u =>
      obtain ⟨cwd, -, rfl⟩ := h
      exact prepares_of_same
    | error e =>
      cases h
      exact Std.Refl.refl s
  | statx | write =>
    cases h.1
    exact Std.Refl.refl s
  | openat2 dirfd path how =>
    cases r with
    | ok fd =>
      obtain ⟨s', hopens, hcreates⟩ := h
      change how.creates = false at hop
      rw [hop] at hcreates
      cases hcreates
      exact Opens.prepares hopens
    | error e =>
      cases h
      exact Std.Refl.refl s

end Keeps

/-! ## Making the calls -/

/-- The code of the guest that sets up its mounts. -/
abbrev Setup (α : Type) := ExceptT (Stop PostSpawnGuest) (Prog Calls) α

/-- The `?` on a call. -/
def attempt {α : Type} (syscall : Syscall) (call : Prog Calls (Except Errno α)) : Setup α :=
  tryCall (fun e => .error (.syscall e)) syscall call

/-- `ok_or(e)?`. -/
def okOr (condition : Bool) (e : PostSpawnGuestOther) : Setup Unit :=
  if condition then pure () else throw (.error (.other e))

def openTree (dirfd : AtFd) (path : Bytes) (flags : UInt32) : Setup RawFd :=
  attempt .openTree (perform (I := Calls) (.openTree dirfd path flags))

def openTreeAttr (dirfd : AtFd) (path : Bytes) (flags : UInt32) (attr : MountAttr) : Setup RawFd :=
  attempt .openTreeAttr (perform (I := Calls) (.openTreeAttr dirfd path flags attr))

def unshare (flags : UInt32) : Setup Unit :=
  attempt .unshare (perform (I := Calls) (.unshare flags))

def setns (fd : RawFd) (flags : UInt32) : Setup Unit :=
  attempt .setns (perform (I := Calls) (.setns fd flags))

def chdir (path : Bytes) : Setup Unit := attempt .chdir (perform (I := Calls) (.chdir path))

def statx (dirfd : RawFd) (path : Bytes) (flags mask : UInt32) : Setup Statx :=
  attempt .statx (perform (I := Calls) (.statx dirfd path flags mask))

def fsopen (fsname : Bytes) (flags : UInt32) : Setup RawFd :=
  attempt .fsopen (perform (I := Calls) (.fsopen fsname flags))

def fsconfigSetString (fd : RawFd) (key value : Bytes) : Setup Unit :=
  attempt .fsconfig (perform (I := Calls) (.fsconfigSetString fd key value))

def fsconfigSetFd (fd : RawFd) (key : Bytes) (aux : RawFd) : Setup Unit :=
  attempt .fsconfig (perform (I := Calls) (.fsconfigSetFd fd key aux))

def fsconfigSetFlag (fd : RawFd) (key : Bytes) : Setup Unit :=
  attempt .fsconfig (perform (I := Calls) (.fsconfigSetFlag fd key))

def fsconfigCmdCreate (fd : RawFd) : Setup Unit :=
  attempt .fsconfig (perform (I := Calls) (.fsconfigCmdCreate fd))

def fsconfigCmdCreateExcl (fd : RawFd) : Setup Unit :=
  attempt .fsconfig (perform (I := Calls) (.fsconfigCmdCreateExcl fd))

def fsmount (fd : RawFd) (flags attributes : UInt32) : Setup RawFd :=
  attempt .fsmount (perform (I := Calls) (.fsmount fd flags attributes))

def mkdirat (dirfd : RawFd) (path : Bytes) (mode : UInt32) : Setup Unit :=
  attempt .mkdirat (perform (I := Calls) (.mkdirat dirfd path mode))

def openat2 (dirfd : RawFd) (path : Bytes) (how : OpenHow) : Setup RawFd :=
  attempt .openat2 (perform (I := Calls) (.openat2 dirfd path how))

/-- `openat2` in `retry_on_interrupt!`. -/
def openat2Retry (dirfd : RawFd) (path : Bytes) (how : OpenHow) : Setup RawFd :=
  attempt .openat2 (performUntil (I := Calls) (.openat2 dirfd path how) interrupted)

def symlinkat (target : Bytes) (newdirfd : RawFd) (linkpath : Bytes) : Setup Unit :=
  attempt .symlinkat (perform (I := Calls) (.symlinkat target newdirfd linkpath))

def moveMount (fromDirfd : RawFd) (fromPath : Bytes) (toDirfd : RawFd) (toPath : Bytes)
    (flags : UInt32) : Setup Unit :=
  attempt .moveMount (perform (I := Calls) (.moveMount fromDirfd fromPath toDirfd toPath flags))

section Specs
variable {α : Type} {s : State} {fd : RawFd} {c o : Object} {own : RawFd → Prop}

theorem attempt_spec {G : State → State → Prop} {syscall : Syscall}
    {call : Prog Calls (Except Errno α)} {Q : α → State → Prop}
    (h : Sat kernel (· = ·) G call (fun r t => ∀ a, r = .ok a → Q a t) s) :
    Safely kernel G (attempt syscall call) Q s := by
  refine sat_tryCall (h.mono fun r t hr => ?_)
  cases r with
  | ok a => exact sat_done.mpr (hr a rfl)
  | error e => exact sat_done.mpr (by simp)

theorem okOr_spec {G : State → State → Prop} {condition : Bool} {e : PostSpawnGuestOther}
    {Q : Unit → State → Prop} (h : condition = true → Q () s) :
    Safely kernel G (okOr condition e) Q s := by
  unfold okOr
  split
  · next hc => exact Safely.pure (h hc)
  · exact Safely.error

theorem perform_inert {op : Op} (hop : op.Inert own) {Q : Calls.Res op → State → Prop}
    (h : ∀ r t, kernel s op r t → Q r t) :
    Sat kernel (· = ·) (Within own) (perform (I := Calls) op) Q s :=
  Sat.next fun r t hk => ⟨hop.prepares hk, sat_done.mpr (h r t hk)⟩

/-- A new descriptor, and what it refers to. -/
theorem opens_spec {t : State} {r : Except Errno RawFd} {object : Object → Prop}
    {place : RawFd → Option Place → Prop} (h : Opens s t r object place) (ha : r = .ok fd) :
    s.objects fd = none ∧ ∃ o p, object o ∧ place fd p ∧ t = s.opens fd o p := by
  subst ha
  obtain ⟨o, p, ho, hp, hfd, ht⟩ := h
  exact ⟨hfd, o, p, ho, hp, ht⟩

theorem openTree_spec {dirfd : AtFd} {path : Bytes} {flags : UInt32}
    (hb : s.base dirfd path = some o) :
    Safely kernel (Within own) (openTree dirfd path flags)
      (fun fd t => s.objects fd = none ∧ t.objects fd = some (.tree o path flags)) s := by
  refine attempt_spec (perform_inert (by trivial) fun r t hk fd ha => ?_)
  obtain ⟨hfd, _, p, ⟨b, hb', rfl⟩, -, rfl⟩ := opens_spec hk ha
  rw [hb, Option.some.injEq] at hb'
  subst hb'
  exact ⟨hfd, Function.update_self ..⟩

theorem openTreeAttr_spec {dirfd : AtFd} {path : Bytes} {flags : UInt32} {attr : MountAttr}
    (hb : s.base dirfd path = some o) :
    Safely kernel (Within own) (openTreeAttr dirfd path flags attr)
      (fun fd t => s.objects fd = none ∧ t.objects fd = some (.detached o path flags attr) ∧
        t.places fd = some (.root fd)) s := by
  refine attempt_spec (perform_inert (by trivial) fun r t hk fd ha => ?_)
  obtain ⟨hfd, _, p, ⟨b, hb', rfl⟩, rfl, rfl⟩ := opens_spec hk ha
  rw [hb, Option.some.injEq] at hb'
  subst hb'
  exact ⟨hfd, Function.update_self .., Function.update_self ..⟩

theorem unshare_spec {flags : UInt32} :
    Safely kernel (Within own) (unshare flags) (fun _ _ => True) s :=
  attempt_spec (perform_inert (by trivial) fun _ _ _ _ _ => trivial)

theorem setns_spec (hfd : s.objects fd = some o) :
    Safely kernel (Within own) (setns fd CLONE_NEWNS) (fun _ t => t.ns = o) s := by
  refine attempt_spec (perform_inert (by trivial) fun r t hk _ ha => ?_)
  subst ha
  simp only [kernel, Tries, if_true] at hk
  obtain ⟨o', cwd, ho', rfl⟩ := hk
  rw [hfd, Option.some.injEq] at ho'
  exact ho'.symm

/-- From the root, relative paths lead where absolute ones do. -/
theorem chdir_spec : Safely kernel (Within own) (chdir [sep])
    (fun _ t => t.ns = s.ns ∧ ∀ path, t.base .cwd path = some s.ns) s := by
  refine attempt_spec (perform_inert (by trivial) fun r t hk _ ha => ?_)
  subst ha
  obtain ⟨cwd, hcwd, rfl⟩ := hk
  refine ⟨rfl, fun path => ?_⟩
  simp [State.base, hcwd rfl]

theorem statx_spec {path : Bytes} {flags mask : UInt32} :
    Safely kernel (Within own) (statx fd path flags mask) (fun _ _ => True) s :=
  attempt_spec (perform_inert (by trivial) fun _ _ _ _ _ => trivial)

theorem fsopen_spec {fsname : Bytes} {flags : UInt32} :
    Safely kernel (Within own) (fsopen fsname flags)
      (fun fd t => s.objects fd = none ∧ t.objects fd = some (.context fsname)) s := by
  refine attempt_spec (perform_inert (by trivial) fun r t hk fd ha => ?_)
  obtain ⟨hfd, _, p, rfl, -, rfl⟩ := opens_spec hk ha
  exact ⟨hfd, Function.update_self ..⟩

theorem fsmount_spec {flags attributes : UInt32} (hc : s.objects fd = some c) :
    Safely kernel (Within own) (fsmount fd flags attributes)
      (fun fd t => s.objects fd = none ∧ t.objects fd = some (.mounted c attributes) ∧
        t.places fd = some (.root fd)) s := by
  refine attempt_spec (perform_inert (by trivial) fun r t hk fd ha => ?_)
  obtain ⟨hfd, _, p, ⟨c', hc', rfl⟩, rfl, rfl⟩ := opens_spec hk ha
  rw [hc, Option.some.injEq] at hc'
  subst hc'
  exact ⟨hfd, Function.update_self .., Function.update_self ..⟩

/-- What `openat2` leaves when it creates nothing. -/
theorem openat2_opens {path : Bytes} {how : OpenHow} {fd' : RawFd} {t : State}
    (hhow : how.creates = false) (ho : s.objects fd = some o)
    (hk : kernel s (.openat2 fd path how) (.ok fd') t) :
    s.objects fd' = none ∧ t.objects fd' = some (.opened o path how) ∧
      ∀ dir names, how.isLexical = true → s.places fd = some dir → pathNames path = some names →
        t.places fd' = some (walk s.attached dir names) := by
  obtain ⟨s', hopens, hcreates⟩ := hk
  rw [hhow] at hcreates
  cases hcreates
  obtain ⟨hfd, _, p, ⟨b, hb, rfl⟩, hp, rfl⟩ := opens_spec hopens rfl
  rw [ho, Option.some.injEq] at hb
  subst hb
  refine ⟨hfd, Function.update_self .., fun dir names hlex hdir hnames => ?_⟩
  rw [← hp hlex dir names hdir hnames]
  exact Function.update_self ..

theorem openat2_spec {path : Bytes} {how : OpenHow} (hhow : how.creates = false)
    (ho : s.objects fd = some o) :
    Safely kernel (Within own) (openat2 fd path how)
      (fun fd' t => s.objects fd' = none ∧ t.objects fd' = some (.opened o path how)) s := by
  have hinert : (Op.openat2 fd path how).Inert own := hhow
  refine attempt_spec (perform_inert hinert fun r t hk fd' ha => ?_)
  subst ha
  obtain ⟨hfd, hopened, -⟩ := openat2_opens hhow ho hk
  exact ⟨hfd, hopened⟩

/-- Trying again starts from the same state: a failed call changed nothing. -/
theorem openat2Retry_spec {path : Bytes} {how : OpenHow} (hhow : how.creates = false)
    (ho : s.objects fd = some o) :
    Safely kernel (Within own) (openat2Retry fd path how)
      (fun fd' t => s.objects fd' = none ∧ t.objects fd' = some (.opened o path how) ∧
        ∀ dir names, how.isLexical = true → s.places fd = some dir →
          pathNames path = some names → t.places fd' = some (walk s.attached dir names)) s := by
  have hinert : (Op.openat2 fd path how).Inert own := hhow
  refine attempt_spec (Sat.callUntil (· = s) rfl (stable_eq _) ?_ ?_)
  · intro t r t' ht hk hr
    subst ht
    refine ⟨hinert.prepares hk, ?_⟩
    cases r with
    | ok a => cases hr
    | error e => exact hk
  · intro t r t' ht hk _
    subst ht
    refine ⟨hinert.prepares hk, sat_done.mpr fun fd' ha => ?_⟩
    subst ha
    exact openat2_opens hhow ho hk

/-! ### Creating entries and moving mounts -/

section Create
variable {dir : Place} {path : Bytes}

theorem mkdirat_spec {mode : UInt32} (hsep : sep ∉ path) (hdir : s.places fd = some dir)
    (hoff : s.OffHost dir) :
    Safely kernel (Within own) (mkdirat fd path mode)
      (fun _ t => t.entries (top s.attached (dir.child path)) = some .directory) s := by
  refine attempt_spec (Sat.next fun r t hk => ?_)
  obtain ⟨hst, hentry⟩ := Tries.creates hk hsep hdir hoff
  exact ⟨hst, sat_done.mpr hentry⟩

theorem symlinkat_spec {target : Bytes} (hsep : sep ∉ path) (hdir : s.places fd = some dir)
    (hoff : s.OffHost dir) :
    Safely kernel (Within own) (symlinkat target fd path)
      (fun _ t => t.entries (top s.attached (dir.child path)) = some .symlink) s := by
  refine attempt_spec (Sat.next fun r t hk => ?_)
  obtain ⟨hst, hentry⟩ := Tries.creates hk hsep hdir hoff
  exact ⟨hst, sat_done.mpr hentry⟩

/-- `openat2` with `O_CREAT`, where there is nothing yet. -/
theorem openat2Create_spec {how : OpenHow} (hhow : how.creates = true) (hsep : sep ∉ path)
    (hdir : s.places fd = some dir) (hoff : s.OffHost dir)
    (habsent : s.entries (top s.attached (dir.child path)) = none) :
    Safely kernel (Within own) (openat2Retry fd path how)
      (fun _ t => t.entries (top s.attached (dir.child path)) = some .file) s := by
  refine attempt_spec (Sat.callUntil (· = s) rfl (stable_eq _) ?_ ?_)
  · -- an interrupted call created nothing
    intro t r t' ht hk hr
    subst ht
    cases r with
    | ok a => cases hr
    | error e =>
      cases hk
      exact ⟨Std.Refl.refl _, rfl⟩
  · intro t r t' ht hk _
    subst ht
    cases r with
    | error e =>
      cases hk
      exact ⟨Std.Refl.refl _, sat_done.mpr fun _ ha => by cases ha⟩
    | ok fd' =>
      obtain ⟨s', hopens, hcreates⟩ := hk
      simp only [if_pos hhow, hdir, if_neg hsep, habsent] at hcreates
      subst hcreates
      have hst : Within own t s' := Opens.prepares hopens
      have hsame : s'.entries = t.entries ∧ s'.attached = t.attached := by
        obtain ⟨_, o, p, -, -, rfl⟩ := opens_spec hopens rfl
        exact ⟨rfl, rfl⟩
      have habsent' : s'.entries (top s'.attached (dir.child path)) = none := by
        rw [hsame.1, hsame.2, habsent]
      refine ⟨IsTrans.trans _ _ _ hst (State.adds_prepares (hoff.keeps hst.toKeeps) habsent'),
        sat_done.mpr fun _ _ => ?_⟩
      rw [← hsame.2]
      exact Function.update_self ..

/-- A detached mount that is moved to an entry of a directory. -/
theorem moveMount_spec {mountFd : RawFd} (hsep : sep ∉ path)
    (hroot : s.places mountFd = some (.root mountFd)) (hnew : ∀ e ∈ s.attached, e.2 ≠ mountFd)
    (hdir : s.places fd = some dir) :
    Safely kernel Keeps (moveMount mountFd [] fd path MOVE_MOUNT_F_EMPTY_PATH)
      (fun _ t => t = { s with
        attached := s.attached ++ [(top s.attached (dir.child path), mountFd)] }) s := by
  refine attempt_spec (Sat.next fun r t hk => ?_)
  cases r with
  | error e =>
    cases hk
    exact ⟨Keeps.refl s, sat_done.mpr fun _ ha => by cases ha⟩
  | ok u =>
    obtain ⟨attached, rfl, hattached⟩ := hk
    refine ⟨⟨fun _ h => h, fun _ _ h _ => h, fun _ _ => rfl, fun _ _ h => h, fun _ h => .inl h⟩,
      sat_done.mpr fun _ _ => ?_⟩
    rw [hattached dir rfl rfl hsep hroot hnew hdir]

end Create

/-! ### Configuring a file system -/

theorem configures_spec {t : State} {next : Object → Object → Prop} {u : Unit}
    (h : Configures s t (.ok u) fd next) (hc : s.objects fd = some c) :
    ∃ c', next c c' ∧ t.objects fd = some c' := by
  obtain ⟨c₀, c', hc₀, -, -, hnext, rfl⟩ := h
  rw [hc, Option.some.injEq] at hc₀
  subst hc₀
  exact ⟨c', hnext, Function.update_self ..⟩

theorem fsconfigSetString_spec {key value : Bytes} (hown : own fd) (hc : s.objects fd = some c) :
    Safely kernel (Within own) (fsconfigSetString fd key value)
      (fun _ t => t.objects fd = some (c.setString key value)) s := by
  refine attempt_spec (perform_inert (by exact hown) fun r t hk _ ha => ?_)
  subst ha
  obtain ⟨_, rfl, ht⟩ := configures_spec hk hc
  exact ht

theorem fsconfigSetFd_spec {key : Bytes} {aux : RawFd} (hown : own fd) (hc : s.objects fd = some c)
    (ho : s.objects aux = some o) :
    Safely kernel (Within own) (fsconfigSetFd fd key aux)
      (fun _ t => t.objects fd = some (c.setFd key o)) s := by
  refine attempt_spec (perform_inert (by exact hown) fun r t hk _ ha => ?_)
  subst ha
  obtain ⟨_, ⟨o', ho', rfl⟩, ht⟩ := configures_spec hk hc
  rw [ho, Option.some.injEq] at ho'
  subst ho'
  exact ht

theorem fsconfigSetFlag_spec {key : Bytes} (hown : own fd) (hc : s.objects fd = some c) :
    Safely kernel (Within own) (fsconfigSetFlag fd key)
      (fun _ t => t.objects fd = some (c.setFlag key)) s := by
  refine attempt_spec (perform_inert (by exact hown) fun r t hk _ ha => ?_)
  subst ha
  obtain ⟨_, rfl, ht⟩ := configures_spec hk hc
  exact ht

theorem fsconfigCmdCreate_spec (hown : own fd) (hc : s.objects fd = some c) :
    Safely kernel (Within own) (fsconfigCmdCreate fd)
      (fun _ t => t.objects fd = some (c.created false)) s := by
  refine attempt_spec (perform_inert (by exact hown) fun r t hk _ ha => ?_)
  subst ha
  obtain ⟨_, rfl, ht⟩ := configures_spec hk hc
  exact ht

theorem fsconfigCmdCreateExcl_spec (hown : own fd) (hc : s.objects fd = some c) :
    Safely kernel (Within own) (fsconfigCmdCreateExcl fd)
      (fun _ t => t.objects fd = some (c.created true)) s := by
  refine attempt_spec (perform_inert (by exact hown) fun r t hk _ ha => ?_)
  subst ha
  obtain ⟨_, rfl, ht⟩ := configures_spec hk hc
  exact ht

end Specs

/-! ## A kernel that runs -/

section Impl
variable {s : State} {fd : RawFd}

/-- A descriptor below 64 that is not open. -/
def State.unused (s : State) : Option RawFd :=
  ((List.range 64).map Int32.ofNat).find? fun fd => (s.objects fd).isNone

theorem State.unused_eq (h : s.unused = some fd) : s.objects fd = none := by
  have h := List.find?_some h
  simpa using h

def State.openNew (s : State) (o : Option Object) (place : RawFd → Option Place) :
    Except Errno RawFd × State :=
  match o, s.unused with
  | some o, some fd => (.ok fd, s.opens fd o (place fd))
  | _, _ => (.error .INVAL, s)

theorem State.openNew_opens {o : Option Object} {place : RawFd → Option Place}
    {object : Object → Prop} {p : RawFd → Option Place → Prop} (ho : ∀ a, o = some a → object a)
    (hp : ∀ fd, p fd (place fd)) :
    Opens s (s.openNew o place).2 (s.openNew o place).1 object p := by
  unfold State.openNew
  split
  · next a fd hfd => exact ⟨a, _, ho a rfl, hp fd, State.unused_eq hfd, rfl⟩
  · rfl

def State.configure (s : State) (fd : RawFd) (next : Object → Option Object) :
    Except Errno Unit × State :=
  match s.objects fd with
  | some c =>
    match next c with
    | some c' =>
      if c.isContext && c'.isContext then (.ok (), s.configures fd c') else (.error .INVAL, s)
    | none => (.error .INVAL, s)
  | none => (.error .INVAL, s)

theorem State.configure_configures {next : Object → Option Object}
    {rel : Object → Object → Prop} (h : ∀ c c', next c = some c' → rel c c') :
    Configures s (s.configure fd next).2 (s.configure fd next).1 fd rel := by
  unfold State.configure
  split
  · next c hc =>
    split
    · next c' hc' =>
      split
      · next hctx =>
        rw [Bool.and_eq_true] at hctx
        exact ⟨c, c', hc, hctx.1, hctx.2, h c c' hc', rfl⟩
      · rfl
    · rfl
  · rfl

/-- An entry of a directory that has none of the name. -/
def State.create (s : State) (dirfd : RawFd) (path : Bytes) (kind : Kind) :
    Except Errno Unit × State :=
  match s.places dirfd with
  | some dir =>
    if sep ∈ path then (.ok (), s)
    else if s.entries (top s.attached (dir.child path)) = none then (.ok (), s.adds dir path kind)
    else (.error .EXIST, s)
  | none => (.ok (), s)

theorem State.spills_refl (s : State) : s.Spills s :=
  ⟨s.entries, [], fun _ _ h => h, by simp⟩

theorem State.create_creates {dirfd : RawFd} {path : Bytes} {kind : Kind} :
    Tries s (s.create dirfd path kind).2 (s.create dirfd path kind).1 fun _ =>
      s.Creates dirfd path kind (s.create dirfd path kind).2 := by
  unfold State.create State.Creates
  cases s.places dirfd with
  | none => exact s.spills_refl
  | some dir =>
    by_cases hsep : sep ∈ path
    · simp only [if_pos hsep]
      exact s.spills_refl
    · simp only [if_neg hsep]
      split
      · next habsent => exact ⟨habsent, rfl⟩
      · rfl

/-- What `openat2` opens. -/
def State.openAt (s : State) (dirfd : RawFd) (path : Bytes) (how : OpenHow) :
    Except Errno RawFd × State :=
  s.openNew ((s.objects dirfd).map (.opened · path how)) fun _ =>
    if how.isLexical then do
      let dir ← s.places dirfd
      let names ← pathNames path
      some (walk s.attached dir names)
    else none

theorem State.openAt_opens (s : State) (dirfd : RawFd) (path : Bytes) (how : OpenHow) :
    Opens s (s.openAt dirfd path how).2 (s.openAt dirfd path how).1
      (fun o => ∃ b, s.objects dirfd = some b ∧ o = .opened b path how)
      (fun _ p => how.isLexical = true → ∀ dir names, s.places dirfd = some dir →
        pathNames path = some names → p = some (walk s.attached dir names)) := by
  refine State.openNew_opens (fun a ha => ?_) fun _ hlex dir names hdir hnames => ?_
  · obtain ⟨b, hb, rfl⟩ := Option.map_eq_some_iff.mp ha
    exact ⟨b, hb, rfl⟩
  · simp [hlex, hdir, hnames]

/-- What `openat2` creates. -/
def State.openCreating (s s' : State) (dirfd : RawFd) (path : Bytes) (how : OpenHow) : State :=
  if how.creates then
    match s.places dirfd with
    | some dir =>
      if sep ∈ path then s'
      else match s.entries (top s.attached (dir.child path)) with
        | none => s'.adds dir path .file
        | some _ => s'
    | none => s'
  else s'

/-- A kernel whose calls succeed where they can, and that finds nothing but what was
created. -/
def mountImpl : Impl Calls State
  | s, .openTree dirfd path flags =>
    s.openNew ((s.base dirfd path).map (.tree · path flags)) fun _ => none
  | s, .openTreeAttr dirfd path flags attr =>
    s.openNew ((s.base dirfd path).map (.detached · path flags attr)) fun fd => some (.root fd)
  | s, .unshare flags =>
    (.ok (), if flags = CLONE_NEWNS then { s with ns := .unshared s.ns } else s)
  | s, .setns fd flags =>
    match s.objects fd with
    | some o => (.ok (), if flags = CLONE_NEWNS then { s with ns := o } else s)
    | none => (.error .INVAL, s)
  | s, .chdir _ => (.ok (), { s with cwd := s.ns })
  | s, .statx dirfd path flags mask =>
    match s.places dirfd with
    | some dir =>
      if flags = AT_SYMLINK_NOFOLLOW ∧ s.entries (top s.attached (dir.child path)) = none then
        (.error .NOENT, s)
      else (.ok ⟨mask, S_IFDIR.toUInt16, 0, 0, 0⟩, s)
    | none => (.ok ⟨mask, S_IFDIR.toUInt16, 0, 0, 0⟩, s)
  | s, .fsopen fsname _ => s.openNew (some (.context fsname)) fun _ => none
  | s, .fsconfigSetString fd key value => s.configure fd fun c => some (c.setString key value)
  | s, .fsconfigSetFd fd key aux => s.configure fd fun c => (s.objects aux).map (c.setFd key)
  | s, .fsconfigSetFlag fd key => s.configure fd fun c => some (c.setFlag key)
  | s, .fsconfigCmdCreate fd => s.configure fd fun c => some (c.created false)
  | s, .fsconfigCmdCreateExcl fd => s.configure fd fun c => some (c.created true)
  | s, .fsmount fd _ attributes =>
    s.openNew ((s.objects fd).map (.mounted · attributes)) fun fd => some (.root fd)
  | s, .mkdirat dirfd path _ => s.create dirfd path .directory
  | s, .openat2 dirfd path how =>
    match s.openAt dirfd path how with
    | (.ok fd, s') => (.ok fd, s.openCreating s' dirfd path how)
    | (.error e, _) => (.error e, s)
  | s, .symlinkat _ newdirfd linkpath => s.create newdirfd linkpath .symlink
  | s, .moveMount fromDirfd _ toDirfd toPath _ =>
    match s.places toDirfd with
    | some dir => (.ok (), { s with
        attached := s.attached ++ [(top s.attached (dir.child toPath), fromDirfd)] })
    | none => (.ok (), s)
  | s, .write _ bytes => (.ok bytes.length, s)

theorem mountImpl_kernel (s : State) (op : Op) :
    kernel s op (mountImpl s op).1 (mountImpl s op).2 := by
  cases op with
  | openTree dirfd path flags =>
    refine State.openNew_opens (fun a ha => ?_) fun _ => trivial
    obtain ⟨b, hb, rfl⟩ := Option.map_eq_some_iff.mp ha
    exact ⟨b, hb, rfl⟩
  | openTreeAttr dirfd path flags attr =>
    refine State.openNew_opens (fun a ha => ?_) fun _ => rfl
    obtain ⟨b, hb, rfl⟩ := Option.map_eq_some_iff.mp ha
    exact ⟨b, hb, rfl⟩
  | unshare flags =>
    by_cases hflags : flags = CLONE_NEWNS
    · simp only [kernel, mountImpl, Tries, if_pos hflags]
      exact ⟨s.cwd, rfl⟩
    · simp only [kernel, mountImpl, Tries, if_neg hflags]
  | setns fd flags =>
    simp only [mountImpl]
    split
    · next o ho =>
      by_cases hflags : flags = CLONE_NEWNS
      · simp only [kernel, Tries, if_pos hflags]
        exact ⟨o, s.cwd, ho, rfl⟩
      · simp only [kernel, Tries, if_neg hflags]
    · rfl
  | chdir path => exact ⟨s.ns, fun _ => rfl, rfl⟩
  | statx dirfd path flags mask =>
    simp only [mountImpl]
    split
    · next dir hdir =>
      split
      · next habsent =>
        refine ⟨rfl, fun _ _ _ _ dir' hdir' => ?_⟩
        rw [hdir, Option.some.injEq] at hdir'
        exact hdir' ▸ habsent.2
      · exact ⟨rfl, fun h => by cases h⟩
    · exact ⟨rfl, fun h => by cases h⟩
  | fsopen fsname flags =>
    refine State.openNew_opens (fun a ha => ?_) fun _ => trivial
    cases ha
    rfl
  | fsconfigSetString fd key value =>
    exact State.configure_configures fun c c' hc => (Option.some.inj hc).symm
  | fsconfigSetFd fd key aux =>
    apply State.configure_configures
    intro c c' hc
    obtain ⟨o, ho, rfl⟩ := Option.map_eq_some_iff.mp hc
    exact ⟨o, ho, rfl⟩
  | fsconfigSetFlag fd key =>
    exact State.configure_configures fun c c' hc => (Option.some.inj hc).symm
  | fsconfigCmdCreate fd =>
    exact State.configure_configures fun c c' hc => (Option.some.inj hc).symm
  | fsconfigCmdCreateExcl fd =>
    exact State.configure_configures fun c c' hc => (Option.some.inj hc).symm
  | fsmount fd flags attributes =>
    refine State.openNew_opens (fun a ha => ?_) fun _ => rfl
    obtain ⟨c, hc, rfl⟩ := Option.map_eq_some_iff.mp ha
    exact ⟨c, hc, rfl⟩
  | mkdirat | symlinkat => exact State.create_creates
  | openat2 dirfd path how =>
    have hopens := s.openAt_opens dirfd path how
    simp only [mountImpl]
    split
    · next fd s' heq =>
      rw [heq] at hopens
      refine ⟨s', hopens, ?_⟩
      by_cases hcreates : how.creates = true
      · simp only [State.openCreating, if_pos hcreates]
        cases s.places dirfd with
        | none => exact s'.spills_refl
        | some dir =>
          by_cases hsep : sep ∈ path
          · simp only [if_pos hsep]
            exact s'.spills_refl
          · simp only [if_neg hsep]
            match s.entries (top s.attached (dir.child path)) with
            | none | some .directory | some .file => rfl
            | some .symlink => exact s'.spills_refl
      · simp only [State.openCreating, if_neg hcreates]
    · rfl
  | moveMount fromDirfd fromPath toDirfd toPath flags =>
    simp only [mountImpl]
    split
    · next dir hdir =>
      refine ⟨_, rfl, fun dir' _ _ _ _ _ hdir' => ?_⟩
      rw [hdir, Option.some.injEq] at hdir'
      rw [hdir']
    · next hdir =>
      refine ⟨s.attached, rfl, fun dir' _ _ _ _ _ hdir' => ?_⟩
      rw [hdir] at hdir'
      cases hdir'
  | write fd bytes =>
    refine ⟨rfl, fun n hn => ?_⟩
    cases hn
    exact Nat.le_refl _

end Impl

end LayerCake.Bubblebox.Spawn.Mounting
