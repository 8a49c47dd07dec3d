import LayerCake.Bubblebox.Cgroups.Handover
import LayerCake.Bubblebox.Command
import LayerCake.Bubblebox.Sandbox.Policy
import LayerCake.Bubblebox.Spawn.Layout
import LayerCake.Effects.Embed
import LayerCake.Meowix.Loopback

/-
  The guest as a process: its calls while it sets itself up, and what they do.

  The calls that build its file system are those of `Spawn.Mounting`, in front of the kernel
  given there. Some of them do more than that kernel says: `unshare` and `setns` change other
  namespaces, a `write` to a file of procfs sets what the file stands for (`Beside`), and what
  is opened gets a number in the table of descriptors (`Numbers`). A file of procfs is known by
  the path it was opened at, from the root of a mount of it.

  Functions of other modules make calls of their own here:
    `fd::apply_file_descriptor_policy`          ↔ those of `Spawn.FdCalls`, one by one
    `Backend::guest_post_clone_hook`            ↔ those of `Cgroups.CgroupCalls`, one by one
    `capabilities::drop_bounding_set`, …        ↔ one call, which runs that of `Meowix.Capabilities`
    `netlink::setup_loopback`                   ↔ one call, which runs that of `Meowix.Loopback`

  The kernel's side is `user_namespaces(7)`, `time_namespaces(7)`, `mount_namespaces(7)`,
  `capabilities(7)`, `move_mount(2)` and the pages of the other calls. A call that fails changes
  nothing, and any call but `umask` may fail.
-/

namespace LayerCake.Bubblebox.Sandbox

open LayerCake.Effects LayerCake.Meowix LayerCake.Linux
open LayerCake.Meowix.Capabilities
open LayerCake.Bubblebox.Spawn
open LayerCake.Bubblebox.Spawn.Mounting (Object MountAttr)

/-! ## What the guest is -/

/-- The ids are the first inside, the first outside and their number. -/
structure UserNamespace where
  uidMap : Option (Nat × Nat × Nat) := none
  gidMap : Option (Nat × Nat × Nat) := none
  setgroupsDenied : Bool := false
  /-- `INT_MAX`, unless it was lowered. -/
  maxUserNamespaces : Nat := 2147483647
  /-- How many were created from it, or from one that was. -/
  userNamespaces : Nat := 0
  deriving DecidableEq, Repr

/-- A user namespace of which no more can be made. -/
def UserNamespace.IsFull (self : UserNamespace) : Prop :=
  self.maxUserNamespaces ≤ self.userNamespaces

/-- One more was made in it. -/
def UserNamespace.counted (self : UserNamespace) : UserNamespace :=
  { self with userNamespaces := self.userNamespaces + 1 }

/-- The offsets of the clocks, in seconds and nanoseconds. -/
structure TimeNamespace where
  monotonic : Option (Int × Nat) := none
  boottime : Option (Int × Nat) := none
  deriving DecidableEq, Repr

structure UtsNamespace where
  hostname : Bytes
  domain : Bytes
  deriving DecidableEq, Repr

structure NetNamespace where
  vsockLocal : Bool
  /-- The mode of the namespaces that are made from it. -/
  childVsockLocal : Bool
  devices : Loopback.NetNamespace

/-- A mount at the root of a namespace: the one it was made with, or one that was moved there. -/
inductive RootMount where
  | own
  | moved (fd : RawFd)
  deriving DecidableEq, Repr

structure MountNamespace where
  /-- The mounts at its root, the one that covers the others first. -/
  roots : List RootMount
  isPrivate : Bool
  deriving DecidableEq, Repr

/-- What is not the guest's. -/
structure Host where
  lastCap : Fin 64
  /-- Whether the kernel has `AF_VSOCK`. -/
  vsock : Bool
  endian : Endian
  /-- What the kernel refuses to do to the devices of a network namespace. -/
  refuses : Loopback.Request → Loopback.Links → Errno → Prop
  uts : UtsNamespace
  net : NetNamespace
  maxUserNamespaces : Nat

inductive Disposition where
  | default
  | ignore
  | handler
  deriving DecidableEq, Repr

/-- What a descriptor of the guest refers to. -/
inductive OpenFile where
  /-- What its parent had open at that number. -/
  | inherited (fd : RawFd)
  /-- Its end of the pipe. -/
  | pipe
  | opened (object : Object)
  deriving DecidableEq, Repr

/-- A process beside its mounts. A namespace that it shares with the host is `none`. -/
structure Attrs where
  host : Host
  creds : Creds
  noNewPrivs : Bool
  dispositions : Nat → Disposition
  blocked : UInt64
  /-- The user namespaces it is in, the innermost first. -/
  users : List UserNamespace
  uts : Option UtsNamespace
  net : Option NetNamespace
  time : Option TimeNamespace
  timeForChildren : Option TimeNamespace
  ownIpc : Bool
  ownPid : Bool
  /-- Whether it was in a cgroup of its own when it left the namespace of the host. -/
  cgroup : Option Bool
  /-- Whether it is in a cgroup of its own. -/
  placed : Bool
  namespaces : Object → MountNamespace
  /-- The mount whose root is the process's root, `none` for the root of its namespace. -/
  root : Option RawFd
  /-- The mount under whose root the working directory is. -/
  cwd : Option RawFd
  /-- The attributes that were set on a mount since it was made. -/
  mountAttrs : RawFd → UInt64
  umask : UInt32
  ownSession : Bool
  sched : Option SchedAttr
  oomScoreAdj : Option Nat
  coreCookie : Bool
  /-- Whether it holds the authority to instantiate a key. -/
  keyAuthority : Bool
  ownKeyring : Bool
  reqkeyKeyring : Int32
  rlimits : UInt32 → UInt64 × UInt64
  filters : List (List SockFilter)
  /-- What it executed, and what the file of that gave it. -/
  executed : Option (Exec × FileCapabilities)

@[ext]
structure Process where
  mounts : Mounting.State
  fds : Table OpenFile
  attrs : Attrs

/-! ## The calls -/

inductive Op where
  | mounts (op : Mounting.Op)
  | dropBoundingSet (otherThan : CapabilitySet)
  | setCapabilities (data : CapabilitySets)
  | setAmbientCapabilities (raise : CapabilitySet)
  | setupLoopback
  | fds (op : FdOp)
  | cgroups (op : Cgroups.CgroupOp)
  | rtSigaction (signal : Nat) (disposition : Disposition)
  | rtSigprocmask (how : UInt32) (set : UInt64)
  | umask (mode : UInt32)
  | updateMountPropagationFlags (target : Bytes) (mountflags : UInt32)
  | mountSetattr (dirfd : RawFd) (path : Bytes) (flags : UInt32) (attr : MountAttr)
  | fchdir (fd : RawFd)
  /-- `move_mount` to a path that is resolved from the working directory. -/
  | moveMountCwd (fromDirfd : RawFd) (fromPath toPath : Bytes) (flags : UInt32)
  | chroot (path : Bytes)
  | umount2 (target : Bytes) (flags : UInt32)
  /-- `chdir` once the process has a root of its own. -/
  | chdir (path : Bytes)
  | sethostname (name : Bytes)
  | setdomainname (name : Bytes)
  | socket (domain kind protocol : UInt32)
  | setsid
  | schedSetattr (attr : SchedAttr) (flags : UInt32)
  | createCoreSchedulingCookie
  | keyctlAssumeAuthority (key : Int32)
  | keyctlJoinSessionKeyring (desc : Option Bytes)
  | keyctlSetReqkeyKeyring (op : Int32)
  | prlimit64 (resource : UInt32) (limit : UInt64 × UInt64)
  | seccompSetModeFilter (filter : List SockFilter)
  /-- `write` to the guest's end of the pipe, whatever number that has. -/
  | write (bytes : Bytes)
  | execveat (action : Exec)
  | exit (code : Int32)

@[reducible] def Calls : Interface where
  Op := Op
  Res
    | .mounts op => Mounting.Calls.Res op
    | .dropBoundingSet _ | .setCapabilities _ | .setAmbientCapabilities _ =>
      Except SyscallError Unit
    | .setupLoopback => Except (Stop Netlink) Unit
    | .fds op => FdCalls.Res op
    | .cgroups op => Cgroups.CgroupCalls.Res op
    | .umask _ => Except Errno UInt32
    | .write _ => Except Errno Nat
    | .exit _ => Unit
    | _ => Except Errno Unit

/-! ## procfs -/

/-- The name of the file system a configuration is for. -/
def fsname : Object → Option Bytes
  | .context name => some name
  | .setString context _ _ | .setFd context _ _ | .setFlag context _ | .created context _ =>
    fsname context
  | _ => none

/-- A path of procfs, from one of its directories. -/
def procJoin (dir path : Bytes) : Bytes := if dir = [] then path else dir ++ sep :: path

/-- The path of a file of procfs from the root of its mount. None of them can be created. -/
def procPath : Object → Option Bytes
  | .mounted context _ => if fsname context = some (ascii "proc") then some [] else none
  | .opened base path how =>
    if how.creates then none else (procPath base).map fun dir => procJoin dir path
  | _ => none

/-- The files of procfs that the guest writes to. -/
inductive ProcFile where
  | uidMap | gidMap | setgroups | timensOffsets | oomScoreAdj | maxUserNamespaces | childNsMode
  deriving DecidableEq, Repr

def procFile? (path : Bytes) : Option ProcFile :=
  [(ascii "self/uid_map", ProcFile.uidMap), (ascii "self/gid_map", .gidMap),
    (ascii "self/setgroups", .setgroups), (ascii "self/timens_offsets", .timensOffsets),
    (ascii "self/oom_score_adj", .oomScoreAdj),
    (ascii "sys/user/max_user_namespaces", .maxUserNamespaces),
    (ascii "sys/net/vsock/child_ns_mode", .childNsMode)].lookup path

/-- The file of procfs that a descriptor refers to. -/
def Process.fileOf (p : Process) (fd : RawFd) : Option ProcFile :=
  (p.mounts.objects fd).bind procPath |>.bind procFile?

namespace Attrs

/-- Change the innermost user namespace. -/
def mapUser (a : Attrs) (f : UserNamespace → UserNamespace) : Attrs :=
  { a with users := match a.users with
    | user :: outer => f user :: outer
    | [] => [] }

/-- Change the network namespace the process is in. -/
def mapNet (a : Attrs) (f : NetNamespace → NetNamespace) : Attrs :=
  match a.net with
  | some net => { a with net := some (f net) }
  | none => { a with host := { a.host with net := f a.host.net } }

/-- The devices of that. -/
def devices (a : Attrs) : Loopback.NetNamespace := (a.net.getD a.host.net).devices

def setDevices (a : Attrs) (devices : Loopback.NetNamespace) : Attrs :=
  a.mapNet fun net => { net with devices }

theorem setDevices_devices (a : Attrs) : a.setDevices a.devices = a := by
  unfold setDevices mapNet devices
  split
  · next net hnet =>
    have hdevices : a.net.getD a.host.net = net := by rw [hnet]; rfl
    rw [hdevices, ← hnet]
  · next hnet =>
    have hdevices : a.net.getD a.host.net = a.host.net := by rw [hnet]; rfl
    rw [hdevices]

def mapUts (a : Attrs) (f : UtsNamespace → UtsNamespace) : Attrs :=
  match a.uts with
  | some uts => { a with uts := some (f uts) }
  | none => { a with host := { a.host with uts := f a.host.uts } }

end Attrs

/-- The line of a clock. -/
def TimeNamespace.setOffset (self : TimeNamespace) (line : Bytes) : TimeNamespace :=
  match Mounting.readOffset line with
  | some (clock, seconds, nanoseconds) =>
    if clock = ascii "monotonic" then { self with monotonic := some (seconds, nanoseconds) }
    else if clock = ascii "boottime" then { self with boottime := some (seconds, nanoseconds) }
    else self
  | none => self

/-- What a value means that is written to a file of procfs. -/
def ProcFile.set (value : Bytes) (a : Attrs) : ProcFile → Attrs
  | .uidMap => a.mapUser fun user => { user with uidMap := Mounting.readMap value }
  | .gidMap => a.mapUser fun user => { user with gidMap := Mounting.readMap value }
  | .setgroups => a.mapUser fun user => { user with setgroupsDenied := value == ascii "deny" }
  | .timensOffsets => { a with timeForChildren := a.timeForChildren.map (·.setOffset value) }
  | .oomScoreAdj => { a with oomScoreAdj := readNat value }
  | .maxUserNamespaces =>
    match a.users with
    | [] => { a with host := { a.host with maxUserNamespaces := (readNat value).getD 0 } }
    | _ :: _ => a.mapUser fun user => { user with maxUserNamespaces := (readNat value).getD 0 }
  | .childNsMode => a.mapNet fun net => { net with childVsockLocal := value == ascii "local" }

/-- What a `write` of `n` bytes does: procfs takes a value whole or not at all. -/
def Process.written (p : Process) (fd : RawFd) (value : Bytes) (n : Nat) : Attrs :=
  match p.fileOf fd with
  | some file => if n = value.length then file.set value p.attrs else p.attrs
  | none => p.attrs

theorem Process.written_file {p : Process} {fd : RawFd} {file : ProcFile}
    (h : p.fileOf fd = some file) (value : Bytes) (n : Nat) :
    p.written fd value n = if n = value.length then file.set value p.attrs else p.attrs := by
  simp [Process.written, h]

theorem Process.written_none {p : Process} {fd : RawFd} (h : p.fileOf fd = none) (value : Bytes)
    (n : Nat) : p.written fd value n = p.attrs := by
  simp [Process.written, h]

/-! ## Namespaces -/

namespace Attrs

/-- Every user namespace around may have one more. -/
def HasRoom (a : Attrs) : Prop := ∀ user ∈ a.users, ¬ user.IsFull

/-- A new user namespace counts towards the limit of all around it. It comes with all
capabilities and without the authority over keys. -/
def enterUserNamespace (a : Attrs) : Attrs :=
  { a with
    users := {} :: a.users.map (·.counted)
    creds := freshUserNamespace a.host.lastCap
    keyAuthority := false }

/-- A new network namespace has the mode the one it is made from has for its children, and a
loopback device that is down. -/
def enterNetNamespace (a : Attrs) : Attrs :=
  let mode := (a.net.getD a.host.net).childVsockLocal
  { a with net := some { vsockLocal := mode, childVsockLocal := mode, devices := Loopback.fresh } }

/-- `unshare`, of the namespaces that its flags name. -/
def unshare (a : Attrs) (flags : UInt32) : Attrs :=
  let a := if flags &&& CLONE_NEWUSER != 0 then a.enterUserNamespace else a
  let a := if flags &&& CLONE_NEWCGROUP != 0 then { a with cgroup := some a.placed } else a
  let a := if flags &&& CLONE_NEWTIME != 0 then { a with timeForChildren := some {} } else a
  if flags &&& CLONE_NEWNET != 0 then a.enterNetNamespace else a

/-- Change a mount namespace. -/
def mapNamespace (a : Attrs) (ns : Object) (f : MountNamespace → MountNamespace) : Attrs :=
  { a with namespaces := Function.update a.namespaces ns (f (a.namespaces ns)) }

end Attrs

def TIME_FOR_CHILDREN : Bytes := ascii "self/ns/time_for_children"

/-- `setns`. The guest holds no descriptor of a user namespace but those it is in, which it
cannot enter again. -/
def Enters (p : Process) (fd : RawFd) (flags : UInt32) (a : Attrs) : Prop :=
  if flags = CLONE_NEWNS then a = { p.attrs with root := none, cwd := none }
  else if flags = CLONE_NEWTIME then
    ∃ time, ((p.mounts.objects fd).bind procPath = some TIME_FOR_CHILDREN →
      time = p.attrs.timeForChildren) ∧ a = { p.attrs with time }
  else flags &&& CLONE_NEWUSER = 0 ∧ a = p.attrs

/-- What a call of the mounts does beside them. -/
def Beside (p : Process) : (op : Mounting.Op) → Mounting.Calls.Res op → Attrs → Prop
  | .unshare flags, r, a =>
    match r with
    | .ok _ => (flags &&& CLONE_NEWUSER ≠ 0 → p.attrs.HasRoom) ∧ a = p.attrs.unshare flags
    | .error _ => a = p.attrs
  | .setns fd flags, r, a =>
    match r with
    | .ok _ => Enters p fd flags a
    | .error _ => a = p.attrs
  | .chdir path, r, a =>
    match r with
    | .ok _ =>
      a = { p.attrs with cwd := if Path.isAbsolute path then p.attrs.root else p.attrs.cwd }
    | .error _ => a = p.attrs
  | .write fd value, r, a =>
    match r with
    | .ok n => a = p.written fd value n
    | .error _ => a = p.attrs
  | _, _, a => a = p.attrs

/-! ## Descriptors -/

/-- Whether `execve(2)` closes what the call opens. -/
def cloexec : Mounting.Op → Bool
  | .openTree _ _ flags | .openTreeAttr _ _ flags _ => flags &&& OPEN_TREE_CLOEXEC != 0
  | .fsopen _ flags => flags &&& FSOPEN_CLOEXEC != 0
  | .fsmount _ flags _ => flags &&& FSMOUNT_CLOEXEC != 0
  | .openat2 _ _ how => how.flags &&& O_CLOEXEC.toUInt64 != 0
  | _ => false

/-- What was opened has a number that was free. -/
def Opened (p q : Process) (r : Except Errno RawFd) (cloexec : Bool) : Prop :=
  match r with
  | .ok fd => p.fds fd = none ∧ ∃ object, q.mounts.objects fd = some object ∧
      q.fds = Function.update p.fds fd (some ⟨.opened object, cloexec⟩)
  | .error _ => q.fds = p.fds

/-- What a call of the mounts does to the table. -/
def Numbers (p q : Process) : (op : Mounting.Op) → Mounting.Calls.Res op → Prop
  | .openTree dirfd path flags, r => Opened p q r (cloexec (.openTree dirfd path flags))
  | .openTreeAttr dirfd path flags attr, r =>
    Opened p q r (cloexec (.openTreeAttr dirfd path flags attr))
  | .fsopen fsname flags, r => Opened p q r (cloexec (.fsopen fsname flags))
  | .fsmount fd flags attributes, r => Opened p q r (cloexec (.fsmount fd flags attributes))
  | .openat2 dirfd path how, r => Opened p q r (cloexec (.openat2 dirfd path how))
  | _, _ => q.fds = p.fds

/-! ## The rest of the kernel -/

/-- What the guest hears of the host: a count in the eventfd says that it was moved. -/
def Attrs.heard (a : Attrs) : (op : Cgroups.CgroupOp) → Cgroups.CgroupCalls.Res op → Attrs
  | .readEventfd _, .ok value => { a with placed := a.placed || value.any (· != 0) }
  | _, _ => a

/-- The process is another program. What has a handler has the default disposition, and it is
in the time namespace of its children. -/
def Attrs.exec (a : Attrs) (file : FileCapabilities) (action : Exec) : Attrs :=
  { a with
    creds := a.creds.exec a.noNewPrivs file
    dispositions := fun signal =>
      if a.dispositions signal = .handler then .default else a.dispositions signal
    time := a.timeForChildren
    executed := some (action, file) }

def Process.exec (p : Process) (file : FileCapabilities) (action : Exec) : Process :=
  { p with
    fds := fun n => (p.fds.exec n).map fun file => ⟨file, false⟩
    attrs := p.attrs.exec file action }

section Kernel
variable {ε α : Type}

/-- The call sets some of what the process is. -/
def Sets (p q : Process) (r : Except ε α) (f : Attrs → Attrs) : Prop :=
  match r with
  | .ok _ => q = { p with attrs := f p.attrs }
  | .error _ => q = p

/-- The call does `f` where its arguments are those of the guest, and what it does to the
mounts of the namespaces is left open elsewhere. -/
def SetsIf (p q : Process) (r : Except ε α) (condition : Prop) (f : Attrs → Attrs) : Prop :=
  match r with
  | .ok _ => (condition → q = { p with attrs := f p.attrs }) ∧
      ∃ namespaces root, q = { p with attrs := { p.attrs with namespaces, root } }
  | .error _ => q = p

/-- A sequence of calls over the capabilities of the process. -/
def Sheds (p q : Process) (r : Except SyscallError Unit) (sequence : CapM Unit) : Prop :=
  (r, q) = ((sequence.run p.attrs.creds).1,
    { p with attrs := { p.attrs with creds := (sequence.run p.attrs.creds).2 } })

end Kernel

/-- The flags with which the guest moves its root. -/
def BENEATH_ROOT : UInt32 := MOVE_MOUNT_F_EMPTY_PATH ||| MOVE_MOUNT_BENEATH

/-- The mount goes underneath the one on top of the root. -/
def MountNamespace.moveBeneath (self : MountNamespace) (fd : RawFd) : MountNamespace :=
  { self with roots := match self.roots with
    | top :: rest => top :: .moved fd :: rest
    | [] => [.moved fd] }

def kernel : Kernel Calls Process
  | p, .mounts op, r, q =>
    Mounting.kernel p.mounts op r q.mounts ∧ Beside p op r q.attrs ∧ Numbers p q op r
  | p, .dropBoundingSet otherThan, r, q =>
    Sheds p q r (Capabilities.dropBoundingSet p.attrs.host.lastCap otherThan)
  | p, .setCapabilities data, r, q =>
    Sheds p q r (Capabilities.setCapabilities p.attrs.host.lastCap data)
  | p, .setAmbientCapabilities raise, r, q =>
    Sheds p q r (Capabilities.setAmbientCapabilities p.attrs.host.lastCap raise)
  | p, .setupLoopback, r, q => ∃ devices,
      Loopback.setupLoopback (Loopback.kernel p.attrs.host.endian p.attrs.host.refuses)
        p.attrs.host.endian p.attrs.devices r devices ∧
      q = { p with attrs := p.attrs.setDevices devices }
  | p, .fds op, r, q => ∃ fds, fdKernel p.fds op r fds ∧ q = { p with fds }
  | p, .cgroups op, r, q => q = { p with attrs := p.attrs.heard op r }
  | p, .rtSigaction signal disposition, r, q => Sets p q r fun a =>
      { a with dispositions := Function.update a.dispositions signal disposition }
  | p, .rtSigprocmask how set, r, q =>
    match r with
    | .ok _ => ∃ blocked, (how = SIG_SETMASK → blocked = set) ∧
        q = { p with attrs := { p.attrs with blocked } }
    | .error _ => q = p
  -- it cannot fail
  | p, .umask mode, r, q => r = .ok p.attrs.umask ∧
      q = { p with attrs := { p.attrs with umask := mode } }
  | p, .updateMountPropagationFlags target mountflags, r, q =>
    SetsIf p q r (target = [sep] ∧ mountflags = MS_REC ||| MS_PRIVATE ∧ p.attrs.root = none)
      fun a => a.mapNamespace p.mounts.ns fun ns => { ns with isPrivate := true }
  | p, .mountSetattr dirfd path flags attr, r, q =>
    match r with
    | .ok _ => ∃ mountAttrs, q = { p with attrs := { p.attrs with mountAttrs } } ∧
        (path = [] → flags = AT_EMPTY_PATH → attr.attrClr = 0 →
          mountAttrs = Function.update p.attrs.mountAttrs dirfd
            (p.attrs.mountAttrs dirfd ||| attr.attrSet))
    | .error _ => q = p
  | p, .fchdir fd, r, q =>
    match r with
    | .ok _ => ∃ cwd, q = ⟨{ p.mounts with cwd }, p.fds,
        { p.attrs with cwd := (p.mounts.places fd).map (·.tree) }⟩
    | .error _ => q = p
  | p, .moveMountCwd fromDirfd fromPath toPath flags, r, q =>
    SetsIf p q r (fromPath = [] ∧ toPath = [sep] ∧ flags = BENEATH_ROOT ∧ p.attrs.root = none ∧
      p.mounts.places fromDirfd = some (.root fromDirfd)) fun a =>
      a.mapNamespace p.mounts.ns (·.moveBeneath fromDirfd)
  | p, .chroot path, r, q =>
    SetsIf p q r (path = ascii ".") fun a => { a with root := a.cwd }
  -- the path leads to the mount that covers the working directory
  | p, .umount2 target flags, r, q =>
    SetsIf p q r (target = ascii "." ∧ flags = MNT_DETACH ∧ ∃ top fd rest,
        p.attrs.cwd = some fd ∧ (p.attrs.namespaces p.mounts.ns).roots = top :: .moved fd :: rest)
      fun a => a.mapNamespace p.mounts.ns fun ns => { ns with roots := ns.roots.drop 1 }
  | p, .chdir path, r, q =>
    match r with
    | .ok _ => ∃ cwd, q = ⟨{ p.mounts with cwd }, p.fds,
        { p.attrs with cwd := if Path.isAbsolute path then p.attrs.root else p.attrs.cwd }⟩
    | .error _ => q = p
  | p, .sethostname name, r, q =>
    Sets p q r fun a => a.mapUts fun uts => { uts with hostname := name }
  | p, .setdomainname name, r, q =>
    Sets p q r fun a => a.mapUts fun uts => { uts with domain := name }
  | p, .socket domain _ _, r, q => q = p ∧
      (r = .error .AFNOSUPPORT → domain = AF_VSOCK → p.attrs.host.vsock = false)
  | p, .setsid, r, q => Sets p q r fun a => { a with ownSession := true }
  | p, .schedSetattr attr _, r, q => Sets p q r fun a => { a with sched := some attr }
  | p, .createCoreSchedulingCookie, r, q => Sets p q r fun a => { a with coreCookie := true }
  | p, .keyctlAssumeAuthority key, r, q => Sets p q r fun a => { a with keyAuthority := key != 0 }
  | p, .keyctlJoinSessionKeyring _, r, q => Sets p q r fun a => { a with ownKeyring := true }
  | p, .keyctlSetReqkeyKeyring op, r, q => Sets p q r fun a => { a with reqkeyKeyring := op }
  | p, .prlimit64 resource limit, r, q => Sets p q r fun a =>
      { a with rlimits := Function.update a.rlimits resource limit }
  | p, .seccompSetModeFilter filter, r, q => Sets p q r fun a =>
      { a with filters := filter :: a.filters }
  | p, .write bytes, r, q => q = p ∧ ∀ n, r = .ok n → n ≤ bytes.length
  | p, .execveat action, r, q =>
    match r with
    | .ok _ => ∃ file, q = p.exec file action
    | .error _ => q = p
  | p, .exit _, _, q => q = p

/-! ## A kernel that runs -/

instance (user : UserNamespace) : Decidable user.IsFull :=
  inferInstanceAs (Decidable (_ ≤ _))

instance (a : Attrs) : Decidable a.HasRoom :=
  inferInstanceAs (Decidable (∀ user ∈ a.users, ¬ user.IsFull))

/-- `Beside`, where there is no choice. -/
def besideImpl (p : Process) : (op : Mounting.Op) → Mounting.Calls.Res op → Attrs
  | .unshare flags, .ok _ => p.attrs.unshare flags
  | .setns _ flags, .ok _ =>
    if flags = CLONE_NEWNS then { p.attrs with root := none, cwd := none }
    else if flags = CLONE_NEWTIME then { p.attrs with time := p.attrs.timeForChildren }
    else p.attrs
  | .chdir path, .ok _ =>
    { p.attrs with cwd := if Path.isAbsolute path then p.attrs.root else p.attrs.cwd }
  | .write fd value, .ok n => p.written fd value n
  | _, _ => p.attrs

/-- A call that opens nothing. -/
def besidesImpl (p : Process) (op : Mounting.Op) : Mounting.Calls.Res op × Process :=
  let out := Mounting.mountImpl p.mounts op
  (out.1, ⟨out.2, p.fds, besideImpl p op out.1⟩)

/-- What is opened, unless its number is taken. -/
def openImpl (p : Process) (out : Except Errno RawFd × Mounting.State) (cloexec : Bool) :
    Except Errno RawFd × Process :=
  match out.1 with
  | .ok fd =>
    match p.fds fd, out.2.objects fd with
    | none, some object =>
      (.ok fd, ⟨out.2, Function.update p.fds fd (some ⟨.opened object, cloexec⟩), p.attrs⟩)
    | _, _ => (.error .INVAL, p)
  | .error e => (.error e, p)

def mountsImpl (p : Process) : (op : Mounting.Op) → Mounting.Calls.Res op × Process
  | .openTree dirfd path flags =>
    openImpl p (Mounting.mountImpl p.mounts (.openTree dirfd path flags))
      (cloexec (.openTree dirfd path flags))
  | .openTreeAttr dirfd path flags attr =>
    openImpl p (Mounting.mountImpl p.mounts (.openTreeAttr dirfd path flags attr))
      (cloexec (.openTreeAttr dirfd path flags attr))
  | .fsopen fsname flags =>
    openImpl p (Mounting.mountImpl p.mounts (.fsopen fsname flags)) (cloexec (.fsopen fsname flags))
  | .fsmount fd flags attributes =>
    openImpl p (Mounting.mountImpl p.mounts (.fsmount fd flags attributes))
      (cloexec (.fsmount fd flags attributes))
  | .openat2 dirfd path how =>
    openImpl p (Mounting.mountImpl p.mounts (.openat2 dirfd path how))
      (cloexec (.openat2 dirfd path how))
  | .unshare flags =>
    if flags &&& CLONE_NEWUSER ≠ 0 ∧ ¬ p.attrs.HasRoom then (.error .PERM, p)
    else besidesImpl p (.unshare flags)
  | .setns fd flags =>
    if flags ≠ CLONE_NEWNS ∧ flags ≠ CLONE_NEWTIME ∧ flags &&& CLONE_NEWUSER ≠ 0 then
      (.error .PERM, p)
    else besidesImpl p (.setns fd flags)
  | op => besidesImpl p op

/-- The devices are brought up, where there are any. -/
def setupLoopbackImpl (p : Process) : Except (Stop Netlink) Unit × Process :=
  match p.attrs.devices.names Loopback.ifrnLo, p.attrs.devices.sockets 0 with
  | some index, none =>
    let devices := Loopback.broughtUp p.attrs.host.endian index p.attrs.devices
    (.ok (), { p with attrs := p.attrs.setDevices devices })
  | _, _ => (.error (.error (.syscall ⟨.socket, .INVAL⟩)), p)

/-- The host has moved the guest. -/
def cgroupsImpl : (op : Cgroups.CgroupOp) → Cgroups.CgroupCalls.Res op
  | .readEventfd _ => .ok (Cgroups.signalBytes .little)
  | op => Cgroups.answers op

def setsImpl (p : Process) (f : Attrs → Attrs) : Except Errno Unit × Process :=
  (.ok (), { p with attrs := f p.attrs })

def shedsImpl (p : Process) (sequence : CapM Unit) : Except SyscallError Unit × Process :=
  ((sequence.run p.attrs.creds).1,
    { p with attrs := { p.attrs with creds := (sequence.run p.attrs.creds).2 } })

/-- A kernel whose calls succeed where they can. -/
def guestImpl : Impl Calls Process
  | p, .mounts op => mountsImpl p op
  | p, .dropBoundingSet otherThan =>
    shedsImpl p (Capabilities.dropBoundingSet p.attrs.host.lastCap otherThan)
  | p, .setCapabilities data =>
    shedsImpl p (Capabilities.setCapabilities p.attrs.host.lastCap data)
  | p, .setAmbientCapabilities raise =>
    shedsImpl p (Capabilities.setAmbientCapabilities p.attrs.host.lastCap raise)
  | p, .setupLoopback => setupLoopbackImpl p
  -- a number that the mounts are not given
  | p, .fds op =>
    let out := fdImpl 96 p.fds op
    (out.1, { p with fds := out.2 })
  | p, .cgroups op => (cgroupsImpl op, { p with attrs := p.attrs.heard op (cgroupsImpl op) })
  | p, .rtSigaction signal disposition => setsImpl p fun a =>
      { a with dispositions := Function.update a.dispositions signal disposition }
  | p, .rtSigprocmask _ set => setsImpl p fun a => { a with blocked := set }
  | p, .umask mode => (.ok p.attrs.umask, { p with attrs := { p.attrs with umask := mode } })
  | p, .updateMountPropagationFlags _ _ => setsImpl p fun a =>
      a.mapNamespace p.mounts.ns fun ns => { ns with isPrivate := true }
  | p, .mountSetattr dirfd _ _ attr => setsImpl p fun a =>
      { a with
        mountAttrs := Function.update a.mountAttrs dirfd (a.mountAttrs dirfd ||| attr.attrSet) }
  | p, .fchdir fd => setsImpl p fun a => { a with cwd := (p.mounts.places fd).map (·.tree) }
  | p, .moveMountCwd fd _ _ _ => setsImpl p fun a => a.mapNamespace p.mounts.ns (·.moveBeneath fd)
  | p, .chroot _ => setsImpl p fun a => { a with root := a.cwd }
  | p, .umount2 _ _ => setsImpl p fun a =>
      a.mapNamespace p.mounts.ns fun ns => { ns with roots := ns.roots.drop 1 }
  | p, .chdir path => setsImpl p fun a =>
      { a with cwd := if Path.isAbsolute path then a.root else a.cwd }
  | p, .sethostname name => setsImpl p fun a => a.mapUts fun uts => { uts with hostname := name }
  | p, .setdomainname name => setsImpl p fun a => a.mapUts fun uts => { uts with domain := name }
  | p, .socket _ _ _ => (.ok (), p)
  | p, .setsid => setsImpl p fun a => { a with ownSession := true }
  | p, .schedSetattr attr _ => setsImpl p fun a => { a with sched := some attr }
  | p, .createCoreSchedulingCookie => setsImpl p fun a => { a with coreCookie := true }
  | p, .keyctlAssumeAuthority key => setsImpl p fun a => { a with keyAuthority := key != 0 }
  | p, .keyctlJoinSessionKeyring _ => setsImpl p fun a => { a with ownKeyring := true }
  | p, .keyctlSetReqkeyKeyring op => setsImpl p fun a => { a with reqkeyKeyring := op }
  | p, .prlimit64 resource limit => setsImpl p fun a =>
      { a with rlimits := Function.update a.rlimits resource limit }
  | p, .seccompSetModeFilter filter => setsImpl p fun a => { a with filters := filter :: a.filters }
  | p, .write bytes => (.ok bytes.length, p)
  | p, .execveat action => (.ok (), p.exec .plain action)
  | p, .exit _ => ((), p)

/-- Where it is not refused for a user namespace. -/
theorem besidesImpl_kernel (p : Process) {op : Mounting.Op}
    (hunshare : ∀ flags, op = .unshare flags → flags &&& CLONE_NEWUSER ≠ 0 → p.attrs.HasRoom)
    (hsetns : ∀ fd flags, op = .setns fd flags → flags ≠ CLONE_NEWNS → flags ≠ CLONE_NEWTIME →
      flags &&& CLONE_NEWUSER = 0)
    (hnumbers : ∀ q r, q.fds = p.fds → Numbers p q op r) :
    kernel p (.mounts op) (besidesImpl p op).1 (besidesImpl p op).2 := by
  refine ⟨Mounting.mountImpl_kernel p.mounts op, ?_, hnumbers _ _ rfl⟩
  show Beside p op (Mounting.mountImpl p.mounts op).1
    (besideImpl p op (Mounting.mountImpl p.mounts op).1)
  generalize (Mounting.mountImpl p.mounts op).1 = r
  cases op with
  | unshare flags =>
    cases r with
    | ok u => exact ⟨hunshare flags rfl, rfl⟩
    | error e => rfl
  | setns fd flags =>
    cases r with
    | ok u =>
      show Enters p fd flags (besideImpl p (.setns fd flags) (.ok u))
      by_cases hns : flags = CLONE_NEWNS
      · simp only [Enters, besideImpl, if_pos hns]
      · by_cases htime : flags = CLONE_NEWTIME
        · simp only [Enters, besideImpl, if_neg hns, if_pos htime]
          exact ⟨_, fun _ => rfl, rfl⟩
        · simp only [Enters, besideImpl, if_neg hns, if_neg htime]
          exact ⟨hsetns fd flags rfl hns htime, trivial⟩
    | error e => rfl
  | chdir path =>
    cases r with
    | ok u => rfl
    | error e => rfl
  | write fd value =>
    cases r with
    | ok n => rfl
    | error e => rfl
  | openTree | openTreeAttr | statx | fsopen | fsconfigSetString | fsconfigSetFd | fsconfigSetFlag
  | fsconfigCmdCreate | fsconfigCmdCreateExcl | fsmount | mkdirat | openat2 | symlinkat
  | moveMount => rfl

/-- `M` is what the kernel of the mounts may do. -/
theorem openImpl_kernel (p : Process) {out : Except Errno RawFd × Mounting.State} {cloexec : Bool}
    {M : Except Errno RawFd → Mounting.State → Prop} (hout : M out.1 out.2)
    (herror : ∀ e, M (.error e) p.mounts) :
    M (openImpl p out cloexec).1 (openImpl p out cloexec).2.mounts ∧
      (openImpl p out cloexec).2.attrs = p.attrs ∧
      Opened p (openImpl p out cloexec).2 (openImpl p out cloexec).1 cloexec := by
  obtain ⟨r, s⟩ := out
  cases r with
  | error e => exact ⟨herror e, rfl, rfl⟩
  | ok fd =>
    unfold openImpl
    dsimp only
    split
    · next object hfree hobject => exact ⟨hout, rfl, hfree, object, hobject, rfl⟩
    · exact ⟨herror _, rfl, rfl⟩

theorem mountsImpl_kernel (p : Process) (op : Mounting.Op) :
    kernel p (.mounts op) (mountsImpl p op).1 (mountsImpl p op).2 := by
  cases op with
  | openTree dirfd path flags =>
    exact openImpl_kernel p (M := Mounting.kernel p.mounts (.openTree dirfd path flags))
      (Mounting.mountImpl_kernel p.mounts (.openTree dirfd path flags)) fun _ => rfl
  | openTreeAttr dirfd path flags attr =>
    exact openImpl_kernel p (M := Mounting.kernel p.mounts (.openTreeAttr dirfd path flags attr))
      (Mounting.mountImpl_kernel p.mounts (.openTreeAttr dirfd path flags attr)) fun _ => rfl
  | fsopen fsname flags =>
    exact openImpl_kernel p (M := Mounting.kernel p.mounts (.fsopen fsname flags))
      (Mounting.mountImpl_kernel p.mounts (.fsopen fsname flags)) fun _ => rfl
  | fsmount fd flags attributes =>
    exact openImpl_kernel p (M := Mounting.kernel p.mounts (.fsmount fd flags attributes))
      (Mounting.mountImpl_kernel p.mounts (.fsmount fd flags attributes)) fun _ => rfl
  | openat2 dirfd path how =>
    exact openImpl_kernel p (M := Mounting.kernel p.mounts (.openat2 dirfd path how))
      (Mounting.mountImpl_kernel p.mounts (.openat2 dirfd path how)) fun _ => rfl
  | unshare flags =>
    by_cases h : flags &&& CLONE_NEWUSER ≠ 0 ∧ ¬ p.attrs.HasRoom
    · have hi : mountsImpl p (.unshare flags) = (.error .PERM, p) := if_pos h
      rw [hi]
      exact ⟨rfl, rfl, rfl⟩
    · have hi : mountsImpl p (.unshare flags) = besidesImpl p (.unshare flags) := if_neg h
      rw [hi]
      refine besidesImpl_kernel p (fun flags' he huser => ?_) (fun _ _ he => by cases he)
        fun _ _ h => h
      cases he
      exact not_not.mp fun hroom => h ⟨huser, hroom⟩
  | setns fd flags =>
    by_cases h : flags ≠ CLONE_NEWNS ∧ flags ≠ CLONE_NEWTIME ∧ flags &&& CLONE_NEWUSER ≠ 0
    · have hi : mountsImpl p (.setns fd flags) = (.error .PERM, p) := if_pos h
      rw [hi]
      exact ⟨rfl, rfl, rfl⟩
    · have hi : mountsImpl p (.setns fd flags) = besidesImpl p (.setns fd flags) := if_neg h
      rw [hi]
      refine besidesImpl_kernel p (fun _ he => by cases he) (fun fd' flags' he hns htime => ?_)
        fun _ _ h => h
      cases he
      exact not_not.mp fun huser => h ⟨hns, htime, huser⟩
  | _ =>
    exact besidesImpl_kernel p (fun _ he => by cases he) (fun _ _ he => by cases he) fun _ _ h => h

theorem setupLoopbackImpl_kernel (p : Process) :
    kernel p .setupLoopback (setupLoopbackImpl p).1 (setupLoopbackImpl p).2 := by
  unfold setupLoopbackImpl
  split
  · next index hname hfresh =>
    exact ⟨_, Loopback.setupLoopback_succeeds hname hfresh, rfl⟩
  · exact ⟨_, Loopback.setupLoopback_fails .INVAL, by rw [Attrs.setDevices_devices]⟩

theorem guestImpl_kernel (p : Process) (op : Op) :
    kernel p op (guestImpl p op).1 (guestImpl p op).2 := by
  cases op with
  | mounts op => exact mountsImpl_kernel p op
  | setupLoopback => exact setupLoopbackImpl_kernel p
  | fds op => exact ⟨_, fdImpl_fdKernel 96 p.fds op, rfl⟩
  | rtSigprocmask how set => exact ⟨set, fun _ => rfl, rfl⟩
  | umask mode => exact ⟨rfl, rfl⟩
  | updateMountPropagationFlags | moveMountCwd | chroot | umount2 =>
    exact ⟨fun _ => rfl, _, _, rfl⟩
  | mountSetattr => exact ⟨_, rfl, fun _ _ _ => rfl⟩
  | fchdir | chdir => exact ⟨p.mounts.cwd, rfl⟩
  | socket => exact ⟨rfl, fun h => by cases h⟩
  | write bytes => exact ⟨rfl, fun n hn => by cases hn; exact Nat.le_refl _⟩
  | execveat action => exact ⟨.plain, rfl⟩
  | _ => rfl

end LayerCake.Bubblebox.Sandbox
