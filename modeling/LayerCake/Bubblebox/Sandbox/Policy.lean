import LayerCake.Bubblebox.Mounts
import LayerCake.Bubblebox.Spawn.Fd
import LayerCake.Bubblebox.Spawn.Namespace
import LayerCake.Meowix.Capabilities

/-
  What a sandbox is asked to be (`bubblebox/src/platform/linux/policy/`), beside its mounts,
  and the `sched_attr` that its scheduler policy is handed to the kernel as
  (`apply_scheduler_policy` in `spawn/scheduler.rs`).

  Correspondence (Rust ↔ Lean):
    `Uid`, `Gid` (`meowix/src/ids.rs`)      ↔ `Uid`, `Gid`, which are not `-1`
    the builders of each of these           ↔ functions of the same name
    `TimeOffsetSeconds`, `…Nanoseconds`     ↔ subtypes with their bound
    `Namespace<Options>`, `Namespaces`      ↔ `Namespace`, `Namespaces`
    `Scheduler`                             ↔ `Scheduler`
    `Attributes`, `Policy`                  ↔ `Scheduler.Attributes`, `Scheduler.Policy`
    `Keyring`                               ↔ `Keyring`, its only field
    `Rlimit`, `Rlimits`                     ↔ `Rlimit`, `Rlimits`
    `implement_limit!`, fifteen times       ↔ `Rlimits.table`
    `linux::sched_attr`                     ↔ `SchedAttr`
    `Policy`                                ↔ `Policy`; the cgroups of it are in `Cgroups`

  What is proved: `attributes?_schedAttr` — the kernel reads in a `sched_attr` the attributes
  it was made of.
-/

namespace LayerCake.Bubblebox.Sandbox

open LayerCake.Meowix LayerCake.Linux
open LayerCake.Meowix.Capabilities (CapabilitySet)
open LayerCake.Bubblebox.Spawn (FdPolicy isValidFdPolicy)

/-! ## Namespaces -/

abbrev Uid := { raw : UInt32 // raw ≠ 0xffffffff }

abbrev Gid := { raw : UInt32 // raw ≠ 0xffffffff }

def Uid.fromRaw (value : UInt32) : Option Uid :=
  if h : value ≠ 0xffffffff then some ⟨value, h⟩ else none

def Gid.fromRaw (value : UInt32) : Option Gid :=
  if h : value ≠ 0xffffffff then some ⟨value, h⟩ else none

/-- `Namespace<Options>`. -/
inductive Namespace (Options : Type) where
  | shared
  | unshared (options : Options)
  deriving DecidableEq, Repr

def Namespace.isShared {Options : Type} : Namespace Options → Bool
  | .shared => true
  | .unshared _ => false

def Namespace.unwrapOr {Options : Type} (default : Options) : Namespace Options → Options
  | .shared => default
  | .unshared options => options

structure UtsOptions where
  hostname : Option Bytes := none
  domain : Option Bytes := none
  deriving DecidableEq, Repr

namespace UtsOptions

def setHostname (self : UtsOptions) (hostname : Bytes) : UtsOptions :=
  { self with hostname := some hostname }

def clearHostname (self : UtsOptions) : UtsOptions := { self with hostname := none }

def setDomain (self : UtsOptions) (domain : Bytes) : UtsOptions :=
  { self with domain := some domain }

def clearDomain (self : UtsOptions) : UtsOptions := { self with domain := none }

end UtsOptions

/-- `i64::MAX / 1_000_000_000`. -/
def KTIME_SEC_MAX : Int64 := 9223372036

abbrev TimeOffsetSeconds := { value : Int64 // -KTIME_SEC_MAX ≤ value ∧ value ≤ KTIME_SEC_MAX }

abbrev TimeOffsetNanoseconds := { value : UInt32 // value < 1000000000 }

def TimeOffsetSeconds.new (value : Int64) : Option TimeOffsetSeconds :=
  if h : -KTIME_SEC_MAX ≤ value ∧ value ≤ KTIME_SEC_MAX then some ⟨value, h⟩ else none

def TimeOffsetNanoseconds.new (value : UInt32) : Option TimeOffsetNanoseconds :=
  if h : value < 1000000000 then some ⟨value, h⟩ else none

/-- `TimeOffsetSeconds::default`. -/
def TimeOffsetSeconds.zero : TimeOffsetSeconds := ⟨0, by decide⟩

def TimeOffsetNanoseconds.zero : TimeOffsetNanoseconds := ⟨0, by decide⟩

structure TimeOffset where
  seconds : TimeOffsetSeconds := .zero
  nanoseconds : TimeOffsetNanoseconds := .zero
  deriving DecidableEq

namespace TimeOffset

def setSeconds (self : TimeOffset) (seconds : TimeOffsetSeconds) : TimeOffset :=
  { self with seconds }

def setNanoseconds (self : TimeOffset) (nanoseconds : TimeOffsetNanoseconds) : TimeOffset :=
  { self with nanoseconds }

end TimeOffset

/-- The numbers that `write_timens_offsets` formats. -/
def TimeOffset.intoRaw (self : TimeOffset) : Spawn.Mounting.TimeOffset :=
  ⟨self.seconds.val, self.nanoseconds.val⟩

structure TimeOptions where
  monotonicOffset : Option TimeOffset := none
  boottimeOffset : Option TimeOffset := none
  deriving DecidableEq

/-- `TimeOptions::monotonic_offset`. -/
def TimeOptions.configureMonotonic (self : TimeOptions) (configure : TimeOffset → TimeOffset) :
    TimeOptions :=
  { self with monotonicOffset := some (configure (self.monotonicOffset.getD {})) }

/-- `TimeOptions::boottime_offset`. -/
def TimeOptions.configureBoottime (self : TimeOptions) (configure : TimeOffset → TimeOffset) :
    TimeOptions :=
  { self with boottimeOffset := some (configure (self.boottimeOffset.getD {})) }

/-- `UserOptions`, with the fields of its only mapping mode. -/
structure UserOptions where
  uid : Option Uid := none
  gid : Option Gid := none
  disableUserns : Bool := true
  deriving DecidableEq

def UserOptions.simpleMapping (self : UserOptions) (uid : Option Uid) (gid : Option Gid) :
    UserOptions :=
  { self with uid, gid }

def UserOptions.setDisableUserns (self : UserOptions) (disableUserns : Bool) : UserOptions :=
  { self with disableUserns }

structure Namespaces where
  ipc : Namespace Unit := .unshared ()
  /-- `NetworkOptions::Isolate` is the only option. -/
  network : Namespace Unit := .unshared ()
  uts : Namespace UtsOptions := .unshared {}
  time : Namespace TimeOptions := .unshared {}
  user : UserOptions := {}
  deriving DecidableEq

namespace Namespaces

def shareIpc (self : Namespaces) : Namespaces := { self with ipc := .shared }

def unshareIpc (self : Namespaces) : Namespaces := { self with ipc := .unshared () }

def shareNetwork (self : Namespaces) : Namespaces := { self with network := .shared }

def unshareNetworkAndIsolate (self : Namespaces) : Namespaces :=
  { self with network := .unshared () }

def shareUts (self : Namespaces) : Namespaces := { self with uts := .shared }

def unshareUts (self : Namespaces) (configure : UtsOptions → UtsOptions) : Namespaces :=
  { self with uts := .unshared (configure (self.uts.unwrapOr {})) }

def shareTime (self : Namespaces) : Namespaces := { self with time := .shared }

def unshareTime (self : Namespaces) (configure : TimeOptions → TimeOptions) : Namespaces :=
  { self with time := .unshared (configure (self.time.unwrapOr {})) }

def userNamespace (self : Namespaces) (configure : UserOptions → UserOptions) : Namespaces :=
  { self with user := configure self.user }

end Namespaces

/-! ## Scheduler -/

namespace Scheduler

inductive Policy where
  | normal (nice : Int32)
  | batch (nice : Int32)
  | idle
  | fifo (priority : UInt32)
  | roundRobin (priority : UInt32)
  | deadline (runtime deadline period : UInt64) (allowReclaim signalOnOverrun : Bool)
  deriving DecidableEq, Repr

structure Attributes where
  resetOnFork : Bool := false
  policy : Policy := .normal 0
  minUtilization : Option UInt32 := none
  maxUtilization : Option UInt32 := none
  deriving DecidableEq, Repr

end Scheduler

structure Scheduler where
  attributes : Option Scheduler.Attributes := none
  oomScoreAdjustment : Option UInt16 := none
  createCoreSchedulingCookie : Bool := false
  deriving DecidableEq, Repr

/-! ## The rest -/

inductive Keyring where
  | inheritAuthority
  | inherit
  | reset
  deriving DecidableEq, Repr

structure Rlimit where
  soft : Option UInt64 := some 0
  hard : Option UInt64 := some 0
  deriving DecidableEq, Repr

/-- `RLIM64_INFINITY` is `u64::MAX`. -/
def Rlimit.intoRaw (self : Rlimit) : UInt64 × UInt64 :=
  (self.soft.getD 0xffffffffffffffff, self.hard.getD 0xffffffffffffffff)

structure Rlimits where
  addressSpace : Option Rlimit := none
  core : Option Rlimit := none
  cpu : Option Rlimit := none
  data : Option Rlimit := none
  fsize : Option Rlimit := none
  locks : Option Rlimit := none
  memlock : Option Rlimit := none
  msgqueue : Option Rlimit := none
  nice : Option Rlimit := none
  nofile : Option Rlimit := none
  nproc : Option Rlimit := none
  rtprio : Option Rlimit := none
  rttime : Option Rlimit := none
  sigpending : Option Rlimit := none
  stack : Option Rlimit := none
  deriving DecidableEq, Repr

/-- The limits in the order in which `apply_resource_limit_policy` applies them. -/
def Rlimits.table (self : Rlimits) : List (UInt32 × Option Rlimit) :=
  [(RLIMIT_AS, self.addressSpace), (RLIMIT_CORE, self.core), (RLIMIT_CPU, self.cpu),
    (RLIMIT_DATA, self.data), (RLIMIT_FSIZE, self.fsize), (RLIMIT_LOCKS, self.locks),
    (RLIMIT_MEMLOCK, self.memlock), (RLIMIT_MSGQUEUE, self.msgqueue), (RLIMIT_NICE, self.nice),
    (RLIMIT_NOFILE, self.nofile), (RLIMIT_NPROC, self.nproc), ( RLIMIT_RTPRIO, self.rtprio),
    (RLIMIT_RTTIME, self.rttime), (RLIMIT_SIGPENDING, self.sigpending),
    (RLIMIT_STACK, self.stack)]

/-- What the limits of a process are once those of the table were set. -/
def limitsOver (table : List (UInt32 × Option Rlimit)) (inherited : UInt32 → UInt64 × UInt64)
    (resource : UInt32) : UInt64 × UInt64 :=
  match table.lookup resource with
  | some (some limit) => limit.intoRaw
  | _ => inherited resource

def Rlimits.over (self : Rlimits) (inherited : UInt32 → UInt64 × UInt64) :
    UInt32 → UInt64 × UInt64 :=
  limitsOver self.table inherited

/-- `linux::sock_filter`. -/
structure SockFilter where
  code : UInt16
  jt : UInt8
  jf : UInt8
  k : UInt32
  deriving DecidableEq, Repr

/-- `policy::Policy`, whose mount tree and descriptors have been validated. -/
structure Policy extends Bubblebox.Policy where
  namespaces : Namespaces := {}
  targetCapabilities : CapabilitySet := 0
  fileDescriptors : FdPolicy
  validDescriptors : isValidFdPolicy fileDescriptors = true
  newSession : Bool := true
  keyring : Keyring := .reset
  rlimits : Rlimits := {}
  scheduler : Scheduler := {}
  seccompFilter : Option (List SockFilter) := none

namespace Policy

/-- `Policy::default`. -/
def default : Policy where
  toPolicy := .default
  fileDescriptors := ∅
  validDescriptors := by decide

/-- `Policy::namespace`. -/
def configureNamespaces (self : Policy) (configure : Namespaces → Namespaces) : Policy :=
  { self with namespaces := configure self.namespaces }

/-- `Policy::mount_tree`; `none` is `InvalidMountPolicy`. -/
def configureMounts (self : Policy) (configure : MountTree → MountTree) : Option Policy :=
  (self.configureMountTree configure).map fun mounts => { self with toPolicy := mounts }

/-- `Policy::fd_policy`; `none` is `InvalidFdPolicy`. -/
def configureFds (self : Policy) (configure : FdPolicy → FdPolicy) : Option Policy :=
  if h : isValidFdPolicy (configure self.fileDescriptors) = true then
    some { self with fileDescriptors := configure self.fileDescriptors, validDescriptors := h }
  else none

def setNewSession (self : Policy) (newSession : Bool) : Policy := { self with newSession }

def setTargetCapabilities (self : Policy) (targetCapabilities : CapabilitySet) : Policy :=
  { self with targetCapabilities }

variable {self policy : Policy}

theorem configureMounts_eq_some {configure : MountTree → MountTree} :
    self.configureMounts configure = some policy ↔
      ∃ mounts, self.configureMountTree configure = some mounts ∧
        policy = { self with toPolicy := mounts } := by
  unfold configureMounts
  rw [Option.map_eq_some_iff]
  exact exists_congr fun mounts => and_congr_right fun _ => eq_comm

theorem configureFds_eq_some {configure : FdPolicy → FdPolicy} :
    self.configureFds configure = some policy ↔
      ∃ hvalid : isValidFdPolicy (configure self.fileDescriptors) = true, policy = { self with
        fileDescriptors := configure self.fileDescriptors, validDescriptors := hvalid } := by
  unfold configureFds
  by_cases hvalid : isValidFdPolicy (configure self.fileDescriptors) = true
  · rw [dif_pos hvalid, Option.some.injEq]
    exact ⟨fun h => ⟨hvalid, h.symm⟩, fun ⟨_, h⟩ => h.symm⟩
  · rw [dif_neg hvalid]
    exact ⟨fun h => (by cases h), fun ⟨h, _⟩ => absurd h hvalid⟩

end Policy

/-! ## `sched_attr` -/

structure SchedAttr where
  size : UInt32 := 0
  schedPolicy : UInt32 := 0
  schedFlags : UInt64 := 0
  schedNice : Int32 := 0
  schedPriority : UInt32 := 0
  schedRuntime : UInt64 := 0
  schedDeadline : UInt64 := 0
  schedPeriod : UInt64 := 0
  schedUtilMin : UInt32 := 0
  schedUtilMax : UInt32 := 0
  deriving DecidableEq, Repr

/-- `size_of::<sched_attr>()`. -/
def sizeOfSchedAttr : UInt32 := 56

/-- The flag, where it is set. -/
def flagIf (condition : Bool) (flag : UInt64) : UInt64 := if condition then flag else 0

@[simp] theorem flagIf_true (flag : UInt64) : flagIf true flag = flag := rfl

@[simp] theorem flagIf_false (flag : UInt64) : flagIf false flag = 0 := rfl

/-- The `match attributes.policy`. -/
def SchedAttr.setPolicy (attr : SchedAttr) : Scheduler.Policy → SchedAttr
  | .normal nice => { attr with schedPolicy := SCHED_NORMAL, schedNice := nice }
  | .batch nice => { attr with schedPolicy := SCHED_BATCH, schedNice := nice }
  | .idle => { attr with schedPolicy := SCHED_IDLE }
  | .fifo priority => { attr with schedPolicy := SCHED_FIFO, schedPriority := priority }
  | .roundRobin priority => { attr with schedPolicy := SCHED_RR, schedPriority := priority }
  | .deadline runtime deadline period allowReclaim signalOnOverrun =>
    { attr with
      schedPolicy := SCHED_DEADLINE
      schedRuntime := runtime
      schedDeadline := deadline
      schedPeriod := period
      schedFlags := attr.schedFlags ||| flagIf allowReclaim SCHED_FLAG_RECLAIM |||
        flagIf signalOnOverrun SCHED_FLAG_DL_OVERRUN }

/-- The `sched_attr` that `apply_scheduler_policy` fills in, from zero. -/
def Scheduler.Attributes.schedAttr (self : Scheduler.Attributes) : SchedAttr :=
  let attr : SchedAttr :=
    { size := sizeOfSchedAttr, schedFlags := flagIf self.resetOnFork SCHED_FLAG_RESET_ON_FORK }
  let attr := attr.setPolicy self.policy
  let attr := match self.minUtilization with
    | some minUtilization =>
      { attr with
        schedFlags := attr.schedFlags ||| SCHED_FLAG_UTIL_CLAMP_MIN
        schedUtilMin := minUtilization }
    | none => attr
  match self.maxUtilization with
  | some maxUtilization =>
    { attr with
      schedFlags := attr.schedFlags ||| SCHED_FLAG_UTIL_CLAMP_MAX
      schedUtilMax := maxUtilization }
  | none => attr

/-! ### What the kernel reads in it -/

/-- A flag of `sched_flags`. -/
def SchedAttr.has (self : SchedAttr) (flag : UInt64) : Bool := self.schedFlags &&& flag != 0

/-- The policy that `sched_policy` names, with the fields that belong to it. -/
def SchedAttr.policy? (self : SchedAttr) : Option Scheduler.Policy :=
  if self.schedPolicy = SCHED_NORMAL then some (.normal self.schedNice)
  else if self.schedPolicy = SCHED_BATCH then some (.batch self.schedNice)
  else if self.schedPolicy = SCHED_IDLE then some .idle
  else if self.schedPolicy = SCHED_FIFO then some (.fifo self.schedPriority)
  else if self.schedPolicy = SCHED_RR then some (.roundRobin self.schedPriority)
  else if self.schedPolicy = SCHED_DEADLINE then
    some (.deadline self.schedRuntime self.schedDeadline self.schedPeriod
      (self.has SCHED_FLAG_RECLAIM) (self.has SCHED_FLAG_DL_OVERRUN))
  else none

/-- `sched_setattr(2)`: the attributes that a `sched_attr` asks for. -/
def SchedAttr.attributes? (self : SchedAttr) : Option Scheduler.Attributes := do
  let policy ← self.policy?
  return {
    resetOnFork := self.has SCHED_FLAG_RESET_ON_FORK
    policy
    minUtilization := if self.has SCHED_FLAG_UTIL_CLAMP_MIN then some self.schedUtilMin else none
    maxUtilization := if self.has SCHED_FLAG_UTIL_CLAMP_MAX then some self.schedUtilMax else none }

/-- The flags, each where its condition holds. -/
def flagsOf (resetOnFork reclaim overrun clampMin clampMax : Bool) : UInt64 :=
  flagIf resetOnFork SCHED_FLAG_RESET_ON_FORK ||| flagIf reclaim SCHED_FLAG_RECLAIM |||
    flagIf overrun SCHED_FLAG_DL_OVERRUN ||| flagIf clampMin SCHED_FLAG_UTIL_CLAMP_MIN |||
    flagIf clampMax SCHED_FLAG_UTIL_CLAMP_MAX

/-- No two flags share a bit. -/
theorem flagsOf_exact : ∀ resetOnFork reclaim overrun clampMin clampMax : Bool,
    let flags := flagsOf resetOnFork reclaim overrun clampMin clampMax
    (flags &&& SCHED_FLAG_RESET_ON_FORK != 0) = resetOnFork ∧
      (flags &&& SCHED_FLAG_RECLAIM != 0) = reclaim ∧
      (flags &&& SCHED_FLAG_DL_OVERRUN != 0) = overrun ∧
      (flags &&& SCHED_FLAG_UTIL_CLAMP_MIN != 0) = clampMin ∧
      (flags &&& SCHED_FLAG_UTIL_CLAMP_MAX != 0) = clampMax := by
  decide

def Scheduler.Policy.allowReclaim : Scheduler.Policy → Bool
  | .deadline _ _ _ allowReclaim _ => allowReclaim
  | _ => false

def Scheduler.Policy.signalOnOverrun : Scheduler.Policy → Bool
  | .deadline _ _ _ _ signalOnOverrun => signalOnOverrun
  | _ => false

theorem schedFlags_schedAttr (attributes : Scheduler.Attributes) :
    attributes.schedAttr.schedFlags =
      flagsOf attributes.resetOnFork attributes.policy.allowReclaim
        attributes.policy.signalOnOverrun attributes.minUtilization.isSome
        attributes.maxUtilization.isSome := by
  obtain ⟨resetOnFork, policy, minUtilization, maxUtilization⟩ := attributes
  cases policy <;> cases minUtilization <;> cases maxUtilization <;>
    simp [Scheduler.Attributes.schedAttr, SchedAttr.setPolicy, flagsOf,
      Scheduler.Policy.allowReclaim, Scheduler.Policy.signalOnOverrun]

theorem utilization_schedAttr (attributes : Scheduler.Attributes) :
    attributes.schedAttr.schedUtilMin = attributes.minUtilization.getD 0 ∧
      attributes.schedAttr.schedUtilMax = attributes.maxUtilization.getD 0 := by
  obtain ⟨resetOnFork, policy, minUtilization, maxUtilization⟩ := attributes
  cases policy <;> cases minUtilization <;> cases maxUtilization <;> exact ⟨rfl, rfl⟩

theorem policy?_schedAttr (attributes : Scheduler.Attributes) :
    attributes.schedAttr.policy? = some attributes.policy := by
  have hflags := schedFlags_schedAttr attributes
  obtain ⟨-, hreclaim, hoverrun, -, -⟩ := flagsOf_exact attributes.resetOnFork
    attributes.policy.allowReclaim attributes.policy.signalOnOverrun
    attributes.minUtilization.isSome attributes.maxUtilization.isSome
  rw [← hflags] at hreclaim hoverrun
  obtain ⟨resetOnFork, policy, minUtilization, maxUtilization⟩ := attributes
  cases policy with
  | normal | batch | idle | fifo | roundRobin =>
    cases minUtilization <;> cases maxUtilization <;> rfl
  | deadline runtime due period allowReclaim signalOnOverrun =>
    have hread : ∀ attr : SchedAttr, attr.schedPolicy = SCHED_DEADLINE →
        attr.policy? = some (.deadline attr.schedRuntime attr.schedDeadline attr.schedPeriod
          (attr.has SCHED_FLAG_RECLAIM) (attr.has SCHED_FLAG_DL_OVERRUN)) := by
      intro attr hattr
      simp [SchedAttr.policy?, hattr, SCHED_NORMAL, SCHED_BATCH, SCHED_IDLE, SCHED_FIFO, SCHED_RR,
        SCHED_DEADLINE]
    rw [hread _ (by cases minUtilization <;> cases maxUtilization <;> rfl)]
    unfold SchedAttr.has
    rw [hreclaim, hoverrun]
    cases minUtilization <;> cases maxUtilization <;> rfl

/-- The kernel reads in a `sched_attr` the attributes it was made of. -/
theorem attributes?_schedAttr (attributes : Scheduler.Attributes) :
    attributes.schedAttr.attributes? = some attributes := by
  obtain ⟨hreset, -, -, hmin, hmax⟩ := flagsOf_exact attributes.resetOnFork
    attributes.policy.allowReclaim attributes.policy.signalOnOverrun
    attributes.minUtilization.isSome attributes.maxUtilization.isSome
  rw [← schedFlags_schedAttr] at hreset hmin hmax
  obtain ⟨hutilMin, hutilMax⟩ := utilization_schedAttr attributes
  have hif : ∀ x : Option UInt32, (if x.isSome = true then some (x.getD 0) else none) = x := by
    intro x
    cases x <;> rfl
  simp [SchedAttr.attributes?, policy?_schedAttr, SchedAttr.has, hreset, hmin, hmax, hutilMin,
    hutilMax, hif]

end LayerCake.Bubblebox.Sandbox
