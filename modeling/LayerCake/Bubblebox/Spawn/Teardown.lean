import LayerCake.Bubblebox.Spawn.Report
import LayerCake.Meowix.Linux

/-
  Who calls the cgroup backend's teardown: `clone_into`
  (`bubblebox/src/platform/linux/spawn/mod.rs`), `Policy::spawn_with`
  (`policy/mod.rs`) and the guest handle (`command.rs`).

  Correspondence (Rust ↔ Lean):
    `clone_into`                     ↔ `cloneInto`
    `scopeguard::guard`              ↔ the state `earlyReturn` tears down
    `Policy::spawn_with`             ↔ `spawnWith`
    `GuestInner`                     ↔ `GuestInner`
    `wait_internal`, `wait`          ↔ `GuestInner.waitInternal`
    `try_wait`                       ↔ `GuestInner.tryWait`
    `terminate_internal`             ↔ `GuestInner.terminateInternal`
    `terminate`, `Drop::drop`        ↔ `GuestInner.terminate`, `GuestInner.drop`
  The clone is a call that is answered in both processes; the run in which it is
  answered `child` is the run of the guest. A local that owns a descriptor closes
  it where it goes out of scope, the last one declared first. The boxed destructor
  is the state it captured. Debug assertions are left out.

  Every answer to every call is possible, and a run leaves the trace of its calls.

  What is proved: `session_teardown` — in every run teardown is only called with the
  state as the hook left it, once, never in the guest, and where there is a guest not
  before it was sent `SIGKILL` or its pidfd was closed; and once the spawn has failed
  or the guest handle is gone it has been called.
-/

namespace LayerCake.Bubblebox.Spawn

open LayerCake.Effects LayerCake.Meowix LayerCake.Linux

/-! ## The calls -/

/-- The clone flags `clone_into` sets. -/
inductive CloneFlag where
  | newuser | newpid | newipc | newnet | newuts
  | pidfd | autoreap | nnp | pidfdAutokill | clearSighand | intoCgroup
  deriving DecidableEq, Repr

/-- The fields of `clone_args` that are not always zero. -/
structure CloneArgs where
  flags : List CloneFlag
  cgroup : Option RawFd
  deriving DecidableEq, Repr

/-- `ids::Pid`. -/
abbrev Pid := Int32

/-- `CloneResult`, with the pidfd that the kernel stores in the parent. -/
inductive CloneResult where
  | parent (pid : Pid) (pidfd : RawFd)
  | child
  deriving DecidableEq, Repr

/-- The fields of `pidfd_info` that are read. -/
structure PidfdInfo where
  mask : UInt64
  exitCode : Int32
  deriving DecidableEq, Repr

/-- `linux::PIDFD_INFO_EXIT`. -/
def PIDFD_INFO_EXIT : UInt64 := 8

/-- A timeout of `ppoll`, in seconds and nanoseconds. -/
structure Timespec where
  tvSec : Int64
  tvNsec : Int64
  deriving DecidableEq

/-- The calls of `clone_into` and of the guest handle, over the state of a cgroup
backend. -/
inductive HostOp (State : Type) where
  | geteuid
  | getegid
  | pipe2 (flags : UInt32)
  | cloneArgsCgroup (state : State)
  | clone3 (args : CloneArgs)
  | close (fd : RawFd)
  | dropFd (fd : RawFd)
  | hostPostCloneHook (state : State) (pid : Pid)
  | read (fd : RawFd) (len : Nat)
  | guest (op : ReportOp)
  | pidfdSendSignal (pidfd : RawFd) (sig : Int32) (flags : UInt32)
  | ppoll (pidfd : RawFd) (timeout : Option Timespec)
  | pidfdGetInfo (pidfd : RawFd) (mask : UInt64)
  | teardown (state : State)

@[reducible] def HostCalls (State : Type) : Interface where
  Op := HostOp State
  Res
    | .geteuid => Except Errno UInt32
    | .getegid => Except Errno UInt32
    | .pipe2 _ => Except Errno (RawFd × RawFd)
    | .cloneArgsCgroup _ => Option (Except SyscallError RawFd)
    | .clone3 _ => Except Errno CloneResult
    | .close _ => Except Errno Unit
    | .dropFd _ => Unit
    | .hostPostCloneHook _ _ => Except SpawnError Unit × State
    | .read _ _ => Except Errno Bytes
    | .guest op => ReportCalls.Res op
    | .pidfdSendSignal _ _ _ => Except Errno Unit
    | .ppoll _ _ => Except Errno Nat
    | .pidfdGetInfo _ _ => Except Errno PidfdInfo
    | .teardown _ => Except PostSpawnHost Unit

/-! ## `clone_into` -/

/-- What `clone_into` reads of a policy. -/
structure SpawnPolicy where
  ipcShared : Bool
  networkShared : Bool
  utsShared : Bool
  seccompFilter : Bool

/-- The flags of the clone. -/
def SpawnPolicy.cloneFlags (policy : SpawnPolicy) : List CloneFlag :=
  [.newuser, .newpid, .pidfd] ++ (if policy.ipcShared then [] else [.newipc]) ++
    (if policy.networkShared then [] else [.newnet]) ++
    (if policy.utsShared then [] else [.newuts]) ++
    [.autoreap, .nnp, .pidfdAutokill, .clearSighand]

/-- The arguments of the clone. -/
def SpawnPolicy.cloneArgs (policy : SpawnPolicy) : Option RawFd → CloneArgs
  | some cgroup => { flags := policy.cloneFlags ++ [.intoCgroup], cgroup := some cgroup }
  | none => { flags := policy.cloneFlags, cgroup := none }

/-- How `clone_into` ends: it returns in the host, and the guest's branch does not
return to its caller. -/
inductive Spawned (α : Type) where
  | host (result : Except SpawnError α)
  | guest (outcome : Outcome)
  deriving DecidableEq

section Code
variable {State : Type}

/-- Locals that own a descriptor go out of scope. -/
def dropFds : List RawFd → Prog (HostCalls State) Unit
  | [] => return ()
  | fd :: fds => do
    perform (I := HostCalls State) (.dropFd fd)
    dropFds fds

/-- An error leaves `clone_into` while the guard is armed: the locals go out of scope,
and last the guard, which was declared first. -/
def earlyReturn {α : Type} (locals : List RawFd) (guard : State) (e : SpawnError) :
    Prog (HostCalls State) (Spawned α) := do
  dropFds locals
  let _ ← perform (I := HostCalls State) (.teardown guard)
  return .host (.error e)

/-- The parent's branch of `clone_into`. -/
def parentBranch (order : ByteOrder) (guestPid : Pid) (guestPidfd hostPipe guestPipe : RawFd)
    (cgroupsState : State) : Prog (HostCalls State) (Spawned (Pid × RawFd × State)) := do
  match ← perform (I := HostCalls State) (.close guestPipe) with
  | .error e =>
    earlyReturn [guestPidfd, hostPipe] cgroupsState (.postSpawnHost (.syscall ⟨.close, e⟩))
  | .ok () =>
    let (result, cgroupsState) ← hostPostClone order
      (fun state => perform (I := HostCalls State) (.hostPostCloneHook state guestPid))
      (fun len => performUntil (I := HostCalls State) (.read hostPipe len) interrupted)
      cgroupsState
    perform (I := HostCalls State) (.dropFd hostPipe) -- `host_post_clone` owned it
    match result with
    | .error e => earlyReturn [guestPidfd] cgroupsState e
    | .ok () => return .host (.ok (guestPid, guestPidfd, cgroupsState))

/-- `clone_into`. -/
def cloneInto (order : ByteOrder) (policy : SpawnPolicy) (cgroupsState : State) :
    Prog (HostCalls State) (Spawned (Pid × RawFd × State)) := do
  match ← perform (I := HostCalls State) .geteuid with
  | .error e => earlyReturn [] cgroupsState (.preSpawn ⟨.geteuid, e⟩)
  | .ok _ =>
  match ← perform (I := HostCalls State) .getegid with
  | .error e => earlyReturn [] cgroupsState (.preSpawn ⟨.getegid, e⟩)
  | .ok _ =>
  match ← perform (I := HostCalls State) (.pipe2 O_CLOEXEC) with
  | .error e => earlyReturn [] cgroupsState (.preSpawn ⟨.pipe2, e⟩)
  | .ok (hostPipe, guestPipe) =>
  match (← perform (I := HostCalls State) (.cloneArgsCgroup cgroupsState)).sequence with
  | .error e => earlyReturn [guestPipe, hostPipe] cgroupsState (.preSpawn e)
  | .ok cgroup =>
  match ← perform (I := HostCalls State) (.clone3 (policy.cloneArgs cgroup)) with
  | .error e => earlyReturn [guestPipe, hostPipe] cgroupsState (.preSpawn ⟨.clone3, e⟩)
  | .ok (.parent guestPid guestPidfd) =>
    parentBranch order guestPid guestPidfd hostPipe guestPipe cgroupsState
  | .ok .child =>
    -- the guard is disarmed, and the guest has its own copy of everything
    let outcome ← (guestBranch order policy.seccompFilter).embed
      (J := HostCalls State) HostOp.guest (fun _ r => r)
    return .guest outcome

/-! ## The guest handle -/

/-- `process::ExitStatus`, raw. -/
abbrev ExitStatus := Int32

/-- `errors::Command`, as far as the guest handle raises it. -/
inductive CommandError where
  | syscall (error : SyscallError)
  | missingInformation
  deriving DecidableEq, Repr

/-- `errors::GuestTermination`. -/
structure GuestTermination where
  signal : Option SyscallError
  wait : Option (Except CommandError ExitStatus)
  cgroup : Option PostSpawnHost

/-- `GuestInner`; the destructor is the state its closure captured. -/
structure GuestInner (State : Type) where
  pidfd : RawFd
  pid : Pid
  cgroupsDestructor : Option State

namespace GuestInner

/-- The end of a wait: the exit status, if the kernel returned it. -/
def exitStatus (guest : GuestInner State) :
    Prog (HostCalls State) (Except CommandError ExitStatus) := do
  match ← perform (I := HostCalls State) (.pidfdGetInfo guest.pidfd PIDFD_INFO_EXIT) with
  | .error e => return .error (.syscall ⟨.ioctl, e⟩)
  | .ok info =>
    if info.mask &&& PIDFD_INFO_EXIT ≠ 0 then return .ok info.exitCode
    else return .error .missingInformation

/-- `wait_internal`, and `wait`. -/
def waitInternal (guest : GuestInner State) :
    Prog (HostCalls State) (Except CommandError ExitStatus) := do
  match ← performUntil (I := HostCalls State) (.ppoll guest.pidfd none) interrupted with
  | .error e => return .error (.syscall ⟨.ppoll, e⟩)
  | .ok _ => guest.exitStatus

/-- `try_wait`. -/
def tryWait (guest : GuestInner State) :
    Prog (HostCalls State) (Except CommandError (Option ExitStatus)) := do
  match ← performUntil (I := HostCalls State) (.ppoll guest.pidfd (some ⟨0, 0⟩)) interrupted with
  | .error e => return .error (.syscall ⟨.ppoll, e⟩)
  | .ok nReady =>
    if nReady = 0 then return .ok none
    else
      let status ← guest.exitStatus
      return status.map some

/-- The error of the `SIGKILL`, if one is cared about. -/
def signalError : Except Errno Unit → Option SyscallError
  | .ok () => none
  | .error e => if e = .SRCH then none else some ⟨.pidfdSendSignal, e⟩

/-- `cgroups_destructor.take()` and its call. -/
def runDestructor (guest : GuestInner State) : Prog (HostCalls State) (Option PostSpawnHost) := do
  match guest.cgroupsDestructor with
  | none => return none
  | some state =>
    match ← perform (I := HostCalls State) (.teardown state) with
    | .ok () => return none
    | .error e => return some e

/-- `terminate_internal`: the result, and the guest without its destructor. -/
def terminateInternal (guest : GuestInner State) :
    Prog (HostCalls State) (Except GuestTermination ExitStatus × GuestInner State) := do
  let sent ← perform (I := HostCalls State) (.pidfdSendSignal guest.pidfd (.ofNat SIGKILL) 0)
  let signal := signalError sent
  let wait ← (match signal with
    | none => some <$> guest.waitInternal
    | some _ => pure none)
  let cgroup ← guest.runDestructor
  let guest := { guest with cgroupsDestructor := none }
  match wait, signal, cgroup with
  | some (.ok status), none, none => return (.ok status, guest)
  | wait, signal, cgroup => return (.error ⟨signal, wait, cgroup⟩, guest)

/-- `Drop::drop`, and after it the drop of the fields. -/
def drop (guest : GuestInner State) : Prog (HostCalls State) Unit := do
  let (_, guest) ← guest.terminateInternal
  perform (I := HostCalls State) (.dropFd guest.pidfd)

/-- `terminate`, which owns the guest and drops it on return. -/
def terminate (guest : GuestInner State) :
    Prog (HostCalls State) (Except GuestTermination ExitStatus) := do
  let (result, guest) ← guest.terminateInternal
  guest.drop
  return result

end GuestInner

/-- `Policy::spawn_with`. -/
def spawnWith (order : ByteOrder) (policy : SpawnPolicy) (cgroupsState : State) :
    Prog (HostCalls State) (Spawned (GuestInner State)) := do
  match ← cloneInto order policy cgroupsState with
  | .host (.error e) => return .host (.error e)
  | .host (.ok (pid, pidfd, finalCgroupsState)) =>
    return .host (.ok { pidfd, pid, cgroupsDestructor := some finalCgroupsState })
  | .guest outcome => return .guest outcome

/-- The methods that borrow a guest. -/
inductive GuestMethod where
  | wait | tryWait

/-- The two ways to consume one. -/
inductive GuestEnd where
  | terminate | drop

/-- The calls on a guest, up to the one that consumes it. -/
def useGuest (guest : GuestInner State) (last : GuestEnd) :
    List GuestMethod → Prog (HostCalls State) Unit
  | .wait :: methods => do
    let _ ← guest.waitInternal
    useGuest guest last methods
  | .tryWait :: methods => do
    let _ ← guest.tryWait
    useGuest guest last methods
  | [] => match last with
    | .terminate => do
      let _ ← guest.terminate
      return ()
    | .drop => guest.drop

/-- A spawn and, when it succeeds, all that is done with the guest. -/
def session (order : ByteOrder) (policy : SpawnPolicy) (cgroupsState : State)
    (methods : List GuestMethod) (last : GuestEnd) : Prog (HostCalls State) (Spawned Unit) := do
  match ← spawnWith order policy cgroupsState with
  | .host (.error e) => return .host (.error e)
  | .host (.ok guest) =>
    useGuest guest last methods
    return .host (.ok ())
  | .guest outcome => return .guest outcome

/-! ## Traces -/

/-- A call and its answer. -/
structure Event (State : Type) where
  op : HostOp State
  res : (HostCalls State).Res op

/-- The calls of a run, the last one first. -/
abbrev Trace (State : Type) := List (Event State)

/-- Every answer is possible, and the trace records it. -/
def hostKernel : Kernel (HostCalls State) (Trace State) := fun past op r t => t = ⟨op, r⟩ :: past

namespace Trace

/-- The states teardown was called with. -/
def teardowns : Trace State → List State
  | [] => []
  | ⟨.teardown state, _⟩ :: past => state :: teardowns past
  | _ :: past => teardowns past

/-- The state of the spawn, as the hook left it. -/
def spawnState (initial : State) : Trace State → State
  | [] => initial
  | ⟨.hostPostCloneHook _ _, r⟩ :: _ => r.2
  | _ :: past => spawnState initial past

/-- Where the clone returned. -/
def cloned : Trace State → Option CloneResult
  | [] => none
  | ⟨.clone3 _, .ok result⟩ :: _ => some result
  | _ :: past => cloned past

/-- Since the clone, `SIGKILL` was sent through the pidfd, or the sending attempted, or
the pidfd was closed. -/
def killedOrClosed (pidfd : RawFd) : Trace State → Prop
  | [] => False
  | ⟨.clone3 _, _⟩ :: _ => False
  | ⟨.pidfdSendSignal fd sig _, _⟩ :: past =>
    (fd = pidfd ∧ sig = .ofNat SIGKILL) ∨ killedOrClosed pidfd past
  | ⟨.dropFd fd, _⟩ :: past => fd = pidfd ∨ killedOrClosed pidfd past
  | _ :: past => killedOrClosed pidfd past

/-- When teardown may be called. -/
structure MayTeardown (initial : State) (past : Trace State) (state : State) : Prop where
  state : state = past.spawnState initial
  first : past.teardowns = []
  host : past.cloned ≠ some .child
  killed : ∀ pid pidfd, past.cloned = some (.parent pid pidfd) → past.killedOrClosed pidfd

/-- Every call of teardown was one that may be made, and the clone came before it. -/
def Orderly (initial : State) : Trace State → Prop
  | [] => True
  | ⟨.teardown state, _⟩ :: past => MayTeardown initial past state ∧ Orderly initial past
  | ⟨.clone3 _, _⟩ :: past => teardowns past = [] ∧ Orderly initial past
  | _ :: past => Orderly initial past

section Orderly
variable {initial : State}

theorem Orderly.once : {t : Trace State} → t.Orderly initial → t.teardowns.length ≤ 1
  | [], _ => by simp [teardowns]
  | ⟨op, _⟩ :: past, h => by
    cases op with
    | teardown state => simp [teardowns, h.1.first]
    | clone3 args => exact Orderly.once (t := past) h.2
    | _ => exact Orderly.once (t := past) h

theorem Orderly.guest : {t : Trace State} → t.Orderly initial → t.cloned = some .child →
    t.teardowns = []
  | [], _, _ => rfl
  | ⟨op, r⟩ :: past, h, hc => by
    cases op with
    | teardown state => exact absurd hc h.1.host
    | clone3 args => exact h.1
    | _ => exact Orderly.guest (t := past) h hc

end Orderly

end Trace

/-! ## Calls that leave the ledger alone -/

/-- The calls other than the clone, the hook and teardown. -/
def Quiet : HostOp State → Prop
  | .clone3 _ | .hostPostCloneHook _ _ | .teardown _ => False
  | _ => True

/-- The spawn's state is `state` and teardown was not called. -/
structure Armed (initial state : State) (result : Option CloneResult) (t : Trace State) : Prop where
  teardowns : t.teardowns = []
  state : t.spawnState initial = state
  cloned : t.cloned = result

/-- Teardown was called once, with the spawn's state. -/
structure TornDown (initial : State) (t : Trace State) : Prop where
  teardowns : t.teardowns = [t.spawnState initial]
  host : t.cloned ≠ some .child

/-- The run of the guest. -/
structure InGuest (t : Trace State) : Prop where
  teardowns : t.teardowns = []
  guest : t.cloned = some .child

/-- What every call keeps. -/
def KeepsOrder (initial : State) (t t' : Trace State) : Prop :=
  t.Orderly initial → t'.Orderly initial

section Quiet
variable {initial state : State} {result : Option CloneResult} {t : Trace State} {op : HostOp State}

theorem Quiet.teardowns (h : Quiet op) (r) : Trace.teardowns (⟨op, r⟩ :: t) = t.teardowns := by
  cases op <;> first | rfl | cases h

theorem Quiet.spawnState (h : Quiet op) (r) :
    Trace.spawnState initial (⟨op, r⟩ :: t) = t.spawnState initial := by
  cases op <;> first | rfl | cases h

theorem Quiet.cloned (h : Quiet op) (r) : Trace.cloned (⟨op, r⟩ :: t) = t.cloned := by
  cases op <;> first | rfl | cases h

theorem Quiet.keepsOrder (h : Quiet op) (r) : KeepsOrder initial t (⟨op, r⟩ :: t) := by
  cases op <;> first | exact fun ho => ho | cases h

theorem Quiet.killedOrClosed (h : Quiet op) {pidfd : RawFd} (r) (ht : t.killedOrClosed pidfd) :
    Trace.killedOrClosed pidfd (⟨op, r⟩ :: t) := by
  cases op <;> first | exact ht | exact .inr ht | cases h

theorem Armed.quiet (ht : Armed initial state result t) (h : Quiet op) (r) :
    Armed initial state result (⟨op, r⟩ :: t) where
  teardowns := (h.teardowns r).trans ht.teardowns
  state := (h.spawnState r).trans ht.state
  cloned := (h.cloned r).trans ht.cloned

theorem TornDown.quiet (ht : TornDown initial t) (h : Quiet op) (r) :
    TornDown initial (⟨op, r⟩ :: t) where
  teardowns := by rw [h.teardowns, h.spawnState, ht.teardowns]
  host := by rw [h.cloned]; exact ht.host

theorem InGuest.quiet (ht : InGuest t) (h : Quiet op) (r) : InGuest (⟨op, r⟩ :: t) where
  teardowns := (h.teardowns r).trans ht.teardowns
  guest := (h.cloned r).trans ht.guest

/-- What quiet calls keep, a program of quiet calls keeps. -/
theorem quiet_sat {α : Type} {p : Prog (HostCalls State) α} (hp : p.Calls Quiet)
    {J : Trace State → Prop} (hJ : ∀ t op r, J t → Quiet op → J (⟨op, r⟩ :: t)) (ht : J t) :
    Sat hostKernel (· = ·) (KeepsOrder initial) p (fun _ t => J t) t := by
  refine hp.sat ?_ ht
  intro t op r _ hq hJt e
  subst e
  exact ⟨hq.keepsOrder r, hJ t op r hJt hq⟩

/-- A quiet call, answered once. -/
theorem quiet_next {α : Type} {k : (HostCalls State).Res op → Prog (HostCalls State) α}
    {Q : α → Trace State → Prop} (h : Quiet op)
    (hk : ∀ r, Sat hostKernel (· = ·) (KeepsOrder initial) (k r) Q (⟨op, r⟩ :: t)) :
    Sat hostKernel (· = ·) (KeepsOrder initial) (.call op (fun _ => false) k) Q t := by
  apply Sat.next
  intro r _ e
  subst e
  exact ⟨h.keepsOrder r, hk r⟩

/-- A quiet call while teardown is still owed. -/
theorem Armed.next {α : Type} {k : (HostCalls State).Res op → Prog (HostCalls State) α}
    {Q : α → Trace State → Prop} (ht : Armed initial state result t) (h : Quiet op)
    (hk : ∀ r t', Armed initial state result t' →
      Sat hostKernel (· = ·) (KeepsOrder initial) (k r) Q t') :
    Sat hostKernel (· = ·) (KeepsOrder initial) (.call op (fun _ => false) k) Q t :=
  quiet_next h fun r => hk r _ (ht.quiet h r)

/-- Teardown, called when it may be. -/
theorem teardown_next {α : Type} {k : Except PostSpawnHost Unit → Prog (HostCalls State) α}
    {Q : α → Trace State → Prop} (ht : Armed initial state result t) (hhost : result ≠ some .child)
    (hkill : ∀ pid pidfd, result = some (.parent pid pidfd) → t.killedOrClosed pidfd)
    (hk : ∀ r t', TornDown initial t' →
      Sat hostKernel (· = ·) (KeepsOrder initial) (k r) Q t') :
    Sat hostKernel (· = ·) (KeepsOrder initial) (.call (.teardown state) (fun _ => false) k) Q
      t := by
  apply Sat.next
  intro r _ e
  subst e
  have hmay : t.MayTeardown initial state :=
    ⟨ht.state.symm, ht.teardowns, by rw [ht.cloned]; exact hhost, by rw [ht.cloned]; exact hkill⟩
  -- whether it succeeds or not, teardown was called
  refine ⟨fun ho => ⟨hmay, ho⟩, hk r _ ⟨?_, ?_⟩⟩
  · show state :: t.teardowns = [t.spawnState initial]
    rw [ht.teardowns, ht.state]
  · show t.cloned ≠ some .child
    rw [ht.cloned]
    exact hhost

end Quiet

/-! ## The spawn -/

section Spawn
variable {initial state : State} {result : Option CloneResult} {t : Trace State}

/-- How a spawn ends: torn down, in the guest, or with a value and the duty to tear
down. -/
def Leaves {α : Type} (initial : State) (Q : α → Trace State → Prop) :
    Spawned α → Trace State → Prop
  | .host (.error _), t => TornDown initial t
  | .host (.ok a), t => Q a t
  | .guest _, t => InGuest t

/-- Locals that are dropped are closed. -/
theorem dropFds_sat (locals : List RawFd) (ht : Armed initial state result t) :
    Sat hostKernel (· = ·) (KeepsOrder initial) (dropFds locals)
      (fun _ t' => Armed initial state result t' ∧
        ∀ fd, t.killedOrClosed fd ∨ fd ∈ locals → t'.killedOrClosed fd) t := by
  induction locals generalizing t with
  | nil => exact sat_done.mpr ⟨ht, fun fd h => by simpa using h⟩
  | cons fd locals ih =>
    have hq : Quiet (.dropFd fd : HostOp State) := trivial
    apply quiet_next hq
    intro r
    -- the first was closed by this call, the others by the calls after it
    refine (ih (ht.quiet hq r)).mono fun _ t' h => ⟨h.1, fun fd' hfd => h.2 fd' ?_⟩
    rcases hfd with hfd | hfd
    · exact .inl (.inr hfd)
    · rcases List.mem_cons.mp hfd with rfl | hfd
      · exact .inl (.inl rfl)
      · exact .inr hfd

/-- An early return tears down; if there is a guest, after closing its pidfd. -/
theorem earlyReturn_sat {α : Type} {Q : α → Trace State → Prop} {locals : List RawFd}
    {e : SpawnError} (ht : Armed initial state result t) (hhost : result ≠ some .child)
    (hlocals : ∀ pid pidfd, result = some (.parent pid pidfd) → pidfd ∈ locals) :
    Sat hostKernel (· = ·) (KeepsOrder initial) (earlyReturn locals state e)
      (Leaves initial Q) t := by
  refine Sat.bind ((dropFds_sat locals ht).mono fun _ t' h => ?_)
  apply teardown_next h.1 hhost
  · intro pid pidfd hresult
    exact h.2 pidfd (.inr (hlocals pid pidfd hresult))
  · intro r t' ht'
    exact sat_done.mpr ht'

theorem awaitGuest_calls {order : ByteOrder} {hostPipe : RawFd} :
    (awaitGuest order fun len =>
      performUntil (I := HostCalls State) (.read hostPipe len) interrupted).Calls Quiet := by
  have hread : (readArray (fun len => performUntil (I := HostCalls State) (.read hostPipe len)
      interrupted) wireSize).Calls Quiet := by
    refine readArrayFrom_calls (fun len => ?_) _ _ [] rfl
    exact ⟨trivial, fun _ => trivial⟩
  apply hread.bind
  intro r
  cases r with
  | error e => trivial
  | ok bs =>
    dsimp only
    split
    · trivial
    · trivial
    · apply hread.bind
      intro r
      cases r with
      | error e =>
        dsimp only
        split <;> trivial
      | ok bs =>
        dsimp only
        split <;> trivial

/-- A result that `clone_into` hands on is the spawn of a guest, with the state as the
hook left it. -/
def Guarded (initial : State) : Pid × RawFd × State → Trace State → Prop
  | (pid, pidfd, state), t => Armed initial state (some (.parent pid pidfd)) t

theorem hostPostClone_armed {order : ByteOrder} {guestPid : Pid} {hostPipe : RawFd}
    (ht : Armed initial state result t) :
    Sat hostKernel (· = ·) (KeepsOrder initial)
      (hostPostClone order
        (fun state => perform (I := HostCalls State) (.hostPostCloneHook state guestPid))
        (fun len => performUntil (I := HostCalls State) (.read hostPipe len) interrupted) state)
      (fun r t' => Armed initial r.2 result t') t := by
  apply Sat.next
  intro answer _ e
  obtain ⟨r, state'⟩ := answer
  subst e
  -- the hook changes the state that teardown is owed
  have ht' : Armed initial state' result (⟨.hostPostCloneHook state guestPid, (r, state')⟩ :: t) :=
    ⟨ht.teardowns, rfl, ht.cloned⟩
  refine ⟨fun ho => ho, ?_⟩
  cases r with
  | error e => exact sat_done.mpr ht'
  | ok _ =>
    show Sat _ _ _ (awaitGuest order _ >>= _) _ _
    refine Sat.bind ((quiet_sat awaitGuest_calls (fun _ _ r h hq => h.quiet hq r) ht').mono ?_)
    intro r t' h
    exact sat_done.mpr h

/-- The host's part of `clone_into`, from the clone on. -/
theorem parent_sat {order : ByteOrder} {guestPid : Pid} {guestPidfd hostPipe guestPipe : RawFd}
    (ht : Armed initial initial (some (.parent guestPid guestPidfd)) t) :
    Sat hostKernel (· = ·) (KeepsOrder initial)
      (parentBranch order guestPid guestPidfd hostPipe guestPipe initial)
      (Leaves initial (Guarded initial)) t := by
  have hhost : some (CloneResult.parent guestPid guestPidfd) ≠ some .child := by simp
  apply ht.next (by trivial)
  intro r t ht
  cases r with
  | error e =>
    apply earlyReturn_sat ht hhost
    intro pid pidfd h
    cases h
    exact List.mem_cons_self
  | ok _ =>
    show Sat _ _ _ (hostPostClone order _ _ initial >>= _) _ _
    refine Sat.bind ((hostPostClone_armed ht).mono fun r t ht => ?_)
    obtain ⟨r, state⟩ := r
    apply ht.next (by trivial)
    intro _ t ht
    cases r with
    | error e =>
      apply earlyReturn_sat ht hhost
      intro pid pidfd h
      cases h
      exact List.mem_cons_self
    | ok _ => exact sat_done.mpr ht

theorem cloneInto_sat (order : ByteOrder) (policy : SpawnPolicy) :
    Sat hostKernel (· = ·) (KeepsOrder initial) (cloneInto order policy initial)
      (Leaves initial (Guarded initial)) [] := by
  have hstart : Armed initial initial none ([] : Trace State) := ⟨rfl, rfl, rfl⟩
  -- every step up to the clone is quiet, and its failure tears down with no guest to kill
  have hfail : ∀ {locals e t}, Armed initial initial none t →
      Sat hostKernel (· = ·) (KeepsOrder initial) (earlyReturn locals initial e)
        (Leaves initial (Guarded initial)) t :=
    fun ht => earlyReturn_sat ht (by simp) (fun _ _ h => by cases h)
  apply hstart.next (by trivial)
  intro uid t ht
  cases uid with
  | error e => exact hfail ht
  | ok _ =>
  apply ht.next (by trivial)
  intro gid t ht
  cases gid with
  | error e => exact hfail ht
  | ok _ =>
  apply ht.next (by trivial)
  intro pipes t ht
  cases pipes with
  | error e => exact hfail ht
  | ok pipes =>
  obtain ⟨hostPipe, guestPipe⟩ := pipes
  apply ht.next (by trivial)
  intro fd t ht
  show Sat _ _ _ (match fd.sequence with | .error e => _ | .ok cgroup => _) _ _
  cases fd.sequence with
  | error e => exact hfail ht
  | ok cgroup =>
  apply Sat.next
  intro clone _ e
  subst e
  refine ⟨fun ho => ⟨ht.teardowns, ho⟩, ?_⟩
  match clone with
  | .error e => exact hfail ⟨ht.teardowns, ht.state, ht.cloned⟩
  | .ok (.parent guestPid guestPidfd) => exact parent_sat ⟨ht.teardowns, ht.state, rfl⟩
  | .ok .child =>
    -- from here on this is the guest, and none of its calls is the host's
    have hguest : ∀ p : Prog ReportCalls Outcome,
        (p.embed (J := HostCalls State) HostOp.guest fun _ r => r).Calls Quiet :=
      Prog.embed_calls fun _ => trivial
    have hin : InGuest (⟨.clone3 (policy.cloneArgs cgroup), .ok .child⟩ :: t) :=
      ⟨ht.teardowns, rfl⟩
    show Sat _ _ _ ((guestBranch order policy.seccompFilter).embed _ _ >>= _) _ _
    refine Sat.bind ((quiet_sat (hguest _) (fun _ _ r h hq => h.quiet hq r) hin).mono ?_)
    intro outcome t ht
    exact sat_done.mpr ht

end Spawn

/-! ## The guest handle -/

section Handle
variable {initial : State} {t : Trace State}

/-- A handle that still owes the teardown, or that has paid it. -/
def Holds (initial : State) (guest : GuestInner State) (t : Trace State) : Prop :=
  match guest.cgroupsDestructor with
  | some state => Armed initial state (some (.parent guest.pid guest.pidfd)) t
  | none => TornDown initial t

theorem Holds.quiet {guest : GuestInner State} (ht : Holds initial guest t) {op : HostOp State}
    (h : Quiet op) (r) : Holds initial guest (⟨op, r⟩ :: t) := by
  obtain ⟨pidfd, pid, _ | state⟩ := guest
  · exact TornDown.quiet ht h r
  · exact Armed.quiet ht h r

theorem exitStatus_calls (guest : GuestInner State) : guest.exitStatus.Calls Quiet := by
  refine ⟨trivial, fun r => ?_⟩
  cases r with
  | error e => trivial
  | ok info =>
    show (if _ then _ else _ : Prog (HostCalls State) _).Calls Quiet
    split <;> trivial

theorem waitInternal_calls (guest : GuestInner State) : guest.waitInternal.Calls Quiet := by
  refine ⟨trivial, fun r => ?_⟩
  cases r with
  | error e => trivial
  | ok nReady => exact exitStatus_calls guest

theorem tryWait_calls (guest : GuestInner State) : guest.tryWait.Calls Quiet := by
  refine ⟨trivial, fun r => ?_⟩
  cases r with
  | error e => trivial
  | ok nReady =>
    show (if _ then _ else _ : Prog (HostCalls State) _).Calls Quiet
    split
    · trivial
    · exact (exitStatus_calls guest).bind fun _ => trivial

/-- The destructor runs if it did not run before, and then only after the kill. -/
theorem runDestructor_sat {guest : GuestInner State} (ht : Holds initial guest t)
    (hkill : t.killedOrClosed guest.pidfd) :
    Sat hostKernel (· = ·) (KeepsOrder initial) guest.runDestructor
      (fun _ t' => TornDown initial t') t := by
  obtain ⟨pidfd, pid, _ | state⟩ := guest
  · exact sat_done.mpr ht
  · refine teardown_next ht (by simp) ?_ ?_
    · intro pid pidfd h
      cases h
      exact hkill
    · intro r t' ht'
      cases r with
      | ok _ => exact sat_done.mpr ht'
      | error e => exact sat_done.mpr ht'

/-- However the signal and the wait turn out, afterwards teardown has been called and
the handle will not call it again. -/
theorem terminateInternal_sat {guest : GuestInner State} (ht : Holds initial guest t) :
    Sat hostKernel (· = ·) (KeepsOrder initial) guest.terminateInternal
      (fun r t' => r.2.cgroupsDestructor = none ∧ TornDown initial t') t := by
  have hsignal : Quiet (.pidfdSendSignal guest.pidfd (.ofNat SIGKILL) 0 : HostOp State) := trivial
  apply quiet_next hsignal
  intro sent
  let Killed (t : Trace State) : Prop := Holds initial guest t ∧ t.killedOrClosed guest.pidfd
  have hkilled : Killed (⟨.pidfdSendSignal guest.pidfd (.ofNat SIGKILL) 0, sent⟩ :: t) :=
    ⟨ht.quiet hsignal sent, .inl ⟨rfl, rfl⟩⟩
  have hwait : (match GuestInner.signalError sent with
      | none => some <$> guest.waitInternal
      | some _ => pure none : Prog (HostCalls State) _).Calls Quiet := by
    cases GuestInner.signalError sent with
    | none => exact (waitInternal_calls guest).bind fun _ => trivial
    | some e => trivial
  show Sat _ _ _ ((match GuestInner.signalError sent with | none => _ | some _ => _) >>= _) _ _
  refine Sat.bind ((quiet_sat (J := Killed) hwait ?_ hkilled).mono ?_)
  · intro t op r h hq
    exact ⟨h.1.quiet hq r, hq.killedOrClosed r h.2⟩
  · intro wait t h
    refine Sat.bind ((runDestructor_sat h.1 h.2).mono fun cgroup t ht => ?_)
    dsimp only
    split <;> exact sat_done.mpr ⟨rfl, ht⟩

theorem TornDown.holds (ht : TornDown initial t) {guest : GuestInner State}
    (h : guest.cgroupsDestructor = none) : Holds initial guest t := by
  obtain ⟨pidfd, pid, _ | state⟩ := guest
  · exact ht
  · cases h

theorem drop_sat {guest : GuestInner State} (ht : Holds initial guest t) :
    Sat hostKernel (· = ·) (KeepsOrder initial) guest.drop (fun _ t' => TornDown initial t') t := by
  refine Sat.bind ((terminateInternal_sat ht).mono fun r t ht => ?_)
  have hclose : Quiet (.dropFd r.2.pidfd : HostOp State) := trivial
  apply quiet_next hclose
  intro _
  exact sat_done.mpr (ht.2.quiet hclose _)

/-- `terminate` runs `terminate_internal` twice, the second time without a destructor. -/
theorem terminate_sat {guest : GuestInner State} (ht : Holds initial guest t) :
    Sat hostKernel (· = ·) (KeepsOrder initial) guest.terminate
      (fun _ t' => TornDown initial t') t := by
  refine Sat.bind ((terminateInternal_sat ht).mono fun r t ht => ?_)
  refine Sat.bind ((drop_sat (ht.2.holds ht.1)).mono fun _ t ht => ?_)
  exact sat_done.mpr ht

theorem useGuest_sat {guest : GuestInner State} (methods : List GuestMethod) (last : GuestEnd)
    (ht : Holds initial guest t) :
    Sat hostKernel (· = ·) (KeepsOrder initial) (useGuest guest last methods)
      (fun _ t' => TornDown initial t') t := by
  induction methods generalizing t with
  | nil =>
    cases last with
    | terminate => exact Sat.bind ((terminate_sat ht).mono fun _ t ht => sat_done.mpr ht)
    | drop => exact drop_sat ht
  | cons method methods ih =>
    cases method with
    | wait =>
      exact Sat.bind
        ((quiet_sat (waitInternal_calls guest) (fun _ _ r h hq => h.quiet hq r) ht).mono
          fun _ t ht => ih ht)
    | tryWait =>
      exact Sat.bind ((quiet_sat (tryWait_calls guest) (fun _ _ r h hq => h.quiet hq r) ht).mono
        fun _ t ht => ih ht)

end Handle

/-! ## A spawn and its guest -/

/-- How a session ends. -/
def Concluded (initial : State) : Spawned Unit → Trace State → Prop
  | .host _, t => TornDown initial t
  | .guest _, t => InGuest t

theorem spawnWith_sat (order : ByteOrder) (policy : SpawnPolicy) (initial : State) :
    Sat hostKernel (· = ·) (KeepsOrder initial) (spawnWith order policy initial)
      (Leaves initial (Holds initial)) [] := by
  refine Sat.bind ((cloneInto_sat order policy).mono fun r t ht => ?_)
  match r with
  | .host (.error e) => exact sat_done.mpr ht
  | .host (.ok (pid, pidfd, state)) => exact sat_done.mpr ht
  | .guest outcome => exact sat_done.mpr ht

theorem session_sat (order : ByteOrder) (policy : SpawnPolicy) (initial : State)
    (methods : List GuestMethod) (last : GuestEnd) :
    Sat hostKernel (· = ·) (KeepsOrder initial) (session order policy initial methods last)
      (Concluded initial) [] := by
  refine Sat.bind ((spawnWith_sat order policy initial).mono fun r t ht => ?_)
  match r with
  | .host (.error e) => exact sat_done.mpr ht
  | .host (.ok guest) =>
    exact Sat.bind ((useGuest_sat methods last ht).mono fun _ t ht => sat_done.mpr ht)
  | .guest outcome => exact sat_done.mpr ht

/-- Whatever the calls answer and in whatever order the guest is waited for:
* in every state of a run, teardown was only called in the host, at most once, with the
  spawn's state, and if there was a guest only once it was sent `SIGKILL` (or the sending
  attempted) or its pidfd was closed;
* once the spawn has failed, or the guest handle was terminated or dropped, teardown was
  called exactly once with the spawn's state;
* the guest never calls it. -/
theorem session_teardown (order : ByteOrder) (policy : SpawnPolicy) (initial : State)
    (methods : List GuestMethod) (last : GuestEnd) :
    (∀ p t, Steps hostKernel (session order policy initial methods last) [] p t →
      t.Orderly initial ∧ t.teardowns.length ≤ 1 ∧
        (t.cloned = some .child → t.teardowns = [])) ∧
    (∀ r t, Returns hostKernel (session order policy initial methods last) [] (.host r) t →
      t.cloned ≠ some .child ∧ t.teardowns = [t.spawnState initial]) ∧
    (∀ outcome t,
      Returns hostKernel (session order policy initial methods last) [] (.guest outcome) t →
        t.cloned = some .child ∧ t.teardowns = []) := by
  have hsat := session_sat order policy initial methods last
  refine ⟨fun p t hrun => ?_, fun r t hret => ?_, fun outcome t hret => ?_⟩
  · have horder : t.Orderly initial :=
      hsat.steps_rel (fun _ h => h) (fun _ _ _ h h' ho => h' (h ho)) hrun trivial
    exact ⟨horder, horder.once, horder.guest⟩
  · have h : TornDown initial t := (hsat.steps hret).returned
    exact ⟨h.host, h.teardowns⟩
  · have h : InGuest t := (hsat.steps hret).returned
    exact ⟨h.guest, h.teardowns⟩

end Code

/-- A kernel on which a guest is spawned and executes its program, and whose hook
changes the state. -/
def spawningImpl : Impl (HostCalls Nat) (Trace Nat)
  | past, op => (answer past op, ⟨op, answer past op⟩ :: past)
where
  answer (past : Trace Nat) : (op : HostOp Nat) → (HostCalls Nat).Res op
    | .geteuid => .ok 1000
    | .getegid => .ok 1000
    | .pipe2 _ => .ok (3, 4)
    | .cloneArgsCgroup _ => none
    | .clone3 _ => .ok (.parent 7 5)
    | .close _ => .ok ()
    | .dropFd _ => ()
    | .hostPostCloneHook state _ => (.ok (), state + 1)
    | .read _ _ =>
      if past.any fun e => e.op matches .read _ _ then .ok [] else .ok (encode .little (.ok ()))
    | .guest op => (reportImpl (executedPipe 0) op).1
    | .pidfdSendSignal _ _ _ => .error .SRCH
    | .ppoll _ _ => .ok 1
    | .pidfdGetInfo _ mask => .ok ⟨mask, 0⟩
    | .teardown _ => .ok ()

theorem spawningImpl_hostKernel (past : Trace Nat) (op : HostOp Nat) :
    hostKernel past op (spawningImpl past op).1 (spawningImpl past op).2 := rfl

/-- A guest that is waited for and then terminated: the state is torn down once, although
`terminate` runs `terminate_internal` twice. -/
theorem session_terminated :
    ∃ t, Returns hostKernel (session .little ⟨true, true, true, true⟩ 0 [.wait] .terminate) []
      (.host (.ok ())) t ∧ t.teardowns = [t.spawnState 0] ∧ t.spawnState 0 = 1 := by
  have hrun : (run spawningImpl 30
      (session .little ⟨true, true, true, true⟩ 0 [.wait] .terminate) []).any
      (fun x => decide (x.1 = .host (.ok ())) && decide (x.2.spawnState 0 = 1)) := by
    decide +kernel
  obtain ⟨⟨r, t⟩, hmem, hx⟩ := (Option.any_eq_true _ _).mp hrun
  simp only [Bool.and_eq_true, decide_eq_true_eq] at hx
  obtain ⟨rfl, hstate⟩ := hx
  have hret := run_returns spawningImpl_hostKernel 30 hmem
  exact ⟨t, hret, ((session_teardown _ _ _ _ _).2.1 _ t hret).2, hstate⟩

end LayerCake.Bubblebox.Spawn
