import LayerCake.Bubblebox.Spawn.Errors
import LayerCake.Effects.Log
import LayerCake.Meowix.Linux

/-
  The calls of the cgroup code (`bubblebox/src/platform/linux/cgroups`): system calls on
  the cgroup file system, and calls to systemd over D-Bus.

  Correspondence (Rust ↔ Lean):
    `Proxy::method_call`, `Properties::get`     ↔ a call for each method or property
    `checked_duration_since(Instant::now())`,
    `blocking_pop_message`                      ↔ `popMessage`, one call for the two
    `read_string`                               ↔ `readString`, one call for its reads
    `open_beneath_and_write!`, `write_checked!` ↔ `openBeneathAndWrite`, `writeChecked`
    `errors::PostSpawnHost`, `errors::Host`     ↔ the same

  What is proved: a helper that succeeds has made its calls, and its write was complete
  (`from_openBeneathAndWrite`).
-/

namespace LayerCake.Bubblebox.Cgroups

open LayerCake.Effects LayerCake.Meowix

/-! ## Errors -/

/-- `CgroupController`. -/
inductive CgroupController where
  | cpu | memory | io | pids
  deriving DecidableEq, Repr

/-- `errors::StringRead`. -/
inductive StringRead where
  | syscall (error : SyscallError)
  | fromUtf8
  deriving DecidableEq, Repr

/-- `errors::Host`. -/
inductive Host where
  | syscall (error : SyscallError)
  | stringRead (error : StringRead)
  | incompleteWrite
  | missingCgroupController (controller : CgroupController)
  deriving DecidableEq, Repr

/-- `dbus::Error`, by its name. -/
structure DbusError where
  name : Option Bytes
  deriving DecidableEq, Repr

/-- `errors::PostSpawnHost`, with the variants of the systemd backend. -/
inductive PostSpawnHost where
  | syscall (error : SyscallError)
  | dbus (error : DbusError)
  | cStrBufferTooSmall
  | fromBytesWithNulError
  | unitStartJobFailed
  | unitStartTimeout
  | malformedDbusMessage
  | partialTransfer (error : PartialTransfer)
  | incompleteWrite
  | invalidCgroupsState
  | host (error : Host)
  deriving DecidableEq, Repr

/-- `From<WithCStrError> for PostSpawnHost`. -/
def PostSpawnHost.ofWithCStr : WithCStrError → PostSpawnHost
  | .cStrBufferTooSmall => .cStrBufferTooSmall
  | .fromBytesWithNulError => .fromBytesWithNulError

/-! ## The calls -/

/-- A descriptor of a file. The eventfd of the spawn has calls of its own. -/
abbrev Fd := Nat

/-- The properties of the unit that is started. -/
structure UnitProperties where
  pids : List UInt32
  delegate : Bool
  delegateSubgroup : Bytes
  collectMode : Bytes
  deriving DecidableEq, Repr

/-- A message from the bus: whether the match rule matches it, and the four arguments of
the signal where its body has them. -/
structure Message where
  matchesRule : Bool
  read4 : Option (UInt32 × Bytes × Bytes × Bytes)
  deriving DecidableEq, Repr

/-- What waiting for a message until the deadline ends in. -/
inductive Popped where
  | expired
  | answered (message : Except DbusError (Option Message))

/-- Which of the two functions connects to the session bus. -/
inductive Connecting where
  | hook | teardown
  deriving DecidableEq, Repr

/-- The directory `none` is `Cwd`. -/
inductive CgroupOp where
  | newSession (site : Connecting)
  | addMatch
  | removeMatch
  | newV4
  | startTransientUnit (name mode : Bytes) (properties : UnitProperties)
  | stopUnit (name mode : Bytes)
  | getUnit (name : Bytes)
  | getControlGroup (unitPath : Bytes)
  | now
  | popMessage (deadline : Nat)
  | openat2 (dir : Option Fd) (path : Bytes) (flags resolve : UInt32)
  | mkdirat (dir : Fd) (path : Bytes) (mode : UInt32)
  | write (fd : Fd) (bytes : Bytes)
  | readString (fd : Fd)
  | writeEventfd (bytes : Bytes)
  | readEventfd (len : Nat)

@[reducible] def CgroupCalls : Interface where
  Op := CgroupOp
  Res
    | .newSession _ | .addMatch | .removeMatch => Except DbusError Unit
    | .newV4 => Bytes
    | .startTransientUnit _ _ _ | .stopUnit _ _ => Except DbusError Bytes
    | .getUnit _ | .getControlGroup _ => Except DbusError Bytes
    | .now => Nat
    | .popMessage _ => Popped
    | .openat2 _ _ _ _ => Except Errno Fd
    | .mkdirat _ _ _ => Except Errno Unit
    | .write _ _ | .writeEventfd _ => Except Errno Nat
    | .readString _ => Except StringRead (List Char)
    | .readEventfd _ => Except Errno Bytes

abbrev Log := List (Event CgroupCalls)

/-- The calls that neither start or stop a unit nor write to the eventfd. -/
def Plain : CgroupOp → Prop
  | .startTransientUnit _ _ _ | .stopUnit _ _ | .writeEventfd _ => False
  | _ => True

/-- The `?` on a value that is already there. -/
def ofExcept {ε α : Type} (x : Except ε α) : ExceptT ε (Prog CgroupCalls) α := ExceptT.mk (pure x)

/-! ## Files -/

section Files
variable {ε : Type} (into : SyscallError → ε)

/-- `openat2` under `retry_on_interrupt!`, and its `?`. -/
def openat2 (dir : Option Fd) (path : Bytes) (flags resolve : UInt32) :
    ExceptT ε (Prog CgroupCalls) Fd :=
  tryCall into .openat2
    (performUntil (I := CgroupCalls) (.openat2 dir path (flags ||| Linux.O_CLOEXEC) resolve)
      interrupted)

/-- The `resolve` of a path that must stay in its directory. -/
def beneath : UInt32 :=
  Linux.RESOLVE_BENEATH ||| Linux.RESOLVE_NO_MAGICLINKS ||| Linux.RESOLVE_NO_SYMLINKS

/-- `write_checked!`; `incomplete` is what an incomplete write is converted to. -/
def writeChecked (incomplete : ε) (fd : Fd) (value : Bytes) :
    ExceptT ε (Prog CgroupCalls) Unit := do
  let n ← tryCall into .write (performUntil (I := CgroupCalls) (.write fd value) interrupted)
  if n ≠ value.length then throw incomplete

/-- `open_beneath_and_write!`. -/
def openBeneathAndWrite (incomplete : ε) (dir : Fd) (path value : Bytes) :
    ExceptT ε (Prog CgroupCalls) Unit := do
  let fd ← openat2 into (some dir) path Linux.O_WRONLY beneath
  writeChecked into incomplete fd value

end Files

/-! ## Which calls a helper makes -/

section Plain
variable {ε α : Type} {into : SyscallError → ε} {P : CgroupOp → Prop}

theorem calls_bindE {β : Type} {p : ExceptT ε (Prog CgroupCalls) α}
    {f : α → ExceptT ε (Prog CgroupCalls) β} (hp : Prog.Calls P p.run)
    (hf : ∀ a, Prog.Calls P (f a).run) : Prog.Calls P (p >>= f).run := by
  apply Prog.Calls.bind hp
  intro x
  cases x with
  | ok a => exact hf a
  | error e => trivial

theorem tryCall_calls {syscall : Syscall} {call : Prog CgroupCalls (Except Errno α)}
    (h : call.Calls P) : Prog.Calls P (tryCall into syscall call).run := by
  apply h.bind
  intro r
  cases r with
  | ok a => trivial
  | error e => trivial

/-- A value that is there already takes no call. -/
theorem ofExcept_calls (x : Except ε α) : Prog.Calls P (ofExcept x).run := trivial

theorem performUntil_calls {op : CgroupOp} {again : CgroupCalls.Res op → Bool} (h : P op) :
    Prog.Calls P (performUntil (I := CgroupCalls) op again) := ⟨h, fun _ => trivial⟩

theorem openat2_plain (dir : Option Fd) (path : Bytes) (flags resolve : UInt32) :
    Prog.Calls Plain (openat2 into dir path flags resolve).run :=
  tryCall_calls (performUntil_calls trivial)

theorem writeChecked_plain (incomplete : ε) (fd : Fd) (value : Bytes) :
    Prog.Calls Plain (writeChecked into incomplete fd value).run := by
  apply calls_bindE (tryCall_calls (performUntil_calls trivial))
  intro n
  show Prog.Calls Plain (if n ≠ value.length then throw incomplete else pure () :
    ExceptT ε (Prog CgroupCalls) Unit).run
  split
  · trivial
  · trivial

theorem openBeneathAndWrite_plain (incomplete : ε) (dir : Fd) (path value : Bytes) :
    Prog.Calls Plain (openBeneathAndWrite into incomplete dir path value).run :=
  calls_bindE (openat2_plain _ _ _ _) fun fd => writeChecked_plain incomplete fd value

end Plain

/-! ## What a helper that succeeds has done -/

section From
variable {ε α : Type} {into : SyscallError → ε} {incomplete : ε} {log : Log}

theorem from_ofExcept {x : Except ε α} {a : α} :
    Prog.From log (ofExcept x).run (.ok a) ↔ x = .ok a := Iff.rfl

theorem from_tryCall {syscall : Syscall} {call : Prog CgroupCalls (Except Errno α)} {a : α} :
    Prog.From log (tryCall into syscall call).run (.ok a) ↔ call.From log (.ok a) := by
  constructor
  · intro h
    obtain ⟨r, hr, hrest⟩ := Prog.from_bind.mp h
    cases r with
    | ok b =>
      obtain rfl := Except.ok.inj hrest
      exact hr
    | error error => cases hrest
  · intro h
    exact Prog.from_bind.mpr ⟨.ok a, h, rfl⟩

/-- The file was opened. -/
theorem from_openat2 {dir : Option Fd} {path : Bytes} {flags resolve : UInt32} {fd : Fd}
    (h : Prog.From log (openat2 into dir path flags resolve).run (.ok fd)) :
    ⟨.openat2 dir path (flags ||| Linux.O_CLOEXEC) resolve, .ok fd⟩ ∈ log :=
  (Prog.from_performUntil.mp (from_tryCall.mp h)).1

/-- The write was complete. -/
theorem from_writeChecked {fd : Fd} {value : Bytes}
    (h : Prog.From log (writeChecked into incomplete fd value).run (.ok ())) :
    ⟨.write fd value, .ok value.length⟩ ∈ log := by
  obtain ⟨n, hn, hrest⟩ := Prog.from_bindE.mp h
  by_cases hlen : n = value.length
  · subst hlen
    exact (Prog.from_performUntil.mp (from_tryCall.mp hn)).1
  · rw [if_pos hlen] at hrest
    cases hrest

/-- The value was written in full to the file of the directory. -/
def Written (log : Log) (dir : Fd) (path value : Bytes) : Prop :=
  ∃ fd, ⟨.openat2 (some dir) path (Linux.O_WRONLY ||| Linux.O_CLOEXEC) beneath, .ok fd⟩ ∈ log ∧
    ⟨.write fd value, .ok value.length⟩ ∈ log

theorem from_openBeneathAndWrite {dir : Fd} {path value : Bytes}
    (h : Prog.From log (openBeneathAndWrite into incomplete dir path value).run (.ok ())) :
    Written log dir path value := by
  obtain ⟨fd, hopen, hwrite⟩ := Prog.from_bindE.mp h
  exact ⟨fd, from_openat2 hopen, from_writeChecked hwrite⟩

end From

end LayerCake.Bubblebox.Cgroups
