import LayerCake.Bubblebox.PathText
import LayerCake.Bubblebox.Spawn.MountCalls
import LayerCake.Effects.Log

/-
  The calls by which a policy opens files of the host before anything is spawned.

  Correspondence (Rust ↔ Lean):
    `policy::errors::Policy`             ↔ `PolicyError` (the variants opening can end in)
    `with_c_str::<N>` and its `?`        ↔ `asCStr`
    `retry_on_interrupt!(openat2(…))`    ↔ `openat2`
    `util::is_directory`                 ↔ `isDirectory`
  Closing a descriptor that is no longer used is left out.
-/

namespace LayerCake.Bubblebox.Host

open LayerCake.Effects LayerCake.Meowix LayerCake.Linux
open LayerCake.Bubblebox.Spawn.Mounting (AtFd OpenHow Statx)

inductive Op where
  | openat2 (dirfd : AtFd) (path : Bytes) (how : OpenHow)
  | statx (dirfd : AtFd) (path : Bytes) (flags mask : UInt32)
  deriving DecidableEq, Repr

@[reducible] def Calls : Interface where
  Op := Op
  Res
    | .openat2 .. => Except Errno RawFd
    | .statx .. => Except Errno Statx

inductive PolicyError where
  | syscall (error : SyscallError)
  | notAFile
  | cStrBufferTooSmall
  | fromBytesWithNul
  deriving DecidableEq, Repr

def PolicyError.ofWithCStr : WithCStrError → PolicyError
  | .cStrBufferTooSmall => .cStrBufferTooSmall
  | .fromBytesWithNulError => .fromBytesWithNul

/-- A program that opens files, and can fail. -/
abbrev Opening (α : Type) := ExceptT PolicyError (Prog Calls) α

def asCStr (N : Nat) (bytes : Bytes) : Opening Bytes :=
  match withCStr N bytes with
  | .ok bytes => pure bytes
  | .error e => throw (.ofWithCStr e)

def openat2 (dirfd : AtFd) (path : Bytes) (how : OpenHow) : Opening RawFd :=
  tryCall .syscall .openat2 (performUntil (I := Calls) (.openat2 dirfd path how) interrupted)

def isDirectory (fd : AtFd) : Opening Bool := do
  let statx ← tryCall .syscall .statx
    (perform (I := Calls) (.statx fd [] (AT_EMPTY_PATH ||| AT_SYMLINK_NOFOLLOW) STATX_TYPE))
  return statx.mode.toUInt32 &&& S_IFMT == S_IFDIR

section Calls
variable {α : Type} {P : Op → Prop}

theorem calls_asCStr {N : Nat} {bytes : Bytes} {f : Bytes → Opening α}
    (h : ∀ c, withCStr N bytes = .ok c → (f c).run.Calls P) :
    (asCStr N bytes >>= f).run.Calls P := by
  unfold asCStr
  cases hc : withCStr N bytes with
  | ok c => exact h c hc
  | error e => trivial

theorem calls_openat2 {dirfd : AtFd} {path : Bytes} {how : OpenHow} {f : RawFd → Opening α}
    (hcall : P (.openat2 dirfd path how)) (h : ∀ fd, (f fd).run.Calls P) :
    (openat2 dirfd path how >>= f).run.Calls P := by
  refine ⟨hcall, fun r => ?_⟩
  cases r with
  | ok fd => exact h fd
  | error e => trivial

end Calls

/-! ## The calls of a run -/

section Traced
variable {α : Type} {F : Except PolicyError α → List (Event Calls) → Prop}

theorem traced_asCStr {N : Nat} {bytes : Bytes} {f : Bytes → Opening α}
    (herror : ∀ e, withCStr N bytes = .error e → F (.error (.ofWithCStr e)) [])
    (hok : ∀ c, withCStr N bytes = .ok c → Traced (f c).run F) :
    Traced (asCStr N bytes >>= f).run F := by
  unfold asCStr
  cases hc : withCStr N bytes with
  | ok c => exact hok c hc
  | error e => exact traced_done.mpr (herror e hc)

theorem traced_openat2 {dirfd : AtFd} {path : Bytes} {how : OpenHow} {f : RawFd → Opening α}
    (herror : ∀ e, F (.error (.syscall ⟨.openat2, e⟩)) [⟨.openat2 dirfd path how, .error e⟩])
    (hok : ∀ fd, Traced (f fd).run
      fun r trace => F r (⟨.openat2 dirfd path how, .ok fd⟩ :: trace)) :
    Traced (openat2 dirfd path how >>= f).run F := by
  refine Traced.call fun r _ => ?_
  cases r with
  | ok fd => exact hok fd
  | error e => exact traced_done.mpr (herror e)

theorem trace_asCStr {N : Nat} {bytes : Bytes} {f : Bytes → Opening α}
    {trace : List (Event Calls)} {r : Except PolicyError α} (hc : withCStr N bytes = .ok bytes)
    (h : (f bytes).run.Trace trace r) : (asCStr N bytes >>= f).run.Trace trace r := by
  unfold asCStr
  rw [hc]
  exact h

theorem trace_openat2 {dirfd : AtFd} {path : Bytes} {how : OpenHow} {f : RawFd → Opening α}
    {fd : RawFd} {trace : List (Event Calls)} {r : Except PolicyError α}
    (h : (f fd).run.Trace trace r) :
    (openat2 dirfd path how >>= f).run.Trace (⟨.openat2 dirfd path how, .ok fd⟩ :: trace) r :=
  ⟨.ok fd, trace, rfl, rfl, h⟩

end Traced

end LayerCake.Bubblebox.Host
