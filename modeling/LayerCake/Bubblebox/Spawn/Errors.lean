import LayerCake.Meowix.Util

/-
  The errors of a spawn (`bubblebox/src/platform/linux/spawn/errors.rs`): those
  the guest can report after the clone, with the numbering `From<u8>` reads
  back, and those of the host.
-/

namespace LayerCake.Bubblebox.Spawn

open LayerCake.Effects LayerCake.Meowix

/-- Other errors of the guest after the clone. -/
inductive PostSpawnGuestOther where
  | invalidCgroupsState | bufferTooSmall | integerOverflow | invalidDirectoryMountPoint
  | invalidRegularFileMountPoint | destinationExists | mappingsLengthMismatch
  | nonzeroResolvedLen | hostSourcedFileMismatch
  deriving DecidableEq, Repr

/-- The discriminant, `e as u8`. -/
def PostSpawnGuestOther.toU8 : PostSpawnGuestOther → UInt8
  | .invalidCgroupsState => 0
  | .bufferTooSmall => 1
  | .integerOverflow => 2
  | .invalidDirectoryMountPoint => 3
  | .invalidRegularFileMountPoint => 4
  | .destinationExists => 5
  | .mappingsLengthMismatch => 6
  | .nonzeroResolvedLen => 7
  | .hostSourcedFileMismatch => 8

/-- Errors of the guest after it has been spawned. -/
inductive PostSpawnGuest where
  | syscall (error : SyscallError)
  | netlink (error : Netlink)
  | other (error : PostSpawnGuestOther)
  | incompleteWrite
  | cStrBufferTooSmall
  | fromBytesWithNulError
  | invalidWireFormat
  deriving DecidableEq, Repr

/-- `From<u8> for PostSpawnGuest`. -/
def PostSpawnGuest.ofU8 : UInt8 → PostSpawnGuest
  | 0 => .other .invalidCgroupsState
  | 1 => .other .bufferTooSmall
  | 2 => .other .integerOverflow
  | 3 => .other .invalidDirectoryMountPoint
  | 4 => .other .invalidRegularFileMountPoint
  | 5 => .other .destinationExists
  | 6 => .other .mappingsLengthMismatch
  | 7 => .other .nonzeroResolvedLen
  | 8 => .other .hostSourcedFileMismatch
  | _ => .invalidWireFormat

theorem PostSpawnGuest.ofU8_toU8 (e : PostSpawnGuestOther) : ofU8 e.toU8 = .other e := by
  cases e <;> rfl

/-- The other errors are numbered from the low end, far from the tags. -/
theorem PostSpawnGuestOther.toU8_le (e : PostSpawnGuestOther) : e.toU8 ≤ 8 := by
  cases e <;> decide

/-- `From<WithCStrError> for PostSpawnGuest`. -/
def PostSpawnGuest.ofWithCStr : WithCStrError → PostSpawnGuest
  | .cStrBufferTooSmall => .cStrBufferTooSmall
  | .fromBytesWithNulError => .fromBytesWithNulError

/-- Errors of the host after the guest has been spawned; those of the systemd
backend are left out. -/
inductive PostSpawnHost where
  | syscall (error : SyscallError)
  | partialTransfer (error : PartialTransfer)
  | incompleteWrite
  | invalidCgroupsState
  deriving DecidableEq, Repr

/-- The variants of `errors::Error` that a spawn can end in. -/
inductive SpawnError where
  | preSpawn (error : SyscallError)
  | postSpawnHost (error : PostSpawnHost)
  | postSpawnGuest (error : PostSpawnGuest)
  deriving DecidableEq, Repr

section Calls
variable {I : Interface} {σ α : Type} {K : Kernel I σ}

/-- The `?` on a call in the guest. -/
def guestCall (syscall : Syscall) (call : Prog I (Except Errno α)) :
    ExceptT PostSpawnGuest (Prog I) α :=
  tryCall .syscall syscall call

theorem sat_guestCall {R G : σ → σ → Prop} {syscall : Syscall} {call : Prog I (Except Errno α)}
    {Q : Except PostSpawnGuest α → σ → Prop} {s : σ}
    (h : Sat K R G call (fun r t => match r with
      | .ok a => Sat K R G (.done (.ok a)) Q t
      | .error e => Sat K R G (.done (.error (.syscall ⟨syscall, e⟩))) Q t) s) :
    Sat K R G (guestCall syscall call).run Q s := sat_tryCall h

theorem wp_guestCall {syscall : Syscall} {call : Prog I (Except Errno α)}
    {Q : Except PostSpawnGuest α → σ → Prop} {s : σ}
    (h : Wp K call (fun r t => match r with
      | .ok a => Q (.ok a) t
      | .error e => Q (.error (.syscall ⟨syscall, e⟩)) t) s) :
    Wp K (guestCall syscall call).run Q s := by
  refine sat_guestCall (h.mono fun r t hr => ?_)
  cases r with
  | ok a => exact wp_done.mpr hr
  | error e => exact wp_done.mpr hr

end Calls

end LayerCake.Bubblebox.Spawn
