import LayerCake.Meowix.Errno

/-
  The error values of `meowix/src/errors.rs`: the syscall table with its `u8`
  numbering, the tagged syscall error, the netlink errors, and the errors of
  C string conversion and of partial transfers.

  Correspondence (Rust ↔ Lean):
    `Syscall as u8`         ↔ `Syscall.toU8`
    `From<u8> for Syscall`  ↔ `Syscall.ofU8`
  The display texts are left out: no modelled function reads them.
-/

namespace LayerCake.Meowix

/-- The syscalls an error may be tagged with. -/
inductive Syscall where
  | pipe2 | clone3 | openat2 | write | openTree | openTreeAttr | dup3 | mountSetattr | statx
  | read | mkdirat | eventfd2 | closeRange | capset | prctl | unshare | setsid | setdomainname
  | sethostname | chdir | umount2 | chroot | moveMount | fchdir | fsmount | fsconfig | fsopen
  | mount | setns | rtSigaction | rtSigprocmask | ppoll | recvmsg | sendto | socket | ioctl
  | pidfdOpen | getegid | geteuid | gettid | pidfdSendSignal | umask | waitid | execveat
  | symlinkat | fcntl | seccomp | keyctl | prlimit64 | schedSetattr | close | getdents64
  | lseek | writev | flock | readv | linkat | fsetxattr | fchmod | unknown
  deriving DecidableEq, Repr

/-- The discriminant, `syscall as u8`. -/
def Syscall.toU8 : Syscall → UInt8
  | .pipe2 => 0 | .clone3 => 1 | .openat2 => 2 | .write => 3 | .openTree => 4
  | .openTreeAttr => 5 | .dup3 => 6 | .mountSetattr => 7 | .statx => 8 | .read => 9
  | .mkdirat => 10 | .eventfd2 => 11 | .closeRange => 12 | .capset => 13 | .prctl => 14
  | .unshare => 15 | .setsid => 16 | .setdomainname => 17 | .sethostname => 18 | .chdir => 19
  | .umount2 => 20 | .chroot => 21 | .moveMount => 22 | .fchdir => 23 | .fsmount => 24
  | .fsconfig => 25 | .fsopen => 26 | .mount => 27 | .setns => 28 | .rtSigaction => 29
  | .rtSigprocmask => 30 | .ppoll => 31 | .recvmsg => 32 | .sendto => 33 | .socket => 34
  | .ioctl => 35 | .pidfdOpen => 36 | .getegid => 37 | .geteuid => 38 | .gettid => 39
  | .pidfdSendSignal => 40 | .umask => 41 | .waitid => 42 | .execveat => 43 | .symlinkat => 44
  | .fcntl => 45 | .seccomp => 46 | .keyctl => 47 | .prlimit64 => 48 | .schedSetattr => 49
  | .close => 50 | .getdents64 => 51 | .lseek => 52 | .writev => 53 | .flock => 54
  | .readv => 55 | .linkat => 56 | .fsetxattr => 57 | .fchmod => 58 | .unknown => 255

/-- The syscall of a discriminant; every number outside the table is unknown. -/
def Syscall.ofU8 : UInt8 → Syscall
  | 0 => .pipe2 | 1 => .clone3 | 2 => .openat2 | 3 => .write | 4 => .openTree
  | 5 => .openTreeAttr | 6 => .dup3 | 7 => .mountSetattr | 8 => .statx | 9 => .read
  | 10 => .mkdirat | 11 => .eventfd2 | 12 => .closeRange | 13 => .capset | 14 => .prctl
  | 15 => .unshare | 16 => .setsid | 17 => .setdomainname | 18 => .sethostname | 19 => .chdir
  | 20 => .umount2 | 21 => .chroot | 22 => .moveMount | 23 => .fchdir | 24 => .fsmount
  | 25 => .fsconfig | 26 => .fsopen | 27 => .mount | 28 => .setns | 29 => .rtSigaction
  | 30 => .rtSigprocmask | 31 => .ppoll | 32 => .recvmsg | 33 => .sendto | 34 => .socket
  | 35 => .ioctl | 36 => .pidfdOpen | 37 => .getegid | 38 => .geteuid | 39 => .gettid
  | 40 => .pidfdSendSignal | 41 => .umask | 42 => .waitid | 43 => .execveat | 44 => .symlinkat
  | 45 => .fcntl | 46 => .seccomp | 47 => .keyctl | 48 => .prlimit64 | 49 => .schedSetattr
  | 50 => .close | 51 => .getdents64 | 52 => .lseek | 53 => .writev | 54 => .flock
  | 55 => .readv | 56 => .linkat | 57 => .fsetxattr | 58 => .fchmod | _ => .unknown

theorem Syscall.ofU8_toU8 (s : Syscall) : ofU8 s.toU8 = s := by
  cases s <;> rfl

/-- The table ends at 58; only the unknown syscall is numbered above it. -/
theorem Syscall.toU8_le {s : Syscall} (h : s ≠ .unknown) : s.toU8 ≤ 58 := by
  cases s <;> first | decide | exact absurd rfl h

/-- A plain error value tagged with the syscall being called. -/
structure SyscallError where
  syscall : Syscall
  error : Errno
  deriving DecidableEq, Repr

/-- Errors of the netlink code. -/
inductive Netlink where
  | malformedHeader | truncatedMessage | sequenceMismatch | incorrectSize | bufferTooSmall
  | integerOverflow | incompleteWrite | ackTimeout
  | errno (error : Errno)
  | invalidError (error : Int32)
  | syscall (error : SyscallError)
  deriving DecidableEq, Repr

/-- Errors of converting bytes to a C string: the buffer was too small, or the
bytes contain a null byte. -/
inductive WithCStrError where
  | cStrBufferTooSmall
  | fromBytesWithNulError
  deriving DecidableEq, Repr

/-- The number of bytes a read or write moved before it stopped short, and the
error that stopped it, if one did. -/
structure PartialTransfer where
  transferred : Nat
  error : Option SyscallError
  deriving DecidableEq, Repr

/-- `retry_on_interrupt!`: a call is made again on exactly these answers. -/
def interrupted {α : Type} : Except Errno α → Bool
  | .error e => e == Errno.INTR
  | .ok _ => false

/-- `wrap_syscall`: tag the error of a call. -/
def wrapSyscall {α : Type} (s : Syscall) : Except Errno α → Except SyscallError α
  | .ok a => .ok a
  | .error e => .error ⟨s, e⟩

end LayerCake.Meowix
