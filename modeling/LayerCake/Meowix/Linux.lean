import Mathlib.Data.Nat.Notation

/-
  The constants of the kernel's interface (`linux_raw_sys::general`) that the
  modelled code passes, under their own names.
-/

namespace LayerCake.Linux

/-! ### `open(2)` and `openat2(2)` -/

def O_RDONLY : UInt32 := 0o0
def O_WRONLY : UInt32 := 0o1
def O_RDWR : UInt32 := 0o2
def O_CREAT : UInt32 := 0o100
def O_DIRECTORY : UInt32 := 0o200000
def O_NOFOLLOW : UInt32 := 0o400000
def O_CLOEXEC : UInt32 := 0o2000000
def O_PATH : UInt32 := 0o10000000

def RESOLVE_NO_XDEV : UInt32 := 0x01
def RESOLVE_NO_MAGICLINKS : UInt32 := 0x02
def RESOLVE_NO_SYMLINKS : UInt32 := 0x04
def RESOLVE_BENEATH : UInt32 := 0x08
def RESOLVE_IN_ROOT : UInt32 := 0x10

/-! ### `open_tree(2)`, `fsmount(2)`, `move_mount(2)` and namespaces -/

def AT_SYMLINK_NOFOLLOW : UInt32 := 0x100
def AT_EMPTY_PATH : UInt32 := 0x1000
def AT_RECURSIVE : UInt32 := 0x8000

def OPEN_TREE_CLONE : UInt32 := 0x1
def OPEN_TREE_NAMESPACE : UInt32 := 0x2
def OPEN_TREE_CLOEXEC : UInt32 := O_CLOEXEC

def FSOPEN_CLOEXEC : UInt32 := 0x1
def FSMOUNT_CLOEXEC : UInt32 := 0x1
def MOVE_MOUNT_F_EMPTY_PATH : UInt32 := 0x4
def MOVE_MOUNT_BENEATH : UInt32 := 0x200

def MOUNT_ATTR_RDONLY : UInt32 := 0x1
def MOUNT_ATTR_NOSUID : UInt32 := 0x2
def MOUNT_ATTR_NODEV : UInt32 := 0x4
def MOUNT_ATTR_NOEXEC : UInt32 := 0x8
def MOUNT_ATTR_NOSYMFOLLOW : UInt32 := 0x200000

def MS_REC : UInt32 := 0x4000
def MS_PRIVATE : UInt32 := 0x40000
def MNT_DETACH : UInt32 := 0x2

def CLONE_NEWTIME : UInt32 := 0x80
def CLONE_NEWNS : UInt32 := 0x20000
def CLONE_NEWCGROUP : UInt32 := 0x2000000
def CLONE_NEWUSER : UInt32 := 0x10000000
def CLONE_NEWNET : UInt32 := 0x40000000

/-! ### Signals -/

def _NSIG : Nat := 64
def SIGKILL : Nat := 9
def SIGSTOP : Nat := 19
def SIG_SETMASK : UInt32 := 2

/-! ### `prlimit64(2)`, `sched_setattr(2)`, `keyctl(2)` and `socket(2)` -/

def RLIMIT_CPU : UInt32 := 0
def RLIMIT_FSIZE : UInt32 := 1
def RLIMIT_DATA : UInt32 := 2
def RLIMIT_STACK : UInt32 := 3
def RLIMIT_CORE : UInt32 := 4
def RLIMIT_NPROC : UInt32 := 6
def RLIMIT_NOFILE : UInt32 := 7
def RLIMIT_MEMLOCK : UInt32 := 8
def RLIMIT_AS : UInt32 := 9
def RLIMIT_LOCKS : UInt32 := 10
def RLIMIT_SIGPENDING : UInt32 := 11
def RLIMIT_MSGQUEUE : UInt32 := 12
def RLIMIT_NICE : UInt32 := 13
def RLIMIT_RTPRIO : UInt32 := 14
def RLIMIT_RTTIME : UInt32 := 15

def SCHED_NORMAL : UInt32 := 0
def SCHED_FIFO : UInt32 := 1
def SCHED_RR : UInt32 := 2
def SCHED_BATCH : UInt32 := 3
def SCHED_IDLE : UInt32 := 5
def SCHED_DEADLINE : UInt32 := 6

def SCHED_FLAG_RESET_ON_FORK : UInt64 := 0x1
def SCHED_FLAG_RECLAIM : UInt64 := 0x2
def SCHED_FLAG_DL_OVERRUN : UInt64 := 0x4
def SCHED_FLAG_UTIL_CLAMP_MIN : UInt64 := 0x20
def SCHED_FLAG_UTIL_CLAMP_MAX : UInt64 := 0x40

def KEY_REQKEY_DEFL_SESSION_KEYRING : Int32 := 3

def AF_INET : UInt32 := 2
def AF_NETLINK : UInt32 := 16
def AF_VSOCK : UInt32 := 40
def SOCK_STREAM : UInt32 := 1
def SOCK_DGRAM : UInt32 := 2
def NETLINK_ROUTE : UInt32 := 0

/-! ### `close_range(2)` -/

def CLOSE_RANGE_CLOEXEC : UInt32 := 0x4

/-! ### `statx(2)` and modes -/

def STATX_TYPE : UInt32 := 0x1
def STATX_INO : UInt32 := 0x100

def S_IFMT : UInt32 := 0o170000
def S_IFDIR : UInt32 := 0o040000
def S_IFREG : UInt32 := 0o100000

def S_IRWXU : UInt32 := 0o700
def S_IRUSR : UInt32 := 0o400
def S_IWUSR : UInt32 := 0o200
def S_IRGRP : UInt32 := 0o040
def S_IXGRP : UInt32 := 0o010
def S_IROTH : UInt32 := 0o004
def S_IXOTH : UInt32 := 0o001

end LayerCake.Linux
