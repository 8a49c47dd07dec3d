import LayerCake.Bubblebox.Command
import LayerCake.Bubblebox.HostFile
import LayerCake.Bubblebox.Sandbox.Policy

/-
  The options of `bbx` (`bbx/src/main.rs`), and how their values are read.

  Correspondence (Rust ↔ Lean):
    `lexopt::Parser`, its `next`, `value`, …     ↔ the calls of `Calls`, whatever they answer
    `HostFile::open`, `HostDirectory::open`,
    `env::var_os`                                ↔ calls, too
    `lexopt::ValueExt::parse`, `string`          ↔ `parse`, `string`
    `FromStr` of the integers, `from_str_radix`  ↔ `unsignedOf`, `signedOf`
    `CapabilitySet::from_str`                    ↔ `capabilityOf`
    the patterns `Long("…")`                     ↔ `Opt`, `Opt.name`
    an arm of the `match`                        ↔ `Opt.read` for what it reads, and
                                                   `Settings.apply` for what it makes of that
  The text of `--help` is left out, and so is `--bundled-file`, which the feature `zip` adds.

  What is proved: `Opt.ofName_name` — every option is found by its own name.
-/

namespace LayerCake.Bbx

open LayerCake.Effects LayerCake.Meowix LayerCake.Bubblebox
open LayerCake.Bubblebox.Host (HostFile PolicyError)
open LayerCake.Bubblebox.Sandbox
open LayerCake.Meowix.Capabilities (CapabilitySet)

/-! ## Errors and calls -/

/-- `lexopt::Error`. -/
inductive Lexopt where
  | missingValue (option : Option String)
  | unexpectedOption (option : String)
  | unexpectedArgument (value : Bytes)
  | unexpectedValue (option : String) (value : Bytes)
  | parsingFailed (value : Bytes)
  | nonUnicodeValue (value : Bytes)
  | custom
  deriving DecidableEq, Repr

/-- What the `anyhow::Error` is made of; a context stands for what it is a context of. -/
inductive Error where
  | lexopt (error : Lexopt)
  | parseInt
  | opening (error : PolicyError)
  | guestPath (error : GuestPathError)
  | invalidMountPolicy
  | invalidFdPolicy
  | command (error : CommandError)
  | message (text : String)
  deriving DecidableEq

/-- `lexopt::Arg`. -/
inductive Arg where
  | short (option : Char)
  | long (option : String)
  | value (value : Bytes)
  deriving DecidableEq, Repr

inductive Op where
  | next
  | value
  | optionalValue
  | rawArgs
  | openFile (path : Bytes)
  | openDirectory (path : Bytes)
  | varOs (key : Bytes)
  deriving DecidableEq, Repr

@[reducible] def Calls : Interface where
  Op := Op
  Res
    | .next => Except Lexopt (Option Arg)
    | .value => Except Lexopt Bytes
    | .optionalValue => Option Bytes
    | .rawArgs => Except Lexopt (List Bytes)
    | .openFile _ => Except PolicyError HostFile
    | .openDirectory _ => Except PolicyError RawFd
    | .varOs _ => Option Bytes

abbrev Reading := ExceptT Error (Prog Calls)

/-! ## Numbers -/

def digitOf (radix : Nat) (b : UInt8) : Option Nat :=
  if 48 ≤ b.toNat ∧ b.toNat < 48 + radix then some (b.toNat - 48) else none

/-- The number that digits stand for, of which there is one at least. -/
def digitsOf (radix : Nat) : Bytes → Option Nat
  | [] => none
  | src => src.foldlM (fun n b => (digitOf radix b).map (n * radix + ·)) 0

/-- An unsigned number of that many bits, with or without a `+`. -/
def unsignedOf (radix bits : Nat) (src : Bytes) : Option Nat :=
  (match src with
    | 43 :: digits => digitsOf radix digits
    | digits => digitsOf radix digits).filter (· < 2 ^ bits)

/-- A decimal signed number of that many bits, with or without a sign. -/
def signedOf (bits : Nat) (src : Bytes) : Option Int :=
  (match src with
    | 43 :: digits => (digitsOf 10 digits).map Int.ofNat
    | 45 :: digits => (digitsOf 10 digits).map fun n => -Int.ofNat n
    | digits => (digitsOf 10 digits).map Int.ofNat).filter
      fun n => -2 ^ (bits - 1) ≤ n ∧ n < 2 ^ (bits - 1)

def u32Of (src : Bytes) : Option UInt32 := (unsignedOf 10 32 src).map UInt32.ofNat

def u64Of (src : Bytes) : Option UInt64 := (unsignedOf 10 64 src).map UInt64.ofNat

def i32Of (src : Bytes) : Option Int32 := (signedOf 32 src).map Int32.ofInt

def i64Of (src : Bytes) : Option Int64 := (signedOf 64 src).map Int64.ofInt

/-- `Mode::from_bits`, of the bits that have names. -/
def modeFromBits (bits : UInt32) : Option Mode :=
  if bits &&& ~~~0o7777 = 0 then some bits else none

def isUtf8 (src : Bytes) : Bool := ByteArray.validateUTF8 ⟨src.toArray⟩

/-- `ValueExt::string`. -/
def string (src : Bytes) : Except Lexopt Bytes :=
  if isUtf8 src then .ok src else .error (.nonUnicodeValue src)

/-- `ValueExt::parse`. -/
def parse {α : Type} (fromStr : Bytes → Option α) (src : Bytes) : Except Lexopt α :=
  match string src with
  | .error e => .error e
  | .ok src =>
    match fromStr src with
    | some value => .ok value
    | none => .error (.parsingFailed src)

/-! ## Capabilities -/

/-- The names of the capabilities, each at its number. -/
def capabilityNames : List String :=
  ["CHOWN", "DAC_OVERRIDE", "DAC_READ_SEARCH", "FOWNER", "FSETID", "KILL", "SETGID", "SETUID",
    "SETPCAP", "LINUX_IMMUTABLE", "NET_BIND_SERVICE", "NET_BROADCAST", "NET_ADMIN", "NET_RAW",
    "IPC_LOCK", "IPC_OWNER", "SYS_MODULE", "SYS_RAWIO", "SYS_CHROOT", "SYS_PTRACE", "SYS_PACCT",
    "SYS_ADMIN", "SYS_BOOT", "SYS_NICE", "SYS_RESOURCE", "SYS_TIME", "SYS_TTY_CONFIG", "MKNOD",
    "LEASE", "AUDIT_WRITE", "AUDIT_CONTROL", "SETFCAP", "MAC_OVERRIDE", "MAC_ADMIN", "SYSLOG",
    "WAKE_ALARM", "BLOCK_SUSPEND", "AUDIT_READ", "PERFMON", "BPF", "CHECKPOINT_RESTORE"]

/-- A capability that has a name, by its number. -/
abbrev Capability := Fin capabilityNames.length

/-- `CapabilitySet::from_str`; the set has that one capability. -/
def capabilityOf (value : Bytes) : Option Capability :=
  capabilityNames.findFinIdx? fun name => ascii name = value

/-- `CapabilitySet::all`. -/
def allCapabilities : CapabilitySet := BitVec.ofNat 64 (2 ^ 41 - 1)

/-! ## Mounts -/

/-- The attributes of all mounts that are made here, but for these three. -/
def attributes (readOnly noDevices noExecution : Bool) : MountAttributes where
  readOnly
  noSetuid := true
  noDevices
  noExecution
  noSymlinkFollowing := false

def bindFile (file : HostFile) (attributes : MountAttributes) : Mount :=
  .bind (.file file.dirfd file.name file.fd attributes file.isSymlink)

def readOnlyFile (file : HostFile) : Mount := bindFile file (attributes true true false)

def readWriteFile (file : HostFile) : Mount := bindFile file (attributes false true false)

def deviceFile (file : HostFile) : Mount := bindFile file (attributes false false false)

def readOnlyDirectory (fd : RawFd) : Mount :=
  .bind (.directory fd (attributes true true false) true)

def readWriteDirectory (fd : RawFd) : Mount :=
  .bind (.directory fd (attributes false true false) true)

def proc (hidepid : ProcHidepid) (subset : ProcSubset) : Mount :=
  .procfs hidepid none subset .guest (attributes false true true)

def mqueue : Mount := .mqueue (attributes false true true)

def directory (permissions : Mode) : Mount := .emptyDirectory .user permissions

def tmpfs (size : TmpfsSize) (maxInodes : Option UInt64) (permissions : Mode) : Mount :=
  .tmpfs size maxInodes .user permissions (attributes false true false)

/-! ## Options -/

/-- The long options, but for `--help`. -/
inductive Opt where
  | shareIpc | unshareIpc | shareNetwork | unshareNetwork | shareUts | unshareUts
  | clearHostname | hostname | clearDomain | domain | shareTime | unshareTime
  | clearSecOffset | offsetSec | clearNsecOffset | offsetNsec
  | setMonotonicOffset | setBoottimeOffset | disableUserns | enableUserns | uid | gid
  | passthrough | close | reuseSession | newSession | mode
  | roBindFile | roBindDirectory | rwBindFile | rwBindDirectory | devBindFile
  | proc | procUnrestricted | mqueue | directory | symlink | tmpfs
  | setEnv | inheritEnv | unsetEnv | cwd | arg0 | capAdd | capDrop
  deriving DecidableEq, Repr

def Opt.name : Opt → String
  | shareIpc => "share-ipc" | unshareIpc => "unshare-ipc" | shareNetwork => "share-network"
  | unshareNetwork => "unshare-network" | shareUts => "share-uts" | unshareUts => "unshare-uts"
  | clearHostname => "clear-hostname" | hostname => "hostname" | clearDomain => "clear-domain"
  | domain => "domain" | shareTime => "share-time" | unshareTime => "unshare-time"
  | clearSecOffset => "clear-sec-offset" | offsetSec => "offset-sec"
  | clearNsecOffset => "clear-nsec-offset" | offsetNsec => "offset-nsec"
  | setMonotonicOffset => "set-monotonic-offset" | setBoottimeOffset => "set-boottime-offset"
  | disableUserns => "disable-userns" | enableUserns => "enable-userns" | uid => "uid"
  | gid => "gid" | passthrough => "passthrough" | close => "close"
  | reuseSession => "reuse-session" | newSession => "new-session" | mode => "mode"
  | roBindFile => "ro-bind-file" | roBindDirectory => "ro-bind-directory"
  | rwBindFile => "rw-bind-file" | rwBindDirectory => "rw-bind-directory"
  | devBindFile => "dev-bind-file" | proc => "proc" | procUnrestricted => "proc-unrestricted"
  | mqueue => "mqueue" | directory => "directory" | symlink => "symlink" | tmpfs => "tmpfs"
  | setEnv => "set-env" | inheritEnv => "inherit-env" | unsetEnv => "unset-env" | cwd => "cwd"
  | arg0 => "arg0" | capAdd => "cap-add" | capDrop => "cap-drop"

def Opt.all : List Opt :=
  [shareIpc, unshareIpc, shareNetwork, unshareNetwork, shareUts, unshareUts, clearHostname,
    hostname, clearDomain, domain, shareTime, unshareTime, clearSecOffset, offsetSec,
    clearNsecOffset, offsetNsec, setMonotonicOffset, setBoottimeOffset, disableUserns,
    enableUserns, uid, gid, passthrough, close, reuseSession, newSession, mode, roBindFile,
    roBindDirectory, rwBindFile, rwBindDirectory, devBindFile, proc, procUnrestricted, mqueue,
    directory, symlink, tmpfs, setEnv, inheritEnv, unsetEnv, cwd, arg0, capAdd, capDrop]

/-- The option of a name, where there is one. -/
def Opt.ofName (name : String) : Option Opt := all.find? fun opt => opt.name = name

/-- Every option is found by its own name. -/
theorem Opt.ofName_name (opt : Opt) : ofName opt.name = some opt := by
  cases opt <;> decide

/-- What an option asks for that nothing refuses. -/
inductive Setting where
  | shareIpc | unshareIpc | shareNetwork | unshareNetwork | shareUts | unshareUts
  | clearHostname
  | hostname (hostname : Bytes)
  | clearDomain
  | domain (domain : Bytes)
  | shareTime | unshareTime | clearSecOffset
  | offsetSec (seconds : TimeOffsetSeconds)
  | clearNsecOffset
  | offsetNsec (nanoseconds : TimeOffsetNanoseconds)
  | setMonotonicOffset | setBoottimeOffset
  | disableUserns (disable : Bool)
  | uid (uid : Uid)
  | gid (gid : Gid)
  | newSession (new : Bool)
  | mode (mode : Mode)
  | setEnv (key value : Bytes)
  | inheritEnv (key : Bytes) (value : Option Bytes)
  | unsetEnv (key : Bytes)
  | cwd (path : Guest)
  | arg0 (arg : Bytes)
  | capAdd (cap : Capability)
  | capDropAll
  | capDrop (cap : Capability)

/-- What an option asks of the file descriptors. -/
inductive FdEdit where
  | passthrough (fd : RawFd)
  | closeAll
  | close (fd : RawFd)

/-- What an option mounts; the mode of the last two is the one that is set when they come. -/
inductive Mounted where
  | fixed (mount : Mount)
  | directory
  | tmpfs (size : TmpfsSize)

/-- What an option asks for, with the values it was given. -/
inductive Directive where
  | set (setting : Setting)
  | descriptors (edit : FdEdit)
  | mount (mounted : Mounted) (path : Guest)

/-! ## Reading -/

def liftLexopt {α : Type} : Except Lexopt α → Reading α
  | .ok a => pure a
  | .error e => throw (.lexopt e)

/-- `.ok_or(format_err!(text))?` and `.context(text)?`. -/
def orMessage {α : Type} (text : String) : Option α → Reading α
  | some a => pure a
  | none => throw (.message text)

def value : Reading Bytes := do
  let r ← (ExceptT.lift (perform (I := Calls) .value) : Reading _)
  liftLexopt r

def parsed {α : Type} (fromStr : Bytes → Option α) : Reading α := do
  liftLexopt (parse fromStr (← value))

/-- `parser.value()?.parse().context(text)?`. -/
def parsedIn {α : Type} (text : String) (fromStr : Bytes → Option α) : Reading α := do
  orMessage text (parse fromStr (← value)).toOption

def guestPath : Reading Guest := do
  match Guest.new (← value) with
  | .ok path => pure path
  | .error e => throw (.guestPath e)

def hostFile : Reading HostFile := do
  let r ← (ExceptT.lift (perform (I := Calls) (.openFile (← value))) : Reading _)
  match r with
  | .ok file => pure file
  | .error e => throw (.opening e)

def hostDirectory : Reading RawFd := do
  let r ← (ExceptT.lift (perform (I := Calls) (.openDirectory (← value))) : Reading _)
  match r with
  | .ok fd => pure fd
  | .error e => throw (.opening e)

/-- A mount of what is read first, at the path that is read behind it. -/
def mountOf (mount : Reading Mount) : Reading Directive := do
  let mount ← mount
  return .mount (.fixed mount) (← guestPath)

def invalidSec : String := "Invalid sec value of a time namespace offset"

def invalidNsec : String := "Invalid nsec value of a time namespace offset"

/-- `strip_suffix("%")`. -/
def stripPercent (size : Bytes) : Option Bytes :=
  if size.getLast? = some 37 then some size.dropLast else none

def tmpfsSize : Reading TmpfsSize := do
  let size ← (ExceptT.lift (perform (I := Calls) .optionalValue) : Reading _)
  match size with
  | some size =>
    match stripPercent size with
    | some percent => do
      return .percent
        (← orMessage "failed to parse tmpfs size parameter as a percentage" (u64Of percent))
    | none => do
      return .bytes
        (← orMessage "failed to parse tmpfs size parameter as a byte count" (u64Of size))
  | none => return .percent 25

def capability : Reading Bytes := do liftLexopt (string (← value))

def Opt.read : Opt → Reading Directive
  | .shareIpc => return .set .shareIpc
  | .unshareIpc => return .set .unshareIpc
  | .shareNetwork => return .set .shareNetwork
  | .unshareNetwork => return .set .unshareNetwork
  | .shareUts => return .set .shareUts
  | .unshareUts => return .set .unshareUts
  | .clearHostname => return .set .clearHostname
  | .hostname => return .set (.hostname (← value))
  | .clearDomain => return .set .clearDomain
  | .domain => return .set (.domain (← value))
  | .shareTime => return .set .shareTime
  | .unshareTime => return .set .unshareTime
  | .clearSecOffset => return .set .clearSecOffset
  | .offsetSec => do
    let seconds ← parsedIn invalidSec i64Of
    return .set (.offsetSec (← orMessage invalidSec (TimeOffsetSeconds.new seconds)))
  | .clearNsecOffset => return .set .clearNsecOffset
  | .offsetNsec => do
    let nanoseconds ← parsedIn invalidNsec u32Of
    return .set (.offsetNsec (← orMessage invalidNsec (TimeOffsetNanoseconds.new nanoseconds)))
  | .setMonotonicOffset => return .set .setMonotonicOffset
  | .setBoottimeOffset => return .set .setBoottimeOffset
  | .disableUserns => return .set (.disableUserns true)
  | .enableUserns => return .set (.disableUserns false)
  | .uid => return .set (.uid (← orMessage "invalid uid" (Uid.fromRaw (← parsed u32Of))))
  | .gid => return .set (.gid (← orMessage "invalid gid" (Gid.fromRaw (← parsed u32Of))))
  | .passthrough => return .descriptors (.passthrough (← parsed i32Of))
  | .close => do
    let fd ← value
    if fd = ascii "all" then return .descriptors .closeAll
    else return .descriptors (.close (← liftLexopt (parse i32Of fd)))
  | .reuseSession => return .set (.newSession false)
  | .newSession => return .set (.newSession true)
  | .mode => do
    match unsignedOf 8 32 (← value) with
    | some bits =>
      return .set (.mode (← orMessage "invalid file mode" (modeFromBits (.ofNat bits))))
    | none => throw .parseInt
  | .roBindFile => mountOf (readOnlyFile <$> hostFile)
  | .roBindDirectory => mountOf (readOnlyDirectory <$> hostDirectory)
  | .rwBindFile => mountOf (readWriteFile <$> hostFile)
  | .rwBindDirectory => mountOf (readWriteDirectory <$> hostDirectory)
  | .devBindFile => mountOf (deviceFile <$> hostFile)
  | .proc => mountOf (return Bbx.proc .ptraceable .pid)
  | .procUnrestricted => mountOf (return Bbx.proc .off .full)
  | .mqueue => mountOf (return Bbx.mqueue)
  | .directory => return .mount .directory (← guestPath)
  | .symlink => mountOf (Mount.symlink <$> guestPath)
  | .tmpfs => do
    let size ← tmpfsSize
    return .mount (.tmpfs size) (← guestPath)
  | .setEnv => do
    let key ← value
    return .set (.setEnv key (← value))
  | .inheritEnv => do
    let key ← value
    return .set (.inheritEnv key (← (ExceptT.lift (perform (I := Calls) (.varOs key)) : Reading _)))
  | .unsetEnv => return .set (.unsetEnv (← value))
  | .cwd => return .set (.cwd (← guestPath))
  | .arg0 => return .set (.arg0 (← value))
  | .capAdd => do
    return .set (.capAdd (← orMessage "capability was not valid" (capabilityOf (← capability))))
  | .capDrop => do
    let rawCap ← capability
    if rawCap = ascii "all" then return .set .capDropAll
    else return .set (.capDrop (← orMessage "capability was not valid" (capabilityOf rawCap)))

end LayerCake.Bbx
