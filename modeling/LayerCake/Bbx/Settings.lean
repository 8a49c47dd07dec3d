import Mathlib.Tactic.Common
import LayerCake.Bbx.Options
import LayerCake.Order.LastWrite

/-
  What the options of `bbx` add up to (`interpret_policy` in `bbx/src/main.rs`).

  Correspondence (Rust ↔ Lean):
    the variables above the loop         ↔ `Settings`
    an arm of the `match`                ↔ `Settings.apply` of what the option asks for
    the arm `Value(v)`                   ↔ `Settings.command`
    the statement behind the loop        ↔ `Settings.finish`

  Some options come back to what an earlier one has set: `--hostname` makes a private namespace
  again where `--share-uts` was given, and resets neither name where it was not; the offsets are
  staged first and copied later; a mount is checked against all those before it.

  What is proved:
    1. `apply_means` — every field holds what was last asked of it, whatever came between.
    2. `apply_isOk` — the options are accepted exactly when no descriptor is negative and, after
       each of them, nothing is mounted underneath a mount that is not synthetic.
    3. `command_spec` — the command has the arguments behind its name, unchanged, and the
       environment that was last asked for.
-/

namespace LayerCake.Bbx

open LayerCake.Meowix LayerCake.Order LayerCake.Bubblebox Std
open LayerCake.Bubblebox.Sandbox
open LayerCake.Bubblebox.Spawn (Action FdPolicy isValidFdPolicy)
open LayerCake.Meowix.Capabilities (CapabilitySet)

/-! ## The code -/

/-- The variables that the options change. -/
structure Settings where
  policy : Sandbox.Policy := .default
  environment : HashMap Bytes Bytes := ∅
  lastSecondsOffset : Option TimeOffsetSeconds := none
  lastNanosecondsOffset : Option TimeOffsetNanoseconds := none
  uid : Option Uid := none
  gid : Option Gid := none
  cwd : Option Guest := none
  arg0 : Option Bytes := none
  capabilitySet : CapabilitySet := 0
  mode : Mode := 0

namespace Settings

def namespaces (self : Settings) (configure : Namespaces → Namespaces) : Settings :=
  { self with policy := self.policy.configureNamespaces configure }

/-- The staged components, each where it is set. -/
def staged (self : Settings) (offset : TimeOffset) : TimeOffset :=
  let offset := match self.lastSecondsOffset with
    | some seconds => offset.setSeconds seconds
    | none => offset
  match self.lastNanosecondsOffset with
  | some nanoseconds => offset.setNanoseconds nanoseconds
  | none => offset

def set (self : Settings) : Setting → Settings
  | .shareIpc => self.namespaces (·.shareIpc)
  | .unshareIpc => self.namespaces (·.unshareIpc)
  | .shareNetwork => self.namespaces (·.shareNetwork)
  | .unshareNetwork => self.namespaces (·.unshareNetworkAndIsolate)
  | .shareUts => self.namespaces (·.shareUts)
  | .unshareUts => self.namespaces (·.unshareUts id)
  | .clearHostname => self.namespaces (·.unshareUts (·.clearHostname))
  | .hostname hostname => self.namespaces (·.unshareUts (·.setHostname hostname))
  | .clearDomain => self.namespaces (·.unshareUts (·.clearDomain))
  | .domain domain => self.namespaces (·.unshareUts (·.setDomain domain))
  | .shareTime => self.namespaces (·.shareTime)
  | .unshareTime => self.namespaces (·.unshareTime id)
  | .clearSecOffset => { self with lastSecondsOffset := none }
  | .offsetSec seconds => { self with lastSecondsOffset := some seconds }
  | .clearNsecOffset => { self with lastNanosecondsOffset := none }
  | .offsetNsec nanoseconds => { self with lastNanosecondsOffset := some nanoseconds }
  | .setMonotonicOffset => self.namespaces (·.unshareTime (·.configureMonotonic self.staged))
  | .setBoottimeOffset => self.namespaces (·.unshareTime (·.configureBoottime self.staged))
  | .disableUserns disable => self.namespaces (·.userNamespace (·.setDisableUserns disable))
  | .uid uid => { self with uid := some uid }
  | .gid gid => { self with gid := some gid }
  | .newSession new => { self with policy := self.policy.setNewSession new }
  | .mode mode => { self with mode }
  | .setEnv key value => { self with environment := self.environment.insert key value }
  | .inheritEnv key value =>
    { self with environment := match value with
      | some value => self.environment.insert key value
      | none => self.environment }
  | .unsetEnv key => { self with environment := self.environment.erase key }
  | .cwd path => { self with cwd := some path }
  | .arg0 arg => { self with arg0 := some arg }
  | .capAdd cap => { self with capabilitySet := self.capabilitySet ||| Capabilities.bit cap }
  | .capDropAll => { self with capabilitySet := 0 }
  | .capDrop cap =>
    -- the complement of a set has only bits that have names
    { self with
      capabilitySet := self.capabilitySet &&& (allCapabilities &&& ~~~Capabilities.bit cap) }

end Settings

/-- The builder of the descriptors that an option calls. -/
def FdEdit.edit (policy : FdPolicy) : FdEdit → FdPolicy
  | .passthrough fd => policy.insert fd .ignore
  | .closeAll => ∅
  | .close fd => policy.erase fd

def Mounted.mount (mode : Mode) : Mounted → Mount
  | .fixed mount => mount
  | .directory => Bbx.directory mode
  | .tmpfs size => Bbx.tmpfs size none mode

namespace Settings

def apply (self : Settings) : Directive → Except Error Settings
  | .set setting => .ok (self.set setting)
  | .descriptors edit =>
    match self.policy.configureFds fun policy => edit.edit policy with
    | some policy => .ok { self with policy }
    | none => .error .invalidFdPolicy
  | .mount mounted path =>
    match self.policy.configureMounts fun tree => tree.mount (mounted.mount self.mode) path with
    | some policy => .ok { self with policy }
    | none => .error .invalidMountPolicy

/-- The policy behind the loop. -/
def finish (self : Settings) : Sandbox.Policy :=
  (self.policy.configureNamespaces
    (·.userNamespace (·.simpleMapping self.uid self.gid))).setTargetCapabilities self.capabilitySet

def inCwd (self : Settings) (finalCommand : CommandInner) : CommandInner :=
  match self.cwd with
  | some cwd => finalCommand.currentDir cwd
  | none => finalCommand

def withArg0 (self : Settings) (finalCommand : CommandInner) : Except CommandError CommandInner :=
  match self.arg0 with
  | some arg0 => finalCommand.arg0 arg0
  | none => .ok finalCommand

/-- The command once its name and the arguments behind it were found. -/
def command (self : Settings) (finalCommand : CommandInner) (rawArgs : List Bytes) :
    Except CommandError CommandInner := do
  let finalCommand ← finalCommand.args rawArgs
  let finalCommand ← finalCommand.envs self.environment.toList
  self.withArg0 (self.inCwd finalCommand)

end Settings

/-! ## What is asked of a field -/

instance : DecidableEq Guest := fun a b =>
  decidable_of_iff (Guest.cmp a b = .eq)
    ⟨LawfulEqCmp.eq_of_compare, fun h => h ▸ ReflCmp.compare_self⟩

namespace Directive

def sharesIpc : Directive → Option Bool
  | .set .shareIpc => some true
  | .set .unshareIpc => some false
  | _ => none

def sharesNetwork : Directive → Option Bool
  | .set .shareNetwork => some true
  | .set .unshareNetwork => some false
  | _ => none

def sharesUts : Directive → Option Bool
  | .set .shareUts => some true
  | .set .unshareUts | .set .clearHostname | .set (.hostname _) | .set .clearDomain
  | .set (.domain _) => some false
  | _ => none

/-- Sharing the namespace forgets both names. -/
def hostnameTo : Directive → Option (Option Bytes)
  | .set (.hostname hostname) => some (some hostname)
  | .set .clearHostname | .set .shareUts => some none
  | _ => none

def domainTo : Directive → Option (Option Bytes)
  | .set (.domain domain) => some (some domain)
  | .set .clearDomain | .set .shareUts => some none
  | _ => none

def sharesTime : Directive → Option Bool
  | .set .shareTime => some true
  | .set .unshareTime | .set .setMonotonicOffset | .set .setBoottimeOffset => some false
  | _ => none

def stagesSeconds : Directive → Option (Option TimeOffsetSeconds)
  | .set (.offsetSec seconds) => some (some seconds)
  | .set .clearSecOffset => some none
  | _ => none

def stagesNanoseconds : Directive → Option (Option TimeOffsetNanoseconds)
  | .set (.offsetNsec nanoseconds) => some (some nanoseconds)
  | .set .clearNsecOffset => some none
  | _ => none

def disablesUserns : Directive → Option Bool
  | .set (.disableUserns disable) => some disable
  | _ => none

def uidTo : Directive → Option (Option Uid)
  | .set (.uid uid) => some (some uid)
  | _ => none

def gidTo : Directive → Option (Option Gid)
  | .set (.gid gid) => some (some gid)
  | _ => none

def sessionTo : Directive → Option Bool
  | .set (.newSession new) => some new
  | _ => none

def modeTo : Directive → Option Mode
  | .set (.mode mode) => some mode
  | _ => none

def cwdTo : Directive → Option (Option Guest)
  | .set (.cwd path) => some (some path)
  | _ => none

def arg0To : Directive → Option (Option Bytes)
  | .set (.arg0 arg) => some (some arg)
  | _ => none

/-- What becomes of a variable of the environment. -/
def envTo (key : Bytes) : Directive → Option (Option Bytes)
  | .set (.setEnv k value) => if k = key then some (some value) else none
  | .set (.inheritEnv k (some value)) => if k = key then some (some value) else none
  | .set (.unsetEnv k) => if k = key then some none else none
  | _ => none

/-- Dropping one of them drops what has no name, too. -/
def grants (cap : Nat) : Directive → Option Bool
  | .set (.capAdd c) => if c = cap then some true else none
  | .set .capDropAll => some false
  | .set (.capDrop c) => if c = cap ∨ capabilityNames.length ≤ cap then some false else none
  | _ => none

def descriptorTo (fd : RawFd) : Directive → Option (Option Action)
  | .descriptors (.passthrough n) => if n = fd then some (some .ignore) else none
  | .descriptors .closeAll => some none
  | .descriptors (.close n) => if n = fd then some none else none
  | _ => none

end Directive

/-- What the options last asked of a field. -/
def last {β : Type} (asks : Directive → Option β) (directives : List Directive) : Option β :=
  lastWrite (fun _ => asks) directives

/-- The mode that is set behind some options. -/
def modeBehind (past : List Directive) : Mode := (last Directive.modeTo past).getD 0

/-- What is mounted at a path, with the mode that was set when it came. -/
def Directive.mounts (path : Guest) (past : List Directive) : Directive → Option (Option Mount)
  | .mount mounted p => if p = path then some (some (mounted.mount (modeBehind past))) else none
  | _ => none

inductive Clock where
  | monotonic
  | boottime
  deriving DecidableEq

def Clock.offset (options : TimeOptions) : Clock → Option TimeOffset
  | monotonic => options.monotonicOffset
  | boottime => options.boottimeOffset

namespace Directive

/-- Whether a clock has an offset; sharing the namespace forgets them. -/
def offsets (clock : Clock) : Directive → Option Bool
  | .set .shareTime => some false
  | .set .setMonotonicOffset => if clock = .monotonic then some true else none
  | .set .setBoottimeOffset => if clock = .boottime then some true else none
  | _ => none

/-- A component of it: one that is not staged when the offset is set stays as it was. -/
def secondsTo (clock : Clock) (past : List Directive) (d : Directive) : Option TimeOffsetSeconds :=
  match offsets clock d with
  | some true => (last stagesSeconds past).getD none
  | some false => some .zero
  | none => none

def nanosecondsTo (clock : Clock) (past : List Directive) (d : Directive) :
    Option TimeOffsetNanoseconds :=
  match offsets clock d with
  | some true => (last stagesNanoseconds past).getD none
  | some false => some .zero
  | none => none

end Directive

/-- `P` holds of every field: of what the options ask of it, its default and how it is read. -/
structure Fields
    (P : ∀ {β : Type}, (List Directive → Directive → Option β) → β → (Settings → β) → Prop) :
    Prop where
  ipc : P (fun _ => Directive.sharesIpc) false fun s => s.finish.namespaces.ipc.isShared
  network : P (fun _ => Directive.sharesNetwork) false fun s => s.finish.namespaces.network.isShared
  uts : P (fun _ => Directive.sharesUts) false fun s => s.finish.namespaces.uts.isShared
  hostname : P (fun _ => Directive.hostnameTo) none fun s =>
    (s.finish.namespaces.uts.unwrapOr {}).hostname
  domain : P (fun _ => Directive.domainTo) none fun s =>
    (s.finish.namespaces.uts.unwrapOr {}).domain
  time : P (fun _ => Directive.sharesTime) false fun s => s.finish.namespaces.time.isShared
  offsets (clock : Clock) : P (fun _ => Directive.offsets clock) false fun s =>
    (clock.offset (s.finish.namespaces.time.unwrapOr {})).isSome
  seconds (clock : Clock) : P (Directive.secondsTo clock) .zero fun s =>
    ((clock.offset (s.finish.namespaces.time.unwrapOr {})).getD {}).seconds
  nanoseconds (clock : Clock) :
    P (Directive.nanosecondsTo clock) .zero fun s =>
      ((clock.offset (s.finish.namespaces.time.unwrapOr {})).getD {}).nanoseconds
  uid : P (fun _ => Directive.uidTo) none fun s => s.finish.namespaces.user.uid
  gid : P (fun _ => Directive.gidTo) none fun s => s.finish.namespaces.user.gid
  userns : P (fun _ => Directive.disablesUserns) true fun s =>
    s.finish.namespaces.user.disableUserns
  session : P (fun _ => Directive.sessionTo) true fun s => s.finish.newSession
  capabilities (cap : Nat) : P (fun _ => Directive.grants cap) false fun s =>
    s.finish.targetCapabilities.getLsbD cap
  descriptors (fd : RawFd) : P (fun _ => Directive.descriptorTo fd) none fun s =>
    s.finish.fileDescriptors[fd]?
  mounts (path : Guest) : P (Directive.mounts path) none fun s =>
    s.finish.mountTree.tree[path]?
  keyring : P (fun _ _ => none) .reset fun s => s.finish.keyring
  rlimits : P (fun _ _ => none) {} fun s => s.finish.rlimits
  scheduler : P (fun _ _ => none) {} fun s => s.finish.scheduler
  seccompFilter : P (fun _ _ => none) none fun s => s.finish.seccompFilter
  environment (key : Bytes) : P (fun _ => Directive.envTo key) none fun s => s.environment[key]?
  cwd : P (fun _ => Directive.cwdTo) none fun s => s.cwd
  arg0 : P (fun _ => Directive.arg0To) none fun s => s.arg0

/-- Every field holds what was last asked of it, or its default. -/
def Means (directives : List Directive) (settings : Settings) : Prop :=
  Fields fun asks default field => field settings = (lastWrite asks directives).getD default

theorem Fields.imp
    {P Q : ∀ {β : Type}, (List Directive → Directive → Option β) → β → (Settings → β) → Prop}
    (h : ∀ {β : Type} (asks : List Directive → Directive → Option β) (default : β)
      (field : Settings → β), P asks default field → Q asks default field) (hP : Fields P) :
    Fields Q where
  ipc := h _ _ _ hP.ipc
  network := h _ _ _ hP.network
  uts := h _ _ _ hP.uts
  hostname := h _ _ _ hP.hostname
  domain := h _ _ _ hP.domain
  time := h _ _ _ hP.time
  offsets clock := h _ _ _ (hP.offsets clock)
  seconds clock := h _ _ _ (hP.seconds clock)
  nanoseconds clock := h _ _ _ (hP.nanoseconds clock)
  uid := h _ _ _ hP.uid
  gid := h _ _ _ hP.gid
  userns := h _ _ _ hP.userns
  session := h _ _ _ hP.session
  capabilities cap := h _ _ _ (hP.capabilities cap)
  descriptors fd := h _ _ _ (hP.descriptors fd)
  mounts path := h _ _ _ (hP.mounts path)
  keyring := h _ _ _ hP.keyring
  rlimits := h _ _ _ hP.rlimits
  scheduler := h _ _ _ hP.scheduler
  seccompFilter := h _ _ _ hP.seccompFilter
  environment key := h _ _ _ (hP.environment key)
  cwd := h _ _ _ hP.cwd
  arg0 := h _ _ _ hP.arg0

/-! ## One option after the other -/

section Options
variable {s t : Settings}

theorem apply_descriptors_ok {edit : FdEdit} (h : s.apply (.descriptors edit) = .ok t) :
    ∃ hvalid : isValidFdPolicy (edit.edit s.policy.fileDescriptors) = true,
      t = { s with policy := { s.policy with
        fileDescriptors := edit.edit s.policy.fileDescriptors, validDescriptors := hvalid } } := by
  simp only [Settings.apply] at h
  split at h
  · next policy hpolicy =>
    cases h
    obtain ⟨hvalid, rfl⟩ := Policy.configureFds_eq_some.mp hpolicy
    exact ⟨hvalid, rfl⟩
  · cases h

theorem apply_mount_ok {mounted : Mounted} {path : Guest}
    (h : s.apply (.mount mounted path) = .ok t) :
    ∃ mounts, s.policy.toPolicy.configureMountTree
        (fun tree => tree.mount (mounted.mount s.mode) path) = some mounts ∧
      t = { s with policy := { s.policy with toPolicy := mounts } } := by
  simp only [Settings.apply] at h
  split at h
  · next policy hpolicy =>
    cases h
    obtain ⟨mounts, hmounts, rfl⟩ := Policy.configureMounts_eq_some.mp hpolicy
    exact ⟨mounts, hmounts, rfl⟩
  · cases h

/-- A field starts with its default, and holds what the options ask of it or what it held. -/
structure Follows {β : Type} (asks : List Directive → Directive → Option β) (default : β)
    (field : Settings → β) : Prop where
  start : field {} = default
  step : ∀ past s d t, past.foldlM Settings.apply {} = .ok s → s.apply d = .ok t →
    field t = (asks past d).getD (field s)

theorem Follows.holds {β : Type} {asks : List Directive → Directive → Option β} {default : β}
    {field : Settings → β} (h : Follows asks default field) {directives : List Directive}
    (hs : directives.foldlM Settings.apply {} = .ok s) :
    field s = (lastWrite asks directives).getD default := by
  rw [← h.start]
  exact lastWrite_foldlM field h.step hs

/-- What edits the mounts or the descriptors leaves the field alone. -/
theorem Follows.of_set {β : Type} {asks : List Directive → Directive → Option β} {default : β}
    {field : Settings → β} (hstart : field {} = default)
    (hset : ∀ past s x, past.foldlM Settings.apply {} = .ok s →
      field (s.set x) = (asks past (.set x)).getD (field s))
    (hframe : ∀ s mounts fds hvalid, field { s with policy := { s.policy with
      toPolicy := mounts, fileDescriptors := fds, validDescriptors := hvalid } } = field s)
    (hnone : ∀ past, (∀ edit, asks past (.descriptors edit) = none) ∧
      ∀ mounted path, asks past (.mount mounted path) = none) : Follows asks default field where
  start := hstart
  step past s d t hpast h := by
    cases d with
    | set x =>
      cases h
      exact hset past s x hpast
    | descriptors edit =>
      obtain ⟨hvalid, rfl⟩ := apply_descriptors_ok h
      rw [(hnone past).1 edit]
      exact hframe s s.policy.toPolicy _ hvalid
    | mount mounted path =>
      obtain ⟨mounts, -, rfl⟩ := apply_mount_ok h
      rw [(hnone past).2 mounted path]
      exact hframe s mounts s.policy.fileDescriptors s.policy.validDescriptors

/-- What is asked of the field does not depend on what was asked before. -/
theorem Follows.of_plain {β : Type} {asks : Directive → Option β} {default : β}
    {field : Settings → β} (hstart : field {} = default)
    (hset : ∀ s x, field (s.set x) = (asks (.set x)).getD (field s))
    (hframe : ∀ s mounts fds hvalid, field { s with policy := { s.policy with
      toPolicy := mounts, fileDescriptors := fds, validDescriptors := hvalid } } = field s)
    (hnone : (∀ edit, asks (.descriptors edit) = none) ∧
      ∀ mounted path, asks (.mount mounted path) = none) :
    Follows (fun _ => asks) default field :=
  .of_set hstart (fun _ s x _ => hset s x) hframe fun _ => hnone

theorem follows_stagedSeconds :
    Follows (fun _ => Directive.stagesSeconds) none (·.lastSecondsOffset) :=
  .of_plain rfl (fun _ x => by cases x <;> rfl) (fun _ _ _ _ => rfl)
    ⟨fun _ => rfl, fun _ _ => rfl⟩

theorem follows_stagedNanoseconds :
    Follows (fun _ => Directive.stagesNanoseconds) none (·.lastNanosecondsOffset) :=
  .of_plain rfl (fun _ x => by cases x <;> rfl) (fun _ _ _ _ => rfl)
    ⟨fun _ => rfl, fun _ _ => rfl⟩

theorem follows_mode : Follows (fun _ => Directive.modeTo) 0 (·.mode) :=
  .of_plain rfl (fun _ x => by cases x <;> rfl) (fun _ _ _ _ => rfl)
    ⟨fun _ => rfl, fun _ _ => rfl⟩

theorem staged_seconds (s : Settings) (offset : TimeOffset) :
    (s.staged offset).seconds = s.lastSecondsOffset.getD offset.seconds := by
  unfold Settings.staged
  cases s.lastSecondsOffset <;> cases s.lastNanosecondsOffset <;> rfl

theorem staged_nanoseconds (s : Settings) (offset : TimeOffset) :
    (s.staged offset).nanoseconds = s.lastNanosecondsOffset.getD offset.nanoseconds := by
  unfold Settings.staged
  cases s.lastSecondsOffset <;> cases s.lastNanosecondsOffset <;> rfl

/-- Of the two clocks, an option copies what is staged to the one that it names. -/
theorem follows_seconds (clock : Clock) :
    Follows (Directive.secondsTo clock) .zero fun s =>
      ((clock.offset (s.finish.namespaces.time.unwrapOr {})).getD {}).seconds := by
  refine .of_set (by cases clock <;> rfl) (fun past s x hpast => ?_) (fun _ _ _ _ => rfl)
    fun past => ⟨fun _ => rfl, fun _ _ => rfl⟩
  have hstaged : s.lastSecondsOffset = (last Directive.stagesSeconds past).getD none :=
    follows_stagedSeconds.holds hpast
  have hcopied := staged_seconds s
  rw [hstaged] at hcopied
  cases x with
  | setMonotonicOffset =>
    cases clock with
    | monotonic => exact hcopied _
    | boottime => rfl
  | setBoottimeOffset =>
    cases clock with
    | monotonic => rfl
    | boottime => exact hcopied _
  | shareTime => cases clock <;> rfl
  | _ => rfl

theorem follows_nanoseconds (clock : Clock) :
    Follows (Directive.nanosecondsTo clock) .zero fun s =>
      ((clock.offset (s.finish.namespaces.time.unwrapOr {})).getD {}).nanoseconds := by
  refine .of_set (by cases clock <;> rfl) (fun past s x hpast => ?_) (fun _ _ _ _ => rfl)
    fun past => ⟨fun _ => rfl, fun _ _ => rfl⟩
  have hstaged : s.lastNanosecondsOffset = (last Directive.stagesNanoseconds past).getD none :=
    follows_stagedNanoseconds.holds hpast
  have hcopied := staged_nanoseconds s
  rw [hstaged] at hcopied
  cases x with
  | setMonotonicOffset =>
    cases clock with
    | monotonic => exact hcopied _
    | boottime => rfl
  | setBoottimeOffset =>
    cases clock with
    | monotonic => rfl
    | boottime => exact hcopied _
  | shareTime => cases clock <;> rfl
  | _ => rfl

theorem follows_offsets (clock : Clock) :
    Follows (fun _ => Directive.offsets clock) false fun s =>
      (clock.offset (s.finish.namespaces.time.unwrapOr {})).isSome := by
  refine .of_plain (by cases clock <;> rfl) (fun s x => ?_) (fun _ _ _ _ => rfl)
    ⟨fun _ => rfl, fun _ _ => rfl⟩
  cases x with
  | setMonotonicOffset => cases clock <;> rfl
  | setBoottimeOffset => cases clock <;> rfl
  | shareTime => cases clock <;> rfl
  | _ => rfl

theorem follows_capabilities (cap : Nat) :
    Follows (fun _ => Directive.grants cap) false fun s =>
      s.finish.targetCapabilities.getLsbD cap := by
  refine .of_plain BitVec.getLsbD_zero (fun s x => ?_) (fun _ _ _ _ => rfl)
    ⟨fun _ => rfl, fun _ _ => rfl⟩
  have hnames : capabilityNames.length = 41 := rfl
  cases x with
  | capAdd c =>
    have hc : (c : Nat) < 64 := by omega
    show (s.capabilitySet ||| Capabilities.bit c).getLsbD cap = _
    rw [BitVec.getLsbD_or, Capabilities.getLsbD_bit hc]
    by_cases h : (c : Nat) = cap
    · simp [Directive.grants, h]
    · simp [Directive.grants, h, Ne.symm h]
      rfl
  | capDrop c =>
    have hc : (c : Nat) < 64 := by omega
    show (s.capabilitySet &&& (allCapabilities &&& ~~~Capabilities.bit c)).getLsbD cap = _
    have hall : allCapabilities.getLsbD cap = decide (cap < 41) := by
      unfold allCapabilities
      rw [BitVec.getLsbD_ofNat, Nat.testBit_two_pow_sub_one]
      by_cases hlt : cap < 41
      · simp [hlt, show cap < 64 by omega]
      · simp [hlt]
    rw [BitVec.getLsbD_and, BitVec.getLsbD_and, BitVec.getLsbD_not, hall,
      Capabilities.getLsbD_bit hc]
    by_cases h : (c : Nat) = cap ∨ capabilityNames.length ≤ cap
    · have hlost : (decide (cap < 41) && (decide (cap < 64) && !decide (cap = c))) = false := by
        rcases h with h | h
        · simp [h]
        · simp [show ¬ cap < 41 by omega]
      simp [Directive.grants, h, hlost]
    · obtain ⟨hne, hlt⟩ := not_or.mp h
      have hkept : (decide (cap < 41) && (decide (cap < 64) && !decide (cap = c))) = true := by
        simp [show cap < 41 by omega, show cap < 64 by omega, Ne.symm hne]
      simp [Directive.grants, h, hkept]
      rfl
  | capDropAll => exact BitVec.getLsbD_zero
  | _ => rfl

theorem getElem?_edit (edit : FdEdit) (policy : FdPolicy) (fd : RawFd) :
    (edit.edit policy)[fd]? = (Directive.descriptorTo fd (.descriptors edit)).getD policy[fd]? := by
  cases edit with
  | passthrough n =>
    show (policy.insert n .ignore)[fd]? = _
    rw [TreeMap.getElem?_insert]
    by_cases hn : n = fd
    · simp [Directive.descriptorTo, hn]
    · simp [Directive.descriptorTo, hn]
  | closeAll => exact TreeMap.getElem?_emptyc
  | close n =>
    show (policy.erase n)[fd]? = _
    rw [TreeMap.getElem?_erase]
    by_cases hn : n = fd
    · simp [Directive.descriptorTo, hn]
    · simp [Directive.descriptorTo, hn]

theorem follows_descriptors (fd : RawFd) :
    Follows (fun _ => Directive.descriptorTo fd) none fun s => s.finish.fileDescriptors[fd]? where
  start := TreeMap.getElem?_emptyc
  step past s d t _ h := by
    cases d with
    | set x =>
      cases h
      cases x <;> rfl
    | descriptors edit =>
      obtain ⟨hvalid, rfl⟩ := apply_descriptors_ok h
      exact getElem?_edit edit s.policy.fileDescriptors fd
    | mount mounted path =>
      obtain ⟨mounts, -, rfl⟩ := apply_mount_ok h
      rfl

/-- The mode of a mount is the one that is set when it comes. -/
theorem insert_mounts {past : List Directive} (hpast : past.foldlM Settings.apply {} = .ok s)
    (mounted : Mounted) (p path : Guest) :
    (s.policy.mountTree.tree.insert p (mounted.mount s.mode))[path]? =
      (Directive.mounts path past (.mount mounted p)).getD s.policy.mountTree.tree[path]? := by
  have hmode : s.mode = modeBehind past := follows_mode.holds hpast
  rw [TreeMap.getElem?_insert, hmode]
  by_cases hp : p = path
  · simp [Directive.mounts, hp]
  · have hcmp : ¬ Guest.cmp p path = .eq := fun e => hp (LawfulEqCmp.eq_of_compare e)
    simp [Directive.mounts, hp, hcmp]

theorem follows_mounts (path : Guest) :
    Follows (Directive.mounts path) none fun s => s.finish.mountTree.tree[path]? where
  start := TreeMap.getElem?_emptyc
  step past s d t hpast h := by
    cases d with
    | set x =>
      cases h
      cases x <;> rfl
    | descriptors edit =>
      obtain ⟨hvalid, rfl⟩ := apply_descriptors_ok h
      rfl
    | mount mounted p =>
      obtain ⟨mounts, hmounts, rfl⟩ := apply_mount_ok h
      have htree := (s.policy.toPolicy.configureMountTree_eq _).2 mounts hmounts
      show mounts.mountTree.tree[path]? = _
      rw [htree]
      exact insert_mounts hpast mounted p path

theorem follows_environment (key : Bytes) :
    Follows (fun _ => Directive.envTo key) none fun s => s.environment[key]? := by
  refine .of_plain HashMap.getElem?_empty (fun s x => ?_) (fun _ _ _ _ => rfl)
    ⟨fun _ => rfl, fun _ _ => rfl⟩
  cases x with
  | setEnv k value =>
    show (s.environment.insert k value)[key]? = _
    rw [HashMap.getElem?_insert]
    by_cases hk : k = key
    · simp [Directive.envTo, hk]
    · simp [Directive.envTo, hk]
  | inheritEnv k value =>
    cases value with
    | none => rfl
    | some value =>
      show (s.environment.insert k value)[key]? = _
      rw [HashMap.getElem?_insert]
      by_cases hk : k = key
      · simp [Directive.envTo, hk]
      · simp [Directive.envTo, hk]
  | unsetEnv k =>
    show (s.environment.erase k)[key]? = _
    rw [HashMap.getElem?_erase]
    by_cases hk : k = key
    · simp [Directive.envTo, hk]
    · simp [Directive.envTo, hk]
  | _ => rfl

/-- What an option does to every field. -/
theorem apply_follows : Fields Follows where
  ipc := .of_plain rfl (fun _ x => by cases x <;> rfl) (fun _ _ _ _ => rfl)
    ⟨fun _ => rfl, fun _ _ => rfl⟩
  network := .of_plain rfl (fun _ x => by cases x <;> rfl) (fun _ _ _ _ => rfl)
    ⟨fun _ => rfl, fun _ _ => rfl⟩
  uts := .of_plain rfl (fun _ x => by cases x <;> rfl) (fun _ _ _ _ => rfl)
    ⟨fun _ => rfl, fun _ _ => rfl⟩
  hostname := .of_plain rfl (fun _ x => by cases x <;> rfl) (fun _ _ _ _ => rfl)
    ⟨fun _ => rfl, fun _ _ => rfl⟩
  domain := .of_plain rfl (fun _ x => by cases x <;> rfl) (fun _ _ _ _ => rfl)
    ⟨fun _ => rfl, fun _ _ => rfl⟩
  time := .of_plain rfl (fun _ x => by cases x <;> rfl) (fun _ _ _ _ => rfl)
    ⟨fun _ => rfl, fun _ _ => rfl⟩
  offsets := follows_offsets
  seconds := follows_seconds
  nanoseconds := follows_nanoseconds
  uid := .of_plain rfl (fun _ x => by cases x <;> rfl) (fun _ _ _ _ => rfl)
    ⟨fun _ => rfl, fun _ _ => rfl⟩
  gid := .of_plain rfl (fun _ x => by cases x <;> rfl) (fun _ _ _ _ => rfl)
    ⟨fun _ => rfl, fun _ _ => rfl⟩
  userns := .of_plain rfl (fun _ x => by cases x <;> rfl) (fun _ _ _ _ => rfl)
    ⟨fun _ => rfl, fun _ _ => rfl⟩
  session := .of_plain rfl (fun _ x => by cases x <;> rfl) (fun _ _ _ _ => rfl)
    ⟨fun _ => rfl, fun _ _ => rfl⟩
  capabilities := follows_capabilities
  descriptors := follows_descriptors
  mounts := follows_mounts
  keyring := .of_plain rfl (fun _ x => by cases x <;> rfl) (fun _ _ _ _ => rfl)
    ⟨fun _ => rfl, fun _ _ => rfl⟩
  rlimits := .of_plain rfl (fun _ x => by cases x <;> rfl) (fun _ _ _ _ => rfl)
    ⟨fun _ => rfl, fun _ _ => rfl⟩
  scheduler := .of_plain rfl (fun _ x => by cases x <;> rfl) (fun _ _ _ _ => rfl)
    ⟨fun _ => rfl, fun _ _ => rfl⟩
  seccompFilter := .of_plain rfl (fun _ x => by cases x <;> rfl) (fun _ _ _ _ => rfl)
    ⟨fun _ => rfl, fun _ _ => rfl⟩
  environment := follows_environment
  cwd := .of_plain rfl (fun _ x => by cases x <;> rfl) (fun _ _ _ _ => rfl)
    ⟨fun _ => rfl, fun _ _ => rfl⟩
  arg0 := .of_plain rfl (fun _ x => by cases x <;> rfl) (fun _ _ _ _ => rfl)
    ⟨fun _ => rfl, fun _ _ => rfl⟩

/-- Every field holds what was last asked of it, whatever came between. -/
theorem apply_means {directives : List Directive}
    (h : directives.foldlM Settings.apply {} = .ok s) : Means directives s :=
  apply_follows.imp fun _ _ _ hfollows => hfollows.holds h

/-! ### What is accepted -/

/-- What is mounted at a path in the end. -/
def mountAt (directives : List Directive) (path : Guest) : Option Mount :=
  (lastWrite (Directive.mounts path) directives).getD none

/-- Nothing is mounted underneath a mount that is not synthetic. -/
def Nested (directives : List Directive) : Prop :=
  ∀ a source b target, mountAt directives a = some source → mountAt directives b = some target →
    a ≠ b → b.Under a → source.isSynthetic = true

structure Accepted (directives : List Directive) : Prop where
  descriptors : ∀ fd, .descriptors (.passthrough fd) ∈ directives → 0 ≤ fd
  mounts : ∀ past, past <+: directives → Nested past

theorem accepted_concat {directives : List Directive} {d : Directive} :
    Accepted (directives ++ [d]) ↔ Accepted directives ∧
      (∀ fd, d = .descriptors (.passthrough fd) → 0 ≤ fd) ∧ Nested (directives ++ [d]) := by
  constructor
  · intro h
    refine ⟨⟨fun fd hfd => h.descriptors fd (List.mem_append_left _ hfd), fun past hpast => ?_⟩,
      fun fd hd => h.descriptors fd (by simp [hd]), h.mounts _ (List.prefix_refl _)⟩
    exact h.mounts past (hpast.trans (List.prefix_append _ _))
  · intro ⟨h, hfd, hnested⟩
    refine ⟨fun fd hmem => ?_, fun past hpast => ?_⟩
    · rcases List.mem_append.mp hmem with hmem | hmem
      · exact h.descriptors fd hmem
      · exact hfd fd (List.mem_singleton.mp hmem).symm
    · rcases List.prefix_concat_iff.mp hpast with rfl | hpast
      · exact hnested
      · exact h.mounts past hpast

/-- A map without mappings has only to have no negative descriptor. -/
theorem isValidFdPolicy_iff {policy : FdPolicy}
    (h : ∀ (fd : RawFd) (action : Action), policy[fd]? = some action → action = .ignore) :
    isValidFdPolicy policy = true ↔ ∀ fd : RawFd, policy[fd]?.isSome = true → 0 ≤ fd := by
  unfold isValidFdPolicy
  rw [List.all_eq_true]
  constructor
  · intro hall fd hsome
    obtain ⟨action, haction⟩ := Option.isSome_iff_exists.mp hsome
    have hentry := hall (fd, action) (TreeMap.mem_toList_iff_getElem?_eq_some.mpr haction)
    dsimp only at hentry
    split at hentry
    · cases hentry
    · next hpos => exact Int32.not_lt.mp hpos
  · intro hall entry hentry
    obtain ⟨fd, action⟩ := entry
    have haction := TreeMap.mem_toList_iff_getElem?_eq_some.mp hentry
    have hpos := hall fd (by rw [haction]; rfl)
    dsimp only
    rw [if_neg (Int32.not_lt.mpr hpos), if_pos (h fd action haction)]

/-- A descriptor that is passed through is one that an option named. -/
theorem descriptors_ignore {directives : List Directive} {fd : RawFd} {action : Action}
    (h : lastWrite (fun _ => Directive.descriptorTo fd) directives = some (some action)) :
    action = .ignore ∧ .descriptors (.passthrough fd) ∈ directives := by
  obtain ⟨-, d, hmem, hd⟩ := exists_of_lastWrite h
  unfold Directive.descriptorTo at hd
  split at hd
  · split at hd
    · next hfd =>
      cases hd
      exact ⟨rfl, hfd ▸ hmem⟩
    · cases hd
  · cases hd
  · split at hd
    · cases hd
    · cases hd
  · cases hd

section Accepting
variable {directives : List Directive}

theorem run_concat {d : Directive} :
    (directives ++ [d]).foldlM Settings.apply {} = .ok t ↔
      ∃ s, directives.foldlM Settings.apply {} = .ok s ∧ s.apply d = .ok t := by
  rw [List.foldlM_append, bind_eq_ok]
  refine exists_congr fun s => and_congr_right fun _ => ?_
  rw [List.foldlM_cons, bind_eq_ok]
  constructor
  · intro ⟨u, hu, hdone⟩
    cases hdone
    exact hu
  · intro hu
    exact ⟨t, hu, rfl⟩

theorem valid_iff_nested (hs : directives.foldlM Settings.apply {} = .ok s) :
    (isValidMountTree s.policy.mountTree.tree).isSome = true ↔ Nested directives := by
  have hat : ∀ path, s.policy.mountTree.tree[path]? = mountAt directives path :=
    fun path => (follows_mounts path).holds hs
  rw [isValidMountTree_isSome_iff]
  simp only [hat]
  rfl

/-- No option maps a descriptor, so that the policy of the descriptors is as simple as that. -/
theorem edit_ignore (hs : directives.foldlM Settings.apply {} = .ok s) {edit : FdEdit} {fd : RawFd}
    {action : Action} (h : (edit.edit s.policy.fileDescriptors)[fd]? = some action) :
    action = .ignore ∧ .descriptors (.passthrough fd) ∈ directives ++ [.descriptors edit] := by
  have hheld : s.policy.fileDescriptors[fd]? =
      (last (Directive.descriptorTo fd) directives).getD none :=
    (follows_descriptors fd).holds hs
  rw [getElem?_edit, hheld] at h
  apply descriptors_ignore
  rw [lastWrite_concat]
  cases hd : Directive.descriptorTo fd (.descriptors edit) with
  | some written =>
    rw [hd] at h
    exact congrArg some h
  | none =>
    rw [hd] at h
    unfold last at h
    cases hlast : lastWrite (fun _ => Directive.descriptorTo fd) directives with
    | some written =>
      rw [hlast] at h
      exact congrArg some h
    | none =>
      rw [hlast] at h
      cases h

/-- The next option is accepted exactly when it may come behind those before it. -/
theorem apply_step (hs : directives.foldlM Settings.apply {} = .ok s) (hacc : Accepted directives)
    (d : Directive) : (∃ t, s.apply d = .ok t) ↔ Accepted (directives ++ [d]) := by
  rw [accepted_concat, and_iff_right hacc]
  constructor
  · intro ⟨t, ht⟩
    refine ⟨fun fd hd => ?_, (valid_iff_nested (run_concat.mpr ⟨s, hs, ht⟩)).mp ?_⟩
    · subst hd
      obtain ⟨hvalid, -⟩ := apply_descriptors_ok ht
      refine (isValidFdPolicy_iff fun n action h => (edit_ignore hs h).1).mp hvalid fd ?_
      rw [getElem?_edit]
      simp [Directive.descriptorTo]
    · rw [t.policy.valid]
      rfl
  · intro ⟨hfd, hnested⟩
    cases d with
    | set x => exact ⟨_, rfl⟩
    | descriptors edit =>
      have hvalid : isValidFdPolicy (edit.edit s.policy.fileDescriptors) = true := by
        refine (isValidFdPolicy_iff fun n action h => (edit_ignore hs h).1).mpr fun fd hsome => ?_
        obtain ⟨action, haction⟩ := Option.isSome_iff_exists.mp hsome
        rcases List.mem_append.mp (edit_ignore hs haction).2 with hmem | hmem
        · exact hacc.descriptors fd hmem
        · exact hfd fd (List.mem_singleton.mp hmem).symm
      have hedited := (@Policy.configureFds_eq_some s.policy _ fun policy => edit.edit policy).mpr
        ⟨hvalid, rfl⟩
      refine ⟨{ s with policy := { s.policy with
        fileDescriptors := edit.edit s.policy.fileDescriptors, validDescriptors := hvalid } }, ?_⟩
      simp only [Settings.apply, hedited]
    | mount mounted p =>
      have htree := (s.policy.toPolicy.configureMountTree_eq
        fun tree => tree.mount (mounted.mount s.mode) p).1
      have hsome : (s.policy.toPolicy.configureMountTree
          fun tree => tree.mount (mounted.mount s.mode) p).isSome = true := by
        rw [htree, isValidMountTree_isSome_iff]
        intro a source b target ha hb
        have hat : ∀ path, (s.policy.mountTree.tree.insert p (mounted.mount s.mode))[path]? =
            mountAt (directives ++ [.mount mounted p]) path := by
          intro path
          have hheld : s.policy.mountTree.tree[path]? = mountAt directives path :=
            (follows_mounts path).holds hs
          rw [insert_mounts hs, hheld]
          unfold mountAt
          rw [lastWrite_concat]
          cases Directive.mounts path directives (.mount mounted p) <;> rfl
        exact hnested a source b target ((hat a).symm.trans ha) ((hat b).symm.trans hb)
      obtain ⟨mounts, hmounts⟩ := Option.isSome_iff_exists.mp hsome
      have hmounted := Policy.configureMounts_eq_some.mpr ⟨mounts, hmounts, rfl⟩
      refine ⟨{ s with policy := { s.policy with toPolicy := mounts } }, ?_⟩
      simp only [Settings.apply, hmounted]

/-- The options are accepted exactly when no descriptor is negative and, after each of them,
nothing is mounted underneath a mount that is not synthetic. -/
theorem apply_isOk : (∃ s, directives.foldlM Settings.apply {} = .ok s) ↔ Accepted directives := by
  induction directives using List.reverseRecOn with
  | nil =>
    have hnone : ∀ past, past <+: ([] : List Directive) → Nested past := by
      intro past hpast a source b target ha
      rw [List.prefix_nil.mp hpast] at ha
      cases ha
    exact ⟨fun _ => ⟨fun _ h => (by cases h), hnone⟩, fun _ => ⟨{}, rfl⟩⟩
  | append_singleton directives d ih =>
    constructor
    · intro ⟨t, ht⟩
      obtain ⟨s, hs, hd⟩ := run_concat.mp ht
      exact (apply_step hs (ih.mp ⟨s, hs⟩) d).mp ⟨t, hd⟩
    · intro hacc
      obtain ⟨s, hs⟩ := ih.mpr (accepted_concat.mp hacc).1
      obtain ⟨t, ht⟩ := (apply_step hs (accepted_concat.mp hacc).1 d).mpr hacc
      exact ⟨t, run_concat.mpr ⟨s, hs, ht⟩⟩

end Accepting

end Options

/-! ## The command -/

/-- The arguments and the environment of the command that the options ask for. -/
structure Runs (directives : List Directive) (name : Bytes) (args : List Bytes)
    (command : CommandInner) : Prop where
  program : command.program.val = name
  arguments : ∃ argv : List CString, command.arguments = argv.map some ++ [none] ∧
    argv.map Subtype.val = ((last Directive.arg0To directives).getD none).getD name :: args
  environment : ∃ vars : List (Bytes × Bytes),
    (command.environment.toList.map Prod.snd).map Subtype.val =
      vars.map (fun var => var.1 ++ equals :: var.2) ∧
    (vars.map Prod.fst).Nodup ∧
    ∀ key value, (key, value) ∈ vars ↔
      (last (Directive.envTo key) directives).getD none = some value
  workingDirectory : command.workingDirectory = (last Directive.cwdTo directives).getD none

/-- What can be handed to `execveat(2)`. -/
structure Buildable (directives : List Directive) (name : Bytes) (args : List Bytes) : Prop where
  program : 0 ∉ name
  args : ∀ arg ∈ args, 0 ∉ arg
  environment : ∀ key value, (last (Directive.envTo key) directives).getD none = some value →
    equals ∉ key ∧ 0 ∉ key ∧ 0 ∉ value
  arg0 : ∀ arg, (last Directive.arg0To directives).getD none = some arg → 0 ∉ arg

/-- A builder that changes neither the program nor the working directory. -/
def Keeps (command command' : CommandInner) : Prop :=
  command'.program = command.program ∧ command'.workingDirectory = command.workingDirectory

section Builders
variable {command command' : CommandInner}

theorem exists_cString {bytes : Bytes} : (∃ c, cString bytes = .ok c) ↔ 0 ∉ bytes := by
  unfold cString CString.new
  split
  · next h => exact ⟨fun ⟨c, hc⟩ => (by cases hc), fun hn => absurd h hn⟩
  · next h => exact ⟨fun _ => h, fun _ => ⟨_, rfl⟩⟩

theorem exists_arg {arg : Bytes} : (∃ c, command.arg arg = .ok c) ↔ 0 ∉ arg := by
  rw [← exists_cString]
  constructor
  · intro ⟨c, hc⟩
    obtain ⟨s, hs, -⟩ := bind_eq_ok.mp hc
    exact ⟨s, hs⟩
  · intro ⟨s, hs⟩
    exact ⟨_, bind_eq_ok.mpr ⟨s, hs, rfl⟩⟩

theorem exists_arg0 {arg : Bytes} : (∃ c, command.arg0 arg = .ok c) ↔ 0 ∉ arg := by
  rw [← exists_cString]
  constructor
  · intro ⟨c, hc⟩
    obtain ⟨s, hs, -⟩ := bind_eq_ok.mp hc
    exact ⟨s, hs⟩
  · intro ⟨s, hs⟩
    exact ⟨_, bind_eq_ok.mpr ⟨s, hs, rfl⟩⟩

theorem exists_env {key value : Bytes} :
    (∃ c, command.env key value = .ok c) ↔ equals ∉ key ∧ 0 ∉ key ∧ 0 ∉ value := by
  have hbytes : 0 ∉ key ++ [equals] ++ value ↔ 0 ∉ key ∧ 0 ∉ value := by
    simp [equals]
  rw [← hbytes, ← exists_cString]
  unfold CommandInner.env
  by_cases h : equals ∈ key
  · rw [if_pos h]
    exact ⟨fun ⟨c, hc⟩ => (by cases hc), fun hk => absurd h hk.1⟩
  · rw [if_neg h, and_iff_right h]
    constructor
    · intro ⟨c, hc⟩
      obtain ⟨s, hs, -⟩ := bind_eq_ok.mp hc
      exact ⟨s, hs⟩
    · intro ⟨s, hs⟩
      exact ⟨_, bind_eq_ok.mpr ⟨s, hs, rfl⟩⟩

/-- A series of steps succeeds when each of them does. -/
theorem exists_foldlM {α σ ε : Type} {step : σ → α → Except ε σ} {P : α → Prop}
    (hstep : ∀ s a, (∃ t, step s a = .ok t) ↔ P a) (l : List α) (s : σ) :
    (∃ t, l.foldlM step s = .ok t) ↔ ∀ a ∈ l, P a := by
  induction l generalizing s with
  | nil => exact ⟨fun _ _ h => (by cases h), fun _ => ⟨s, rfl⟩⟩
  | cons a l ih =>
    rw [List.forall_mem_cons, ← hstep s a]
    simp only [List.foldlM_cons, bind_eq_ok]
    constructor
    · intro ⟨t, u, hu, hl⟩
      exact ⟨⟨u, hu⟩, (ih u).mp ⟨t, hl⟩⟩
    · intro ⟨⟨u, hu⟩, hl⟩
      obtain ⟨t, ht⟩ := (ih u).mpr hl
      exact ⟨t, u, hu, ht⟩

theorem keeps_foldlM {α : Type} {step : CommandInner → α → Except CommandError CommandInner}
    (hstep : ∀ c a c', step c a = .ok c' → Keeps c c') {l : List α} {c c' : CommandInner}
    (h : l.foldlM step c = .ok c') : Keeps c c' := by
  induction l generalizing c with
  | nil =>
    cases h
    exact ⟨rfl, rfl⟩
  | cons a l ih =>
    rw [List.foldlM_cons] at h
    obtain ⟨u, hu, hl⟩ := bind_eq_ok.mp h
    exact ⟨(ih hl).1.trans (hstep c a u hu).1, (ih hl).2.trans (hstep c a u hu).2⟩

theorem keeps_arg {arg : Bytes} (h : command.arg arg = .ok command') : Keeps command command' := by
  obtain ⟨c, -, hc⟩ := bind_eq_ok.mp h
  cases hc
  exact ⟨rfl, rfl⟩

theorem keeps_arg0 {arg : Bytes} (h : command.arg0 arg = .ok command') :
    Keeps command command' := by
  obtain ⟨c, -, hc⟩ := bind_eq_ok.mp h
  cases hc
  exact ⟨rfl, rfl⟩

theorem keeps_env {key value : Bytes} (h : command.env key value = .ok command') :
    Keeps command command' := by
  unfold CommandInner.env at h
  split at h
  · cases h
  · obtain ⟨c, -, hc⟩ := bind_eq_ok.mp h
    cases hc
    exact ⟨rfl, rfl⟩

end Builders

section Command
variable {directives : List Directive} {s : Settings} {c command : CommandInner} {name : Bytes}
  {args : List Bytes}

/-- The map is handed over in whatever order; there is one value for a key. -/
theorem lastValue_toList (environment : HashMap Bytes Bytes) (key : Bytes) :
    lastValue (environment.toList.map fun var => (var.1, some var.2)) key = environment[key]? := by
  unfold lastValue
  cases hlookup : (environment.toList.map fun var => (var.1, some var.2)).reverse.lookup key with
  | some value =>
    obtain ⟨before, behind, hsplit, -⟩ := List.lookup_eq_some_iff.mp hlookup
    have hmem : (key, value) ∈ environment.toList.map fun var => (var.1, some var.2) := by
      rw [← List.mem_reverse, hsplit]
      simp
    obtain ⟨var, hvar, heq⟩ := List.mem_map.mp hmem
    cases heq
    exact (HashMap.mem_toList_iff_getElem?_eq_some.mp hvar).symm
  | none =>
    have hnone := List.lookup_eq_none_iff.mp hlookup
    cases hget : environment[key]? with
    | none => rfl
    | some value =>
      have hmem := HashMap.mem_toList_iff_getElem?_eq_some.mpr hget
      have hne := hnone (key, some value) (List.mem_reverse.mpr (List.mem_map.mpr ⟨_, hmem, rfl⟩))
      simp at hne

/-- The command has the arguments behind its name, and the environment that was asked for. -/
theorem command_spec (hs : directives.foldlM Settings.apply {} = .ok s)
    (hnew : CommandInner.new name = .ok c) (h : s.command c args = .ok command) :
    Runs directives name args command := by
  have hmeans := apply_means hs
  obtain ⟨c₁, hargs, h⟩ := bind_eq_ok.mp h
  obtain ⟨c₂, henvs, h⟩ := bind_eq_ok.mp h
  have hnamed : c.program.val = name ∧ c.workingDirectory = none := by
    obtain ⟨program, hprogram, hc⟩ := bind_eq_ok.mp hnew
    cases hc
    exact ⟨cString_eq_ok hprogram, rfl⟩
  have hkeeps₁ : Keeps c c₁ := keeps_foldlM (fun _ _ _ => keeps_arg) hargs
  have hkeeps₂ : Keeps c₁ c₂ := keeps_foldlM (fun _ _ _ => keeps_env) henvs
  have hdescribes := ((Describes.new hnew).args hargs).envs henvs
  rw [List.nil_append, List.nil_append] at hdescribes
  have hcwd : s.cwd = (last Directive.cwdTo directives).getD none := hmeans.cwd
  have harg0 : s.arg0 = (last Directive.arg0To directives).getD none := hmeans.arg0
  have hin : Describes (s.inCwd c₂) name args
        (s.environment.toList.map fun var => (var.1, some var.2)) ∧
      (s.inCwd c₂).program.val = name ∧ (s.inCwd c₂).workingDirectory = s.cwd := by
    have hprogram : c₂.program.val = name := by rw [hkeeps₂.1, hkeeps₁.1, hnamed.1]
    unfold Settings.inCwd
    cases s.cwd with
    | none => exact ⟨hdescribes, hprogram, by rw [hkeeps₂.2, hkeeps₁.2, hnamed.2]⟩
    | some cwd =>
      exact ⟨⟨hdescribes.arguments, hdescribes.environment, hdescribes.keys⟩, hprogram, rfl⟩
  have hout : Describes command (s.arg0.getD name) args
        (s.environment.toList.map fun var => (var.1, some var.2)) ∧
      Keeps (s.inCwd c₂) command := by
    unfold Settings.withArg0 at h
    cases hfirst : s.arg0 with
    | none =>
      rw [hfirst] at h
      cases h
      exact ⟨hin.1, rfl, rfl⟩
    | some arg =>
      rw [hfirst] at h
      exact ⟨hin.1.arg0 h, keeps_arg0 h⟩
  refine ⟨by rw [hout.2.1, hin.2.1], harg0 ▸ hout.1.arguments, ?_, ?_⟩
  · obtain ⟨vars, hstrings, hnodup, hvars⟩ := hout.1.vars
    refine ⟨vars, hstrings, hnodup, fun key value => ?_⟩
    have henv : s.environment[key]? = (last (Directive.envTo key) directives).getD none :=
      hmeans.environment key
    rw [hvars, lastValue_toList, henv]
  · rw [hout.2.2, hin.2.2, hcwd]

/-- Whether there is a command depends on the bytes that it is made of. -/
theorem exists_command (hs : directives.foldlM Settings.apply {} = .ok s) :
    (∃ c command, CommandInner.new name = .ok c ∧ s.command c args = .ok command) ↔
      Buildable directives name args := by
  have hmeans := apply_means hs
  have harg0 : s.arg0 = (last Directive.arg0To directives).getD none := hmeans.arg0
  have henv : ∀ key, s.environment[key]? = (last (Directive.envTo key) directives).getD none :=
    hmeans.environment
  have hvars : (∀ var ∈ s.environment.toList, equals ∉ var.1 ∧ 0 ∉ var.1 ∧ 0 ∉ var.2) ↔
      ∀ key value, (last (Directive.envTo key) directives).getD none = some value →
        equals ∉ key ∧ 0 ∉ key ∧ 0 ∉ value := by
    constructor
    · intro hall key value hvalue
      exact hall (key, value) (HashMap.mem_toList_iff_getElem?_eq_some.mpr (by rw [henv, hvalue]))
    · intro hall var hvar
      exact hall var.1 var.2 (by rw [← henv, HashMap.mem_toList_iff_getElem?_eq_some.mp hvar])
  have hargs := fun c : CommandInner => exists_foldlM (fun c a => @exists_arg c a) args c
  have henvs := fun c : CommandInner =>
    exists_foldlM (fun c (var : Bytes × Bytes) => @exists_env c var.1 var.2) s.environment.toList c
  have hfirst : ∀ c : CommandInner, (∃ c', s.withArg0 c = .ok c') ↔
      ∀ arg, (last Directive.arg0To directives).getD none = some arg → 0 ∉ arg := by
    intro c
    rw [← harg0]
    unfold Settings.withArg0
    cases s.arg0 with
    | none => exact ⟨fun _ _ h => (by cases h), fun _ => ⟨c, rfl⟩⟩
    | some arg =>
      rw [exists_arg0]
      exact ⟨fun h _ heq => (by cases heq; exact h), fun h => h arg rfl⟩
  constructor
  · intro ⟨c, command, hnew, hcommand⟩
    obtain ⟨c₁, h₁, hcommand⟩ := bind_eq_ok.mp hcommand
    obtain ⟨c₂, h₂, hcommand⟩ := bind_eq_ok.mp hcommand
    obtain ⟨program, hprogram, -⟩ := bind_eq_ok.mp hnew
    exact ⟨exists_cString.mp ⟨program, hprogram⟩, (hargs c).mp ⟨c₁, h₁⟩,
      hvars.mp ((henvs c₁).mp ⟨c₂, h₂⟩), (hfirst _).mp ⟨command, hcommand⟩⟩
  · intro hbuildable
    obtain ⟨program, hprogram⟩ := exists_cString.mpr hbuildable.program
    obtain ⟨c₁, h₁⟩ := (hargs _).mpr hbuildable.args
    obtain ⟨c₂, h₂⟩ := (henvs c₁).mpr (hvars.mpr hbuildable.environment)
    obtain ⟨command, hcommand⟩ := (hfirst (s.inCwd c₂)).mpr hbuildable.arg0
    exact ⟨_, command, bind_eq_ok.mpr ⟨program, hprogram, rfl⟩,
      bind_eq_ok.mpr ⟨c₁, h₁, bind_eq_ok.mpr ⟨c₂, h₂, hcommand⟩⟩⟩

end Command

end LayerCake.Bbx
