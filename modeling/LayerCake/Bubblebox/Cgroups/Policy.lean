import LayerCake.Bubblebox.Cgroups.Calls

/-
  The policy of a cgroup and how it is applied
  (`bubblebox/src/platform/linux/cgroups/policy.rs`).

  Correspondence (Rust ↔ Lean):
    `CgroupControllers`, `parse_controllers`   ↔ `CgroupControllers`, `parseControllers`
    `Policy`, `CpuController`, …               ↔ the same, with the fields that are applied
    `UclampValue`, `CpuWeight`                 ↔ the same (their ranges are fields)
    `apply_to_cgroup` of a controller          ↔ its `settings`, written by `applySettings`
    `Policy::apply_to_cgroup`                  ↔ `Policy.applyToCgroup`

  What is proved: where the policy was applied, every requested controller is available
  and every setting was written in full (`from_applyToCgroup`).
-/

namespace LayerCake.Bubblebox.Cgroups

open LayerCake.Effects LayerCake.Meowix

/-! ## Controllers -/

structure CgroupControllers where
  cpu : Bool
  memory : Bool
  io : Bool
  pids : Bool
  deriving DecidableEq, Repr

def CgroupControllers.has (controllers : CgroupControllers) : CgroupController → Bool
  | .cpu => controllers.cpu
  | .memory => controllers.memory
  | .io => controllers.io
  | .pids => controllers.pids

/-- The characters with the property `White_Space`. -/
def isWhitespace (c : Char) : Bool :=
  (9 ≤ c.val && c.val ≤ 13) || c.val = 0x20 || c.val = 0x85 || c.val = 0xa0 || c.val = 0x1680 ||
    (0x2000 ≤ c.val && c.val ≤ 0x200a) || c.val = 0x2028 || c.val = 0x2029 || c.val = 0x202f ||
    c.val = 0x205f || c.val = 0x3000

/-- `str::split_whitespace`, once `word` was read. -/
def splitWhitespaceFrom (word : List Char) : List Char → List (List Char)
  | [] => if word = [] then [] else [word]
  | c :: cs =>
    if isWhitespace c then
      if word = [] then splitWhitespaceFrom [] cs else word :: splitWhitespaceFrom [] cs
    else splitWhitespaceFrom (word ++ [c]) cs

def splitWhitespace (s : List Char) : List (List Char) := splitWhitespaceFrom [] s

example : splitWhitespace "cpuset cpu\tio \n".toList =
    ["cpuset".toList, "cpu".toList, "io".toList] := by decide

/-- What the loop of `parse_controllers` makes of one name. -/
def CgroupControllers.add (controllers : CgroupControllers) (name : List Char) :
    CgroupControllers :=
  if name = "cpu".toList then { controllers with cpu := true }
  else if name = "memory".toList then { controllers with memory := true }
  else if name = "io".toList then { controllers with io := true }
  else if name = "pids".toList then { controllers with pids := true }
  else controllers

/-- The controllers that a `cgroup.controllers` file names. -/
def CgroupControllers.ofString (contents : List Char) : CgroupControllers :=
  (splitWhitespace contents).foldl add ⟨false, false, false, false⟩

/-- `parse_controllers`. -/
def parseControllers (cgroup : Fd) : ExceptT Host (Prog CgroupCalls) CgroupControllers := do
  let fd ← openat2 .syscall (some cgroup) (ascii "cgroup.controllers") Linux.O_RDONLY beneath
  let contents ← ExceptT.mk do
    return (← perform (I := CgroupCalls) (.readString fd)).mapError .stringRead
  return .ofString contents

/-! ## Values -/

/-- `Resource<T>`. -/
inductive Resource (α : Type) where
  | max
  | value (v : α)
  deriving DecidableEq, Repr

/-- `Resource::into_str`, with what it makes of a value. -/
def Resource.intoStr {α : Type} (format : α → Bytes) : Resource α → Bytes
  | .max => ascii "max"
  | .value v => format v

/-- `UclampValue`. -/
structure UclampValue where
  value : UInt16
  le : value ≤ 10000

/-- `format!("{whole}.{fractional:02}")` on `UclampValue::into_parts`. -/
def UclampValue.format (v : UclampValue) : Bytes :=
  let whole := v.value.toNat / 100
  let fractional := v.value.toNat % 100
  decimal whole ++ ascii "." ++
    (if fractional < 10 then ascii "0" else []) ++ decimal fractional

/-- `CpuWeight`. -/
inductive CpuWeight where
  | weight (value : UInt16) (h : 1 ≤ value ∧ value ≤ 10000)
  | nice (value : Int8) (h : -20 ≤ value ∧ value ≤ 19)

def formatBool (b : Bool) : Bytes := if b then ascii "1" else ascii "0"

def formatU64 [Itoa] (n : UInt64) : Bytes := Itoa.format n.toNat

/-! ## What is set -/

/-- A file of a cgroup and what is written to it. -/
abbrev Setting := Bytes × Bytes

/-- The setting of an optional property. -/
def setting {α : Type} (file : String) (format : α → Bytes) : Option α → List Setting
  | some v => [(ascii file, format v)]
  | none => []

/-- The setting that gives a controller to the subtree. -/
def subtreeSetting (controller : String) (subtreeControl : Bool) : List Setting :=
  if subtreeControl then [(ascii "cgroup.subtree_control", ascii controller)] else []

structure CgroupProperties where
  isThreaded : Bool
  enablePsiAccounting : Option Bool

def CgroupProperties.settings (p : CgroupProperties) : List Setting :=
  (if p.isThreaded then [(ascii "cgroup.type", ascii "threaded")] else []) ++
    setting "cgroup.pressure" formatBool p.enablePsiAccounting

structure CpuController where
  subtreeControl : Bool
  weight : Option CpuWeight
  max : Option (Resource UInt64 × UInt64)
  maxBurst : Option UInt64
  uclampMin : Option (Resource UclampValue)
  uclampMax : Option (Resource UclampValue)
  isIdle : Option Bool

/-- The file of a weight depends on its kind. -/
def CpuWeight.setting [Itoa] : CpuWeight → Setting
  | .weight value _ => (ascii "cpu.weight", Itoa.format value.toNat)
  | .nice value _ => (ascii "cpu.weight.nice", Itoa.format value.toInt)

def CpuController.settings [Itoa] (c : CpuController) : List Setting :=
  subtreeSetting "+cpu" c.subtreeControl ++
    (c.weight.map CpuWeight.setting).toList ++
    setting "cpu.max"
      (fun (value, duration) => value.intoStr formatU64 ++ ascii " " ++ formatU64 duration) c.max ++
    setting "cpu.max.burst" formatU64 c.maxBurst ++
    setting "cpu.uclamp.min" (Resource.intoStr UclampValue.format) c.uclampMin ++
    setting "cpu.uclamp.max" (Resource.intoStr UclampValue.format) c.uclampMax ++
    setting "cpu.idle" formatBool c.isIdle

structure MemoryController where
  subtreeControl : Bool
  min : Option (Resource UInt64)
  low : Option (Resource UInt64)
  high : Option (Resource UInt64)
  max : Option (Resource UInt64)
  isIndivisible : Option Bool
  swapHigh : Option (Resource UInt64)
  swapMax : Option (Resource UInt64)
  zswapMax : Option (Resource UInt64)
  disableZswapWriteback : Option Bool

def MemoryController.settings [Itoa] (c : MemoryController) : List Setting :=
  subtreeSetting "+memory" c.subtreeControl ++
    setting "memory.min" (Resource.intoStr formatU64) c.min ++
    setting "memory.low" (Resource.intoStr formatU64) c.low ++
    setting "memory.high" (Resource.intoStr formatU64) c.high ++
    setting "memory.max" (Resource.intoStr formatU64) c.max ++
    setting "memory.oom.group" formatBool c.isIndivisible ++
    setting "memory.swap.high" (Resource.intoStr formatU64) c.swapHigh ++
    setting "memory.swap.max" (Resource.intoStr formatU64) c.swapMax ++
    setting "memory.zswap.max" (Resource.intoStr formatU64) c.zswapMax ++
    -- writing `0` disables the writeback
    setting "memory.zswap.writeback" (fun disable => formatBool !disable) c.disableZswapWriteback

structure IoController where
  subtreeControl : Bool

def IoController.settings (c : IoController) : List Setting := subtreeSetting "+io" c.subtreeControl

structure PidsController where
  subtreeControl : Bool
  max : Option (Resource UInt64)

def PidsController.settings [Itoa] (c : PidsController) : List Setting :=
  subtreeSetting "+pids" c.subtreeControl ++ setting "pids.max" (Resource.intoStr formatU64) c.max

structure Policy where
  cgroup : CgroupProperties
  cpu : Option CpuController
  memory : Option MemoryController
  io : Option IoController
  pids : Option PidsController

/-- The requested controllers with their settings, in the order they are applied. -/
def Policy.controllers [Itoa] (policy : Policy) : List (CgroupController × List Setting) :=
  (policy.cpu.map fun c => (CgroupController.cpu, c.settings)).toList ++
    (policy.memory.map fun c => (CgroupController.memory, c.settings)).toList ++
    (policy.io.map fun c => (CgroupController.io, c.settings)).toList ++
    (policy.pids.map fun c => (CgroupController.pids, c.settings)).toList

/-- The writes of an `apply_to_cgroup`, one after another. -/
def applySettings (cgroup : Fd) : List Setting → ExceptT Host (Prog CgroupCalls) Unit
  | [] => pure ()
  | (file, value) :: settings => do
    openBeneathAndWrite .syscall .incompleteWrite cgroup file value
    applySettings cgroup settings

/-- Each requested controller must be available; then it is applied. -/
def applyControllers (available : CgroupControllers) (cgroup : Fd) :
    List (CgroupController × List Setting) → ExceptT Host (Prog CgroupCalls) Unit
  | [] => pure ()
  | (controller, settings) :: rest => do
    if available.has controller then
      applySettings cgroup settings
      applyControllers available cgroup rest
    else throw (.missingCgroupController controller)

/-- `Policy::apply_to_cgroup`. -/
def Policy.applyToCgroup [Itoa] (policy : Policy) (cgroup : Fd) :
    ExceptT Host (Prog CgroupCalls) Unit := do
  applySettings cgroup policy.cgroup.settings
  let available ← parseControllers cgroup
  applyControllers available cgroup policy.controllers

/-! ## What is done where it succeeds -/

theorem applySettings_plain (cgroup : Fd) (settings : List Setting) :
    Prog.Calls Plain (applySettings cgroup settings).run := by
  induction settings with
  | nil => trivial
  | cons setting settings ih =>
    exact calls_bindE (openBeneathAndWrite_plain _ _ _ _) fun _ => ih

theorem parseControllers_plain (cgroup : Fd) : Prog.Calls Plain (parseControllers cgroup).run := by
  apply calls_bindE (openat2_plain _ _ _ _)
  intro fd
  apply calls_bindE
  · exact ⟨trivial, fun _ => trivial⟩
  · intro contents
    trivial

theorem applyControllers_plain (available : CgroupControllers) (cgroup : Fd)
    (controllers : List (CgroupController × List Setting)) :
    Prog.Calls Plain (applyControllers available cgroup controllers).run := by
  induction controllers with
  | nil => trivial
  | cons controller rest ih =>
    unfold applyControllers
    split
    · exact calls_bindE (applySettings_plain _ _) fun _ => ih
    · trivial

theorem applyToCgroup_plain [Itoa] (policy : Policy) (cgroup : Fd) :
    Prog.Calls Plain (policy.applyToCgroup cgroup).run := by
  apply calls_bindE (applySettings_plain _ _)
  intro _
  exact calls_bindE (parseControllers_plain _) fun available => applyControllers_plain _ _ _

section From
variable {log : Log} {cgroup : Fd}

theorem from_applySettings {settings : List Setting}
    (h : Prog.From log (applySettings cgroup settings).run (.ok ())) :
    ∀ setting ∈ settings, Written log cgroup setting.1 setting.2 := by
  induction settings with
  | nil => exact fun _ hmem => absurd hmem List.not_mem_nil
  | cons setting settings ih =>
    obtain ⟨_, hwrite, hrest⟩ := Prog.from_bindE.mp h
    intro setting' hmem
    rcases List.mem_cons.mp hmem with rfl | hmem
    · exact from_openBeneathAndWrite hwrite
    · exact ih hrest setting' hmem

/-- The controllers were read from the cgroup's `cgroup.controllers`. -/
def ControllersOf (log : Log) (cgroup : Fd) (controllers : CgroupControllers) : Prop :=
  ∃ fd contents, controllers = .ofString contents ∧
    ⟨.openat2 (some cgroup) (ascii "cgroup.controllers") (Linux.O_RDONLY ||| Linux.O_CLOEXEC)
      beneath, .ok fd⟩ ∈ log ∧ ⟨.readString fd, .ok contents⟩ ∈ log

theorem from_parseControllers {controllers : CgroupControllers}
    (h : Prog.From log (parseControllers cgroup).run (.ok controllers)) :
    ControllersOf log cgroup controllers := by
  obtain ⟨fd, hopen, hrest⟩ := Prog.from_bindE.mp h
  obtain ⟨contents, hread, hof⟩ := Prog.from_bindE.mp hrest
  obtain ⟨answer, hanswer, hmap⟩ := Prog.from_bind.mp hread
  cases answer with
  | error error => cases hmap
  | ok contents' =>
    obtain rfl := Except.ok.inj hmap
    exact ⟨fd, contents', (Except.ok.inj hof).symm, from_openat2 hopen,
      Prog.from_perform.mp hanswer⟩

theorem from_applyControllers {available : CgroupControllers}
    {controllers : List (CgroupController × List Setting)}
    (h : Prog.From log (applyControllers available cgroup controllers).run (.ok ())) :
    ∀ c ∈ controllers, available.has c.1 = true ∧
      ∀ setting ∈ c.2, Written log cgroup setting.1 setting.2 := by
  induction controllers with
  | nil => exact fun _ hmem => absurd hmem List.not_mem_nil
  | cons controller rest ih =>
    unfold applyControllers at h
    split at h
    · next hhas =>
      obtain ⟨_, hsettings, hrest⟩ := Prog.from_bindE.mp h
      intro c hmem
      rcases List.mem_cons.mp hmem with rfl | hmem
      · exact ⟨hhas, from_applySettings hsettings⟩
      · exact ih hrest c hmem
    · cases h

/-- The policy holds of the cgroup: its settings were written in full, and those of each
requested controller too, which is available. -/
structure Applied [Itoa] (policy : Policy) (log : Log) (cgroup : Fd) : Prop where
  properties : ∀ setting ∈ policy.cgroup.settings, Written log cgroup setting.1 setting.2
  controllers : ∃ available, ControllersOf log cgroup available ∧ ∀ c ∈ policy.controllers,
    available.has c.1 = true ∧ ∀ setting ∈ c.2, Written log cgroup setting.1 setting.2

theorem from_applyToCgroup [Itoa] {policy : Policy}
    (h : Prog.From log (policy.applyToCgroup cgroup).run (.ok ())) :
    Applied policy log cgroup := by
  obtain ⟨_, hproperties, hrest⟩ := Prog.from_bindE.mp h
  obtain ⟨available, hread, hcontrollers⟩ := Prog.from_bindE.mp hrest
  exact ⟨from_applySettings hproperties, available, from_parseControllers hread,
    from_applyControllers hcontrollers⟩

end From

end LayerCake.Bubblebox.Cgroups
