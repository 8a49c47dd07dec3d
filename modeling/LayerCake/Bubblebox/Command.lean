import Mathlib.Data.List.TakeDrop
import Std.Data.HashMap.Lemmas
import LayerCake.Bubblebox.Paths

/-
  The command a guest is launched with (`bubblebox/src/platform/linux/command.rs`),
  and the vectors `Policy::spawn_with` makes of it (`policy/mod.rs`).

  Correspondence (Rust ↔ Lean):
    `CString`, `CString::new`              ↔ `CString`, `CString.new`
    `*const ffi::c_char`                   ↔ `Option CString`, a null pointer is `none`
    `errors::Command`                      ↔ `CommandError`
    `CommandInner`, `new`, `arg`, …        ↔ `CommandInner`, `CommandInner.new`, …
    `SpawnAction::Exec` in `spawn_with`    ↔ `Exec`, `CommandInner.spawnAction`
  `HashMap::values` is in the order of iteration, whatever that is. `Drop` and the
  state of the allocator are left out.

  What is proved: `exec_vectors` — after any calls that succeed, `argv` is the last
  `arg0` and the arguments in order, `envp` is one `KEY=VALUE` for each key that was
  last set, and both end with their only null pointer.
-/

namespace LayerCake.Bubblebox

open LayerCake.Meowix Std

/-- A string without an interior null byte. -/
abbrev CString := { bytes : Bytes // (0 : UInt8) ∉ bytes }

/-- `ffi::NulError`. -/
structure NulError where
  position : Nat
  bytes : Bytes
  deriving DecidableEq, Repr

def CString.new (bytes : Bytes) : Except NulError CString :=
  if h : (0 : UInt8) ∈ bytes then .error ⟨bytes.idxOf 0, bytes⟩ else .ok ⟨bytes, h⟩

/-- The errors of `errors::Command` that building a command can return. -/
inductive CommandError where
  | invalidEnvironmentVariable
  | nulError (e : NulError)
  deriving DecidableEq, Repr

/-- `CString::new` and its `map_err`. -/
def cString (bytes : Bytes) : Except CommandError CString := (CString.new bytes).mapError .nulError

/-- `=`. -/
def equals : UInt8 := 61

/-- The vector of arguments has a first one and ends with its only null pointer. -/
def Terminated (arguments : List (Option CString)) : Prop :=
  ∃ first rest, arguments = (first :: rest).map some ++ [none]

structure CommandInner where
  environment : HashMap Bytes CString
  arguments : List (Option CString)
  program : CString
  workingDirectory : Option Guest
  terminated : Terminated arguments

theorem Terminated.setFirst {arguments : List (Option CString)} (h : Terminated arguments)
    (arg : CString) : Terminated (arguments.set 0 (some arg)) := by
  obtain ⟨first, rest, rfl⟩ := h
  exact ⟨arg, rest, rfl⟩

/-- The null pointer makes room for the argument and stands behind it again. -/
theorem set_before_null (args : List CString) (arg : CString) :
    (args.map some ++ [none] ++ [none]).set ((args.map some ++ [none]).length - 1) (some arg) =
      (args ++ [arg]).map some ++ [none] := by
  have hlen : (args.map some ++ [none]).length - 1 = (args.map some).length := by simp
  rw [hlen, List.append_assoc, List.set_append_right _ _ (Nat.le_refl _), Nat.sub_self]
  simp

theorem Terminated.push {arguments : List (Option CString)} (h : Terminated arguments)
    (arg : CString) :
    Terminated ((arguments ++ [none]).set (arguments.length - 1) (some arg)) := by
  obtain ⟨first, rest, rfl⟩ := h
  exact ⟨first, rest ++ [arg], set_before_null (first :: rest) arg⟩

namespace CommandInner

def new (program : Bytes) : Except CommandError CommandInner := do
  let program ← cString program
  return {
    environment := ∅
    arguments := [some program, none]
    program
    workingDirectory := none
    terminated := ⟨program, [], rfl⟩ }

def arg0 (self : CommandInner) (arg : Bytes) : Except CommandError CommandInner := do
  let arg ← cString arg
  return { self with
    arguments := self.arguments.set 0 (some arg)
    terminated := self.terminated.setFirst arg }

def arg (self : CommandInner) (arg : Bytes) : Except CommandError CommandInner := do
  let arg ← cString arg
  let position := self.arguments.length - 1
  return { self with
    arguments := (self.arguments ++ [none]).set position (some arg)
    terminated := self.terminated.push arg }

def args (self : CommandInner) (args : List Bytes) : Except CommandError CommandInner :=
  args.foldlM arg self

def env (self : CommandInner) (key value : Bytes) : Except CommandError CommandInner := do
  -- an `=` in the key would move the boundary between key and value
  if equals ∈ key then throw .invalidEnvironmentVariable
  let env ← cString (key ++ [equals] ++ value)
  return { self with environment := self.environment.insert key env }

def envs (self : CommandInner) (vars : List (Bytes × Bytes)) : Except CommandError CommandInner :=
  vars.foldlM (fun self var => self.env var.1 var.2) self

def envRemove (self : CommandInner) (key : Bytes) : CommandInner :=
  { self with environment := self.environment.erase key }

def currentDir (self : CommandInner) (dir : Guest) : CommandInner :=
  { self with workingDirectory := some dir }

end CommandInner

/-- `SpawnAction::Exec`, with the working directory its callback changes to. -/
structure Exec where
  workingDirectory : Option Guest
  path : CString
  argv : List (Option CString)
  envp : List (Option CString)
  flags : UInt32

/-- What `spawn_with` hands to `clone_into`. -/
def CommandInner.spawnAction (command : CommandInner) : Exec :=
  let preparedEnvs := command.environment.toList.map fun mapping => some mapping.2
  { workingDirectory := command.workingDirectory
    path := command.program
    argv := command.arguments
    envp := preparedEnvs ++ [none]
    flags := 0 }

/-! ## Series of calls -/

/-- A call of a method of the builder. -/
inductive Call where
  | arg (arg : Bytes)
  | args (args : List Bytes)
  | arg0 (arg : Bytes)
  | env (key value : Bytes)
  | envs (vars : List (Bytes × Bytes))
  | envRemove (key : Bytes)
  | currentDir (dir : Guest)

def CommandInner.call (self : CommandInner) : Call → Except CommandError CommandInner
  | .arg arg => self.arg arg
  | .args args => self.args args
  | .arg0 arg => self.arg0 arg
  | .env key value => self.env key value
  | .envs vars => self.envs vars
  | .envRemove key => .ok (self.envRemove key)
  | .currentDir dir => .ok (self.currentDir dir)

/-- `new`, and then the calls in order. -/
def CommandInner.build (program : Bytes) (calls : List Call) :
    Except CommandError CommandInner := do
  let command ← new program
  calls.foldlM call command

namespace Call

/-- The arguments a call adds. -/
def added : Call → List Bytes
  | arg a => [a]
  | args as => as
  | _ => []

/-- The first argument a call gives. -/
def first : Call → Option Bytes
  | arg0 a => some a
  | _ => none

/-- What a call does to the environment, a key at a time. -/
def changes : Call → List (Bytes × Option Bytes)
  | env key value => [(key, some value)]
  | envs vars => vars.map fun var => (var.1, some var.2)
  | envRemove key => [(key, none)]
  | _ => []

end Call

/-- The value of a key by the last change made to it. -/
def lastValue (changes : List (Bytes × Option Bytes)) (key : Bytes) : Option Bytes :=
  (changes.reverse.lookup key).join

/-- The key and the value of an environment string, split at its first `=`. -/
def splitAssignment (string : Bytes) : Option (Bytes × Bytes) :=
  match string.span (· != equals) with
  | (key, _ :: value) => some (key, value)
  | (_, []) => none

/-! ## What the calls leave -/

/-- A call that succeeds succeeds in each of its steps. -/
theorem bind_eq_ok {ε α β : Type} {x : Except ε α} {f : α → Except ε β} {b : β} :
    (x >>= f) = .ok b ↔ ∃ a, x = .ok a ∧ f a = .ok b := by
  cases x with
  | ok a =>
    constructor
    · intro h
      exact ⟨a, rfl, h⟩
    · intro h
      obtain ⟨a', ha, h⟩ := h
      cases ha
      exact h
  | error e =>
    constructor
    · intro h
      cases h
    · intro h
      obtain ⟨_, h, _⟩ := h
      cases h

theorem cString_eq_ok {bytes : Bytes} {c : CString} (h : cString bytes = .ok c) :
    c.val = bytes := by
  unfold cString CString.new at h
  split at h
  · cases h
  · cases h
    rfl

theorem splitAssignment_eq {key : Bytes} (value : Bytes) (h : equals ∉ key) :
    splitAssignment (key ++ equals :: value) = some (key, value) := by
  have hspan : (key ++ equals :: value).span (· != equals) = (key, equals :: value) := by
    rw [List.span_eq_takeWhile_dropWhile]
    have hall : ∀ b ∈ key, (b != equals) = true := by
      intro b hb
      rw [bne_iff_ne]
      exact fun e => h (e ▸ hb)
    rw [List.takeWhile_append_of_pos hall, List.dropWhile_append_of_pos hall]
    simp
  unfold splitAssignment
  rw [hspan]

theorem lastValue_append (changes : List (Bytes × Option Bytes)) (k : Bytes) (v : Option Bytes)
    (key : Bytes) :
    lastValue (changes ++ [(k, v)]) key = if key = k then v else lastValue changes key := by
  unfold lastValue
  rw [List.reverse_append, List.reverse_singleton, List.singleton_append, List.lookup_cons]
  by_cases h : key = k
  · simp [h]
  · simp [h, beq_eq_false_iff_ne.mpr h]

/-- The command was given these arguments, and its environment these changes. -/
structure Describes (command : CommandInner) (first : Bytes) (added : List Bytes)
    (changes : List (Bytes × Option Bytes)) : Prop where
  arguments : ∃ args : List CString, command.arguments = args.map some ++ [none] ∧
    args.map Subtype.val = first :: added
  environment : ∀ key, (command.environment[key]?).map Subtype.val =
    (lastValue changes key).map fun value => key ++ equals :: value
  keys : ∀ key value, lastValue changes key = some value → equals ∉ key

namespace Describes
variable {command command' : CommandInner} {first : Bytes} {added : List Bytes}
  {changes : List (Bytes × Option Bytes)}

theorem new {program : Bytes} (h : CommandInner.new program = .ok command) :
    Describes command program [] [] := by
  obtain ⟨c, hp, hcommand⟩ := bind_eq_ok.mp h
  cases hcommand
  refine ⟨⟨[c], rfl, by rw [List.map_singleton, cString_eq_ok hp]⟩, fun key => ?_,
    fun key value hv => ?_⟩
  · simp [lastValue]
  · simp [lastValue] at hv

theorem arg0 {arg : Bytes} (h : Describes command first added changes)
    (hcall : command.arg0 arg = .ok command') : Describes command' arg added changes := by
  obtain ⟨c, ha, hcommand⟩ := bind_eq_ok.mp hcall
  cases hcommand
  obtain ⟨args, hargs, hval⟩ := h.arguments
  refine ⟨?_, h.environment, h.keys⟩
  cases args with
  | nil => cases hval
  | cons old args =>
    obtain ⟨-, htail⟩ := List.cons.inj hval
    refine ⟨c :: args, ?_, ?_⟩
    · show command.arguments.set 0 (some c) = _
      rw [hargs]
      rfl
    · rw [List.map_cons, cString_eq_ok ha, htail]

theorem arg {arg : Bytes} (h : Describes command first added changes)
    (hcall : command.arg arg = .ok command') :
    Describes command' first (added ++ [arg]) changes := by
  obtain ⟨c, ha, hcommand⟩ := bind_eq_ok.mp hcall
  cases hcommand
  obtain ⟨args, hargs, hval⟩ := h.arguments
  refine ⟨⟨args ++ [c], ?_, ?_⟩, h.environment, h.keys⟩
  · show (command.arguments ++ [none]).set (command.arguments.length - 1) (some c) = _
    rw [hargs, set_before_null]
  · rw [List.map_append, hval, List.map_singleton, cString_eq_ok ha]
    rfl

theorem args {args : List Bytes} (h : Describes command first added changes)
    (hcall : command.args args = .ok command') :
    Describes command' first (added ++ args) changes := by
  induction args generalizing command added with
  | nil =>
    cases hcall
    rwa [List.append_nil]
  | cons a args ih =>
    unfold CommandInner.args at hcall
    rw [List.foldlM_cons] at hcall
    obtain ⟨next, hstep, hrest⟩ := bind_eq_ok.mp hcall
    rw [List.append_cons]
    exact ih (h.arg hstep) hrest

/-- A change made to one key. -/
theorem change {key : Bytes} {value : Option Bytes} {environment : HashMap Bytes CString}
    (h : Describes command first added changes)
    (hkey : (environment[key]?).map Subtype.val = value.map fun v => key ++ equals :: v)
    (hother : ∀ other, other ≠ key → environment[other]? = command.environment[other]?)
    (hname : ∀ v, value = some v → equals ∉ key) :
    Describes { command with environment } first added (changes ++ [(key, value)]) := by
  refine ⟨h.arguments, fun k => ?_, fun k v hv => ?_⟩
  · rw [lastValue_append]
    split
    · next heq => rw [heq, hkey]
    · next hne =>
      show (environment[k]?).map _ = _
      rw [hother k hne, h.environment k]
  · rw [lastValue_append] at hv
    split at hv
    · next heq => exact heq ▸ hname v hv
    · exact h.keys k v hv

theorem env {key value : Bytes} (h : Describes command first added changes)
    (hcall : command.env key value = .ok command') :
    Describes command' first added (changes ++ [(key, some value)]) := by
  unfold CommandInner.env at hcall
  split at hcall
  · cases hcall
  · next hname =>
    obtain ⟨c, ha, hcommand⟩ := bind_eq_ok.mp hcall
    cases hcommand
    apply h.change
    · rw [HashMap.getElem?_insert_self, Option.map_some, cString_eq_ok ha]
      simp
    · intro other hne
      rw [HashMap.getElem?_insert, if_neg (by simpa using Ne.symm hne)]
    · exact fun _ _ => hname

theorem envs {vars : List (Bytes × Bytes)} (h : Describes command first added changes)
    (hcall : command.envs vars = .ok command') :
    Describes command' first added (changes ++ vars.map fun var => (var.1, some var.2)) := by
  induction vars generalizing command changes with
  | nil =>
    cases hcall
    rwa [List.map_nil, List.append_nil]
  | cons var vars ih =>
    unfold CommandInner.envs at hcall
    rw [List.foldlM_cons] at hcall
    obtain ⟨next, hstep, hrest⟩ := bind_eq_ok.mp hcall
    rw [List.map_cons, List.append_cons]
    exact ih (h.env hstep) hrest

theorem envRemove {key : Bytes} (h : Describes command first added changes) :
    Describes (command.envRemove key) first added (changes ++ [(key, none)]) := by
  apply h.change
  · rw [HashMap.getElem?_erase_self]
    rfl
  · intro other hne
    rw [HashMap.getElem?_erase, if_neg (by simpa using Ne.symm hne)]
  · intro v hv
    cases hv

/-- One call, whichever it is. -/
theorem call {c : Call} (h : Describes command first added changes)
    (hcall : command.call c = .ok command') :
    Describes command' (c.first.getD first) (added ++ c.added) (changes ++ c.changes) := by
  cases c with
  | arg a => simpa [Call.first, Call.added, Call.changes] using h.arg hcall
  | args as => simpa [Call.first, Call.added, Call.changes] using h.args hcall
  | arg0 a => simpa [Call.first, Call.added, Call.changes] using h.arg0 hcall
  | env key value => simpa [Call.first, Call.added, Call.changes] using h.env hcall
  | envs vars => simpa [Call.first, Call.added, Call.changes] using h.envs hcall
  | envRemove key =>
    cases hcall
    simpa [Call.first, Call.added, Call.changes] using h.envRemove
  | currentDir dir =>
    cases hcall
    simp only [Call.first, Call.added, Call.changes, List.append_nil]
    exact ⟨h.arguments, h.environment, h.keys⟩

/-- The last `arg0` of a series, or of what stands before it. -/
theorem last_first (c : Call) (calls : List Call) (first : Bytes) :
    ((c :: calls).filterMap Call.first).getLast?.getD first =
      (calls.filterMap Call.first).getLast?.getD (c.first.getD first) := by
  rw [List.filterMap_cons]
  cases c.first with
  | none => rfl
  | some a =>
    show ((a :: calls.filterMap Call.first).getLast?).getD first = _
    rw [List.getLast?_cons]
    rfl

/-- All the calls, in order. -/
theorem calls {calls : List Call} (h : Describes command first added changes)
    (hcalls : calls.foldlM CommandInner.call command = .ok command') :
    Describes command' ((calls.filterMap Call.first).getLast?.getD first)
      (added ++ calls.flatMap Call.added) (changes ++ calls.flatMap Call.changes) := by
  induction calls generalizing command first added changes with
  | nil =>
    cases hcalls
    simpa using h
  | cons c calls ih =>
    rw [List.foldlM_cons] at hcalls
    obtain ⟨next, hstep, hrest⟩ := bind_eq_ok.mp hcalls
    have hdescribes := ih (h.call hstep) hrest
    rw [last_first, List.flatMap_cons, List.flatMap_cons, ← List.append_assoc, ← List.append_assoc]
    exact hdescribes

/-- Every entry of the map is a key that was last set, with its string. -/
theorem entry (h : Describes command first added changes) {mapping : Bytes × CString}
    (hmem : mapping ∈ command.environment.toList) : ∃ value,
      lastValue changes mapping.1 = some value ∧ mapping.2.val = mapping.1 ++ equals :: value := by
  have hget := HashMap.mem_toList_iff_getElem?_eq_some.mp hmem
  have henv := h.environment mapping.1
  rw [hget, Option.map_some] at henv
  obtain ⟨value, hvalue, hstring⟩ := Option.map_eq_some_iff.mp henv.symm
  exact ⟨value, hvalue, hstring.symm⟩

/-- The strings of the map are one for each key that was last set. -/
theorem vars (h : Describes command first added changes) :
    ∃ vars : List (Bytes × Bytes),
      (command.environment.toList.map Prod.snd).map Subtype.val =
        vars.map (fun var => var.1 ++ equals :: var.2) ∧
      (vars.map Prod.fst).Nodup ∧
      ∀ key value, (key, value) ∈ vars ↔ lastValue changes key = some value := by
  let value (key : Bytes) : Bytes := (lastValue changes key).getD []
  refine ⟨command.environment.toList.map fun mapping => (mapping.1, value mapping.1),
    ?_, ?_, ?_⟩
  · rw [List.map_map, List.map_map]
    apply List.map_congr_left
    intro mapping hmem
    obtain ⟨v, hv, hstring⟩ := h.entry hmem
    simp [value, hv, hstring]
  · rw [List.map_map]
    exact List.pairwise_map.mpr (HashMap.distinct_keys_toList.imp fun hne => by simpa using hne)
  · intro key v
    rw [List.mem_map]
    constructor
    · intro hmem
      obtain ⟨mapping, hmem, heq⟩ := hmem
      cases heq
      obtain ⟨v, hv, -⟩ := h.entry hmem
      simp [value, hv]
    · intro hv
      have henv := h.environment key
      rw [hv, Option.map_some] at henv
      obtain ⟨string, hget, -⟩ := Option.map_eq_some_iff.mp henv
      exact ⟨(key, string), HashMap.mem_toList_iff_getElem?_eq_some.mpr hget, by simp [value, hv]⟩

end Describes

/-- For every program and every series of calls that succeed, `argv` is the last `arg0`
given, or the program, followed by all arguments in order and one null pointer; `envp` is,
in some order, `KEY=VALUE` for every key whose last change set it, once, followed by one
null pointer; each of its strings splits at its first `=` into its key and value; and no
string holds a null byte. -/
theorem exec_vectors (program : Bytes) (calls : List Call) (command : CommandInner)
    (h : CommandInner.build program calls = .ok command) :
    ∃ (args envs : List CString) (vars : List (Bytes × Bytes)),
      command.spawnAction.argv = args.map some ++ [none] ∧
      args.map Subtype.val =
        (calls.filterMap Call.first).getLast?.getD program :: calls.flatMap Call.added ∧
      command.spawnAction.envp = envs.map some ++ [none] ∧
      envs.map Subtype.val = vars.map (fun var => var.1 ++ equals :: var.2) ∧
      (vars.map Prod.fst).Nodup ∧
      (∀ key value, (key, value) ∈ vars ↔
        lastValue (calls.flatMap Call.changes) key = some value) ∧
      (∀ var ∈ vars, splitAssignment (var.1 ++ equals :: var.2) = some var) ∧
      ∀ string ∈ args ++ envs, (0 : UInt8) ∉ string.val := by
  obtain ⟨fresh, hnew, hcalls⟩ := bind_eq_ok.mp h
  have hd := (Describes.new hnew).calls hcalls
  rw [List.nil_append, List.nil_append] at hd
  obtain ⟨args, hargs, hvals⟩ := hd.arguments
  obtain ⟨vars, hstrings, hnodup, hvars⟩ := hd.vars
  refine ⟨args, command.environment.toList.map Prod.snd, vars, hargs, hvals, ?_, hstrings, hnodup,
    hvars, ?_, fun string _ => string.property⟩
  · show command.environment.toList.map _ ++ [none] = _
    rw [List.map_map]
    rfl
  · intro var hvar
    exact splitAssignment_eq _ (hd.keys var.1 var.2 ((hvars var.1 var.2).mp hvar))

theorem exec_vectors_shell :
    ∃ command, CommandInner.build (ascii "/bin/sh")
        [.arg (ascii "-c"), .env (ascii "HOME") (ascii "/"), .arg0 (ascii "-sh"),
          .env (ascii "HOME") (ascii "/root")] = .ok command ∧
      ∃ args : List CString, command.spawnAction.argv = args.map some ++ [none] ∧
        args.map Subtype.val = [ascii "-sh", ascii "-c"] := by
  obtain ⟨command, h⟩ : ∃ command, CommandInner.build (ascii "/bin/sh")
      [.arg (ascii "-c"), .env (ascii "HOME") (ascii "/"), .arg0 (ascii "-sh"),
        .env (ascii "HOME") (ascii "/root")] = .ok command := ⟨_, rfl⟩
  obtain ⟨args, envs, vars, hargv, hargs, -⟩ := exec_vectors _ _ command h
  exact ⟨command, h, args, hargv, hargs⟩

end LayerCake.Bubblebox
