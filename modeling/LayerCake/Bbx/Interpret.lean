import LayerCake.Bbx.Settings
import LayerCake.Effects.Procedure

/-
  The interpretation of a command line (`interpret_policy` in `bbx/src/main.rs`).

  Correspondence (Rust ↔ Lean):
    the `match arg`                      ↔ `Settings.handle`
    a turn of the `while let`            ↔ `Settings.turn`
    `interpret_policy`                   ↔ `interpretPolicy`, for any parser and any host
    `help`, which exits                  ↔ `Interpreted.help`

  What is proved: `interpretPolicy_exact` — where it succeeds, the policy and the command mean
  what the options said; it succeeds exactly when the options are accepted and the command can
  be built; and every failure is of the parser, of a value, or of an option that may not come
  there.
-/

namespace LayerCake.Bbx

open LayerCake.Effects LayerCake.Meowix LayerCake.Bubblebox
open LayerCake.Order (lastWrite)

/-! ## The code -/

inductive Interpreted where
  | help
  | failed (error : Error)
  | parsed (policy : Sandbox.Policy) (command : CommandInner)

/-- `?`, of a result that is there. -/
def result {α : Type} (r : Except Error α) : Reading α := ExceptT.mk (pure r)

/-- `Arg::unexpected`, of an option. -/
def unexpected (option : String) : Error := .lexopt (.unexpectedOption option)

def missing : Error := .message "missing command to execute"

namespace Settings

/-- The arm `Value(v)`, and what comes behind the loop. -/
def takeCommand (self : Settings) (v : Bytes) : Reading (Sandbox.Policy × CommandInner) := do
  let finalCommand ← result ((CommandInner.new v).mapError .command)
  let r ← (ExceptT.lift (perform (I := Calls) .rawArgs) : Reading _)
  let rawArgs ← result (r.mapError .lexopt)
  let finalCommand ← result ((self.command finalCommand rawArgs).mapError .command)
  return (self.finish, finalCommand)

/-- An option that was found by its name. -/
def takeOption (self : Settings) (opt : Opt) : Reading Settings := do
  result (self.apply (← opt.read))

def handle (self : Settings) : Except Lexopt (Option Arg) → Prog Calls (Settings ⊕ Interpreted)
  | .error e => return .inr (.failed (.lexopt e))
  | .ok none => return .inr (.failed missing)
  | .ok (some (.short option)) =>
    return .inr (if option = 'h' then .help else .failed (unexpected s!"-{option}"))
  | .ok (some (.long option)) =>
    if option = "help" then return .inr .help
    else match Opt.ofName option with
      | some opt => do
        match ← (self.takeOption opt).run with
        | .ok settings => return .inl settings
        | .error e => return .inr (.failed e)
      | none => return .inr (.failed (unexpected s!"--{option}"))
  | .ok (some (.value v)) => do
    match ← (self.takeCommand v).run with
    | .ok (policy, command) => return .inr (.parsed policy command)
    | .error e => return .inr (.failed e)

def turn (self : Settings) : Prog Calls (Settings ⊕ Interpreted) := do
  self.handle (← perform (I := Calls) .next)

end Settings

variable {σ : Type}

def interpretPolicy (K : Kernel Calls σ) : σ → Interpreted → σ → Prop := Loops K Settings.turn {}

/-! ## What a command line says -/

/-- The options that the parser spells out, one after the other, and what their values say. -/
inductive Spells (K : Kernel Calls σ) (s : σ) : List Directive → σ → Prop
  | nil : Spells K s [] s
  | option {directives t u v d} (opt : Opt) (h : Spells K s directives t)
      (hnext : K t .next (.ok (some (.long opt.name))) u)
      (hread : Returns K opt.read.run u (.ok d) v) : Spells K s (directives ++ [d]) v

/-- Options, the name of a command, and everything behind it. -/
def Line (K : Kernel Calls σ) (s : σ) (directives : List Directive) (name : Bytes)
    (args : List Bytes) (t : σ) : Prop :=
  ∃ u v, Spells K s directives u ∧ K u .next (.ok (some (.value name))) v ∧
    K v .rawArgs (.ok args) t

/-- Why the interpretation fails behind some options. -/
inductive Fails (K : Kernel Calls σ) (directives : List Directive) (s : σ) : Error → σ → Prop
  | parser {e t} (h : K s .next (.error e) t) : Fails K directives s (.lexopt e) t
  | short {option t} (h : K s .next (.ok (some (.short option))) t) (hhelp : option ≠ 'h') :
      Fails K directives s (unexpected s!"-{option}") t
  | long {option t} (h : K s .next (.ok (some (.long option))) t) (hhelp : option ≠ "help")
      (hname : ∀ opt : Opt, opt.name ≠ option) : Fails K directives s (unexpected s!"--{option}") t
  | reading {e u t} (opt : Opt) (h : K s .next (.ok (some (.long opt.name))) u)
      (hread : Returns K opt.read.run u (.error e) t) : Fails K directives s e t
  | descriptors {edit u t} (opt : Opt) (h : K s .next (.ok (some (.long opt.name))) u)
      (hread : Returns K opt.read.run u (.ok (.descriptors edit)) t)
      (hrefused : ¬ Accepted (directives ++ [.descriptors edit])) :
      Fails K directives s .invalidFdPolicy t
  | mounts {mounted path u t} (opt : Opt) (h : K s .next (.ok (some (.long opt.name))) u)
      (hread : Returns K opt.read.run u (.ok (.mount mounted path)) t)
      (hrefused : ¬ Accepted (directives ++ [.mount mounted path])) :
      Fails K directives s .invalidMountPolicy t
  | name {v e t} (h : K s .next (.ok (some (.value v))) t) (hnul : 0 ∈ v) :
      Fails K directives s (.command e) t
  | rawArgs {v e u t} (h : K s .next (.ok (some (.value v))) u)
      (hraw : K u .rawArgs (.error e) t) : Fails K directives s (.lexopt e) t
  | command {v args e u t} (h : K s .next (.ok (some (.value v))) u)
      (hraw : K u .rawArgs (.ok args) t)
      (hbuild : ¬ Buildable directives v args) : Fails K directives s (.command e) t
  | missing {t} (h : K s .next (.ok none) t) : Fails K directives s missing t

/-- What a turn comes to behind some options. -/
inductive Turned (K : Kernel Calls σ) (s₀ : σ) (directives : List Directive) (self : Settings)
    (s : σ) : Settings ⊕ Interpreted → σ → Prop
  | goesOn {d next t} (hmore : Spells K s₀ (directives ++ [d]) t)
      (hrun : (directives ++ [d]).foldlM Settings.apply {} = .ok next) :
      Turned K s₀ directives self s (.inl next) t
  | help {t} : Turned K s₀ directives self s (.inr .help) t
  | failed {e t} (h : Fails K directives s e t) :
      Turned K s₀ directives self s (.inr (.failed e)) t
  | parsed {name args command t} (hline : Line K s₀ directives name args t)
      (hbuild : Buildable directives name args) (hruns : Runs directives name args command) :
      Turned K s₀ directives self s (.inr (.parsed self.finish command)) t

/-! ## One turn -/

section Turn
variable {K : Kernel Calls σ} {s₀ s t : σ} {directives : List Directive} {self : Settings}

theorem Opt.name_of_ofName {name : String} {opt : Opt} (h : Opt.ofName name = some opt) :
    opt.name = name := by
  simpa using List.find?_some h

theorem returns_result {α : Type} {x r : Except Error α} :
    Returns K (result x).run s r t ↔ r = x ∧ t = s :=
  returns_done

/-- An option asks for what was read for it, or it is the reading that fails. -/
theorem returns_takeOption {opt : Opt} {r : Except Error Settings} :
    Returns K (self.takeOption opt).run s r t ↔
      ∃ x, Returns K opt.read.run s x t ∧ r = x >>= self.apply := by
  unfold Settings.takeOption
  rw [returns_bindE]
  constructor
  · intro h
    rcases h with ⟨d, u, hread, hrest⟩ | ⟨e, rfl, hread⟩
    · obtain ⟨rfl, rfl⟩ := returns_result.mp hrest
      exact ⟨.ok d, hread, rfl⟩
    · exact ⟨.error e, hread, rfl⟩
  · intro ⟨x, hread, hr⟩
    cases x with
    | error e => exact .inr ⟨e, hr, hread⟩
    | ok d => exact .inl ⟨d, t, hread, returns_result.mpr ⟨hr, rfl⟩⟩

theorem mapError_eq_ok {ε ε' α : Type} {x : Except ε α} {f : ε → ε'} {a : α} :
    x.mapError f = .ok a ↔ x = .ok a := by
  cases x <;> simp [Except.mapError]

theorem mapError_eq_error {ε ε' α : Type} {x : Except ε α} {f : ε → ε'} {e' : ε'} :
    x.mapError f = .error e' ↔ ∃ e, x = .error e ∧ f e = e' := by
  cases x <;> simp [Except.mapError]

/-- Behind its name come the arguments, and then the command is built or not. -/
theorem returns_takeCommand {v : Bytes} {r : Except Error (Sandbox.Policy × CommandInner)} :
    Returns K (self.takeCommand v).run s r t ↔
      (∃ e, CommandInner.new v = .error e ∧ r = .error (.command e) ∧ t = s) ∨
      ∃ c, CommandInner.new v = .ok c ∧
        ((∃ e, K s .rawArgs (.error e) t ∧ r = .error (.lexopt e)) ∨
        ∃ args, K s .rawArgs (.ok args) t ∧
          ((∃ e, self.command c args = .error e ∧ r = .error (.command e)) ∨
          ∃ command, self.command c args = .ok command ∧ r = .ok (self.finish, command))) := by
  unfold Settings.takeCommand
  constructor
  · intro h
    rcases returns_bindE.mp h with ⟨c, u, hnew, h₁⟩ | ⟨e, rfl, hnew⟩
    · obtain ⟨hnew', rfl⟩ := returns_result.mp hnew
      refine .inr ⟨c, mapError_eq_ok.mp hnew'.symm, ?_⟩
      rcases returns_bindE.mp h₁ with ⟨raw, w, hlift, h₂⟩ | ⟨e, -, hlift⟩
      · obtain ⟨raw, hok, hperform⟩ := returns_lift.mp hlift
        cases hok
        have hraw := returns_perform.mp hperform
        rcases returns_bindE.mp h₂ with ⟨args, x, hargs, h₃⟩ | ⟨e, rfl, hargs⟩
        · obtain ⟨hargs', rfl⟩ := returns_result.mp hargs
          cases mapError_eq_ok.mp hargs'.symm
          rcases returns_bindE.mp h₃ with ⟨command, y, hcommand, h₄⟩ | ⟨e, rfl, hcommand⟩
          · obtain ⟨hcommand', rfl⟩ := returns_result.mp hcommand
            obtain ⟨rfl, rfl⟩ := returns_done.mp h₄
            exact .inr ⟨args, hraw, .inr ⟨command, mapError_eq_ok.mp hcommand'.symm, rfl⟩⟩
          · obtain ⟨hcommand', rfl⟩ := returns_result.mp hcommand
            obtain ⟨e', he', rfl⟩ := mapError_eq_error.mp hcommand'.symm
            exact .inr ⟨args, hraw, .inl ⟨e', he', rfl⟩⟩
        · obtain ⟨hargs', rfl⟩ := returns_result.mp hargs
          obtain ⟨e', rfl, rfl⟩ := mapError_eq_error.mp hargs'.symm
          exact .inl ⟨e', hraw, rfl⟩
      · obtain ⟨raw, hok, -⟩ := returns_lift.mp hlift
        cases hok
    · obtain ⟨hnew', rfl⟩ := returns_result.mp hnew
      obtain ⟨e', he', rfl⟩ := mapError_eq_error.mp hnew'.symm
      exact .inl ⟨e', he', rfl, rfl⟩
  · intro h
    rcases h with ⟨e, hnew, rfl, rfl⟩ | ⟨c, hnew, h⟩
    · rw [hnew]
      exact .refl _ _
    · rw [hnew]
      refine returns_bindE.mpr (.inl ⟨c, s, .refl _ _, ?_⟩)
      rcases h with ⟨e, hraw, rfl⟩ | ⟨args, hraw, h⟩
      · exact returns_bindE.mpr (.inl ⟨_, t, returns_lift.mpr ⟨_, rfl, returns_perform.mpr hraw⟩,
          .refl _ _⟩)
      · refine returns_bindE.mpr (.inl ⟨_, t, returns_lift.mpr ⟨_, rfl, returns_perform.mpr hraw⟩,
          returns_bindE.mpr (.inl ⟨args, t, .refl _ _, ?_⟩)⟩)
        rcases h with ⟨e, hcommand, rfl⟩ | ⟨command, hcommand, rfl⟩
        · rw [hcommand]
          exact .refl _ _
        · rw [hcommand]
          exact .refl _ _

/-- Only these two can be refused. -/
theorem apply_error {d : Directive} {e : Error} (h : self.apply d = .error e) :
    (∃ edit, d = .descriptors edit ∧ e = .invalidFdPolicy) ∨
      ∃ mounted path, d = .mount mounted path ∧ e = .invalidMountPolicy := by
  cases d with
  | set x => cases h
  | descriptors edit =>
    simp only [Settings.apply] at h
    split at h
    · cases h
    · cases h
      exact .inl ⟨edit, rfl, rfl⟩
  | mount mounted path =>
    simp only [Settings.apply] at h
    split at h
    · cases h
    · cases h
      exact .inr ⟨mounted, path, rfl, rfl⟩

/-- An option that is refused is one that the options are not accepted with. -/
theorem refused_fails {opt : Opt} {d : Directive} {e : Error} {u : σ}
    (hself : directives.foldlM Settings.apply {} = .ok self)
    (hnext : K s .next (.ok (some (.long opt.name))) u)
    (hread : Returns K opt.read.run u (.ok d) t) (happly : self.apply d = .error e) :
    Fails K directives s e t := by
  have hrefused : ¬ Accepted (directives ++ [d]) := by
    rw [← apply_step hself (apply_isOk.mp ⟨self, hself⟩) d, happly]
    exact fun ⟨_, h⟩ => by cases h
  rcases apply_error happly with ⟨edit, rfl, rfl⟩ | ⟨mounted, path, rfl, rfl⟩
  · exact .descriptors opt hnext hread hrefused
  · exact .mounts opt hnext hread hrefused

/-- A turn that was given a long option. -/
theorem long_turned {option : String} {u : σ} {r : Settings ⊕ Interpreted}
    (hds : Spells K s₀ directives s) (hself : directives.foldlM Settings.apply {} = .ok self)
    (hnext : K s .next (.ok (some (.long option))) u)
    (h : Returns K (self.handle (.ok (some (.long option)))) u r t) :
    Turned K s₀ directives self s r t := by
  by_cases hhelp : option = "help"
  · subst hhelp
    obtain ⟨rfl, rfl⟩ := returns_done.mp h
    exact .help
  simp only [Settings.handle, if_neg hhelp] at h
  cases hopt : Opt.ofName option with
  | none =>
    rw [hopt] at h
    obtain ⟨rfl, rfl⟩ := returns_done.mp h
    refine .failed (.long hnext hhelp fun opt hname => ?_)
    rw [← hname, Opt.ofName_name] at hopt
    cases hopt
  | some opt =>
    rw [hopt] at h
    rw [← Opt.name_of_ofName hopt] at hnext
    obtain ⟨x, w, hrun, hend⟩ := returns_bind.mp h
    obtain ⟨y, hread, rfl⟩ := returns_takeOption.mp hrun
    cases y with
    | error e =>
      obtain ⟨rfl, rfl⟩ := returns_done.mp hend
      exact .failed (.reading opt hnext hread)
    | ok d =>
      cases happly : self.apply d with
      | ok next =>
        rw [show Except.ok d >>= self.apply = .ok next from happly] at hend
        obtain ⟨rfl, rfl⟩ := returns_done.mp hend
        exact .goesOn (.option opt hds hnext hread) (run_concat.mpr ⟨self, hself, happly⟩)
      | error e =>
        rw [show Except.ok d >>= self.apply = .error e from happly] at hend
        obtain ⟨rfl, rfl⟩ := returns_done.mp hend
        exact .failed (refused_fails hself hnext hread happly)

/-- A turn that was given the name of a command. -/
theorem value_turned {v : Bytes} {u : σ} {r : Settings ⊕ Interpreted}
    (hds : Spells K s₀ directives s) (hself : directives.foldlM Settings.apply {} = .ok self)
    (hnext : K s .next (.ok (some (.value v))) u)
    (h : Returns K (self.handle (.ok (some (.value v)))) u r t) :
    Turned K s₀ directives self s r t := by
  obtain ⟨x, w, hrun, hend⟩ := returns_bind.mp h
  rcases returns_takeCommand.mp hrun with ⟨e, hnew, rfl, rfl⟩ | ⟨c, hnew, hrest⟩
  · obtain ⟨rfl, rfl⟩ := returns_done.mp hend
    have hnul : 0 ∈ v := by
      by_contra hnot
      obtain ⟨program, hprogram⟩ := exists_cString.mpr hnot
      rw [CommandInner.new, hprogram] at hnew
      cases hnew
    exact .failed (.name hnext hnul)
  rcases hrest with ⟨e, hraw, rfl⟩ | ⟨args, hraw, ⟨e, hcommand, rfl⟩ | ⟨command, hcommand, rfl⟩⟩
  · obtain ⟨rfl, rfl⟩ := returns_done.mp hend
    exact .failed (.rawArgs hnext hraw)
  · obtain ⟨rfl, rfl⟩ := returns_done.mp hend
    refine .failed (.command hnext hraw fun hbuild => ?_)
    obtain ⟨c', command, hnew', hbuilt⟩ := (exists_command hself).mpr hbuild
    cases hnew.symm.trans hnew'
    cases hcommand.symm.trans hbuilt
  · obtain ⟨rfl, rfl⟩ := returns_done.mp hend
    exact .parsed ⟨s, u, hds, hnext, hraw⟩
      ((exists_command hself).mp ⟨c, command, hnew, hcommand⟩) (command_spec hself hnew hcommand)

theorem turn_spec {r : Settings ⊕ Interpreted} (hds : Spells K s₀ directives s)
    (hself : directives.foldlM Settings.apply {} = .ok self) (h : Returns K self.turn s r t) :
    Turned K s₀ directives self s r t := by
  obtain ⟨answer, u, hperform, hhandle⟩ := returns_bind.mp h
  have hnext := returns_perform.mp hperform
  rcases answer with e | _ | arg
  · obtain ⟨rfl, rfl⟩ := returns_done.mp hhandle
    exact .failed (.parser hnext)
  · obtain ⟨rfl, rfl⟩ := returns_done.mp hhandle
    exact .failed (.missing hnext)
  cases arg with
  | short option =>
    obtain ⟨rfl, rfl⟩ := returns_done.mp hhandle
    by_cases hhelp : option = 'h'
    · rw [if_pos hhelp]
      exact .help
    · rw [if_neg hhelp]
      exact .failed (.short hnext hhelp)
  | long option => exact long_turned hds hself hnext hhandle
  | value v => exact value_turned hds hself hnext hhandle

end Turn

/-! ## The whole interpretation -/

section Whole
variable {K : Kernel Calls σ} {s t : σ}

/-- What the options come to is where the loop goes on. -/
theorem spells_loops {directives : List Directive} {self : Settings} {u : σ} {r : Interpreted}
    (hds : Spells K s directives u) (hself : directives.foldlM Settings.apply {} = .ok self)
    (h : Loops K Settings.turn self u r t) : interpretPolicy K s r t := by
  induction hds generalizing self r with
  | nil =>
    cases hself
    exact h
  | @option directives w u v d opt hds hnext hread ih =>
    obtain ⟨before, hbefore, happly⟩ := run_concat.mp hself
    refine ih hbefore (.again ?_ h)
    refine returns_bind.mpr ⟨_, u, returns_perform.mpr hnext, ?_⟩
    have hhelp : ¬ opt.name = "help" := by cases opt <;> decide
    simp only [Settings.handle, if_neg hhelp, Opt.ofName_name]
    refine returns_bind.mpr ⟨.ok self, v, returns_takeOption.mpr ⟨.ok d, hread, ?_⟩, .refl _ _⟩
    exact happly.symm

/-- A run of the loop behind some options. -/
theorem loops_spec {directives : List Directive} {self : Settings} {u : σ} {r : Interpreted}
    (hds : Spells K s directives u) (hself : directives.foldlM Settings.apply {} = .ok self)
    (h : Loops K Settings.turn self u r t) : ∃ directives self u,
      Spells K s directives u ∧ directives.foldlM Settings.apply {} = .ok self ∧
      Returns K self.turn u (.inr r) t := by
  induction h generalizing directives with
  | leave h => exact ⟨_, _, _, hds, hself, h⟩
  | again h _ ih =>
    cases turn_spec hds hself h with
    | goesOn hmore hrun => exact ih hmore hrun

/-- Where the loop is left with a policy and a command, they are those of the options before. -/
theorem parsed_spec {policy : Sandbox.Policy} {command : CommandInner}
    (h : interpretPolicy K s (.parsed policy command) t) :
    ∃ directives settings name args, directives.foldlM Settings.apply {} = .ok settings ∧
      Line K s directives name args t ∧ Buildable directives name args ∧
      policy = settings.finish ∧ Runs directives name args command := by
  obtain ⟨directives, self, u, hds, hself, hlast⟩ := loops_spec .nil rfl h
  cases turn_spec hds hself hlast with
  | parsed hline hbuild hruns =>
    exact ⟨directives, self, _, _, hself, hline, hbuild, rfl, hruns⟩

/-- For every parser and every host: a policy and a command that are interpreted mean what the
options said, each by the last word on it; there are such exactly when the options are accepted
and the command can be built; and every failure has its reason. -/
theorem interpretPolicy_exact :
    (∀ policy command, interpretPolicy K s (.parsed policy command) t →
      ∃ directives settings name args, Line K s directives name args t ∧
        policy = settings.finish ∧ Means directives settings ∧
        Runs directives name args command) ∧
    ((∃ policy command, interpretPolicy K s (.parsed policy command) t) ↔
      ∃ directives name args, Line K s directives name args t ∧ Accepted directives ∧
        Buildable directives name args) ∧
    ∀ e, interpretPolicy K s (.failed e) t →
      ∃ directives u, Spells K s directives u ∧ Accepted directives ∧ Fails K directives u e t := by
  refine ⟨fun policy command h => ?_, ⟨fun ⟨policy, command, h⟩ => ?_, ?_⟩, fun e h => ?_⟩
  · obtain ⟨directives, self, name, args, hself, hline, -, hpolicy, hruns⟩ := parsed_spec h
    exact ⟨directives, self, name, args, hline, hpolicy, apply_means hself, hruns⟩
  · obtain ⟨directives, self, name, args, hself, hline, hbuild, -⟩ := parsed_spec h
    exact ⟨directives, name, args, hline, apply_isOk.mp ⟨self, hself⟩, hbuild⟩
  · intro ⟨directives, name, args, ⟨u, v, hds, hnext, hraw⟩, hacc, hbuild⟩
    obtain ⟨self, hself⟩ := apply_isOk.mpr hacc
    obtain ⟨c, command, hnew, hcommand⟩ := (exists_command hself).mpr hbuild
    refine ⟨self.finish, command, spells_loops hds hself (.leave ?_)⟩
    refine returns_bind.mpr ⟨_, v, returns_perform.mpr hnext, ?_⟩
    refine returns_bind.mpr ⟨.ok (self.finish, command), t, returns_takeCommand.mpr ?_, .refl _ _⟩
    exact .inr ⟨c, hnew, .inr ⟨args, hraw, .inr ⟨command, hcommand, rfl⟩⟩⟩
  · obtain ⟨directives, self, u, hds, hself, hlast⟩ := loops_spec .nil rfl h
    cases turn_spec hds hself hlast with
    | failed hfails => exact ⟨directives, u, hds, apply_isOk.mp ⟨self, hself⟩, hfails⟩

end Whole

/-! ## A command line -/

/-- The words behind an option or a name. -/
def Arg.word : Arg → Option Bytes
  | .value v => some v
  | _ => none

/-- A parser of a line that is split already, on a host with one directory. -/
def words : Impl Calls (List Arg)
  | [], .next => (.ok none, [])
  | arg :: rest, .next => (.ok (some arg), rest)
  | .value v :: rest, .value => (.ok v, rest)
  | rest, .value => (.error (.missingValue none), rest)
  | rest, .optionalValue => (none, rest)
  | rest, .rawArgs => (.ok (rest.filterMap Arg.word), [])
  | rest, .openFile _ => (.error (.syscall ⟨.openat2, .NOENT⟩), rest)
  | rest, .openDirectory _ => (.ok 9, rest)
  | rest, .varOs _ => (none, rest)

/-- What that parser and that host may answer. -/
def wordsKernel : Kernel Calls (List Arg) := fun s op r t => r = (words s op).1 ∧ t = (words s op).2

def workLine : List Arg :=
  [.long "share-uts", .long "hostname", .value (ascii "work"), .long "cap-add",
    .value (ascii "NET_BIND_SERVICE"), .long "passthrough", .value (ascii "2"), .long "mode",
    .value (ascii "755"), .long "directory", .value (ascii "/srv"), .long "ro-bind-directory",
    .value (ascii "/srv/www"), .value (ascii "/srv/www"), .value (ascii "/bin/sh"),
    .value (ascii "-c"), .value (ascii "true")]

/-- The policy and the command that there are, when nothing is left of a line. -/
def parsedOf : Option (Interpreted × List Arg) → Option (Sandbox.Policy × CommandInner)
  | some (.parsed policy command, []) => some (policy, command)
  | _ => none

def workParsed : Option (Sandbox.Policy × CommandInner) :=
  parsedOf (runLoop words Settings.turn 10 10 {} workLine)

theorem workParsed_isSome : workParsed.isSome = true := by decide +kernel

def workPolicy : Sandbox.Policy := (workParsed.get workParsed_isSome).1

def workCommand : CommandInner := (workParsed.get workParsed_isSome).2

theorem workLine_parsed :
    interpretPolicy wordsKernel workLine (.parsed workPolicy workCommand) [] := by
  have hget : workParsed = some (workPolicy, workCommand) := (Option.some_get _).symm
  have hloops := @runLoop_loops Calls Interpreted Settings (List Arg) wordsKernel Settings.turn
    words (fun _ _ => ⟨rfl, rfl⟩) 10 10 {} workLine
  apply hloops
  unfold workParsed parsedOf at hget
  split at hget
  · next hrun =>
    cases hget
    exact hrun
  · cases hget

theorem interpretPolicy_exact_work : ∃ directives settings name args,
    Line wordsKernel workLine directives name args [] ∧ workPolicy = settings.finish ∧
      Means directives settings ∧ Runs directives name args workCommand :=
  (interpretPolicy_exact (K := wordsKernel)).1 workPolicy workCommand workLine_parsed

end LayerCake.Bbx
