import Mathlib.Data.List.Basic
import LayerCake.Effects.Program

/-
  What the log of a run says about the program that ran.

  Where every answered call is logged, a program that has returned has done so on
  answers that are in the log. `Prog.From log p a` says so without saying in which
  run: it is read off the program by its own structure, call by call.

  What is defined and proved:
    1. `Event`, an answered call, and `Prog.From log p a` — `p` returns `a` on answers
       that are in `log`; its rules for a call, for `>>=` and for fallible programs.
    2. `Logs K log`, `Prog.Calls.sat_log` — of a program that makes calls of one kind
       only, the log grows by such calls, and what it returns it has from them.
    3. `Adds` — a specification of what a program adds to the log, with the rules to
       compose it.
    4. `Traced p F` — whatever the answers are, what `p` returns and the calls it has
       made satisfy `F`.
-/

namespace LayerCake.Effects

variable {I : Interface} {α β ε σ : Type}

/-- An answered call. -/
structure Event (I : Interface) where
  op : I.Op
  answer : I.Res op

/-- `p` returns `a` on answers that are in the log. -/
def Prog.From (log : List (Event I)) : Prog I α → α → Prop
  | .done a, b => a = b
  | .call op again k, b => ∃ r, ⟨op, r⟩ ∈ log ∧ again r = false ∧ (k r).From log b

section From
variable {log log' : List (Event I)}

theorem Prog.From.mono {p : Prog I α} {a : α} (h : p.From log a) (hsub : log ⊆ log') :
    p.From log' a := by
  induction p with
  | done b => exact h
  | call op again k ih =>
    obtain ⟨r, hmem, hr, hrest⟩ := h
    exact ⟨r, hsub hmem, hr, ih r hrest⟩

theorem Prog.from_bind {p : Prog I α} {f : α → Prog I β} {b : β} :
    (p >>= f).From log b ↔ ∃ a, p.From log a ∧ (f a).From log b := by
  induction p with
  | done a => exact ⟨fun h => ⟨a, rfl, h⟩, fun ⟨_, heq, h⟩ => heq ▸ h⟩
  | call op again k ih =>
    constructor
    · intro h
      obtain ⟨r, hmem, hr, hrest⟩ := h
      obtain ⟨a, ha, hb⟩ := (ih r).mp hrest
      exact ⟨a, ⟨r, hmem, hr, ha⟩, hb⟩
    · intro h
      obtain ⟨a, ⟨r, hmem, hr, ha⟩, hb⟩ := h
      exact ⟨r, hmem, hr, (ih r).mpr ⟨a, ha, hb⟩⟩

theorem Prog.from_performUntil {op : I.Op} {again : I.Res op → Bool} {r : I.Res op} :
    (performUntil op again).From log r ↔ ⟨op, r⟩ ∈ log ∧ again r = false := by
  constructor
  · intro h
    obtain ⟨_, hmem, hr, rfl⟩ := h
    exact ⟨hmem, hr⟩
  · intro h
    obtain ⟨hmem, hr⟩ := h
    exact ⟨r, hmem, hr, rfl⟩

theorem Prog.from_perform {op : I.Op} {r : I.Res op} :
    (perform op).From log r ↔ ⟨op, r⟩ ∈ log :=
  from_performUntil.trans ⟨And.left, fun h => ⟨h, rfl⟩⟩

/-- A fallible program that succeeds succeeds in each of its steps. -/
theorem Prog.from_bindE {p : ExceptT ε (Prog I) α} {f : α → ExceptT ε (Prog I) β} {b : β} :
    Prog.From log (p >>= f).run (.ok b) ↔
      ∃ a, Prog.From log p.run (.ok a) ∧ Prog.From log (f a).run (.ok b) := by
  constructor
  · intro h
    obtain ⟨x, hx, hb⟩ := Prog.from_bind.mp h
    cases x with
    | ok a => exact ⟨a, hx, hb⟩
    | error e => cases hb
  · intro h
    obtain ⟨a, ha, hb⟩ := h
    exact Prog.from_bind.mpr ⟨.ok a, ha, hb⟩

theorem Prog.from_pureE {a b : α} :
    Prog.From log (pure a : ExceptT ε (Prog I) α).run (.ok b) ↔ a = b :=
  ⟨Except.ok.inj, congrArg Except.ok⟩

end From

/-! ## The calls of a finished run -/

/-- The calls of a run that returns, in order, each with the answer it went on with. -/
def Prog.Trace : Prog I α → List (Event I) → α → Prop
  | .done a, trace, b => trace = [] ∧ a = b
  | .call op again k, trace, b =>
    ∃ r rest, trace = ⟨op, r⟩ :: rest ∧ again r = false ∧ (k r).Trace rest b

/-- Whatever the answers are, what `p` returns and its calls satisfy `F`. -/
def Traced (p : Prog I α) (F : α → List (Event I) → Prop) : Prop :=
  ∀ trace a, p.Trace trace a → F a trace

theorem traced_done {a : α} {F : α → List (Event I) → Prop} : Traced (.done a) F ↔ F a [] := by
  constructor
  · intro h
    exact h [] a ⟨rfl, rfl⟩
  · intro h trace b htrace
    obtain ⟨rfl, rfl⟩ := htrace
    exact h

theorem Traced.call {op : I.Op} {again : I.Res op → Bool} {k : I.Res op → Prog I α}
    {F : α → List (Event I) → Prop}
    (h : ∀ r, again r = false → Traced (k r) fun a rest => F a (⟨op, r⟩ :: rest)) :
    Traced (.call op again k) F := by
  intro trace a htrace
  obtain ⟨r, rest, rfl, hr, hrest⟩ := htrace
  exact h r hr rest a hrest

theorem Traced.bind {p : Prog I α} {f : α → Prog I β} {F : β → List (Event I) → Prop}
    (h : Traced p fun a past => Traced (f a) fun b more => F b (past ++ more)) :
    Traced (p >>= f) F := by
  induction p generalizing F with
  | done a => exact traced_done.mp h
  | call op again k ih =>
    refine .call fun r hr => ih r fun trace a htrace => ?_
    exact h (⟨op, r⟩ :: trace) a ⟨r, trace, rfl, hr, htrace⟩

/-- The same for fallible programs: an error of the first is the result. -/
theorem Traced.bindE {p : ExceptT ε (Prog I) α} {f : α → ExceptT ε (Prog I) β}
    {F : Except ε β → List (Event I) → Prop}
    (h : Traced p.run fun x past => match x with
      | .ok a => Traced (f a).run fun b more => F b (past ++ more)
      | .error error => F (.error error) past) :
    Traced (p >>= f).run F := by
  refine Traced.bind (f := ExceptT.bindCont f) fun trace x htrace => ?_
  have hx := h trace x htrace
  cases x with
  | ok a => exact hx
  | error error =>
    show Traced (.done (.error error)) fun b more => F b (trace ++ more)
    rw [traced_done, List.append_nil]
    exact hx

/-! ## Runs that are logged -/

/-- Every answered call is appended to the log. -/
def Logs (K : Kernel I σ) (log : σ → List (Event I)) : Prop :=
  ∀ s op r s', K s op r s' → log s' = log s ++ [⟨op, r⟩]

section Runs
variable {K : Kernel I σ} {R G : σ → σ → Prop} {log : σ → List (Event I)}

/-- What is known of the log is not changed by those who do not touch it. -/
theorem stable_log (hR : ∀ s s', R s s' → log s' = log s) (J : List (Event I) → Prop) :
    Stable R fun s => J (log s) := by
  intro s s' hJ hr
  show J (log s')
  rw [hR s s' hr]
  exact hJ

/-- What a program of calls of one kind leaves, where the others do not touch the log. -/
theorem Prog.Calls.sat_log {P : I.Op → Prop} {p : Prog I α} (hp : p.Calls P) (hlogs : Logs K log)
    (hR : ∀ s s', R s s' → log s' = log s) {s : σ}
    (hG : ∀ t op r t', log s <+: log t → P op → K t op r t' → G t t') :
    Sat K R G p (fun a t => ∃ past, log t = log s ++ past ∧ (∀ event ∈ past, P event.op) ∧
      p.From past a) s := by
  have hstable : ∀ J : List (Event I) → Prop, Stable R fun s => J (log s) := stable_log hR
  induction p generalizing s with
  | done a =>
    refine ⟨fun t => log t = log s, rfl, hstable (· = log s), fun t ht => ?_⟩
    exact ⟨[], by rw [ht, List.append_nil], fun _ h => absurd h List.not_mem_nil, rfl⟩
  | call op again k ih =>
    -- the call may have been made before, with answers on which it is made again
    refine ⟨fun t => ∃ past, log t = log s ++ past ∧ ∀ event ∈ past, P event.op,
      ⟨[], (List.append_nil _).symm, fun _ h => absurd h List.not_mem_nil⟩,
      hstable fun l => ∃ past, l = log s ++ past ∧ ∀ event ∈ past, P event.op, ?_⟩
    intro t r t' h hk
    obtain ⟨past, hpast, hall⟩ := h
    refine ⟨hG t op r t' (hpast ▸ List.prefix_append _ _) hp.1 hk, ?_⟩
    have hlog : log t' = log s ++ (past ++ [⟨op, r⟩]) := by
      rw [hlogs t op r t' hk, hpast, List.append_assoc]
    have hall' : ∀ event ∈ past ++ [⟨op, r⟩], P event.op := by
      intro event hmem
      rcases List.mem_append.mp hmem with hmem | hmem
      · exact hall event hmem
      · rw [List.mem_singleton.mp hmem]
        exact hp.1
    split
    · exact ⟨_, hlog, hall'⟩
    · next hr =>
      have hext : log s <+: log t' := hlog ▸ List.prefix_append _ _
      refine (ih r (hp.2 r) fun u op r u' hu => hG u op r u' (hext.trans hu)).mono ?_
      intro a u h
      obtain ⟨more, hmore, hmoreAll, hfrom⟩ := h
      refine ⟨past ++ [⟨op, r⟩] ++ more, ?_, ?_, ?_⟩
      · rw [hmore, hlog, List.append_assoc]
      · intro event hmem
        rcases List.mem_append.mp hmem with hmem | hmem
        · exact hall' event hmem
        · exact hmoreAll event hmem
      · refine ⟨r, ?_, by simpa using hr, hfrom.mono (List.subset_append_right _ _)⟩
        exact List.mem_append_left _ (List.mem_append_right _ List.mem_cons_self)

/-! ## What a program adds to the log -/

/-- Started where the log is `l`, what the program adds to the log satisfies `F`. -/
def Adds (K : Kernel I σ) (R G : σ → σ → Prop) (log : σ → List (Event I)) (p : Prog I α)
    (F : α → List (Event I) → Prop) (l : List (Event I)) : Prop :=
  ∀ s, log s = l → Sat K R G p (fun a t => ∃ past, log t = l ++ past ∧ F a past) s

variable {l : List (Event I)}

theorem Adds.mono {p : Prog I α} {F F' : α → List (Event I) → Prop} (h : Adds K R G log p F l)
    (hF : ∀ a past, F a past → F' a past) : Adds K R G log p F' l := by
  intro s hs
  apply (h s hs).mono
  intro a t h
  obtain ⟨past, hpast, hf⟩ := h
  exact ⟨past, hpast, hF a past hf⟩

/-- What is returned at once adds nothing. -/
theorem Adds.done (hR : ∀ s s', R s s' → log s' = log s) {a : α}
    {F : α → List (Event I) → Prop} (h : F a []) : Adds K R G log (.done a) F l := by
  intro s hs
  apply Sat.return (fun t => log t = l) hs (stable_log hR (· = l))
  intro t ht
  exact ⟨[], by rw [ht, List.append_nil], h⟩

/-- One program after another adds what the two add. -/
theorem Adds.bind {p : Prog I α} {f : α → Prog I β} {F : β → List (Event I) → Prop}
    (h : Adds K R G log p
      (fun a past => Adds K R G log (f a) (fun b more => F b (past ++ more)) (l ++ past)) l) :
    Adds K R G log (p >>= f) F l := by
  intro s hs
  apply Sat.bind
  apply (h s hs).mono
  intro a t h
  obtain ⟨past, hpast, hrest⟩ := h
  apply (hrest t hpast).mono
  intro b u h
  obtain ⟨more, hmore, hf⟩ := h
  exact ⟨past ++ more, by rw [hmore, List.append_assoc], hf⟩

/-- The same for fallible programs: an error of the first is the result. -/
theorem Adds.bindE (hR : ∀ s s', R s s' → log s' = log s) {p : ExceptT ε (Prog I) α}
    {f : α → ExceptT ε (Prog I) β} {F : Except ε β → List (Event I) → Prop}
    (h : Adds K R G log p.run (fun x past => match x with
      | .ok a => Adds K R G log (f a).run (fun b more => F b (past ++ more)) (l ++ past)
      | .error error => F (.error error) past) l) :
    Adds K R G log (p >>= f).run F l := by
  apply Adds.bind (f := ExceptT.bindCont f)
  apply h.mono
  intro x past hx
  cases x with
  | ok a => exact hx
  | error error =>
    apply Adds.done hR
    rw [List.append_nil]
    exact hx

/-- A call that is answered once adds itself. -/
theorem Adds.perform (hlogs : Logs K log) (hR : ∀ s s', R s s' → log s' = log s) {op : I.Op}
    {F : I.Res op → List (Event I) → Prop}
    (h : ∀ s r s', log s = l → K s op r s' → G s s' ∧ F r [⟨op, r⟩]) :
    Adds K R G log (perform op) F l := by
  intro s hs
  apply Sat.perform (fun t => log t = l) hs (stable_log hR (· = l))
  intro t r t' ht hk
  obtain ⟨hg, hf⟩ := h t r t' ht hk
  have ht' : log t' = l ++ [⟨op, r⟩] := by rw [hlogs t op r t' hk, ht]
  refine ⟨hg, Sat.return (fun u => log u = l ++ [⟨op, r⟩]) ht' (stable_log hR (· = _)) ?_⟩
  intro u hu
  exact ⟨[⟨op, r⟩], hu, hf⟩

/-- What calls of one kind add. -/
theorem Adds.of_calls {P : I.Op → Prop} {p : Prog I α} (hp : p.Calls P) (hlogs : Logs K log)
    (hR : ∀ s s', R s s' → log s' = log s)
    (hG : ∀ t op r t', l <+: log t → P op → K t op r t' → G t t') :
    Adds K R G log p (fun a past => (∀ event ∈ past, P event.op) ∧ p.From past a) l := by
  intro s h
  subst h
  exact hp.sat_log hlogs hR hG

end Runs

end LayerCake.Effects
