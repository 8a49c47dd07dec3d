import Mathlib.Logic.Function.Basic
import LayerCake.Effects.Program

/-
  Several programs over one state, in any interleaving, each of which may be
  killed between two of its calls.

  `Reach.sat` is the rely/guarantee rule: when every process satisfies its own
  `Sat` against a rely that covers what the others guarantee (and what the
  death of one of them does), every process still satisfies it in every
  reachable configuration. `Reach.related` turns the guarantees into a fact
  about the shared state over the whole run.
-/

namespace LayerCake.Effects

variable {I : Interface} {α σ ι : Type}

/-- The shared state and what is left of every process; `none` is a process
that was killed. -/
structure Config (I : Interface) (σ α ι : Type) where
  shared : σ
  procs : ι → Option (Prog I α)

/-- One process makes a call, or dies between two calls. `reap i` is what the
death of process `i` does to the shared state. -/
inductive SysStep [DecidableEq ι] (K : ι → Kernel I σ) (reap : ι → σ → σ → Prop)
    (c : Config I σ α ι) : Config I σ α ι → Prop
  | act (i : ι) {p p' : Prog I α} {s' : σ} (hp : c.procs i = some p)
      (h : Step (K i) p c.shared p' s') :
      SysStep K reap c { shared := s', procs := Function.update c.procs i (some p') }
  | kill (i : ι) {p : Prog I α} {s' : σ} (hp : c.procs i = some p) (h : reap i c.shared s') :
      SysStep K reap c { shared := s', procs := Function.update c.procs i none }

/-- The configurations a run reaches. -/
def Reach [DecidableEq ι] (K : ι → Kernel I σ) (reap : ι → σ → σ → Prop) :
    Config I σ α ι → Config I σ α ι → Prop :=
  Relation.ReflTransGen (SysStep K reap)

/-- Every process that is left satisfies its own rely/guarantee specification. -/
def AllSat (K : ι → Kernel I σ) (R G : ι → σ → σ → Prop) (Q : ι → α → σ → Prop)
    (c : Config I σ α ι) : Prop :=
  ∀ i p, c.procs i = some p → Sat (K i) (R i) (G i) p (Q i) c.shared

section System
variable [DecidableEq ι] {K : ι → Kernel I σ} {reap : ι → σ → σ → Prop}
  {R G : ι → σ → σ → Prop} {Q : ι → α → σ → Prop}

/-- One step of the system keeps every process's specification: the acting
process by its own `Sat`, the others because the step is within their rely. -/
theorem AllSat.step (hG : ∀ i j, i ≠ j → ∀ s s', G i s s' → R j s s')
    (hreap : ∀ i j, i ≠ j → ∀ s s', reap i s s' → R j s s') {c c' : Config I σ α ι}
    (h : AllSat K R G Q c) (hs : SysStep K reap c c') : AllSat K R G Q c' := by
  intro j q hq
  cases hs with
  | act i hp hstep =>
    obtain ⟨hg, hrest⟩ := (h i _ hp).step hstep
    by_cases hij : j = i
    · subst hij
      simp only [Function.update_self, Option.some.injEq] at hq
      exact hq ▸ hrest
    · simp only [Function.update_of_ne hij] at hq
      exact (h j q hq).rely (hG i j (Ne.symm hij) _ _ hg)
  | kill i hp hdead =>
    by_cases hij : j = i
    · subst hij
      simp at hq
    · simp only [Function.update_of_ne hij] at hq
      exact (h j q hq).rely (hreap i j (Ne.symm hij) _ _ hdead)

/-- The rely/guarantee rule, over whole runs. -/
theorem Reach.sat (hG : ∀ i j, i ≠ j → ∀ s s', G i s s' → R j s s')
    (hreap : ∀ i j, i ≠ j → ∀ s s', reap i s s' → R j s s') {c c' : Config I σ α ι}
    (h : AllSat K R G Q c) (hr : Reach K reap c c') : AllSat K R G Q c' := by
  induction hr with
  | refl => exact h
  | tail _ hstep ih => exact ih.step hG hreap hstep

omit [DecidableEq ι] in
/-- A process that has returned satisfies its postcondition, at every later time. -/
theorem AllSat.returned {c : Config I σ α ι} (h : AllSat K R G Q c) {i : ι} {a : α}
    (hi : c.procs i = some (.done a)) : Q i a c.shared :=
  (h i _ hi).returned

/-- What every guarantee and every death preserves relates the shared state at
the start of a run to the shared state at its end. -/
theorem Reach.related {H : σ → σ → Prop} (hrefl : ∀ s, H s s)
    (htrans : ∀ a b c, H a b → H b c → H a c)
    (hG : ∀ i j, i ≠ j → ∀ s s', G i s s' → R j s s')
    (hreap : ∀ i j, i ≠ j → ∀ s s', reap i s s' → R j s s')
    (hGH : ∀ i s s', G i s s' → H s s') (hreapH : ∀ i s s', reap i s s' → H s s')
    {c c' : Config I σ α ι} (h : AllSat K R G Q c) (hr : Reach K reap c c') :
    H c.shared c'.shared := by
  induction hr with
  | refl => exact hrefl _
  | tail hr hstep ih =>
    refine htrans _ _ _ ih ?_
    cases hstep with
    | act i hp hs => exact hGH i _ _ ((Reach.sat hG hreap h hr i _ hp).step hs).1
    | kill i hp hdead => exact hreapH i _ _ hdead

/-- What the calls of a process preserve of its program holds of it in every
reachable configuration. -/
theorem Reach.program {i : ι} {P : Prog I α → Prop}
    (hstep : ∀ p s p' s', P p → Step (K i) p s p' s' → P p') {c c' : Config I σ α ι}
    (h : ∀ p, c.procs i = some p → P p) (hr : Reach K reap c c') :
    ∀ p, c'.procs i = some p → P p := by
  induction hr with
  | refl => exact h
  | tail _ hsys ih =>
    intro q hq
    cases hsys with
    | act j hp hs =>
      by_cases hij : i = j
      · subst hij
        simp only [Function.update_self, Option.some.injEq] at hq
        exact hq ▸ hstep _ _ _ _ (ih _ hp) hs
      · simp only [Function.update_of_ne hij] at hq
        exact ih q hq
    | kill j hp hdead =>
      by_cases hij : i = j
      · subst hij
        simp at hq
      · simp only [Function.update_of_ne hij] at hq
        exact ih q hq

/-- A process may run on while the others make no call. -/
theorem Reach.of_steps {i : ι} {p p' : Prog I α} {s s' : σ} (hs : Steps (K i) p s p' s')
    {procs : ι → Option (Prog I α)} (hp : procs i = some p) :
    Reach K reap { shared := s, procs := procs }
      { shared := s', procs := Function.update procs i (some p') } := by
  induction hs generalizing procs with
  | refl p s =>
    rw [← hp, Function.update_eq_self]
    exact .refl
  | @head p s p₁ s₁ p₂ s₂ hstep _ ih =>
    have hrest := ih (Function.update_self i (some p₁) procs)
    rw [Function.update_idem] at hrest
    exact .head (.act i hp hstep) hrest

end System

end LayerCake.Effects
