import Mathlib.Logic.Relation
import Mathlib.Order.Defs.Unbundled

/-
  Programs that make calls, and what holds of every run of one.

  A program is the tree of the calls it may make: a call has an answer the
  caller does not choose, and what the program does next depends on it. What a
  call does to the world is not part of the program. A `Kernel` says which
  answers a call may have in a state and what state each leaves; it is a
  relation, so it can leave open whether a call fails and how much it transfers.

  What is defined and proved:
    1. `Prog` and its monad, and `call … again …`, the call that is made again
       while its answer satisfies `again` (the retry of an interrupted call).
    2. `Step`, `Steps`, `Returns`: one answered call, a run, a finished run; and
       `run`, the run on an implementation of the calls.
    3. `Sat K R G p Q s` — from `s`, whatever the others do within the rely `R`
       between two calls, every call `p` makes keeps the guarantee `G`, and if
       `p` returns `a` then `Q a` holds. `Sat.step` and `Sat.rely` are its two
       preservation laws; `Sat.bind` is its composition.
    4. `Wp K p Q s` — the same with nobody else around, and `Wp.returns`: every
       finished run of `p` from `s` satisfies `Q`.
-/

namespace LayerCake.Effects

/-- A call interface: the calls a program may make and the answers each has. -/
structure Interface where
  Op : Type
  Res : Op → Type

/-- A program over an interface: the value it returns, or a call, the answers on
which it makes that same call again, and how it goes on with any other answer. -/
inductive Prog (I : Interface) (α : Type) : Type where
  | done (a : α) : Prog I α
  | call (op : I.Op) (again : I.Res op → Bool) (k : I.Res op → Prog I α) : Prog I α

variable {I : Interface} {α β γ σ : Type}

namespace Prog

/-- Run `p`, then the program its value selects. -/
def bind : Prog I α → (α → Prog I β) → Prog I β
  | done a, f => f a
  | call op again k, f => call op again fun r => (k r).bind f

instance : Monad (Prog I) where
  pure := done
  bind := bind

@[simp] theorem pure_eq (a : α) : (pure a : Prog I α) = done a := rfl

@[simp] theorem done_bind (a : α) (f : α → Prog I β) : (done a >>= f) = f a := rfl

@[simp] theorem call_bind (op : I.Op) (again : I.Res op → Bool) (k : I.Res op → Prog I α)
    (f : α → Prog I β) : (call op again k >>= f) = call op again fun r => k r >>= f := rfl

theorem bind_done (p : Prog I α) : (p >>= done) = p := by
  induction p with
  | done a => rfl
  | call op again k ih =>
    rw [call_bind]
    congr 1
    funext r
    exact ih r

theorem bind_assoc (p : Prog I α) (f : α → Prog I β) (g : β → Prog I γ) :
    (p >>= f >>= g) = (p >>= fun a => f a >>= g) := by
  induction p with
  | done a => rfl
  | call op again k ih =>
    simp only [call_bind]
    congr 1
    funext r
    exact ih r

instance : LawfulMonad (Prog I) :=
  LawfulMonad.mk' (Prog I) (fun p => bind_done p) (fun _ _ => rfl) bind_assoc

/-- Every call the program may make satisfies `P`. -/
def Calls (P : I.Op → Prop) : Prog I α → Prop
  | done _ => True
  | call op _ k => P op ∧ ∀ r, (k r).Calls P

theorem Calls.bind {P : I.Op → Prop} {p : Prog I α} {f : α → Prog I β} (hp : p.Calls P)
    (hf : ∀ a, (f a).Calls P) : (p >>= f).Calls P := by
  induction p with
  | done a => exact hf a
  | call op again k ih => exact ⟨hp.1, fun r => ih r (hp.2 r)⟩

/-- The same program over an interface that has its calls. -/
def embed {J : Interface} (op : I.Op → J.Op) (res : ∀ o, J.Res (op o) → I.Res o) :
    Prog I α → Prog J α
  | done a => done a
  | call o again k => call (op o) (fun r => again (res o r)) fun r => (k (res o r)).embed op res

theorem embed_calls {J : Interface} {op : I.Op → J.Op} {res : ∀ o, J.Res (op o) → I.Res o}
    {P : J.Op → Prop} (h : ∀ o, P (op o)) (p : Prog I α) : (p.embed op res).Calls P := by
  induction p with
  | done a => trivial
  | call o again k ih => exact ⟨h o, fun r => ih (res o r)⟩

end Prog

/-- One call, answered once. -/
def perform (op : I.Op) : Prog I (I.Res op) := .call op (fun _ => false) .done

/-- One call, made again while its answer satisfies `again`. -/
def performUntil (op : I.Op) (again : I.Res op → Bool) : Prog I (I.Res op) := .call op again .done

/-- What the calls of an interface do: in state `s` the call `op` may have the
answer `r` and leave the state `s'`. -/
abbrev Kernel (I : Interface) (σ : Type) := σ → (op : I.Op) → I.Res op → σ → Prop

/-- One answered call. -/
inductive Step (K : Kernel I σ) : Prog I α → σ → Prog I α → σ → Prop
  | again {op again k s r s'} (h : K s op r s') (hr : again r = true) :
      Step K (.call op again k) s (.call op again k) s'
  | next {op again k s r s'} (h : K s op r s') (hr : again r = false) :
      Step K (.call op again k) s (k r) s'

/-- Any number of answered calls. -/
inductive Steps (K : Kernel I σ) : Prog I α → σ → Prog I α → σ → Prop
  | refl (p s) : Steps K p s p s
  | head {p s p₁ s₁ p₂ s₂} (h : Step K p s p₁ s₁) (hs : Steps K p₁ s₁ p₂ s₂) : Steps K p s p₂ s₂

/-- `p` started in `s` can return `a` and leave `s'`. -/
def Returns (K : Kernel I σ) (p : Prog I α) (s : σ) (a : α) (s' : σ) : Prop :=
  Steps K p s (.done a) s'

section Runs
variable {K : Kernel I σ}

theorem Steps.trans {p p₁ p₂ : Prog I α} {s s₁ s₂ : σ} (h : Steps K p s p₁ s₁)
    (h' : Steps K p₁ s₁ p₂ s₂) : Steps K p s p₂ s₂ := by
  induction h with
  | refl => exact h'
  | head hd _ ih => exact .head hd (ih h')

theorem Step.bind {p p' : Prog I α} {s s' : σ} (h : Step K p s p' s') (f : α → Prog I β) :
    Step K (p >>= f) s (p' >>= f) s' := by
  cases h with
  | again h hr => exact .again h hr
  | next h hr => exact .next h hr

theorem Steps.bind {p p' : Prog I α} {s s' : σ} (h : Steps K p s p' s') (f : α → Prog I β) :
    Steps K (p >>= f) s (p' >>= f) s' := by
  induction h with
  | refl => exact .refl _ _
  | head hd _ ih => exact .head (hd.bind f) ih

/-- A run of `p` followed by a run of what it selects is a run of the two in
sequence. -/
theorem Returns.bind {p : Prog I α} {f : α → Prog I β} {s s₁ s₂ : σ} {a : α} {b : β}
    (h : Returns K p s a s₁) (h' : Returns K (f a) s₁ b s₂) : Returns K (p >>= f) s b s₂ :=
  Steps.trans (Steps.bind h f) h'

/-- A program that has returned makes no call. -/
theorem Returns.of_done {a b : α} {s t : σ} (h : Returns K (.done a) s b t) : b = a ∧ t = s := by
  cases h with
  | refl => exact ⟨rfl, rfl⟩
  | head hd _ => cases hd

/-- A finished run of two programs in sequence is a run of each. -/
theorem Returns.of_bind {p : Prog I α} {f : α → Prog I β} {s t : σ} {b : β}
    (h : Returns K (p >>= f) s b t) : ∃ a u, Returns K p s a u ∧ Returns K (f a) u b t := by
  unfold Returns at h
  generalize hq : (p >>= f) = q at h
  generalize hr : (Prog.done b : Prog I β) = r at h
  induction h generalizing p with
  | refl q s =>
    cases p with
    | done a =>
      have hfa : f a = .done b := hq.trans hr.symm
      refine ⟨a, s, .refl _ _, ?_⟩
      rw [hfa]
      exact .refl _ _
    | call op again k => cases hq.trans hr.symm
  | head hd hs ih =>
    cases p with
    | done a =>
      subst hq hr
      exact ⟨a, _, .refl _ _, .head hd hs⟩
    | call op again k =>
      subst hq
      cases hd with
      | again hk hagain =>
        obtain ⟨a, u, hp, hf⟩ := ih (p := .call op again k) rfl hr
        exact ⟨a, u, .head (.again hk hagain) hp, hf⟩
      | next hk hagain =>
        obtain ⟨a, u, hp, hf⟩ := ih (p := k _) rfl hr
        exact ⟨a, u, .head (.next hk hagain) hp, hf⟩

/-! ### Running a program -/

/-- One answer and one next state for every call. -/
abbrev Impl (I : Interface) (σ : Type) := σ → (op : I.Op) → I.Res op × σ

/-- The run of a program on an implementation, for at most `n` calls. -/
def run (impl : Impl I σ) : Nat → Prog I α → σ → Option (α × σ)
  | _, .done a, s => some (a, s)
  | 0, .call _ _ _, _ => none
  | n + 1, .call op again k, s =>
    if again (impl s op).1 then run impl n (.call op again k) (impl s op).2
    else run impl n (k (impl s op).1) (impl s op).2

/-- Where the implementation does what the kernel may do, its run is a run. -/
theorem run_returns {impl : Impl I σ} (himpl : ∀ s op, K s op (impl s op).1 (impl s op).2) (n : Nat)
    {p : Prog I α} {s s' : σ} {a : α} (h : run impl n p s = some (a, s')) : Returns K p s a s' := by
  induction n generalizing p s with
  | zero =>
    cases p with
    | done b =>
      cases h
      exact .refl _ _
    | call op again k => cases h
  | succ n ih =>
    cases p with
    | done b =>
      cases h
      exact .refl _ _
    | call op again k =>
      unfold run at h
      split at h
      · next hr => exact .head (.again (himpl s op) hr) (ih h)
      · next hr => exact .head (.next (himpl s op) (by simpa using hr)) (ih h)

end Runs

/-! ## What holds of every run, with others around -/

/-- `J` survives whatever the others may do. -/
def Stable (R : σ → σ → Prop) (J : σ → Prop) : Prop := ∀ s s', J s → R s s' → J s'

/-- From `s`, with the others acting within `R` before every call and after the
last, every call of `p` keeps `G`, and `Q a` holds if `p` returns `a`. The
assertion `J` at each node is what the program knows there. -/
def Sat (K : Kernel I σ) (R G : σ → σ → Prop) : Prog I α → (α → σ → Prop) → σ → Prop
  | .done a, Q, s => ∃ J : σ → Prop, J s ∧ Stable R J ∧ ∀ t, J t → Q a t
  | .call op again k, Q, s => ∃ J : σ → Prop, J s ∧ Stable R J ∧
      ∀ t r t', J t → K t op r t' → G t t' ∧ if again r then J t' else Sat K R G (k r) Q t'

section Sat
variable {K : Kernel I σ} {R G : σ → σ → Prop}

/-- What the program knows survives the others' actions. -/
theorem Sat.rely {p : Prog I α} {Q : α → σ → Prop} {s s' : σ} (h : Sat K R G p Q s)
    (hr : R s s') : Sat K R G p Q s' := by
  cases p with
  | done a =>
    obtain ⟨J, hJ, hst, hQ⟩ := h
    exact ⟨J, hst s s' hJ hr, hst, hQ⟩
  | call op again k =>
    obtain ⟨J, hJ, hst, hcall⟩ := h
    exact ⟨J, hst s s' hJ hr, hst, hcall⟩

/-- A call keeps the guarantee and leaves the rest of the program satisfied. -/
theorem Sat.step {p p' : Prog I α} {Q : α → σ → Prop} {s s' : σ} (h : Sat K R G p Q s)
    (hs : Step K p s p' s') : G s s' ∧ Sat K R G p' Q s' := by
  cases hs with
  | again hk hr =>
    obtain ⟨J, hJ, hst, hcall⟩ := h
    have := hcall _ _ _ hJ hk
    rw [if_pos hr] at this
    exact ⟨this.1, J, this.2, hst, hcall⟩
  | next hk hr =>
    obtain ⟨J, hJ, hst, hcall⟩ := h
    have := hcall _ _ _ hJ hk
    rw [if_neg (by simp [hr])] at this
    exact this

/-- A program that has returned satisfies its postcondition. -/
theorem Sat.returned {a : α} {Q : α → σ → Prop} {s : σ} (h : Sat K R G (.done a) Q s) : Q a s := by
  obtain ⟨J, hJ, _, hQ⟩ := h
  exact hQ s hJ

theorem Sat.mono {p : Prog I α} {Q Q' : α → σ → Prop} {s : σ} (h : Sat K R G p Q s)
    (hQ : ∀ a t, Q a t → Q' a t) : Sat K R G p Q' s := by
  induction p generalizing s with
  | done a =>
    obtain ⟨J, hJ, hst, hq⟩ := h
    exact ⟨J, hJ, hst, fun t ht => hQ a t (hq t ht)⟩
  | call op again k ih =>
    obtain ⟨J, hJ, hst, hcall⟩ := h
    refine ⟨J, hJ, hst, fun t r t' ht hk => ?_⟩
    obtain ⟨hg, hrest⟩ := hcall t r t' ht hk
    refine ⟨hg, ?_⟩
    split
    · next hr => rwa [if_pos hr] at hrest
    · next hr => rw [if_neg hr] at hrest; exact ih r hrest

/-- Sequencing: the second program starts from anything the first may leave. -/
theorem Sat.bind {p : Prog I α} {f : α → Prog I β} {Q : β → σ → Prop} {s : σ}
    (h : Sat K R G p (fun a t => Sat K R G (f a) Q t) s) : Sat K R G (p >>= f) Q s := by
  induction p generalizing s with
  | done a => exact h.returned
  | call op again k ih =>
    obtain ⟨J, hJ, hst, hcall⟩ := h
    refine ⟨J, hJ, hst, fun t r t' ht hk => ?_⟩
    obtain ⟨hg, hrest⟩ := hcall t r t' ht hk
    refine ⟨hg, ?_⟩
    split
    · next hr => rwa [if_pos hr] at hrest
    · next hr => rw [if_neg hr] at hrest; exact ih r hrest

/-- The rule of a call that is answered once. -/
theorem Sat.perform {op : I.Op} {k : I.Res op → Prog I α} {Q : α → σ → Prop} {s : σ}
    (J : σ → Prop) (hJ : J s) (hst : Stable R J)
    (h : ∀ t r t', J t → K t op r t' → G t t' ∧ Sat K R G (k r) Q t') :
    Sat K R G (.call op (fun _ => false) k) Q s :=
  ⟨J, hJ, hst, fun t r t' ht hk => by simpa using h t r t' ht hk⟩

/-- The rule of a call made again on some answers. -/
theorem Sat.callUntil {op : I.Op} {again : I.Res op → Bool} {k : I.Res op → Prog I α}
    {Q : α → σ → Prop} {s : σ} (J : σ → Prop) (hJ : J s) (hst : Stable R J)
    (hagain : ∀ t r t', J t → K t op r t' → again r = true → G t t' ∧ J t')
    (h : ∀ t r t', J t → K t op r t' → again r = false → G t t' ∧ Sat K R G (k r) Q t') :
    Sat K R G (.call op again k) Q s := by
  refine ⟨J, hJ, hst, fun t r t' ht hk => ?_⟩
  split
  · next hr => exact hagain t r t' ht hk hr
  · next hr => exact h t r t' ht hk (by simpa using hr)

/-- The rule of a value that the others cannot invalidate. -/
theorem Sat.return {a : α} {Q : α → σ → Prop} {s : σ} (J : σ → Prop) (hJ : J s)
    (hst : Stable R J) (h : ∀ t, J t → Q a t) : Sat K R G (.done a) Q s :=
  ⟨J, hJ, hst, h⟩

end Sat

/-! ## What every call keeps, alone -/

section Alone
variable {K : Kernel I σ} {G : σ → σ → Prop}

theorem stable_eq (J : σ → Prop) : Stable (· = ·) J := fun _ _ h e => e ▸ h

theorem sat_done {a : α} {Q : α → σ → Prop} {s : σ} :
    Sat K (· = ·) G (.done a) Q s ↔ Q a s :=
  ⟨fun h => h.returned, fun h => ⟨fun t => Q a t, h, stable_eq _, fun _ ht => ht⟩⟩

/-- The rule of a call answered once, where nobody else acts. -/
theorem Sat.next {op : I.Op} {k : I.Res op → Prog I α} {Q : α → σ → Prop} {s : σ}
    (h : ∀ r t, K s op r t → G s t ∧ Sat K (· = ·) G (k r) Q t) :
    Sat K (· = ·) G (.call op (fun _ => false) k) Q s :=
  Sat.perform (· = s) rfl (stable_eq _) fun _ r t' ht hk => ht ▸ h r t' (ht ▸ hk)

/-- What every call of a kind preserves, a program of such calls preserves. -/
theorem Prog.Calls.sat {P : I.Op → Prop} {p : Prog I α} (hp : p.Calls P) {J : σ → Prop}
    (hJ : ∀ t op r t', P op → J t → K t op r t' → G t t' ∧ J t') {s : σ} (hs : J s) :
    Sat K (· = ·) G p (fun _ t => J t) s := by
  induction p generalizing s with
  | done a => exact sat_done.mpr hs
  | call op again k ih =>
    refine Sat.callUntil J hs (stable_eq _) ?_ ?_
    · intro t r t' ht hk _
      exact hJ t op r t' hp.1 ht hk
    · intro t r t' ht hk _
      obtain ⟨hg, ht'⟩ := hJ t op r t' hp.1 ht hk
      exact ⟨hg, ih r (hp.2 r) ht'⟩

/-- A weaker guarantee. -/
theorem Sat.weaken {R G' : σ → σ → Prop} {p : Prog I α} {Q : α → σ → Prop} {s : σ}
    (h : Sat K R G p Q s) (hG : ∀ s t, G s t → G' s t) : Sat K R G' p Q s := by
  induction p generalizing s with
  | done a => exact h
  | call op again k ih =>
    obtain ⟨J, hJ, hst, hcall⟩ := h
    refine ⟨J, hJ, hst, fun t r t' ht hk => ?_⟩
    obtain ⟨hg, hrest⟩ := hcall t r t' ht hk
    refine ⟨hG _ _ hg, ?_⟩
    split
    · next hr => rwa [if_pos hr] at hrest
    · next hr => rw [if_neg hr] at hrest; exact ih r hrest

/-- Where a guarantee is kept by every call, it holds since the start. -/
theorem Sat.since [Std.Refl G] [IsTrans σ G] {p : Prog I α} {Q : α → σ → Prop} {s : σ}
    (h : Sat K (· = ·) G p Q s) : Sat K (· = ·) G p (fun a t => G s t ∧ Q a t) s := by
  suffices hgen : ∀ s₀, G s₀ s → Sat K (· = ·) G p (fun a t => G s₀ t ∧ Q a t) s from
    hgen s (Std.Refl.refl s)
  induction p generalizing s with
  | done a =>
    intro s₀ h₀
    exact sat_done.mpr ⟨h₀, h.returned⟩
  | call op again k ih =>
    intro s₀ h₀
    obtain ⟨J, hJ, hst, hcall⟩ := h
    refine ⟨fun t => J t ∧ G s₀ t, ⟨hJ, h₀⟩, stable_eq _, fun t r t' ht hk => ?_⟩
    obtain ⟨hg, hrest⟩ := hcall t r t' ht.1 hk
    have hg' : G s₀ t' := IsTrans.trans _ _ _ ht.2 hg
    refine ⟨hg, ?_⟩
    split
    · next hr =>
      rw [if_pos hr] at hrest
      exact ⟨hrest, hg'⟩
    · next hr =>
      rw [if_neg hr] at hrest
      exact ih r hrest s₀ hg'

theorem Sat.steps {p p' : Prog I α} {Q : α → σ → Prop} {s s' : σ}
    (h : Sat K (· = ·) G p Q s) (hs : Steps K p s p' s') : Sat K (· = ·) G p' Q s' := by
  induction hs with
  | refl => exact h
  | head hd _ ih => exact ih (h.step hd).2

/-- What every call of `p` preserves holds from the start of a run to every
state the run passes through. -/
theorem Sat.steps_rel {p p' : Prog I α} {Q : α → σ → Prop} {s s' : σ} (hrefl : ∀ t, G t t)
    (htrans : ∀ a b c, G a b → G b c → G a c)
    (h : Sat K (· = ·) G p Q s) (hs : Steps K p s p' s') : G s s' := by
  induction hs with
  | refl => exact hrefl _
  | head hd _ ih =>
    obtain ⟨hg, hrest⟩ := h.step hd
    exact htrans _ _ _ hg (ih hrest)

end Alone

/-! ## What holds of every run, alone -/

/-- From `s`, every finished run of `p` satisfies `Q`. -/
def Wp (K : Kernel I σ) (p : Prog I α) (Q : α → σ → Prop) (s : σ) : Prop :=
  Sat K (· = ·) (fun _ _ => True) p Q s

section Wp
variable {K : Kernel I σ}

@[simp] theorem wp_done {a : α} {Q : α → σ → Prop} {s : σ} : Wp K (.done a) Q s ↔ Q a s :=
  sat_done

theorem Wp.mono {p : Prog I α} {Q Q' : α → σ → Prop} {s : σ} (h : Wp K p Q s)
    (hQ : ∀ a t, Q a t → Q' a t) : Wp K p Q' s := Sat.mono h hQ

theorem Wp.bind {p : Prog I α} {f : α → Prog I β} {Q : β → σ → Prop} {s : σ}
    (h : Wp K p (fun a t => Wp K (f a) Q t) s) : Wp K (p >>= f) Q s := Sat.bind h

/-- A call answered once: every answer it may have is considered. -/
theorem Wp.call {op : I.Op} {k : I.Res op → Prog I α} {Q : α → σ → Prop} {s : σ}
    (h : ∀ r t, K s op r t → Wp K (k r) Q t) : Wp K (.call op (fun _ => false) k) Q s :=
  Sat.perform (· = s) rfl (stable_eq _) fun _ r t' ht hk => ⟨trivial, h r t' (ht ▸ hk)⟩

/-- A call made again on some answers, when what is known before the call holds
again after each of those. -/
theorem Wp.callUntil {op : I.Op} {again : I.Res op → Bool} {k : I.Res op → Prog I α}
    {Q : α → σ → Prop} {s : σ} (J : σ → Prop) (hJ : J s)
    (hagain : ∀ t r t', J t → K t op r t' → again r = true → J t')
    (h : ∀ t r t', J t → K t op r t' → again r = false → Wp K (k r) Q t') :
    Wp K (.call op again k) Q s :=
  Sat.callUntil J hJ (stable_eq _)
    (fun t r t' ht hk hr => ⟨trivial, hagain t r t' ht hk hr⟩)
    (fun t r t' ht hk hr => ⟨trivial, h t r t' ht hk hr⟩)

theorem Wp.perform {op : I.Op} {Q : I.Res op → σ → Prop} {s : σ}
    (h : ∀ r t, K s op r t → Q r t) : Wp K (perform op) Q s :=
  Wp.call fun r t hk => wp_done.mpr (h r t hk)

theorem Wp.performUntil {op : I.Op} {again : I.Res op → Bool} {Q : I.Res op → σ → Prop} {s : σ}
    (J : σ → Prop) (hJ : J s) (hagain : ∀ t r t', J t → K t op r t' → again r = true → J t')
    (h : ∀ t r t', J t → K t op r t' → again r = false → Q r t') :
    Wp K (performUntil op again) Q s :=
  Wp.callUntil J hJ hagain fun t r t' ht hk hr => wp_done.mpr (h t r t' ht hk hr)

theorem Wp.steps {p p' : Prog I α} {Q : α → σ → Prop} {s s' : σ} (h : Wp K p Q s)
    (hs : Steps K p s p' s') : Wp K p' Q s' := Sat.steps h hs

/-- Every finished run satisfies the postcondition. -/
theorem Wp.returns {p : Prog I α} {Q : α → σ → Prop} {s s' : σ} {a : α} (h : Wp K p Q s)
    (hr : Returns K p s a s') : Q a s' :=
  wp_done.mp (h.steps hr)

end Wp

/-! ## Programs that can fail -/

section Fallible
variable {K : Kernel I σ} {ε : Type}

/-- Sequencing of fallible programs: an error of the first is the result. -/
theorem Sat.bindE {R G : σ → σ → Prop} {p : ExceptT ε (Prog I) α} {f : α → ExceptT ε (Prog I) β}
    {Q : Except ε β → σ → Prop} {s : σ}
    (h : Sat K R G p.run (fun x t => match x with
      | .ok a => Sat K R G (f a).run Q t
      | .error e => Sat K R G (.done (.error e)) Q t) s) :
    Sat K R G (p >>= f).run Q s := by
  refine Sat.bind (f := ExceptT.bindCont f) (h.mono fun x t hx => ?_)
  cases x with
  | ok a => exact hx
  | error e => exact hx

theorem Wp.bindE {p : ExceptT ε (Prog I) α} {f : α → ExceptT ε (Prog I) β}
    {Q : Except ε β → σ → Prop} {s : σ}
    (h : Wp K p.run (fun x t => match x with
      | .ok a => Wp K (f a).run Q t
      | .error e => Q (.error e) t) s) :
    Wp K (p >>= f).run Q s := by
  refine Sat.bindE (h.mono fun x t hx => ?_)
  cases x with
  | ok a => exact hx
  | error e => exact wp_done.mpr hx

/-- Where the first of two fallible programs can return, and the second from anything it
returns, both can. -/
theorem exists_returns_bindE {p : ExceptT ε (Prog I) α} {f : α → ExceptT ε (Prog I) β} {s t : σ}
    {x : Except ε α} (h : Returns K p.run s x t)
    (hf : ∀ a, x = .ok a → ∃ r u, Returns K (f a).run t r u) :
    ∃ r u, Returns K (p >>= f).run s r u := by
  cases x with
  | ok a =>
    obtain ⟨r, u, hru⟩ := hf a rfl
    exact ⟨r, u, Returns.bind (f := ExceptT.bindCont f) h hru⟩
  | error e => exact ⟨.error e, t, Returns.bind (f := ExceptT.bindCont f) h (.refl _ _)⟩

@[simp] theorem wp_pureE {a : α} {Q : Except ε α → σ → Prop} {s : σ} :
    Wp K (pure a : ExceptT ε (Prog I) α).run Q s ↔ Q (.ok a) s := wp_done

end Fallible

end LayerCake.Effects
