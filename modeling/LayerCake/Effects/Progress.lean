import LayerCake.Effects.Program

/-
  What holds at every moment of a run, and that the run can go on from there.

  `Wp` speaks of finished runs, and a program that makes one call for ever satisfies any
  postcondition. `Live` is the total reading: at each call a run comes to, the call can be
  answered so that the program goes on behind it.

  What is defined and proved:
    1. `Live K M p Q s` — at every call that a run of `p` from `s` comes to, `M` holds and
       the call has an answer it is not made again on; where `p` returns `a`, `Q a` holds.
    2. `Live.bind`, `Live.call`, `Live.callUntil`, … — its rules, which are those of `Wp`.
    3. `Live.steps`, `Live.can_return` — it holds at every moment of a run, and from each of
       them the program can return; `Live.wp` forgets both.
    4. `Prog.Answerable K p` — each call of `p` can be answered so in every state; then a
       partial specification is a total one (`Wp.live`).
-/

namespace LayerCake.Effects

variable {I : Interface} {α β σ : Type} {K : Kernel I σ} {M : σ → Prop}

/-- From `s`: `M` holds at every call of `p`, each of them can be answered so that `p` goes
on behind it, and `Q a` holds if `p` returns `a`. -/
def Live (K : Kernel I σ) (M : σ → Prop) : Prog I α → (α → σ → Prop) → σ → Prop
  | .done a, Q, s => Q a s
  | .call op again k, Q, s => ∃ J : σ → Prop, J s ∧ ∀ t, J t → M t ∧
      (∃ r t', K t op r t' ∧ again r = false) ∧
      ∀ r t', K t op r t' → if again r then J t' else Live K M (k r) Q t'

@[simp] theorem live_done {a : α} {Q : α → σ → Prop} {s : σ} :
    Live K M (.done a) Q s ↔ Q a s := Iff.rfl

/-- What is known at a call holds again after every answer. -/
theorem Live.step {p p' : Prog I α} {Q : α → σ → Prop} {s s' : σ} (h : Live K M p Q s)
    (hs : Step K p s p' s') : Live K M p' Q s' := by
  cases hs with
  | again hk hr =>
    obtain ⟨J, hJ, hcall⟩ := h
    have hnext := (hcall _ hJ).2.2 _ _ hk
    rw [if_pos hr] at hnext
    exact ⟨J, hnext, hcall⟩
  | next hk hr =>
    obtain ⟨J, hJ, hcall⟩ := h
    have hnext := (hcall _ hJ).2.2 _ _ hk
    rwa [if_neg (by simp [hr])] at hnext

theorem Live.steps {p p' : Prog I α} {Q : α → σ → Prop} {s s' : σ} (h : Live K M p Q s)
    (hs : Steps K p s p' s') : Live K M p' Q s' := by
  induction hs with
  | refl => exact h
  | head hd _ ih => exact ih (h.step hd)

/-- A program that has not returned is at a call, where `M` holds. -/
theorem Live.at_call {p : Prog I α} {Q : α → σ → Prop} {s : σ} (h : Live K M p Q s)
    (hp : ∀ a, p ≠ .done a) : M s := by
  cases p with
  | done a => exact absurd rfl (hp a)
  | call op again k =>
    obtain ⟨J, hJ, hcall⟩ := h
    exact (hcall s hJ).1

/-- No moment of a run is stuck: from each of them the program can return. -/
theorem Live.can_return {p : Prog I α} {Q : α → σ → Prop} {s : σ} (h : Live K M p Q s) :
    ∃ a t, Returns K p s a t := by
  induction p generalizing s with
  | done a => exact ⟨a, s, .refl _ _⟩
  | call op again k ih =>
    obtain ⟨J, hJ, hcall⟩ := h
    obtain ⟨_, ⟨r, t, hk, hr⟩, hnext⟩ := hcall s hJ
    have hrest := hnext r t hk
    rw [if_neg (by simp [hr])] at hrest
    obtain ⟨a, u, hreturns⟩ := ih r hrest
    exact ⟨a, u, .head (.next hk hr) hreturns⟩

theorem Live.wp {p : Prog I α} {Q : α → σ → Prop} {s : σ} (h : Live K M p Q s) : Wp K p Q s := by
  induction p generalizing s with
  | done a => exact wp_done.mpr h
  | call op again k ih =>
    obtain ⟨J, hJ, hcall⟩ := h
    refine Wp.callUntil J hJ ?_ ?_
    · intro t r t' ht hk hr
      have hnext := (hcall t ht).2.2 r t' hk
      rwa [if_pos hr] at hnext
    · intro t r t' ht hk hr
      have hnext := (hcall t ht).2.2 r t' hk
      rw [if_neg (by simp [hr])] at hnext
      exact ih r hnext

theorem Live.mono {p : Prog I α} {Q Q' : α → σ → Prop} {s : σ} (h : Live K M p Q s)
    (hQ : ∀ a t, Q a t → Q' a t) : Live K M p Q' s := by
  induction p generalizing s with
  | done a => exact hQ a s h
  | call op again k ih =>
    obtain ⟨J, hJ, hcall⟩ := h
    refine ⟨J, hJ, fun t ht => ?_⟩
    obtain ⟨hM, hanswer, hnext⟩ := hcall t ht
    refine ⟨hM, hanswer, fun r t' hk => ?_⟩
    have hrest := hnext r t' hk
    split
    · next hr => rwa [if_pos hr] at hrest
    · next hr =>
      rw [if_neg hr] at hrest
      exact ih r hrest

/-- Sequencing: the second program starts from anything the first may leave. -/
theorem Live.bind {p : Prog I α} {f : α → Prog I β} {Q : β → σ → Prop} {s : σ}
    (h : Live K M p (fun a t => Live K M (f a) Q t) s) : Live K M (p >>= f) Q s := by
  induction p generalizing s with
  | done a => exact h
  | call op again k ih =>
    obtain ⟨J, hJ, hcall⟩ := h
    refine ⟨J, hJ, fun t ht => ?_⟩
    obtain ⟨hM, hanswer, hnext⟩ := hcall t ht
    refine ⟨hM, hanswer, fun r t' hk => ?_⟩
    have hrest := hnext r t' hk
    split
    · next hr => rwa [if_pos hr] at hrest
    · next hr =>
      rw [if_neg hr] at hrest
      exact ih r hrest

/-- The rule of a call made again on some answers: it has others, and what is known
before it holds again after each of those. -/
theorem Live.callUntil {op : I.Op} {again : I.Res op → Bool} {k : I.Res op → Prog I α}
    {Q : α → σ → Prop} {s : σ} (J : σ → Prop) (hJ : J s) (hM : ∀ t, J t → M t)
    (hanswer : ∀ t, J t → ∃ r t', K t op r t' ∧ again r = false)
    (hagain : ∀ t r t', J t → K t op r t' → again r = true → J t')
    (h : ∀ t r t', J t → K t op r t' → again r = false → Live K M (k r) Q t') :
    Live K M (.call op again k) Q s := by
  refine ⟨J, hJ, fun t ht => ⟨hM t ht, hanswer t ht, fun r t' hk => ?_⟩⟩
  split
  · next hr => exact hagain t r t' ht hk hr
  · next hr => exact h t r t' ht hk (by simpa using hr)

/-- The rule of a call answered once: it has an answer, and every one is considered. -/
theorem Live.call {op : I.Op} {k : I.Res op → Prog I α} {Q : α → σ → Prop} {s : σ} (hM : M s)
    (hanswer : ∃ r t, K s op r t) (h : ∀ r t, K s op r t → Live K M (k r) Q t) :
    Live K M (.call op (fun _ => false) k) Q s := by
  refine Live.callUntil (· = s) rfl ?_ ?_ ?_ ?_
  · intro t ht
    exact ht ▸ hM
  · intro t ht
    obtain ⟨r, t', hk⟩ := hanswer
    exact ⟨r, t', ht ▸ hk, rfl⟩
  · intro t r t' _ _ hr
    cases hr
  · intro t r t' ht hk _
    exact h r t' (ht ▸ hk)

theorem Live.perform {op : I.Op} {Q : I.Res op → σ → Prop} {s : σ} (hM : M s)
    (hanswer : ∃ r t, K s op r t) (h : ∀ r t, K s op r t → Q r t) :
    Live K M (perform op) Q s :=
  Live.call hM hanswer h

theorem Live.performUntil {op : I.Op} {again : I.Res op → Bool} {Q : I.Res op → σ → Prop} {s : σ}
    (J : σ → Prop) (hJ : J s) (hM : ∀ t, J t → M t)
    (hanswer : ∀ t, J t → ∃ r t', K t op r t' ∧ again r = false)
    (hagain : ∀ t r t', J t → K t op r t' → again r = true → J t')
    (h : ∀ t r t', J t → K t op r t' → again r = false → Q r t') :
    Live K M (performUntil op again) Q s :=
  Live.callUntil J hJ hM hanswer hagain h

/-! ## Calls that can always be answered -/

/-- Every call of the program has, in every state, an answer it goes on with. -/
def Prog.Answerable (K : Kernel I σ) : Prog I α → Prop
  | .done _ => True
  | .call op again k => (∀ s, ∃ r t, K s op r t ∧ again r = false) ∧ ∀ r, (k r).Answerable K

theorem Prog.Answerable.bind {p : Prog I α} {f : α → Prog I β} (hp : p.Answerable K)
    (hf : ∀ a, (f a).Answerable K) : (p >>= f).Answerable K := by
  induction p with
  | done a => exact hf a
  | call op again k ih => exact ⟨hp.1, fun r => ih r (hp.2 r)⟩

theorem Wp.live {p : Prog I α} {Q : α → σ → Prop} {s : σ} (h : Wp K p Q s)
    (hp : p.Answerable K) : Live K (fun _ => True) p Q s := by
  induction p generalizing s with
  | done a => exact live_done.mpr (wp_done.mp h)
  | call op again k ih =>
    obtain ⟨J, hJ, _, hcall⟩ := h
    refine ⟨J, hJ, fun t ht => ⟨trivial, hp.1 t, fun r t' hk => ?_⟩⟩
    have hrest := (hcall t r t' ht hk).2
    split
    · next hr => rwa [if_pos hr] at hrest
    · next hr =>
      rw [if_neg hr] at hrest
      exact ih r hrest (hp.2 r)

end LayerCake.Effects
