import LayerCake.Effects.Unchecked

/-
  A program as a part of a larger one.

  The larger program makes more kinds of calls, in front of a kernel with more state.
  `Simulates` says that on the calls of the part this kernel does, to the part's share of
  the state, what the part's own kernel may do. What was proved of the part then holds of
  it inside the larger program.

  What is defined and proved:
    1. `Prog.embed` keeps sequencing (`Prog.embed_bind`), and `embedE` is the same for a
       program that can fail.
    2. `Sat.embed`, `Safely.embed` — the specification of the part, over the larger state.
       `Sat.share`, `Safely.share` — the same where the calls are the same.
       `Steps.of_embed`, `Steps.share` — and its runs.
    3. `Partly K G p Q s` — every call of `p` keeps `G`, and `Q` holds where it succeeds.
       `Sat.and` and `Safely.partly` put two specifications of one program together: what the
       part does to its share, and that it leaves the rest alone.
    4. `MakesOnly P p` — every call of the fallible program `p` satisfies `P`, with the rules
       of its constructs; `MakesOnly.partly` is what such calls preserve.
    5. `Prog.Then P R Q` — the program makes calls of `P`, then one of `R`, then calls of `Q`;
       `Steps.then` is what is kept on the way.
    6. `Steps.of_bind` — a run of two programs in sequence is in the first of them, or the
       first has returned.
-/

namespace LayerCake.Effects

variable {I J : Interface} {α β ε σ τ : Type}

namespace Prog
variable (op : I.Op → J.Op) (res : ∀ o, J.Res (op o) → I.Res o)

theorem embed_bind (p : Prog I α) (f : α → Prog I β) :
    (p >>= f).embed op res = (p.embed op res >>= fun a => (f a).embed op res) := by
  induction p with
  | done a => rfl
  | call o again k ih =>
    simp only [call_bind, embed]
    congr 1
    funext r
    exact ih (res o r)

theorem embed_self (p : Prog I α) : p.embed (fun o => o) (fun _ r => r) = p := by
  induction p with
  | done a => rfl
  | call o again k ih =>
    simp only [embed]
    congr 1
    funext r
    exact ih r

theorem Calls.embed {P : I.Op → Prop} {P' : J.Op → Prop} {p : Prog I α} (hp : p.Calls P)
    (h : ∀ o, P o → P' (op o)) : (p.embed op res).Calls P' := by
  induction p with
  | done a => trivial
  | call o again k ih => exact ⟨h o hp.1, fun r => ih (res o r) (hp.2 (res o r))⟩

end Prog

/-- The larger kernel does with the calls of the part what the kernel of the part may do, to
the part's share of the state. -/
def Simulates (op : I.Op → J.Op) (res : ∀ o, J.Res (op o) → I.Res o) (K : Kernel I σ)
    (L : Kernel J τ) (part : τ → σ) : Prop :=
  ∀ t o r t', L t (op o) r t' → K (part t) o (res o r) (part t')

/-- A program that can fail, as a part of a larger one. -/
def embedE (op : I.Op → J.Op) (res : ∀ o, J.Res (op o) → I.Res o) (p : ExceptT ε (Prog I) α) :
    ExceptT ε (Prog J) α :=
  ExceptT.mk (p.run.embed op res)

section Embed
variable {op : I.Op → J.Op} {res : ∀ o, J.Res (op o) → I.Res o} {K : Kernel I σ} {L : Kernel J τ}
  {part : τ → σ} {G : σ → σ → Prop}

theorem Sat.embed (h : Simulates op res K L part) {p : Prog I α} {Q : α → σ → Prop} {t : τ}
    (hp : Sat K (· = ·) G p Q (part t)) :
    Sat L (· = ·) (fun t t' => G (part t) (part t')) (p.embed op res)
      (fun a t' => Q a (part t')) t := by
  induction p generalizing t with
  | done a => exact sat_done.mpr hp.returned
  | call o again k ih =>
    obtain ⟨J', hJ, -, hcall⟩ := hp
    refine ⟨fun t' => J' (part t'), hJ, stable_eq _, fun u r u' hu hk => ?_⟩
    obtain ⟨hg, hrest⟩ := hcall (part u) (res o r) (part u') hu (h u o r u' hk)
    refine ⟨hg, ?_⟩
    split
    · next hr => rwa [if_pos hr] at hrest
    · next hr =>
      rw [if_neg hr] at hrest
      exact ih (res o r) hrest

/-- A program in front of a kernel with more state. -/
theorem Sat.share {L : Kernel I τ} (h : Simulates (fun o => o) (fun _ r => r) K L part)
    {p : Prog I α} {Q : α → σ → Prop} {t : τ} (hp : Sat K (· = ·) G p Q (part t)) :
    Sat L (· = ·) (fun t t' => G (part t) (part t')) p (fun a t' => Q a (part t')) t := by
  have hsat := Sat.embed h hp
  rwa [Prog.embed_self] at hsat

theorem Safely.share {L : Kernel I τ} (h : Simulates (fun o => o) (fun _ r => r) K L part)
    {p : ExceptT (Stop ε) (Prog I) α} {Q : α → σ → Prop} {t : τ}
    (hp : Safely K G p Q (part t)) :
    Safely L (fun t t' => G (part t) (part t')) p (fun a t' => Q a (part t')) t := by
  apply Sat.mono (Sat.share h hp)
  intro r t' hr
  cases r with
  | ok a => exact hr
  | error e => exact hr

theorem Safely.embed (h : Simulates op res K L part) {p : ExceptT (Stop ε) (Prog I) α}
    {Q : α → σ → Prop} {t : τ} (hp : Safely K G p Q (part t)) :
    Safely L (fun t t' => G (part t) (part t')) (embedE op res p)
      (fun a t' => Q a (part t')) t := by
  apply Sat.mono (Sat.embed h hp)
  intro r t' hr
  cases r with
  | ok a => exact hr
  | error e => exact hr

/-- The same where the calls are the same. -/
theorem Steps.share {L : Kernel I τ} (h : Simulates (fun o => o) (fun _ r => r) K L part)
    {p q : Prog I α} {t t' : τ} (hs : Steps L p t q t') : Steps K p (part t) q (part t') := by
  induction hs with
  | refl => exact .refl _ _
  | head hd _ ih =>
    cases hd with
    | again hk hr => exact .head (.again (h _ _ _ _ hk) hr) ih
    | next hk hr => exact .head (.next (h _ _ _ _ hk) hr) ih

end Embed

section And
variable {K : Kernel I σ} {G G' : σ → σ → Prop}

theorem Sat.and {p : Prog I α} {Q Q' : α → σ → Prop} {s : σ} (h : Sat K (· = ·) G p Q s)
    (h' : Sat K (· = ·) G' p Q' s) :
    Sat K (· = ·) (fun s t => G s t ∧ G' s t) p (fun a t => Q a t ∧ Q' a t) s := by
  induction p generalizing s with
  | done a => exact sat_done.mpr ⟨h.returned, h'.returned⟩
  | call o again k ih =>
    obtain ⟨J, hJ, -, hcall⟩ := h
    obtain ⟨J', hJ', -, hcall'⟩ := h'
    refine ⟨fun t => J t ∧ J' t, ⟨hJ, hJ'⟩, stable_eq _, fun t r t' ht hk => ?_⟩
    obtain ⟨hg, hrest⟩ := hcall t r t' ht.1 hk
    obtain ⟨hg', hrest'⟩ := hcall' t r t' ht.2 hk
    refine ⟨⟨hg, hg'⟩, ?_⟩
    split
    · next hr =>
      rw [if_pos hr] at hrest hrest'
      exact ⟨hrest, hrest'⟩
    · next hr =>
      rw [if_neg hr] at hrest hrest'
      exact ih r hrest hrest'

end And

/-! ## Where it succeeds -/

/-- From `s`, alone, every call of `p` keeps `G`, and `Q a` holds if `p` succeeds with `a`. -/
def Partly (K : Kernel I σ) (G : σ → σ → Prop) (p : ExceptT ε (Prog I) α) (Q : α → σ → Prop)
    (s : σ) : Prop :=
  Sat K (· = ·) G p.run (fun r t => ∀ a, r = .ok a → Q a t) s

section Partly
variable {K : Kernel I σ} {G G' : σ → σ → Prop}

theorem Partly.pure {a : α} {Q : α → σ → Prop} {s : σ} (h : Q a s) :
    Partly K G (pure a : ExceptT ε (Prog I) α) Q s :=
  sat_done.mpr fun b hb => by cases hb; exact h

theorem Partly.mono {p : ExceptT ε (Prog I) α} {Q Q' : α → σ → Prop} {s : σ}
    (h : Partly K G p Q s) (hQ : ∀ a t, Q a t → Q' a t) : Partly K G p Q' s :=
  Sat.mono h fun _ t hr a ha => hQ a t (hr a ha)

theorem Partly.bind {p : ExceptT ε (Prog I) α} {f : α → ExceptT ε (Prog I) β} {Q : α → σ → Prop}
    {Q' : β → σ → Prop} {s : σ} (h : Partly K G p Q s)
    (hf : ∀ a t, Q a t → Partly K G (f a) Q' t) : Partly K G (p >>= f) Q' s := by
  refine Sat.bindE (Sat.mono h fun r t hr => ?_)
  cases r with
  | ok a => exact hf a t (hr a rfl)
  | error e => exact sat_done.mpr fun b hb => by cases hb

theorem Partly.foldlM {f : β → α → ExceptT ε (Prog I) β} (Inv : σ → Prop) {xs : List α}
    (h : ∀ b x t, x ∈ xs → Inv t → Partly K G (f b x) (fun _ => Inv) t) {b : β} {s : σ}
    (hs : Inv s) : Partly K G (xs.foldlM f b) (fun _ => Inv) s := by
  induction xs generalizing b s with
  | nil => exact Partly.pure hs
  | cons x xs ih =>
    rw [List.foldlM_cons]
    apply (h b x s List.mem_cons_self hs).bind
    intro b' t ht
    exact ih (fun b y u hy hu => h b y u (List.mem_cons_of_mem x hy) hu) ht

/-- What holds where a program succeeds, beside what is known of it. -/
theorem Safely.partly {p : ExceptT (Stop ε) (Prog I) α} {Q Q' : α → σ → Prop} {s : σ}
    (h : Safely K G p Q s) (h' : Partly K G' p Q' s) :
    Safely K (fun s t => G s t ∧ G' s t) p (fun a t => Q a t ∧ Q' a t) s := by
  apply Sat.mono (Sat.and h h')
  intro r t hr
  cases r with
  | ok a => exact ⟨hr.1, hr.2 a rfl⟩
  | error e => exact hr.1

end Partly

/-- Where the implementation does what the kernel may do on the calls that the program makes. -/
theorem Prog.Calls.run_returns {K : Kernel I σ} {impl : Impl I σ} {P : I.Op → Prop}
    (himpl : ∀ s op, P op → K s op (impl s op).1 (impl s op).2) (n : Nat) {p : Prog I α}
    (hp : p.Calls P) {s s' : σ} {a : α} (h : run impl n p s = some (a, s')) :
    Returns K p s a s' := by
  induction n generalizing p s with
  | zero =>
    cases p with
    | done b =>
      cases h
      exact .refl _ _
    | call op again k => cases h
  | succ n ih =>
    cases p with
    | done b =>
      cases h
      exact .refl _ _
    | call op again k =>
      unfold run at h
      split at h
      · next hr => exact .head (.again (himpl s op hp.1) hr) (ih hp h)
      · next hr => exact .head (.next (himpl s op hp.1) (by simpa using hr)) (ih (hp.2 _) h)

/-! ## The calls of a program that can fail -/

theorem Prog.Calls.mono {P Q : I.Op → Prop} {p : Prog I α} (hp : p.Calls P)
    (h : ∀ op, P op → Q op) : p.Calls Q := by
  induction p with
  | done a => trivial
  | call op again k ih => exact ⟨h op hp.1, fun r => ih r (hp.2 r)⟩

/-- Every call the program may make satisfies `P`. -/
def MakesOnly (P : I.Op → Prop) (p : ExceptT ε (Prog I) α) : Prop := p.run.Calls P

namespace MakesOnly
variable {P : I.Op → Prop}

theorem mono {Q : I.Op → Prop} {p : ExceptT ε (Prog I) α} (hp : MakesOnly P p)
    (h : ∀ op, P op → Q op) : MakesOnly Q p := Prog.Calls.mono hp h

theorem pure (a : α) : MakesOnly P (pure a : ExceptT ε (Prog I) α) := trivial

theorem throw (e : ε) : MakesOnly P (throw e : ExceptT ε (Prog I) α) := trivial

theorem bind {p : ExceptT ε (Prog I) α} {f : α → ExceptT ε (Prog I) β} (hp : MakesOnly P p)
    (hf : ∀ a, MakesOnly P (f a)) : MakesOnly P (p >>= f) := by
  apply Prog.Calls.bind (f := ExceptT.bindCont f) hp
  intro r
  cases r with
  | ok a => exact hf a
  | error e => trivial

theorem map {p : ExceptT ε (Prog I) α} {f : α → β} (hp : MakesOnly P p) :
    MakesOnly P (f <$> p) := by
  rw [map_eq_pure_bind]
  exact hp.bind fun a => MakesOnly.pure (f a)

theorem orUndefined (x : Option α) :
    MakesOnly P (orUndefined x : ExceptT (Stop ε) (Prog I) α) := by
  cases x <;> trivial

theorem orStop (x : Except ε α) : MakesOnly P (orStop x : ExceptT (Stop ε) (Prog I) α) := by
  cases x <;> trivial

theorem foldlM {f : β → α → ExceptT ε (Prog I) β} (hf : ∀ b a, MakesOnly P (f b a)) (xs : List α)
    (b : β) : MakesOnly P (xs.foldlM f b) := by
  induction xs generalizing b with
  | nil => exact MakesOnly.pure b
  | cons a xs ih => exact (hf b a).bind ih

theorem partly {K : Kernel I σ} {G : σ → σ → Prop} {J : σ → Prop} {s : σ}
    {p : ExceptT ε (Prog I) α} (hp : MakesOnly P p)
    (hJ : ∀ t o r t', P o → J t → K t o r t' → G t t' ∧ J t') (hs : J s) :
    Partly K G p (fun _ t => J t) s :=
  Sat.mono (hp.sat hJ hs) fun _ _ ht _ _ => ht

end MakesOnly

/-! ## A call that comes between two kinds of calls -/

/-- Calls of `P`, then once a call of `R` that is not made again, then calls of `Q`. -/
def Prog.Then (P R Q : I.Op → Prop) : Prog I α → Prop
  | .done _ => True
  | .call op again k => (P op ∧ ∀ r, (k r).Then P R Q) ∨
      R op ∧ (∀ r, again r = false) ∧ ∀ r, (k r).Calls Q

section Then
variable {P R Q : I.Op → Prop}

theorem Prog.Calls.then {p : Prog I α} {f : α → Prog I β} (hp : p.Calls P)
    (hf : ∀ a, (f a).Then P R Q) : (p >>= f).Then P R Q := by
  induction p with
  | done a => exact hf a
  | call op again k ih => exact .inl ⟨hp.1, fun r => ih r (hp.2 r)⟩

theorem Prog.Then.bind {p : Prog I α} {f : α → Prog I β} (hp : p.Then P R Q)
    (hf : ∀ a, (f a).Then P R Q) (hlast : ∀ a, (f a).Calls Q) : (p >>= f).Then P R Q := by
  induction p with
  | done a => exact hf a
  | call op again k ih =>
    rcases hp with ⟨hop, hk⟩ | ⟨hop, honce, hk⟩
    · exact .inl ⟨hop, fun r => ih r (hk r)⟩
    · exact .inr ⟨hop, honce, fun r => (hk r).bind hlast⟩

theorem MakesOnly.then {p : ExceptT ε (Prog I) α} {f : α → ExceptT ε (Prog I) β}
    (hp : MakesOnly P p) (hf : ∀ a, (f a).run.Then P R Q) : (p >>= f).run.Then P R Q := by
  apply Prog.Calls.then (f := ExceptT.bindCont f) hp
  intro r
  cases r with
  | ok a => exact hf a
  | error e => trivial

/-- What calls of a kind keep, at the end of a run of such calls. -/
theorem Prog.Calls.steps {K : Kernel I σ} {J : σ → Prop}
    (hP : ∀ s op r t, P op → J s → K s op r t → J t) {p q : Prog I α} {s t : σ} (hp : p.Calls P)
    (hs : J s) (h : Steps K p s q t) : J t ∧ q.Calls P := by
  induction h with
  | refl => exact ⟨hs, hp⟩
  | head hd _ ih =>
    cases hd with
    | again hk _ => exact ih hp (hP _ _ _ _ hp.1 hs hk)
    | next hk _ => exact ih (hp.2 _) (hP _ _ _ _ hp.1 hs hk)

/-- What the calls of `P` keep, and what those of `Q` keep once the call of `R` is made. -/
theorem Steps.then {K : Kernel I σ} {J M : σ → Prop}
    (hP : ∀ s op r t, P op → J s → K s op r t → J t)
    (hR : ∀ s op r t, R op → J s → K s op r t → M t)
    (hQ : ∀ s op r t, Q op → M s → K s op r t → M t) {p q : Prog I α} {s t : σ}
    (hp : p.Then P R Q) (hs : J s) (h : Steps K p s q t) :
    (J t ∧ q.Then P R Q) ∨ (M t ∧ q.Calls Q) := by
  induction h with
  | refl => exact .inl ⟨hs, hp⟩
  | head hd hrest ih =>
    cases hd with
    | again hk hr =>
      rcases hp with ⟨hop, hk'⟩ | ⟨-, honce, -⟩
      · exact ih (.inl ⟨hop, hk'⟩) (hP _ _ _ _ hop hs hk)
      · rw [honce] at hr
        cases hr
    | next hk hr =>
      rcases hp with ⟨hop, hk'⟩ | ⟨hop, -, hk'⟩
      · exact ih (hk' _) (hP _ _ _ _ hop hs hk)
      · exact .inr ((hk' _).steps hQ (hR _ _ _ _ hop hs hk) hrest)

end Then

/-! ## Runs of two programs in sequence -/

/-- A run of two programs in sequence is in the first of them, or the first has returned. -/
theorem Steps.of_bind {K : Kernel I σ} {p : Prog I α} {f : α → Prog I β} {q : Prog I β} {s t : σ}
    (h : Steps K (p >>= f) s q t) :
    (∃ p', q = (p' >>= f) ∧ Steps K p s p' t) ∨
      ∃ a u, Returns K p s a u ∧ Steps K (f a) u q t := by
  generalize hq : (p >>= f) = b at h
  induction h generalizing p with
  | refl => exact .inl ⟨p, hq.symm, .refl _ _⟩
  | head hd hs ih =>
    cases p with
    | done a =>
      subst hq
      exact .inr ⟨a, _, .refl _ _, .head hd hs⟩
    | call op again k =>
      subst hq
      cases hd with
      | again hk hagain =>
        rcases ih (p := .call op again k) rfl with ⟨p', hp', hsteps⟩ | ⟨a, u, hret, hrest⟩
        · exact .inl ⟨p', hp', .head (.again hk hagain) hsteps⟩
        · exact .inr ⟨a, u, .head (.again hk hagain) hret, hrest⟩
      | next hk hagain =>
        rcases ih (p := k _) rfl with ⟨p', hp', hsteps⟩ | ⟨a, u, hret, hrest⟩
        · exact .inl ⟨p', hp', .head (.next hk hagain) hsteps⟩
        · exact .inr ⟨a, u, .head (.next hk hagain) hret, hrest⟩

end LayerCake.Effects
