import LayerCake.Effects.Embed
import LayerCake.Effects.Loop

/-
  Procedures: programs and loops without a bound, in sequence.

  A program makes finitely many calls and a loop any number of them, but both relate the
  state they start in to a result and the state they leave (`Returns`, `Loops`). A procedure
  is such a relation.

  What is defined and proved:
    1. `Proc.seq`, `Proc.andThen`, `Proc.cleanup` — one procedure after the other, up to the
       first that fails, and one that is run whatever came of the other.
    2. `Ensures P Q s` — whatever `P` does from `s`, it ends with `Q`, with a rule for each
       of these and `Wp.ensures`, `Ensures.loops` for programs and loops.
    3. `Wp.embed` — the specification of a program, over a kernel with more state.
    4. `returns_perform`, `returns_bindE` — the runs of one call, and of two programs in
       sequence that can fail.
-/

namespace LayerCake.Effects

variable {I J : Interface} {α β ε σ τ : Type}

/-- What a procedure does: from a state, a result and the state it leaves. -/
abbrev Proc (σ α : Type) := σ → α → σ → Prop

namespace Proc

def pure (a : α) : Proc σ α := fun s b t => b = a ∧ t = s

def seq (P : Proc σ α) (f : α → Proc σ β) : Proc σ β := fun s b t => ∃ a u, P s a u ∧ f a u b t

/-- The second is not started where the first fails. -/
def andThen (P : Proc σ (Except ε α)) (f : α → Proc σ (Except ε β)) : Proc σ (Except ε β) :=
  P.seq fun
    | .ok a => f a
    | .error e => pure (.error e)

/-- The second is run behind the first, and its result is dropped. -/
def cleanup (P : Proc σ α) (Q : Proc σ β) : Proc σ α := P.seq fun a => Q.seq fun _ => pure a

end Proc

/-- Whatever the procedure does from `s`, it ends with `Q`. -/
def Ensures (P : Proc σ α) (Q : α → σ → Prop) (s : σ) : Prop := ∀ a t, P s a t → Q a t

section Rules
variable {s : σ}

theorem Ensures.mono {P : Proc σ α} {Q Q' : α → σ → Prop} (h : Ensures P Q s)
    (hQ : ∀ a t, Q a t → Q' a t) : Ensures P Q' s :=
  fun a t hP => hQ a t (h a t hP)

theorem Ensures.pure {a : α} {Q : α → σ → Prop} (h : Q a s) : Ensures (Proc.pure a) Q s := by
  intro b t ⟨hb, ht⟩
  rw [hb, ht]
  exact h

theorem Ensures.seq {P : Proc σ α} {f : α → Proc σ β} {Q : β → σ → Prop}
    (h : Ensures P (fun a t => Ensures (f a) Q t) s) : Ensures (P.seq f) Q s := by
  intro b t ⟨a, u, hP, hf⟩
  exact h a u hP b t hf

theorem Ensures.andThen {P : Proc σ (Except ε α)} {f : α → Proc σ (Except ε β)}
    {Q : Except ε β → σ → Prop}
    (h : Ensures P (fun r t => (∀ a, r = .ok a → Ensures (f a) Q t) ∧
      ∀ e, r = .error e → Q (.error e) t) s) : Ensures (P.andThen f) Q s := by
  refine Ensures.seq (h.mono fun r t hr => ?_)
  cases r with
  | ok a => exact hr.1 a rfl
  | error e => exact Ensures.pure (hr.2 e rfl)

theorem Ensures.cleanup {P : Proc σ α} {R : Proc σ β} {Q : α → σ → Prop}
    (h : Ensures P (fun a t => Ensures R (fun _ u => Q a u) t) s) :
    Ensures (P.cleanup R) Q s := by
  refine Ensures.seq (h.mono fun a t hR => ?_)
  exact Ensures.seq (hR.mono fun _ u hQ => Ensures.pure hQ)

theorem Wp.ensures {K : Kernel I σ} {p : Prog I α} {Q : α → σ → Prop} (h : Wp K p Q s) :
    Ensures (Returns K p) Q s :=
  fun _ _ hr => h.returns hr

/-- The rule of a loop: an invariant of its turns. -/
theorem Ensures.loops {K : Kernel I σ} {turn : β → Prog I (β ⊕ α)} (Inv : β → σ → Prop)
    {Q : α → σ → Prop} (hturn : ∀ b s, Inv b s → Wp K (turn b) (fun r t => match r with
      | .inl b' => Inv b' t
      | .inr a => Q a t) s) {b : β} (hb : Inv b s) : Ensures (Loops K turn b) Q s :=
  fun _ _ h => h.inv hturn hb

end Rules

/-- The specification of the part, over the larger state. -/
theorem Wp.embed {op : I.Op → J.Op} {res : ∀ o, J.Res (op o) → I.Res o} {K : Kernel I σ}
    {L : Kernel J τ} {part : τ → σ} (h : Simulates op res K L part) {p : Prog I α}
    {Q : α → σ → Prop} {t : τ} (hp : Wp K p Q (part t)) :
    Wp L (p.embed op res) (fun a t' => Q a (part t')) t :=
  Sat.embed h hp

section Runs
variable {K : Kernel I σ} {s t : σ}

theorem returns_perform {op : I.Op} {r : I.Res op} :
    Returns K (perform op) s r t ↔ K s op r t := by
  constructor
  · intro h
    cases h with
    | head hd hs =>
      cases hd with
      | again _ hr => cases hr
      | next hk _ =>
        obtain ⟨hr, ht⟩ := Returns.of_done hs
        rw [hr, ht]
        exact hk
  · intro h
    exact .head (.next h rfl) (.refl _ _)

/-- The last answer to a call that is made again on some is none of these. -/
theorem Returns.of_performUntil {op : I.Op} {again : I.Res op → Bool} {r : I.Res op}
    (h : Returns K (performUntil op again) s r t) :
    ∃ p u, Steps K (performUntil op again) s p u ∧ K u op r t ∧ again r = false := by
  unfold Returns at h
  generalize hp : performUntil op again = p at h
  generalize hq : (Prog.done r : Prog I (I.Res op)) = q at h
  induction h with
  | refl p s =>
    rw [← hp] at hq
    cases hq
  | head hd hs ih =>
    subst hp
    cases hd with
    | again hk hr =>
      obtain ⟨p, u, hsteps, hlast⟩ := ih rfl hq
      exact ⟨p, u, .head (.again hk hr) hsteps, hlast⟩
    | next hk hr =>
      subst hq
      obtain ⟨rfl, rfl⟩ := Returns.of_done hs
      exact ⟨_, _, .refl _ _, hk, hr⟩

theorem returns_bind {p : Prog I α} {f : α → Prog I β} {b : β} :
    Returns K (p >>= f) s b t ↔ ∃ a u, Returns K p s a u ∧ Returns K (f a) u b t :=
  ⟨Returns.of_bind, fun ⟨_, _, hp, hf⟩ => Returns.bind hp hf⟩

theorem returns_done {a b : α} : Returns K (.done a) s b t ↔ b = a ∧ t = s := by
  constructor
  · exact Returns.of_done
  · intro ⟨hb, ht⟩
    rw [hb, ht]
    exact .refl _ _

theorem returns_lift {p : Prog I α} {r : Except ε α} :
    Returns K (ExceptT.lift p : ExceptT ε (Prog I) α).run s r t ↔
      ∃ a, r = .ok a ∧ Returns K p s a t := by
  have hlift : (ExceptT.lift p : ExceptT ε (Prog I) α).run = p >>= fun a => .done (.ok a) := by
    show Except.ok <$> p = _
    exact map_eq_pure_bind _ _
  rw [hlift, returns_bind]
  constructor
  · intro ⟨a, u, hp, hdone⟩
    obtain ⟨rfl, rfl⟩ := returns_done.mp hdone
    exact ⟨a, rfl, hp⟩
  · intro ⟨a, hr, hp⟩
    exact ⟨a, t, hp, returns_done.mpr ⟨hr, rfl⟩⟩

/-- The second is run behind a success of the first, or its error is what is returned. -/
theorem returns_bindE {p : ExceptT ε (Prog I) α} {f : α → ExceptT ε (Prog I) β}
    {r : Except ε β} : Returns K (p >>= f).run s r t ↔
      (∃ a u, Returns K p.run s (.ok a) u ∧ Returns K (f a).run u r t) ∨
        ∃ e, r = .error e ∧ Returns K p.run s (.error e) t := by
  constructor
  · intro h
    obtain ⟨x, u, hp, hf⟩ := Returns.of_bind (f := ExceptT.bindCont f) h
    cases x with
    | ok a => exact .inl ⟨a, u, hp, hf⟩
    | error e =>
      obtain ⟨rfl, rfl⟩ := returns_done.mp hf
      exact .inr ⟨e, rfl, hp⟩
  · intro h
    rcases h with ⟨a, u, hp, hf⟩ | ⟨e, rfl, hp⟩
    · exact Returns.bind (f := ExceptT.bindCont f) hp hf
    · exact Returns.bind (f := ExceptT.bindCont f) hp (.refl _ _)

end Runs

end LayerCake.Effects
