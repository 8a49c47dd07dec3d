import LayerCake.Effects.Progress

/-
  Loops without a bound.

  A program makes finitely many calls once its answers are given; a `loop` whose
  end depends on the answers alone is none. Its turn is: a program that selects
  the state of the next turn, or the result the loop is left with.

  What is defined and proved:
    1. `Loops K turn b s a t` — from `b` and `s`, the loop can be left with `a`;
       `Reaches K turn b s b' t` — a turn can start from `b'`; `During K turn b s p t` — a
       run comes to a moment inside a turn, with `p` left of it.
    2. `Loops.inv`, `Reaches.inv` — what every turn keeps holds at every turn, and when
       the loop is left; `During.live` — what each turn is sure of, where the turns keep an
       invariant, holds at every moment.
    3. `Ends K turn Q b s` — every run of the loop from `b` and `s` is left after
       finitely many turns, with `Q`, and no turn is ever stuck; `Ends.of_measure` is its
       rule.
    4. `runLoop`, the run of a loop on an implementation of the calls, for so many turns.
-/

namespace LayerCake.Effects

variable {I : Interface} {α β σ : Type} {K : Kernel I σ} {turn : β → Prog I (β ⊕ α)}

/-- The runs of a loop that is left. -/
inductive Loops (K : Kernel I σ) (turn : β → Prog I (β ⊕ α)) : β → σ → α → σ → Prop
  | leave {b s a t} (h : Returns K (turn b) s (.inr a) t) : Loops K turn b s a t
  | again {b s b' u a t} (h : Returns K (turn b) s (.inl b') u) (hl : Loops K turn b' u a t) :
      Loops K turn b s a t

/-- The rule of a loop: an invariant of its turns. -/
theorem Loops.inv {J : β → σ → Prop} {Q : α → σ → Prop}
    (hturn : ∀ b s, J b s → Wp K (turn b) (fun r t => match r with
      | .inl b' => J b' t
      | .inr a => Q a t) s) {b : β} {s t : σ} {a : α} (h : Loops K turn b s a t) (hJ : J b s) :
    Q a t := by
  induction h with
  | leave h => exact (hturn _ _ hJ).returns h
  | again h _ ih => exact ih ((hturn _ _ hJ).returns h)

/-- The turns that start in the runs of a loop. -/
inductive Reaches (K : Kernel I σ) (turn : β → Prog I (β ⊕ α)) : β → σ → β → σ → Prop
  | refl (b s) : Reaches K turn b s b s
  | again {b s b' u c t} (h : Returns K (turn b) s (.inl b') u) (hr : Reaches K turn b' u c t) :
      Reaches K turn b s c t

/-- An invariant of the turns holds where each of them starts. -/
theorem Reaches.inv {J : β → σ → Prop}
    (hturn : ∀ b s, J b s → Wp K (turn b) (fun r t => ∀ b', r = .inl b' → J b' t) s)
    {b c : β} {s t : σ} (h : Reaches K turn b s c t) (hJ : J b s) : J c t := by
  induction h with
  | refl => exact hJ
  | again h _ ih => exact ih ((hturn _ _ hJ).returns h _ rfl)

/-- The moments of the runs of a loop: inside a turn, with `p` left of it. -/
def During (K : Kernel I σ) (turn : β → Prog I (β ⊕ α)) (b : β) (s : σ) (p : Prog I (β ⊕ α))
    (t : σ) : Prop :=
  ∃ c u, Reaches K turn b s c u ∧ Steps K (turn c) u p t

/-- A loop that is left was at a moment where it left. -/
theorem Loops.during {b : β} {s t : σ} {a : α} (h : Loops K turn b s a t) :
    During K turn b s (.done (.inr a)) t := by
  induction h with
  | leave h => exact ⟨_, _, .refl _ _, h⟩
  | again h _ ih =>
    obtain ⟨c, u, hreaches, hsteps⟩ := ih
    exact ⟨c, u, .again h hreaches, hsteps⟩

/-- Where every turn is sure to keep an invariant, or to leave the loop with `Q`, so is what
is left of the turn at every moment. -/
theorem During.live {M : σ → Prop} {J : β → σ → Prop} {Q : α → σ → Prop}
    (hturn : ∀ b s, J b s → Live K M (turn b) (Sum.elim J Q) s) {b : β} {s t : σ}
    {p : Prog I (β ⊕ α)} (h : During K turn b s p t) (hJ : J b s) :
    Live K M p (Sum.elim J Q) t := by
  obtain ⟨c, u, hreaches, hsteps⟩ := h
  have hinv : J c u := by
    refine hreaches.inv (fun b s hb => (hturn b s hb).wp.mono ?_) hJ
    intro r t hr b' heq
    subst heq
    exact hr
  exact (hturn c u hinv).steps hsteps

/-- Every run of the loop is left after finitely many turns, and then `Q` holds; and
wherever a turn is, it can return. -/
inductive Ends (K : Kernel I σ) (turn : β → Prog I (β ⊕ α)) (Q : α → σ → Prop) : β → σ → Prop
  | intro {b s} (returns : ∀ p t, Steps K (turn b) s p t → ∃ r u, Returns K p t r u)
      (again : ∀ b' t, Returns K (turn b) s (.inl b') t → Ends K turn Q b' t)
      (leave : ∀ a t, Returns K (turn b) s (.inr a) t → Q a t) : Ends K turn Q b s

theorem Ends.loops {Q : α → σ → Prop} {b : β} {s t : σ} {a : α} (h : Ends K turn Q b s)
    (hl : Loops K turn b s a t) : Q a t := by
  induction hl with
  | leave hr =>
    cases h with
    | intro _ _ leave => exact leave _ _ hr
  | again hr _ ih =>
    cases h with
    | intro _ again _ => exact ih (again _ _ hr)

/-- The run of a loop on an implementation, for at most `n` turns of at most `calls` calls. -/
def runLoop (impl : Impl I σ) (turn : β → Prog I (β ⊕ α)) (calls : Nat) :
    Nat → β → σ → Option (α × σ)
  | 0, _, _ => none
  | n + 1, b, s =>
    match run impl calls (turn b) s with
    | some (.inl b', t) => runLoop impl turn calls n b' t
    | some (.inr a, t) => some (a, t)
    | none => none

/-- Where the implementation does what the kernel may do, the loop can be left so. -/
theorem runLoop_loops {impl : Impl I σ} (himpl : ∀ s op, K s op (impl s op).1 (impl s op).2)
    {calls n : Nat} {b : β} {s t : σ} {a : α} (h : runLoop impl turn calls n b s = some (a, t)) :
    Loops K turn b s a t := by
  induction n generalizing b s with
  | zero => cases h
  | succ n ih =>
    unfold runLoop at h
    split at h
    · next hrun => exact .again (run_returns himpl calls hrun) (ih h)
    · next hrun =>
      cases h
      exact .leave (run_returns himpl calls hrun)
    · cases h

end LayerCake.Effects
