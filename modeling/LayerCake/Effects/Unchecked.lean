import Mathlib.Data.List.Forall2
import Mathlib.Data.List.Nodup
import Mathlib.Data.List.Perm.Subperm
import Mathlib.Order.Defs.Unbundled
import LayerCake.Effects.Program

/-
  Programs with unchecked operations.

  A program stops with an error of its own, or because an operation it did not
  check had no meaning: a push to a full vector, an index out of bounds, a slot
  read before it was written. `Safely` rules the second out, and says what holds
  when the program does return.

  What is defined and proved:
    1. `Stop`, and the operations that can be undefined: `orUndefined` for
       `unwrap_unchecked` and `get_unchecked`.
    2. `Vec`, a vector that does not grow past its capacity, and `Spare`, a vector's
       spare capacity as the history of what was written to it.
    3. `Safely K G p Q s` — from `s`, alone, every call of `p` keeps `G`, `p` is never
       undefined, and `Q a` holds if it returns `a`. `Safely.bind` also hands on that
       `G` holds since the start, and `Safely.foldlM` is the rule of a loop.
    4. `Spare.setLen_of_perm` — when what was written is some rearrangement of
       the slots in order, every slot was written once and holds its own value.
-/

namespace LayerCake.Effects

variable {I : Interface} {α β ε σ : Type}

/-- Why a program stopped. -/
inductive Stop (ε : Type) where
  | error (e : ε)
  | undefined
  deriving DecidableEq, Repr

/-- The value of an unchecked operation, undefined where there is none. -/
def orUndefined : Option α → ExceptT (Stop ε) (Prog I) α
  | some a => pure a
  | none => throw .undefined

/-- The `?` on a value that is already there. -/
def orStop : Except ε α → ExceptT (Stop ε) (Prog I) α
  | .ok a => pure a
  | .error e => throw (.error e)

theorem exists_of_mem_left {R : α → β → Prop} {xs : List α} {ys : List β}
    (h : List.Forall₂ R xs ys) {x : α} (hx : x ∈ xs) : ∃ y ∈ ys, R x y := by
  induction h with
  | nil => cases hx
  | cons hxy _ ih =>
    rcases List.mem_cons.mp hx with rfl | hmem
    · exact ⟨_, List.mem_cons_self, hxy⟩
    · obtain ⟨y, hy, hR⟩ := ih hmem
      exact ⟨y, List.mem_cons_of_mem _ hy, hR⟩

theorem exists_getElem?_left {R : α → β → Prop} {xs : List α} {ys : List β}
    (h : List.Forall₂ R xs ys) {i : Nat} {y : β} (hi : ys[i]? = some y) :
    ∃ x, xs[i]? = some x ∧ R x y := by
  obtain ⟨hy, rfl⟩ := List.getElem?_eq_some_iff.mp hi
  have hx : i < xs.length := h.length_eq ▸ hy
  exact ⟨xs[i], List.getElem?_eq_getElem hx, h.get hx hy⟩

/-! ## Vectors and their spare capacity -/

/-- A vector and its capacity. -/
structure Vec (α : Type) where
  items : List α
  capacity : Nat
  deriving DecidableEq, Repr

namespace Vec

def withCapacity (capacity : Nat) : Vec α := ⟨[], capacity⟩

/-- `push_within_capacity`. -/
def push (v : Vec α) (a : α) : Option (Vec α) :=
  if v.items.length < v.capacity then some { v with items := v.items ++ [a] } else none

theorem push_eq_some {v : Vec α} {a : α} (h : v.items.length < v.capacity) :
    v.push a = some ⟨v.items ++ [a], v.capacity⟩ := if_pos h

end Vec

/-- The spare slots of a vector, with everything written to them so far, oldest
first. A slot nothing was written to is uninitialised. -/
structure Spare (α : Type) where
  slots : Nat
  written : List (Nat × α)
  deriving DecidableEq, Repr

namespace Spare

/-- `get_unchecked_mut(i)`: what writing to the slot makes of the vector. -/
def getMut (v : Spare α) (i : Nat) : Option (α → Spare α) :=
  if i < v.slots then some fun a => { v with written := v.written ++ [(i, a)] } else none

theorem getMut_eq_some {v : Spare α} {i : Nat} (h : i < v.slots) :
    v.getMut i = some fun a => ⟨v.slots, v.written ++ [(i, a)]⟩ := if_pos h

/-- What a slot was last given. -/
def slot (v : Spare α) (i : Nat) : Option α :=
  (v.written.reverse.find? fun w => w.1 = i).map Prod.snd

/-- The items of the vector once the first `n` slots are counted in; `none` where
one of them is uninitialised. -/
def setLen (v : Spare α) (n : Nat) : Option (List α) := (List.range n).mapM v.slot

/-- The slot was written exactly once, with `a`. -/
def Once (v : Spare α) (i : Nat) (a : α) : Prop := (v.written.filter fun w => w.1 = i) = [(i, a)]

theorem Once.slot {v : Spare α} {i : Nat} {a : α} (h : v.Once i a) : v.slot i = some a := by
  unfold Spare.slot
  rw [← List.head?_filter, List.filter_reverse, h]
  rfl

theorem Once.mem {v : Spare α} {i : Nat} {a : α} (h : v.Once i a) : (i, a) ∈ v.written := by
  have hmem : (i, a) ∈ v.written.filter fun w => w.1 = i := h ▸ List.mem_singleton_self _
  exact (List.mem_filter.mp hmem).1

theorem filter_key_eq_singleton {l : List (Nat × α)} (hl : (l.map Prod.fst).Nodup) {i : Nat} {a : α}
    (h : (i, a) ∈ l) : (l.filter fun w => w.1 = i) = [(i, a)] := by
  induction l with
  | nil => cases h
  | cons w l ih =>
    rw [List.map_cons, List.nodup_cons] at hl
    rcases List.mem_cons.mp h with rfl | hmem
    · rw [List.filter_cons_of_pos (by simp), List.filter_eq_nil_iff.mpr]
      intro w hw hi
      exact hl.1 (List.mem_map.mpr ⟨w, hw, by simpa using hi⟩)
    · have hne : w.1 ≠ i := fun e => hl.1 (List.mem_map.mpr ⟨(i, a), hmem, e.symm⟩)
      rw [List.filter_cons_of_neg (by simpa using hne), ih hl.2 hmem]

section Filled
variable {γ : Type} {xs : List γ} {todo : List (γ × Nat)} {R : γ → α → Prop} {v : Spare α}

/-- Each write is for the slot of its item. -/
theorem keys_of_forall₂ (h : List.Forall₂ (fun w x => w.1 = x.2 ∧ R x.1 w.2) v.written todo) :
    v.written.map Prod.fst = todo.map Prod.snd := by
  generalize v.written = written at h
  induction h with
  | nil => rfl
  | cons hd _ ih => rw [List.map_cons, List.map_cons, ih, hd.1]

/-- Where the writes follow some rearrangement of the items `xs`, each to the slot
of its own item, every slot is written once. -/
theorem once_of_perm (hperm : todo.Perm xs.zipIdx)
    (h : List.Forall₂ (fun w x => w.1 = x.2 ∧ R x.1 w.2) v.written todo) {i : Nat} {x : γ}
    (hi : xs[i]? = some x) : ∃ a, v.Once i a ∧ R x a := by
  have hnodup : (v.written.map Prod.fst).Nodup := by
    rw [keys_of_forall₂ h, (hperm.map Prod.snd).nodup_iff, List.zipIdx_map_snd]
    exact List.nodup_range'
  have hx : (x, i) ∈ todo := hperm.mem_iff.mpr (List.mk_mem_zipIdx_iff_getElem?.mpr hi)
  obtain ⟨w, hw, hwi, hR⟩ := exists_of_mem_left h.flip hx
  obtain ⟨j, a⟩ := w
  subst hwi
  exact ⟨a, filter_key_eq_singleton hnodup hw, hR⟩

/-- Where each of the first `n` slots was written once, they are read in order. -/
theorem setLen_of_once (hslot : ∀ i (hi : i < xs.length), ∃ a, v.Once i a ∧ R xs[i] a) (n : Nat)
    (hn : n ≤ xs.length) : ∃ items, v.setLen n = some items ∧ List.Forall₂ R (xs.take n) items ∧
      ∀ w ∈ items.zipIdx.map Prod.swap, w ∈ v.written := by
  induction n with
  | zero => exact ⟨[], rfl, by simp, fun w hw => by cases hw⟩
  | succ n ih =>
    obtain ⟨items, hitems, hR, hmem⟩ := ih (by omega)
    obtain ⟨a, ha, hRa⟩ := hslot n (by omega)
    have hlen : items.length = n := by
      rw [← hR.length_eq, List.length_take]
      omega
    refine ⟨items ++ [a], ?_, ?_, ?_⟩
    · unfold setLen at hitems ⊢
      rw [List.range_succ, List.mapM_append, hitems]
      simp [ha.slot]
    · rw [List.take_succ_eq_append_getElem (by omega)]
      exact List.rel_append hR (.cons hRa .nil)
    · intro w hw
      rw [List.zipIdx_append, List.map_append, List.mem_append] at hw
      rcases hw with hold | hnew
      · exact hmem w hold
      · simp only [List.zipIdx_singleton, List.map_cons, List.map_nil, List.mem_singleton,
          Nat.zero_add, hlen] at hnew
        rw [hnew]
        exact ha.mem

/-- As many writes as items, each of them one of the slots read, are no others. -/
theorem perm_written {items : List α} (hmem : ∀ w ∈ items.zipIdx.map Prod.swap, w ∈ v.written)
    (hlen : v.written.length = items.length) : items.Perm (v.written.map Prod.snd) := by
  have hnodup : (items.zipIdx.map Prod.swap).Nodup := by
    apply List.Nodup.of_map Prod.fst
    rw [List.map_map]
    show (items.zipIdx.map Prod.snd).Nodup
    rw [List.zipIdx_map_snd]
    exact List.nodup_range'
  have hle : v.written.length ≤ (items.zipIdx.map Prod.swap).length := by
    simp [hlen]
  have hsame := ((List.subperm_of_subset hnodup hmem).perm_of_length_le hle).map Prod.snd
  rw [List.map_map] at hsame
  have hfst : items.zipIdx.map (Prod.snd ∘ Prod.swap) = items := List.zipIdx_map_fst ..
  rwa [hfst] at hsame

/-- The vector then holds the values of the items, in their order, and nothing else was
written to it. -/
theorem setLen_of_perm (hperm : todo.Perm xs.zipIdx)
    (h : List.Forall₂ (fun w x => w.1 = x.2 ∧ R x.1 w.2) v.written todo) :
    ∃ items, v.setLen xs.length = some items ∧ List.Forall₂ R xs items ∧
      items.Perm (v.written.map Prod.snd) := by
  have hslot : ∀ i (hi : i < xs.length), ∃ a, v.Once i a ∧ R xs[i] a :=
    fun i hi => once_of_perm hperm h (List.getElem?_eq_getElem hi)
  obtain ⟨items, hitems, hR, hmem⟩ := setLen_of_once hslot xs.length (Nat.le_refl _)
  rw [List.take_length] at hR
  refine ⟨items, hitems, hR, perm_written hmem ?_⟩
  calc v.written.length = todo.length := h.length_eq
    _ = xs.length := by rw [hperm.length_eq, List.length_zipIdx]
    _ = items.length := hR.length_eq

end Filled

end Spare

/-! ## Programs that are never undefined -/

/-- From `s`, alone, every call of `p` keeps `G`, `p` is never undefined, and `Q a`
holds if it returns `a`. -/
def Safely (K : Kernel I σ) (G : σ → σ → Prop) (p : ExceptT (Stop ε) (Prog I) α)
    (Q : α → σ → Prop) (s : σ) : Prop :=
  Sat K (· = ·) G p.run (fun r t => match r with
    | .ok a => Q a t
    | .error e => e ≠ .undefined) s

section Rules
variable {K : Kernel I σ} {G : σ → σ → Prop}

theorem Safely.pure {a : α} {Q : α → σ → Prop} {s : σ} (h : Q a s) :
    Safely K G (pure a : ExceptT (Stop ε) (Prog I) α) Q s := sat_done.mpr h

theorem Safely.error {e : ε} {Q : α → σ → Prop} {s : σ} :
    Safely K G (throw (.error e) : ExceptT (Stop ε) (Prog I) α) Q s :=
  sat_done.mpr (by simp)

theorem Safely.orUndefined {x : Option α} {a : α} {Q : α → σ → Prop} {s : σ} (hx : x = some a)
    (h : Q a s) : Safely K G (orUndefined x : ExceptT (Stop ε) (Prog I) α) Q s := by
  subst hx
  exact Safely.pure h

theorem Safely.orStop {x : Except ε α} {Q : α → σ → Prop} {s : σ} (h : ∀ a, x = .ok a → Q a s) :
    Safely K G (orStop x : ExceptT (Stop ε) (Prog I) α) Q s := by
  cases x with
  | ok a => exact Safely.pure (h a rfl)
  | error e => exact Safely.error

theorem Safely.mono {p : ExceptT (Stop ε) (Prog I) α} {Q Q' : α → σ → Prop} {s : σ}
    (h : Safely K G p Q s) (hQ : ∀ a t, Q a t → Q' a t) : Safely K G p Q' s := by
  apply Sat.mono h
  intro r t hr
  cases r with
  | ok a => exact hQ a t hr
  | error e => exact hr

/-- A weaker guarantee. -/
theorem Safely.weaken {G' : σ → σ → Prop} {p : ExceptT (Stop ε) (Prog I) α} {Q : α → σ → Prop}
    {s : σ} (h : Safely K G p Q s) (hG : ∀ s t, G s t → G' s t) : Safely K G' p Q s :=
  Sat.weaken h hG

/-- What every call keeps holds since the start. -/
theorem Safely.since [Std.Refl G] [IsTrans σ G] {p : ExceptT (Stop ε) (Prog I) α}
    {Q : α → σ → Prop} {s : σ} (h : Safely K G p Q s) :
    Safely K G p (fun a t => G s t ∧ Q a t) s := by
  apply Sat.mono (Sat.since h)
  intro r t hr
  cases r with
  | ok a => exact hr
  | error e => exact hr.2

/-- Sequencing: the second program starts from anything the first may leave, with
the guarantee kept in between. -/
theorem Safely.bind [Std.Refl G] [IsTrans σ G] {p : ExceptT (Stop ε) (Prog I) α}
    {f : α → ExceptT (Stop ε) (Prog I) β} {Q : α → σ → Prop} {Q' : β → σ → Prop} {s : σ}
    (h : Safely K G p Q s) (hf : ∀ a t, G s t → Q a t → Safely K G (f a) Q' t) :
    Safely K G (p >>= f) Q' s := by
  refine Sat.bindE (Sat.mono h.since fun r t hr => ?_)
  cases r with
  | ok a => exact hf a t hr.1 hr.2
  | error e => exact sat_done.mpr hr

/-- Sequencing in the middle of a program that started in `s₀`. -/
theorem Safely.andThen [Std.Refl G] [IsTrans σ G] {p : ExceptT (Stop ε) (Prog I) α}
    {f : α → ExceptT (Stop ε) (Prog I) β} {Q : α → σ → Prop} {Q' : β → σ → Prop} {s₀ s : σ}
    (h : Safely K G p Q s) (h₀ : G s₀ s) (hf : ∀ a t, G s₀ t → Q a t → Safely K G (f a) Q' t) :
    Safely K G (p >>= f) Q' s :=
  h.bind fun a t hst ha => hf a t (IsTrans.trans _ _ _ h₀ hst) ha

theorem Safely.map [Std.Refl G] [IsTrans σ G] {p : ExceptT (Stop ε) (Prog I) α} {f : α → β}
    {Q : β → σ → Prop} {s : σ} (h : Safely K G p (fun a t => Q (f a) t) s) :
    Safely K G (f <$> p) Q s := by
  rw [map_eq_pure_bind]
  exact h.bind fun a t _ ha => Safely.pure ha

/-- The rule of a loop over `xs`, each item of which stands for one of `ys`: what holds
of those done so far and the value carried from one turn to the next. -/
theorem Safely.foldlM_forall₂ [Std.Refl G] [IsTrans σ G] {γ : Type}
    {f : β → α → ExceptT (Stop ε) (Prog I) β} {R : α → γ → Prop} (Inv : List γ → β → σ → Prop)
    {xs : List α} {ys : List γ} (hxy : List.Forall₂ R xs ys)
    (h : ∀ pre y post x b t, ys = pre ++ y :: post → R x y → Inv pre b t →
      Safely K G (f b x) (Inv (pre ++ [y])) t)
    {b : β} {s : σ} (hs : Inv [] b s) : Safely K G (xs.foldlM f b) (Inv ys) s := by
  suffices hgen : ∀ xs post, List.Forall₂ R xs post → ∀ pre b s, ys = pre ++ post → Inv pre b s →
      Safely K G (xs.foldlM f b) (Inv ys) s from hgen xs ys hxy [] b s rfl hs
  intro xs post hpost
  induction hpost with
  | nil =>
    intro pre b s hys hinv
    rw [List.append_nil] at hys
    subst hys
    exact Safely.pure hinv
  | cons hxy _ ih =>
    intro pre b s hys hinv
    rw [List.foldlM_cons]
    apply (h pre _ _ _ b s hys hxy hinv).bind
    intro b' t _ hinv'
    exact ih (pre ++ [_]) b' t (by rw [hys]; simp) hinv'

/-- The rule of a loop. -/
theorem Safely.foldlM [Std.Refl G] [IsTrans σ G] {f : β → α → ExceptT (Stop ε) (Prog I) β}
    (Inv : List α → β → σ → Prop) {xs : List α}
    (h : ∀ pre x post b t, xs = pre ++ x :: post → Inv pre b t →
      Safely K G (f b x) (Inv (pre ++ [x])) t)
    {b : β} {s : σ} (hs : Inv [] b s) : Safely K G (xs.foldlM f b) (Inv xs) s := by
  refine Safely.foldlM_forall₂ Inv (List.forall₂_same.mpr fun x _ => rfl) ?_ hs
  intro pre y post x b t hxs hxy hinv
  exact hxy ▸ h pre y post b t hxs hinv

end Rules

end LayerCake.Effects
