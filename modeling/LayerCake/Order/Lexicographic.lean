import Mathlib.Data.List.Chain
import Mathlib.Data.List.Pairwise

/-
  Trees laid out in lexicographic order.

  A node of a tree is the list of labels on its path from the root, its
  ancestors are the prefixes of that list, and the nodes are listed in the
  lexicographic order of a comparison of labels. Then

    1. an ancestor is never greater than its descendant (`isLE_of_prefix`);
    2. the descendants of a node are contiguous (`prefix_of_between`);
    3. so a condition on every pair of an ancestor and a descendant holds as soon
       as it holds of neighbours (`pairwise_iff_isChain_of_convex`).
-/

namespace LayerCake.Order

open Std

variable {α : Type} {cmp : α → α → Ordering}

/-- Comparing the images under a function. -/
theorem transCmp_on {β : Type} (cmp : α → α → Ordering) [TransCmp cmp] (f : β → α) :
    TransCmp fun a b => cmp (f a) (f b) where
  eq_swap := OrientedCmp.eq_swap
  isLE_trans := TransCmp.isLE_trans

/-- The order on images is linear where the function is injective. -/
theorem lawfulEqCmp_on {β : Type} (cmp : α → α → Ordering) [LawfulEqCmp cmp] {f : β → α}
    (hf : ∀ a b, f a = f b → a = b) : LawfulEqCmp fun a b => cmp (f a) (f b) where
  compare_self := ReflCmp.compare_self
  eq_of_compare h := hf _ _ (LawfulEqCmp.eq_of_compare h)

theorem isLE_of_prefix [ReflCmp cmp] {a b : List α} (h : a <+: b) :
    (List.compareLex cmp a b).isLE = true := by
  induction a generalizing b with
  | nil => exact List.isLE_compareLex_nil_left
  | cons x a ih =>
    obtain ⟨t, rfl⟩ := h
    have hself : cmp x x = .eq := ReflCmp.compare_self
    rw [List.cons_append, List.compareLex_cons_cons, hself]
    exact ih ⟨t, rfl⟩

/-- Between a node and its descendant there are only descendants. -/
theorem prefix_of_between [TransCmp cmp] [LawfulEqCmp cmp] {a b c : List α} (hac : a <+: c)
    (hab : (List.compareLex cmp a b).isLE = true) (hbc : (List.compareLex cmp b c).isLE = true) :
    a <+: b := by
  induction a generalizing b c with
  | nil => exact List.nil_prefix
  | cons x a ih =>
    obtain ⟨t, rfl⟩ := hac
    cases b with
    | nil => simp [List.compareLex_cons_nil] at hab
    | cons y b =>
      rw [List.compareLex_cons_cons, Ordering.isLE_then_iff_and] at hab
      rw [List.cons_append, List.compareLex_cons_cons, Ordering.isLE_then_iff_and] at hbc
      have hxy : x = y := LawfulEqCmp.eq_of_compare (OrientedCmp.isLE_antisymm hab.1 hbc.1)
      subst hxy
      have hself : cmp x x = .eq := ReflCmp.compare_self
      rw [hself] at hab hbc
      have hrest : a <+: b := ih ⟨t, rfl⟩ (by simpa using hab) (by simpa using hbc)
      exact List.cons_prefix_cons.mpr ⟨rfl, hrest⟩

/-- Two elements of a list are related in the order in which they stand. -/
theorem rel_or_rel_of_pairwise {R : α → α → Prop} {l : List α} (h : l.Pairwise R) {a b : α}
    (ha : a ∈ l) (hb : b ∈ l) (hne : a ≠ b) : R a b ∨ R b a := by
  have hsymm : l.Pairwise fun a b => R a b ∨ R b a := h.imp fun hab => .inl hab
  have : Std.Symm fun a b => R a b ∨ R b a := ⟨fun _ _ => Or.symm⟩
  exact hsymm.forall ha hb hne

/-- Where the elements that `R` relates to one element are contiguous in a sorted
list, what neighbours satisfy, every pair satisfies. -/
theorem pairwise_iff_isChain_of_convex {lt R : α → α → Prop} {P : α → Prop}
    (hconvex : ∀ a b c, lt a b → lt b c → R a c → R a b) {l : List α} (hl : l.Pairwise lt) :
    (l.Pairwise fun a b => R a b → P a) ↔ (l.IsChain fun a b => R a b → P a) := by
  refine ⟨List.Pairwise.isChain, fun h => ?_⟩
  induction l with
  | nil => exact .nil
  | cons a l ih =>
    rw [List.pairwise_cons] at hl ⊢
    refine ⟨fun c hc hR => ?_, ih hl.2 h.tail⟩
    cases l with
    | nil => cases hc
    | cons b l =>
      rcases List.mem_cons.mp hc with rfl | hmem
      · exact List.isChain_cons_cons.mp h |>.1 hR
      · have hbc : lt b c := (List.pairwise_cons.mp hl.2).1 c hmem
        have hab : R a b := hconvex a b c (hl.1 b List.mem_cons_self) hbc hR
        exact List.isChain_cons_cons.mp h |>.1 hab

end LayerCake.Order
