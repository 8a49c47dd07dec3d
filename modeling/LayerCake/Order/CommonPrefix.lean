import Mathlib.Data.List.Basic

/-
  The longest list that two lists both begin with.

  It is their greatest lower bound in the prefix order: a prefix of both
  (`commonPrefix_left`, `commonPrefix_right`) that every prefix of both is a prefix of
  (`prefix_commonPrefix`).
-/

namespace LayerCake.Order

variable {α β : Type}

/-- `Iterator::map_while`: the images up to the first item that has none. -/
def mapWhile (f : α → Option β) : List α → List β
  | [] => []
  | a :: as => match f a with
    | some b => b :: mapWhile f as
    | none => []

variable [DecidableEq α]

def commonPrefix : List α → List α → List α
  | x :: xs, y :: ys => if x = y then x :: commonPrefix xs ys else []
  | _, _ => []

theorem commonPrefix_left (xs ys : List α) : commonPrefix xs ys <+: xs := by
  induction xs generalizing ys with
  | nil => exact List.nil_prefix
  | cons x xs ih =>
    cases ys with
    | nil => exact List.nil_prefix
    | cons y ys =>
      rw [commonPrefix]
      split
      · exact List.cons_prefix_cons.mpr ⟨rfl, ih ys⟩
      · exact List.nil_prefix

theorem commonPrefix_comm (xs ys : List α) : commonPrefix xs ys = commonPrefix ys xs := by
  induction xs generalizing ys with
  | nil => cases ys <;> rfl
  | cons x xs ih =>
    cases ys with
    | nil => rfl
    | cons y ys =>
      rw [commonPrefix, commonPrefix]
      by_cases h : x = y
      · rw [if_pos h, if_pos h.symm, ih, h]
      · rw [if_neg h, if_neg (Ne.symm h)]

theorem commonPrefix_right (xs ys : List α) : commonPrefix xs ys <+: ys :=
  commonPrefix_comm xs ys ▸ commonPrefix_left ys xs

theorem prefix_commonPrefix {xs ys zs : List α} (h : zs <+: xs) (h' : zs <+: ys) :
    zs <+: commonPrefix xs ys := by
  induction zs generalizing xs ys with
  | nil => exact List.nil_prefix
  | cons z zs ih =>
    obtain ⟨xs', rfl⟩ := h
    obtain ⟨ys', rfl⟩ := h'
    rw [List.cons_append, List.cons_append, commonPrefix, if_pos rfl]
    exact List.cons_prefix_cons.mpr ⟨rfl, ih (List.prefix_append _ _) (List.prefix_append _ _)⟩

/-- It is what zipping the lists and taking equal pairs while there are any gives. -/
theorem mapWhile_zip (xs ys : List α) :
    mapWhile (fun p => if p.1 = p.2 then some p.1 else none) (xs.zip ys) = commonPrefix xs ys := by
  induction xs generalizing ys with
  | nil => rfl
  | cons x xs ih =>
    cases ys with
    | nil => rfl
    | cons y ys =>
      rw [List.zip_cons_cons, mapWhile, commonPrefix]
      by_cases h : x = y
      · simp only [if_pos h, ih]
      · simp only [if_neg h]

end LayerCake.Order
