import Mathlib.Data.List.Basic
import Mathlib.Logic.Function.Basic

/-
  Trees attached to one another's nodes, and walks through them.

  A node is a tree and the path to it from that tree's root. Attaching a tree to a
  node covers what was there: a walk that comes to the node goes on from the root of
  the attached tree. The attachments are kept oldest first, so that one attached to
  the root of another comes after it.

  `Located t place` says that `place m` is where the tree `m` was attached, as a path
  from where all walks start. What is proved:
    1. `location_walk` — a walk along `p` ends at a node whose location is `p`. So the
       tree it ends in was attached at `p` or above it (`place_walk_prefix`).
    2. `walk_attach_of_not_prefix`, `walk_attach_self` — attaching a tree at `d` leads
       the walk along `d` to its root, and changes no walk that does not pass `d`.
-/

namespace LayerCake.Tree

variable {M C : Type}

/-- A node of a tree, by the path from its root. -/
structure Node (M C : Type) where
  tree : M
  path : List C
  deriving DecidableEq, Repr

def Node.root (m : M) : Node M C := ⟨m, []⟩

def Node.child (n : Node M C) (c : C) : Node M C := ⟨n.tree, n.path ++ [c]⟩

/-- The attachments, oldest first: the node covered and the tree that covers it. -/
abbrev Attached (M C : Type) := List (Node M C × M)

variable [DecidableEq M] [DecidableEq C] {t : Attached M C}

/-- What a walk finds at a node: the root of the tree that covers it, if one does. -/
def top : Attached M C → Node M C → Node M C
  | [], n => n
  | (covered, m) :: t, n => if n = covered then top t (.root m) else top t n

def walk (t : Attached M C) : Node M C → List C → Node M C
  | n, [] => n
  | n, c :: cs => walk t (top t (n.child c)) cs

theorem walk_append (n : Node M C) (cs cs' : List C) :
    walk t n (cs ++ cs') = walk t (walk t n cs) cs' := by
  induction cs generalizing n with
  | nil => rfl
  | cons c cs ih => exact ih _

theorem top_append (t' : Attached M C) (n : Node M C) : top (t ++ t') n = top t' (top t n) := by
  induction t generalizing n with
  | nil => rfl
  | cons e t ih =>
    rw [List.cons_append, top, top]
    split
    · exact ih _
    · exact ih _

/-- A walk ends in the tree it started in, or in one that is attached. -/
theorem tree_top (n : Node M C) : (top t n).tree = n.tree ∨ ∃ e ∈ t, (top t n).tree = e.2 := by
  induction t generalizing n with
  | nil => exact .inl rfl
  | cons e t ih =>
    rw [top]
    split
    · rcases ih (.root e.2) with h | ⟨e', he', h⟩
      · exact .inr ⟨e, List.mem_cons_self, h⟩
      · exact .inr ⟨e', List.mem_cons_of_mem e he', h⟩
    · rcases ih n with h | ⟨e', he', h⟩
      · exact .inl h
      · exact .inr ⟨e', List.mem_cons_of_mem e he', h⟩

theorem tree_walk (n : Node M C) (cs : List C) :
    (walk t n cs).tree = n.tree ∨ ∃ e ∈ t, (walk t n cs).tree = e.2 := by
  induction cs generalizing n with
  | nil => exact .inl rfl
  | cons c cs ih =>
    rcases ih (top t (n.child c)) with h | h
    · rw [walk, h]
      exact tree_top (n.child c)
    · exact .inr h

/-! ## Locations -/

/-- Where a node is, when the trees are at `place`. -/
def location (place : M → List C) (n : Node M C) : List C := place n.tree ++ n.path

/-- Every tree is where it was attached. -/
def Located (t : Attached M C) (place : M → List C) : Prop :=
  ∀ e ∈ t, place e.2 = location place e.1

variable {place : M → List C}

omit [DecidableEq M] [DecidableEq C] in
theorem location_child (n : Node M C) (c : C) :
    location place (n.child c) = location place n ++ [c] := by
  simp [location, Node.child]

omit [DecidableEq M] [DecidableEq C] in
theorem location_root (m : M) : location place (.root m) = place m := by
  simp [location, Node.root]

theorem location_top (h : Located t place) (n : Node M C) :
    location place (top t n) = location place n := by
  induction t generalizing n with
  | nil => rfl
  | cons e t ih =>
    have ht : Located t place := fun e' he' => h e' (List.mem_cons_of_mem e he')
    rw [top]
    split
    · next heq =>
      rw [ih ht, location_root, h e List.mem_cons_self, heq]
    · exact ih ht n

/-- A walk ends where it leads. -/
theorem location_walk (h : Located t place) (n : Node M C) (cs : List C) :
    location place (walk t n cs) = location place n ++ cs := by
  induction cs generalizing n with
  | nil => simp [walk]
  | cons c cs ih =>
    calc location place (walk t (top t (n.child c)) cs)
        = location place (top t (n.child c)) ++ cs := ih _
      _ = location place n ++ [c] ++ cs := by rw [location_top h, location_child]
      _ = location place n ++ c :: cs := by simp

/-- The tree a walk ends in was attached on the way. -/
theorem place_walk_prefix (h : Located t place) {r : M} (hr : place r = []) (cs : List C) :
    place (walk t (.root r) cs).tree <+: cs := by
  have hloc := location_walk h (.root r) cs
  rw [location_root, hr, List.nil_append] at hloc
  exact ⟨(walk t (.root r) cs).path, hloc⟩

omit [DecidableEq C] in
/-- Attaching a tree that is nowhere yet. -/
theorem Located.attach (h : Located t place) {m : M} (hfresh : ∀ e ∈ t, e.2 ≠ m ∧ e.1.tree ≠ m)
    {n : Node M C} (hn : n.tree ≠ m) :
    Located (t ++ [(n, m)]) (Function.update place m (location place n)) := by
  have hold : ∀ n' : Node M C, n'.tree ≠ m →
      location (Function.update place m (location place n)) n' = location place n' := by
    intro n' hn'
    unfold location
    rw [Function.update_of_ne hn']
  intro e he
  rcases List.mem_append.mp he with he | he
  · rw [Function.update_of_ne (hfresh e he).1, hold e.1 (hfresh e he).2, h e he]
  · cases List.mem_singleton.mp he
    rw [Function.update_self, hold n hn]

/-! ## One more tree -/

section Attach
variable {covered : Node M C} {m : M}

/-- The new tree is found where the walk comes to the node it covers, and nowhere else. -/
theorem top_attach (n : Node M C) :
    top (t ++ [(covered, m)]) n = if top t n = covered then .root m else top t n := by
  rw [top_append]
  rfl

/-- No walk changes that does not pass the node that is now covered. -/
theorem walk_attach_of_not_prefix (h : Located t place) (n : Node M C) (cs : List C)
    (hnot : ∀ pre, pre <+: cs → pre ≠ [] → location place n ++ pre ≠ location place covered) :
    walk (t ++ [(covered, m)]) n cs = walk t n cs := by
  induction cs generalizing n with
  | nil => rfl
  | cons c cs ih =>
    have hloc : location place (top t (n.child c)) = location place n ++ [c] := by
      rw [location_top h, location_child]
    -- the step would have to come to the covered node, so its path would be that node's
    have hne : top t (n.child c) ≠ covered := by
      intro heq
      refine hnot [c] ⟨cs, rfl⟩ (by simp) ?_
      rw [← heq, hloc]
    rw [walk, walk, top_attach, if_neg hne]
    apply ih _
    intro pre hpre _ heq
    rw [hloc, List.append_assoc] at heq
    exact hnot ([c] ++ pre) (List.cons_prefix_cons.mpr ⟨rfl, hpre⟩) (by simp) heq

/-- The walk to the node that is now covered leads to the root of the new tree. -/
theorem walk_attach_self (h : Located t place) {n : Node M C} {cs : List C} {c : C}
    (hcovered : covered = top t ((walk t n cs).child c)) :
    walk (t ++ [(covered, m)]) n (cs ++ [c]) = .root m := by
  have hloc : location place covered = location place n ++ (cs ++ [c]) := by
    calc location place covered = location place ((walk t n cs).child c) := by
          rw [hcovered, location_top h]
      _ = location place n ++ cs ++ [c] := by rw [location_child, location_walk h]
      _ = location place n ++ (cs ++ [c]) := List.append_assoc _ _ _
  -- the part above is too short to pass it
  have hbelow : walk (t ++ [(covered, m)]) n cs = walk t n cs := by
    apply walk_attach_of_not_prefix h n cs
    intro pre hpre _ heq
    have hlen := congrArg List.length (heq.trans hloc)
    simp only [List.length_append, List.length_cons, List.length_nil] at hlen
    have := hpre.length_le
    omega
  calc walk (t ++ [(covered, m)]) n (cs ++ [c])
      = top (t ++ [(covered, m)]) ((walk t n cs).child c) := by
        rw [walk_append, hbelow]
        rfl
    _ = .root m := by rw [top_attach, if_pos hcovered.symm]

end Attach

end LayerCake.Tree
