import Mathlib.Data.List.Basic

/-
  File trees with symbolic links, and the lookup of a path in one.

  A path is a list of steps. A step that leads to a link is replaced by the steps of the
  link's target, from the directory the link is in, and the lookup goes on with what was
  left of the path behind them. No more than a fixed number of links is followed. The last
  step of the path itself may be exempt (`follow = false`).

  What is proved:
    1. `lookup_concat` — a lookup that does not follow its last step is the lookup of the
       steps before it, all of them followed, and then the last step.
    2. `lookup_follow` — following the last step changes a lookup at most where it ends at a
       link.
    3. `entry_of_lookup` — every name on a path that leads somewhere is the name of an entry.
    4. `lookup_filter_here` — steps that stay where they are may be left out before another
       step, and at the end they ask for a directory (`isDirectory_of_lookup_here`).
-/

namespace LayerCake.Tree

variable {Ino Name : Type}

/-- One step of a path. -/
inductive PathStep (Name : Type) where
  | root
  | here
  | up
  | name (n : Name)
  deriving DecidableEq, Repr

/-- What an inode is. -/
inductive Inode (Ino Name : Type) where
  | directory (parent : Ino) (entry : Name → Option Ino)
  | link (target : List (PathStep Name))
  | other

structure FileTree (Ino Name : Type) where
  root : Ino
  inode : Ino → Inode Ino Name

inductive LookupError where
  | noEntry | notDirectory | tooManyLinks
  deriving DecidableEq, Repr

namespace FileTree
variable (t : FileTree Ino Name)

def isDirectory (i : Ino) : Bool :=
  match t.inode i with
  | .directory .. => true
  | _ => false

def isLink (i : Ino) : Bool :=
  match t.inode i with
  | .link _ => true
  | _ => false

/-- Where a step leads, no link being followed. -/
def child (i : Ino) (step : PathStep Name) : Except LookupError Ino :=
  match t.inode i, step with
  | .directory _ _, .root => .ok t.root
  | .directory _ _, .here => .ok i
  | .directory parent _, .up => .ok parent
  | .directory _ entry, .name n => (entry n).elim (.error .noEntry) .ok
  | _, _ => .error .notDirectory

/-- The lookup up to a link that is followed, where `onLink` takes over. -/
def lookupWith (follow : Bool) (onLink : List (PathStep Name) → Ino → Except LookupError Ino) :
    List (PathStep Name) → Ino → Except LookupError Ino
  | [], i => .ok i
  | step :: rest, i =>
    match t.child i step with
    | .error e => .error e
    | .ok j =>
      match t.inode j with
      | .link target => if rest.isEmpty && !follow then .ok j else onLink (target ++ rest) i
      | _ => lookupWith follow onLink rest j

/-- The lookup that follows at most the given number of links. -/
def lookup (follow : Bool) : Nat → List (PathStep Name) → Ino → Except LookupError Ino
  | 0 => t.lookupWith follow fun _ _ => .error .tooManyLinks
  | links + 1 => t.lookupWith follow (lookup follow links)

section Lookup
variable {t} {follow : Bool} {i j : Ino} {step : PathStep Name} {rest : List (PathStep Name)}

/-- A directory is no link. -/
theorem isLink_of_isDirectory (h : t.isDirectory i = true) : t.isLink i = false := by
  unfold isDirectory at h
  unfold isLink
  cases hinode : t.inode i with
  | directory | other => rfl
  | link =>
    rw [hinode] at h
    cases h

theorem child_here (h : t.isDirectory i = true) : t.child i .here = .ok i := by
  unfold isDirectory at h
  unfold child
  cases hinode : t.inode i with
  | directory => rfl
  | link | other =>
    rw [hinode] at h
    cases h

theorem child_of_not_directory (h : t.isDirectory i = false) (step : PathStep Name) :
    t.child i step = .error .notDirectory := by
  unfold isDirectory at h
  unfold child
  cases hinode : t.inode i with
  | link | other => cases step <;> rfl
  | directory =>
    rw [hinode] at h
    cases h

/-- What is left to do at a link. -/
def lookupLink (t : FileTree Ino Name) (follow : Bool) :
    Nat → List (PathStep Name) → Ino → Except LookupError Ino
  | 0, _, _ => .error .tooManyLinks
  | links + 1, steps, i => t.lookup follow links steps i

theorem lookup_nil (links : Nat) : t.lookup follow links [] i = .ok i := by
  cases links <;> rfl

theorem lookup_error (links : Nat) {e : LookupError} (h : t.child i step = .error e) :
    t.lookup follow links (step :: rest) i = .error e := by
  cases links with
  | zero => rw [lookup, lookupWith, h]
  | succ links => rw [lookup, lookupWith, h]

theorem lookup_step (links : Nat) (h : t.child i step = .ok j) (hj : t.isLink j = false) :
    t.lookup follow links (step :: rest) i = t.lookup follow links rest j := by
  unfold isLink at hj
  cases hinode : t.inode j with
  | link target =>
    rw [hinode] at hj
    cases hj
  | directory | other =>
    cases links with
    | zero =>
      rw [lookup, lookupWith, h]
      simp only [hinode]
    | succ links =>
      rw [lookup, lookupWith, h]
      simp only [hinode]

theorem lookup_link (links : Nat) {target : List (PathStep Name)} (h : t.child i step = .ok j)
    (hj : t.inode j = .link target) : t.lookup follow links (step :: rest) i =
      if rest.isEmpty && !follow then .ok j else t.lookupLink follow links (target ++ rest) i := by
  cases links with
  | zero =>
    rw [lookup, lookupWith, h]
    simp only [hj]
    rfl
  | succ links =>
    rw [lookup, lookupWith, h]
    simp only [hj]
    rfl

theorem isLink_cases (j : Ino) : t.isLink j = false ∨ ∃ target, t.inode j = .link target := by
  unfold isLink
  cases t.inode j with
  | link target => exact .inr ⟨target, rfl⟩
  | directory | other => exact .inl rfl

/-- A lookup makes its way by steps to what is no link, and by links. -/
theorem lookup_induction {P : Nat → List (PathStep Name) → Ino → Prop}
    (nil : ∀ links i, P links [] i)
    (error : ∀ links step rest i e, t.child i step = .error e → P links (step :: rest) i)
    (step : ∀ links step rest i j, t.child i step = .ok j → t.isLink j = false →
      P links rest j → P links (step :: rest) i)
    (link : ∀ links step rest i j target, t.child i step = .ok j → t.inode j = .link target →
      (∀ n, links = n + 1 → ∀ rest', P n (target ++ rest') i) → P links (step :: rest) i)
    (links : Nat) (steps : List (PathStep Name)) (i : Ino) : P links steps i := by
  induction links generalizing steps i with
  | zero =>
    induction steps generalizing i with
    | nil => exact nil 0 i
    | cons s rest ih =>
      cases hc : t.child i s with
      | error e => exact error 0 s rest i e hc
      | ok j =>
        rcases isLink_cases (t := t) j with hj | ⟨target, hj⟩
        · exact step 0 s rest i j hc hj (ih j)
        · exact link 0 s rest i j target hc hj fun n hn => by cases hn
  | succ links ihlinks =>
    induction steps generalizing i with
    | nil => exact nil _ i
    | cons s rest ih =>
      cases hc : t.child i s with
      | error e => exact error _ s rest i e hc
      | ok j =>
        rcases isLink_cases (t := t) j with hj | ⟨target, hj⟩
        · exact step _ s rest i j hc hj (ih j)
        · refine link _ s rest i j target hc hj fun n hn rest' => ?_
          cases hn
          exact ihlinks _ i

/-- The last step is taken from where the steps before it lead. -/
theorem lookup_concat (last : PathStep Name) (links : Nat) (steps : List (PathStep Name))
    (i : Ino) : t.lookup false links (steps ++ [last]) i =
      (t.lookup true links steps i).bind fun j => t.child j last := by
  induction links, steps, i using lookup_induction (t := t) with
  | nil links i =>
    rw [lookup_nil, List.nil_append]
    show _ = t.child i last
    cases hc : t.child i last with
    | error e => exact lookup_error links hc
    | ok j =>
      rcases isLink_cases (t := t) j with hj | ⟨target, hj⟩
      · rw [lookup_step links hc hj, lookup_nil]
      · rw [lookup_link links hc hj]
        rfl
  | error links step rest i e hc =>
    rw [List.cons_append, lookup_error links hc, lookup_error links hc]
    rfl
  | step links step rest i j hc hj ih =>
    rw [List.cons_append, lookup_step links hc hj, lookup_step links hc hj, ih]
  | link links step rest i j target hc hj ih =>
    rw [List.cons_append, lookup_link links hc hj, lookup_link links hc hj, if_neg (by simp),
      if_neg (by simp)]
    cases links with
    | zero => rfl
    | succ links =>
      show t.lookup false links _ i = (t.lookup true links _ i).bind _
      rw [← List.append_assoc, ih links rfl rest]

/-- Where the lookup that does not follow its last step leads to no link, the other leads
there too, and where it fails, the other does. -/
theorem lookup_follow (links : Nat) (steps : List (PathStep Name)) (i : Ino) :
    (∀ e, t.lookup false links steps i = .error e → t.lookup true links steps i = .error e) ∧
    ∀ j, t.lookup false links steps i = .ok j → t.isLink j = false →
      t.lookup true links steps i = .ok j := by
  induction links, steps, i using lookup_induction (t := t) with
  | nil links i =>
    rw [lookup_nil, lookup_nil]
    exact ⟨fun e h => h, fun j h _ => h⟩
  | error links step rest i e hc =>
    rw [lookup_error links hc, lookup_error links hc]
    exact ⟨fun e h => h, fun j h _ => h⟩
  | step links step rest i j hc hj ih =>
    rw [lookup_step links hc hj, lookup_step links hc hj]
    exact ih
  | link links step rest i j target hc hj ih =>
    have htrue : t.lookup true links (step :: rest) i =
        t.lookupLink true links (target ++ rest) i := by
      rw [lookup_link links hc hj, if_neg (by simp)]
    rw [htrue, lookup_link links hc hj]
    cases rest with
    | nil =>
      rw [if_pos (by simp)]
      refine ⟨fun e h => (by cases h), fun j' h hj' => ?_⟩
      cases h
      unfold isLink at hj'
      rw [hj] at hj'
      cases hj'
    | cons s rest =>
      rw [if_neg (by simp)]
      cases links with
      | zero => exact ⟨fun e h => h, fun j h _ => h⟩
      | succ links => exact ih links rfl (s :: rest)

/-- The names on a path that leads somewhere are those of entries. -/
theorem entry_of_lookup (links : Nat) (steps : List (PathStep Name)) (i : Ino) :
    ∀ j, t.lookup follow links steps i = .ok j → ∀ n, .name n ∈ steps →
      ∃ d parent entry, t.inode d = .directory parent entry ∧ entry n ≠ none := by
  have hchild : ∀ {i j : Ino} {n : Name}, t.child i (.name n) = .ok j →
      ∃ parent entry, t.inode i = .directory parent entry ∧ entry n ≠ none := by
    intro i j n h
    unfold child at h
    cases hinode : t.inode i with
    | directory parent entry =>
      refine ⟨parent, entry, rfl, fun e => ?_⟩
      rw [hinode] at h
      simp only [e] at h
      cases h
    | link | other =>
      rw [hinode] at h
      cases h
  induction links, steps, i using lookup_induction (t := t) with
  | nil links i => exact fun j _ n hn => by cases hn
  | error links step rest i e hc =>
    intro j h
    rw [lookup_error links hc] at h
    cases h
  | step links step rest i j hc hj ih =>
    intro j' h n hn
    rw [lookup_step links hc hj] at h
    rcases List.mem_cons.mp hn with rfl | hrest
    · exact ⟨i, hchild hc⟩
    · exact ih j' h n hrest
  | link links step rest i j target hc hj ih =>
    intro j' h n hn
    rw [lookup_link links hc hj] at h
    rcases List.mem_cons.mp hn with rfl | hrest
    · exact ⟨i, hchild hc⟩
    · split at h
      · next hlast =>
        have hnil : rest = [] := by simp_all
        rw [hnil] at hrest
        cases hrest
      · cases links with
        | zero => cases h
        | succ links => exact ih links rfl rest j' h n (List.mem_append_right target hrest)

/-! ### Steps that stay where they are -/

theorem lookup_here_cons (links : Nat) (s : PathStep Name) (rest : List (PathStep Name))
    (i : Ino) : t.lookup follow links (.here :: s :: rest) i =
      t.lookup follow links (s :: rest) i := by
  cases hi : t.isDirectory i with
  | true => exact lookup_step links (child_here hi) (isLink_of_isDirectory hi)
  | false =>
    -- neither step is taken from what is no directory
    rw [lookup_error links (child_of_not_directory hi .here),
      lookup_error links (child_of_not_directory hi s)]

/-- Such a step may be left out before another. -/
theorem lookup_here (s : PathStep Name) (rest : List (PathStep Name)) (links : Nat)
    (pre : List (PathStep Name)) (i : Ino) : t.lookup follow links (pre ++ .here :: s :: rest) i =
      t.lookup follow links (pre ++ s :: rest) i := by
  induction links, pre, i using lookup_induction (t := t) with
  | nil links i => exact lookup_here_cons links s rest i
  | error links step pre i e hc =>
    rw [List.cons_append, List.cons_append, lookup_error links hc, lookup_error links hc]
  | step links step pre i j hc hj ih =>
    rw [List.cons_append, List.cons_append, lookup_step links hc hj, lookup_step links hc hj, ih]
  | link links step pre i j target hc hj ih =>
    rw [List.cons_append, List.cons_append, lookup_link links hc hj, lookup_link links hc hj,
      if_neg (by simp), if_neg (by simp)]
    cases links with
    | zero => rfl
    | succ links =>
      have hrest := ih links rfl pre
      rw [List.append_assoc, List.append_assoc] at hrest
      exact hrest

/-- A path without them leads where the path does. -/
theorem lookup_filter_here [DecidableEq Name] (last : PathStep Name) (links : Nat)
    (steps : List (PathStep Name)) (i : Ino) :
    t.lookup follow links (steps.filter (· ≠ .here) ++ [last]) i =
      t.lookup follow links (steps ++ [last]) i := by
  have hgen : ∀ pre, t.lookup follow links (pre ++ (steps.filter (· ≠ .here) ++ [last])) i =
      t.lookup follow links (pre ++ (steps ++ [last])) i := by
    induction steps with
    | nil => exact fun _ => rfl
    | cons s steps ih =>
      intro pre
      by_cases hs : s = .here
      · -- there is a step behind it, the last one if no other
        obtain ⟨s', rest, hnext⟩ := List.exists_cons_of_ne_nil
          (List.append_ne_nil_of_right_ne_nil steps (List.cons_ne_nil last []))
        have hskip : t.lookup follow links (pre ++ .here :: s' :: rest) i =
            t.lookup follow links (pre ++ s' :: rest) i := lookup_here s' rest links pre i
        rw [hs, List.filter_cons_of_neg (by simp), ih pre, List.cons_append, hnext, hskip]
      · have hmore := ih (pre ++ [s])
        simp only [List.append_assoc, List.singleton_append] at hmore
        rw [List.filter_cons_of_pos (by simpa using hs)]
        exact hmore
  exact hgen []

/-- At the end of a path, such a step asks for a directory. -/
theorem isDirectory_of_lookup_here {links : Nat} {steps : List (PathStep Name)}
    (h : t.lookup false links (steps ++ [.here]) i = .ok j) : t.isDirectory j = true := by
  rw [lookup_concat] at h
  cases hsteps : t.lookup true links steps i with
  | error e =>
    rw [hsteps] at h
    cases h
  | ok k =>
    rw [hsteps] at h
    have hchild : t.child k .here = .ok j := h
    cases hk : t.isDirectory k with
    | false =>
      rw [child_of_not_directory hk] at hchild
      cases hchild
    | true =>
      rw [child_here hk, Except.ok.injEq] at hchild
      exact hchild ▸ hk

end Lookup

end FileTree

end LayerCake.Tree
