import Std.Data.TreeMap.Lemmas
import Mathlib.Algebra.GroupWithZero.Nat
import LayerCake.Bubblebox.Paths
import LayerCake.Meowix.Linux

/-
  Mounts (`bubblebox/src/platform/linux/mounts.rs`) and the mount tree of a
  policy (`bubblebox/src/platform/linux/policy/mounts.rs`, and `Policy::mount_tree`
  in `policy/mod.rs`).

  Correspondence (Rust ↔ Lean):
    `MountInner`, `BindMount`, `UpperDirsInner`, `File` ↔ the types of the same name
    `Mount::is_synthetic`                               ↔ `Mount.isSynthetic`
    `MountAttributes::into_mount_attr`                  ↔ `MountAttributes.intoMountAttr`
    `BTreeMap<Guest, Mount>`                            ↔ `MountMap`
    `is_valid_mount_tree`                               ↔ `isValidMountTree`
    `MountTree`, its `mount`, `unmount`, `clear`        ↔ `MountTree`, …
    `Policy::mount_tree`, and a series of its calls     ↔ `Policy.configureMountTree`,
                                                          `Policy.mountEach`
  The named constructors of `Mount` are left out: every value they build is one of
  the values of `MountInner`.

  What is proved:
    1. `isValidMountTree_spec` — the stack loop accepts a tree exactly when nothing
       lies underneath a non-synthetic mount, and counts the host mounts of its
       overlays.
    2. `Policy.mountEach_perm` — mounts at distinct paths make the same tree in
       every order, or none.
-/

namespace LayerCake.Bubblebox

open LayerCake.Meowix LayerCake.Linux Std

/-! ## Mounts -/

/-- `mode::Mode`. -/
abbrev Mode := UInt32

structure MountAttributes where
  readOnly : Bool
  noSetuid : Bool
  noDevices : Bool
  noExecution : Bool
  noSymlinkFollowing : Bool
  deriving DecidableEq, Repr

namespace MountAttributes

def intoMountAttr (self : MountAttributes) : UInt32 :=
  (if self.readOnly then MOUNT_ATTR_RDONLY else 0) |||
  (if self.noSetuid then MOUNT_ATTR_NOSUID else 0) |||
  (if self.noDevices then MOUNT_ATTR_NODEV else 0) |||
  (if self.noExecution then MOUNT_ATTR_NOEXEC else 0) |||
  (if self.noSymlinkFollowing then MOUNT_ATTR_NOSYMFOLLOW else 0)

end MountAttributes

inductive TmpfsSize where
  | unlimited
  | bytes (bytes : UInt64)
  | percent (percent : UInt64)
  deriving DecidableEq, Repr

inductive ProcHidepid where
  | off | noAccess | invisible | ptraceable
  deriving DecidableEq, Repr

inductive ProcSubset where
  | full | pid
  deriving DecidableEq, Repr

inductive ProcPidNamespace where
  | guest
  | fd (fd : RawFd)
  deriving DecidableEq, Repr

inductive Owner where
  | user
  deriving DecidableEq, Repr

/-- `UpperDirsInner`. -/
inductive UpperDirs where
  | fd (parent : RawFd) (upperdir : Bytes) (upperdirFd : RawFd) (workdir : Bytes)
      (workdirFd : RawFd)
  | tmpfs (size : TmpfsSize) (maxInodes : Option UInt64)
  deriving DecidableEq, Repr

inductive BindMount where
  | file (dirfd : RawFd) (name : Bytes) (fd : RawFd) (attributes : MountAttributes)
      (isSymlink : Bool)
  | directory (fd : RawFd) (attributes : MountAttributes) (isRecursive : Bool)
  deriving DecidableEq, Repr

structure File where
  contents : Bytes
  owner : Owner
  permissions : Mode
  deriving DecidableEq, Repr

/-- `MountInner`. -/
inductive Mount where
  | bind (mount : BindMount)
  | procfs (hidepid : ProcHidepid) (gid : Option UInt32) (subset : ProcSubset)
      (namespace_ : ProcPidNamespace) (attributes : MountAttributes)
  | mqueue (attributes : MountAttributes)
  | file (file : File)
  | symlink (source : Guest)
  | emptyDirectory (owner : Owner) (permissions : Mode)
  | tmpfs (size : TmpfsSize) (maxInodes : Option UInt64) (owner : Owner) (permissions : Mode)
      (attributes : MountAttributes)
  | overlay (lowerdirs datadirs : List RawFd) (upperdirs : Option UpperDirs)
      (attributes : MountAttributes)

namespace Mount

/-- Bind mounts and overlays that write to the host are not synthetic. -/
def isSynthetic : Mount → Bool
  | bind _ => false
  | overlay _ _ (some (.fd ..)) _ => false
  | _ => true

/-- What a mount adds to the count of host mounts. -/
def hostMounts : Mount → Nat
  | overlay lowerdirs datadirs upperdirs _ =>
    lowerdirs.length + datadirs.length + if upperdirs.isSome then 1 else 0
  | _ => 0

end Mount

/-! ## The mount tree -/

/-- `BTreeMap<Guest, Mount>`. -/
abbrev MountMap := TreeMap Guest Mount Guest.cmp

/-- `while let Some((current, _)) = stack.pop() && !destination.starts_with(current) {}`:
the entry the loop stops at is discarded as well. -/
def unwind (destination : Guest) : List (Guest × Bool) → List (Guest × Bool)
  | [] => []
  | (current, _) :: stack =>
    if !destination.startsWith current then unwind destination stack else stack

/-- The loop of `is_valid_mount_tree`, with the stack's top first. -/
def validateFrom (stack : List (Guest × Bool)) (hostMountCount : Nat) :
    List (Guest × Mount) → Option Nat
  | [] => some hostMountCount
  | (destination, source) :: mounts =>
    let hostMountCount := hostMountCount + source.hostMounts
    match stack with
    | [] => validateFrom [(destination, source.isSynthetic)] hostMountCount mounts
    | (current, isSynthetic) :: _ =>
      if destination.startsWith current then
        if !isSynthetic then none
        else validateFrom ((destination, source.isSynthetic) :: stack) hostMountCount mounts
      else
        validateFrom ((destination, source.isSynthetic) :: unwind destination stack)
          hostMountCount mounts

def isValidMountTree (mounts : MountMap) : Option Nat := validateFrom [] 0 mounts.toList

structure MountTree where
  tree : MountMap
  hostMountCount : Nat

namespace MountTree

def empty : MountTree := ⟨∅, 0⟩

def size (self : MountTree) : Nat := self.tree.size

def mount (self : MountTree) (mount : Mount) (path : Guest) : MountTree :=
  { self with tree := self.tree.insert path mount }

def unmount (self : MountTree) (path : Guest) : MountTree :=
  { self with tree := self.tree.erase path }

def clear (self : MountTree) : MountTree := { self with tree := ∅ }

/-- `is_valid`, which refreshes the count of a valid tree. -/
def isValid (self : MountTree) : Bool × MountTree :=
  match isValidMountTree self.tree with
  | some hostMountCount => (true, { self with hostMountCount })
  | none => (false, self)

end MountTree

/-- The mount tree of a policy. Every way of building a policy revalidates the
tree, so that it is valid and its count is its own. -/
structure Policy where
  mountTree : MountTree
  valid : isValidMountTree mountTree.tree = some mountTree.hostMountCount

namespace Policy

/-- `Policy::default`. -/
def default : Policy := ⟨.empty, rfl⟩

theorem valid_of_isValid {t t' : MountTree} (h : t.isValid = (true, t')) :
    isValidMountTree t'.tree = some t'.hostMountCount := by
  unfold MountTree.isValid at h
  split at h
  · next n hn =>
    cases h
    exact hn
  · cases h

/-- `Policy::mount_tree`; `none` is `InvalidMountPolicy`. -/
def configureMountTree (self : Policy) (configure : MountTree → MountTree) : Option Policy :=
  match h : (configure self.mountTree).isValid with
  | (true, newMounts) => some ⟨newMounts, valid_of_isValid h⟩
  | (false, _) => none

end Policy

/-! ## The loop -/

/-- The loop only ever looks at the top of the stack, and that is the entry before. -/
theorem validateFrom_isSome (mounts : List (Guest × Mount)) :
    ∀ (prev : Guest × Mount) (stack : List (Guest × Bool)) (n : Nat),
    (validateFrom ((prev.1, prev.2.isSynthetic) :: stack) n mounts).isSome = true ↔
      (prev :: mounts).IsChain fun a b => b.1.Under a.1 → a.2.isSynthetic = true := by
  induction mounts with
  | nil => intro prev stack n; simp [validateFrom]
  | cons m mounts ih =>
    intro prev stack n
    rw [List.isChain_cons_cons]
    unfold validateFrom
    dsimp only
    split
    · next hunder =>
      have hu : m.1.Under prev.1 := Guest.startsWith_iff.mp hunder
      split
      · next hsyn =>
        have : prev.2.isSynthetic = false := by simpa using hsyn
        simp [hu, this]
      · next hsyn =>
        have : prev.2.isSynthetic = true := by simpa using hsyn
        rw [ih m]
        simp [this]
    · next hunder =>
      have hu : ¬ m.1.Under prev.1 := fun hu => hunder (Guest.startsWith_iff.mpr hu)
      rw [ih m]
      simp [hu]

/-- What the loop returns, it counted. -/
theorem validateFrom_count (mounts : List (Guest × Mount)) :
    ∀ (stack : List (Guest × Bool)) (count n : Nat), validateFrom stack count mounts = some n →
      n = count + (mounts.map fun m => m.2.hostMounts).sum := by
  induction mounts with
  | nil =>
    intro stack count n h
    cases h
    simp
  | cons m mounts ih =>
    intro stack count n h
    -- whatever becomes of the stack, the loop goes on with the larger count
    have hgo : ∃ stack', validateFrom stack' (count + m.2.hostMounts) mounts = some n := by
      unfold validateFrom at h
      dsimp only at h
      split at h
      · exact ⟨_, h⟩
      · split at h
        · split at h
          · cases h
          · exact ⟨_, h⟩
        · exact ⟨_, h⟩
    obtain ⟨stack', hrest⟩ := hgo
    rw [ih stack' _ n hrest, List.map_cons, List.sum_cons]
    omega

/-- The mounts of a tree, in the order of their destinations. -/
theorem MountMap.sorted (mounts : MountMap) :
    mounts.toList.Pairwise fun a b => Guest.cmp a.1 b.1 = .lt :=
  TreeMap.ordered_keys_toList

/-- For a sorted tree, the chain condition of the loop holds of every two mounts. -/
theorem isValidMountTree_isSome (mounts : MountMap) :
    (isValidMountTree mounts).isSome = true ↔
      mounts.toList.Pairwise fun a b => b.1.Under a.1 → a.2.isSynthetic = true := by
  have hconvex : ∀ a b c : Guest × Mount, Guest.cmp a.1 b.1 = .lt → Guest.cmp b.1 c.1 = .lt →
      c.1.Under a.1 → b.1.Under a.1 :=
    fun a b c hab hbc h => h.between (by rw [hab]; rfl) (by rw [hbc]; rfl)
  -- the loop compares neighbours only; in a sorted list that is enough
  have hchain := Order.pairwise_iff_isChain_of_convex
    (P := fun a : Guest × Mount => a.2.isSynthetic = true) hconvex mounts.sorted
  rw [hchain]
  unfold isValidMountTree
  cases mounts.toList with
  | nil => simp [validateFrom]
  | cons m ms => exact validateFrom_isSome ms m [] _

/-- Two mounts of a policy are in the order of their destinations, and the first is
synthetic if the second lies underneath it. -/
theorem Policy.ordered (policy : Policy) {j k : Nat} {a b : Guest × Mount} (hjk : j < k)
    (ha : policy.mountTree.tree.toList[j]? = some a)
    (hb : policy.mountTree.tree.toList[k]? = some b) :
    ¬ a.1.Under b.1 ∧ (b.1.Under a.1 → a.2.isSynthetic = true) := by
  obtain ⟨hj, rfl⟩ := List.getElem?_eq_some_iff.mp ha
  obtain ⟨hk, rfl⟩ := List.getElem?_eq_some_iff.mp hb
  have hvalid := (isValidMountTree_isSome policy.mountTree.tree).mp (by rw [policy.valid]; rfl)
  have hlt := List.pairwise_iff_getElem.mp policy.mountTree.tree.sorted j k hj hk hjk
  refine ⟨fun hunder => ?_, List.pairwise_iff_getElem.mp hvalid j k hj hk hjk⟩
  have hle := hunder.isLE
  rw [OrientedCmp.gt_of_lt hlt] at hle
  cases hle

/-- For a map, the condition can be read off its entries, in whatever order. -/
theorem isValidMountTree_isSome_iff (mounts : MountMap) :
    (isValidMountTree mounts).isSome = true ↔
      ∀ (a : Guest) (source : Mount) (b : Guest) (target : Mount), mounts[a]? = some source →
        mounts[b]? = some target → a ≠ b → b.Under a → source.isSynthetic = true := by
  rw [isValidMountTree_isSome]
  constructor
  · intro hpair a source b target ha hb hne hunder
    have hmem₁ : (a, source) ∈ mounts.toList := TreeMap.mem_toList_iff_getElem?_eq_some.mpr ha
    have hmem₂ : (b, target) ∈ mounts.toList := TreeMap.mem_toList_iff_getElem?_eq_some.mpr hb
    have hboth := List.pairwise_and_iff.mpr ⟨mounts.sorted, hpair⟩
    rcases Order.rel_or_rel_of_pairwise hboth hmem₁ hmem₂ (by simp [hne]) with h | h
    · exact h.2 hunder
    · -- the ancestor does not come after its descendant
      have hle := hunder.isLE
      have hgt : Guest.cmp a b = .gt := OrientedCmp.gt_of_lt h.1
      rw [hgt] at hle
      cases hle
  · intro hall
    apply (List.Pairwise.and_mem.mp mounts.sorted).imp
    intro a b hk hunder
    obtain ⟨hma, hmb, hlt⟩ := hk
    have hne : a.1 ≠ b.1 := by
      intro he
      have hself : Guest.cmp b.1 b.1 = .eq := ReflCmp.compare_self
      rw [he, hself] at hlt
      cases hlt
    exact hall a.1 a.2 b.1 b.2 (TreeMap.mem_toList_iff_getElem?_eq_some.mp hma)
      (TreeMap.mem_toList_iff_getElem?_eq_some.mp hmb) hne hunder

/-- For every map, the loop accepts exactly when no destination lies underneath
another whose mount is not synthetic, and the count it returns is that of the host
mounts of the overlays. -/
theorem isValidMountTree_spec (mounts : MountMap) :
    ((isValidMountTree mounts).isSome = true ↔
      ¬ ∃ a b source, a ≠ b ∧ b.Under a ∧ mounts[a]? = some source ∧ b ∈ mounts ∧
        source.isSynthetic = false) ∧
    ∀ n, isValidMountTree mounts = some n →
      n = (mounts.toList.map fun m => m.2.hostMounts).sum := by
  refine ⟨?_, fun n h => by simpa using validateFrom_count mounts.toList [] 0 n h⟩
  rw [isValidMountTree_isSome_iff]
  constructor
  · intro hall h
    obtain ⟨a, b, source, hne, hunder, ha, hb, hsyn⟩ := h
    obtain ⟨target, hb⟩ := Option.isSome_iff_exists.mp (TreeMap.mem_iff_isSome_getElem?.mp hb)
    have := hall a source b target ha hb hne hunder
    rw [hsyn] at this
    cases this
  · intro hno a source b target ha hb hne hunder
    by_contra hsyn
    refine hno ⟨a, b, source, hne, hunder, ha, ?_, by simpa using hsyn⟩
    rw [TreeMap.mem_iff_isSome_getElem?, hb]
    rfl

/-! ## The order of the edits -/

/-- `Policy::mount_tree` called once for each pair. -/
def Policy.mountEach (self : Policy) (pairs : List (Guest × Mount)) : Option Policy :=
  pairs.foldlM (fun policy pair => policy.configureMountTree fun tree => tree.mount pair.2 pair.1)
    self

theorem Policy.mountEach_cons (self : Policy) (pair : Guest × Mount)
    (pairs : List (Guest × Mount)) :
    self.mountEach (pair :: pairs) =
      (self.configureMountTree fun tree => tree.mount pair.2 pair.1).bind fun policy =>
        policy.mountEach pairs := rfl

/-- The tree holds these pairs and no others. -/
def MountMap.Holds (mounts : MountMap) (pairs : List (Guest × Mount)) : Prop :=
  ∀ path mount, mounts[path]? = some mount ↔ (path, mount) ∈ pairs

/-- Nothing lies underneath a mount that is not synthetic. -/
def AllSynthetic (pairs : List (Guest × Mount)) : Prop :=
  ∀ a ∈ pairs, ∀ b ∈ pairs, a.1 ≠ b.1 → b.1.Under a.1 → a.2.isSynthetic = true

theorem AllSynthetic.subset {pairs more : List (Guest × Mount)} (h : AllSynthetic more)
    (hsub : pairs ⊆ more) : AllSynthetic pairs :=
  fun a ha b hb => h a (hsub ha) b (hsub hb)

namespace MountMap.Holds
variable {mounts : MountMap} {pairs : List (Guest × Mount)}

theorem isValid_iff (h : mounts.Holds pairs) :
    (isValidMountTree mounts).isSome = true ↔ AllSynthetic pairs := by
  rw [isValidMountTree_isSome_iff]
  constructor
  · intro hall a ha b hb
    exact hall a.1 a.2 b.1 b.2 ((h a.1 a.2).mpr ha) ((h b.1 b.2).mpr hb)
  · intro hall a source b target ha hb
    exact hall (a, source) ((h a source).mp ha) (b, target) ((h b target).mp hb)

/-- A mount at a path the tree does not have yet. -/
theorem insert {pair : Guest × Mount} (h : mounts.Holds pairs)
    (hnew : pair.1 ∉ pairs.map Prod.fst) :
    MountMap.Holds (TreeMap.insert mounts pair.1 pair.2) (pairs ++ [pair]) := by
  intro path mount
  rw [TreeMap.getElem?_insert, List.mem_append, List.mem_singleton]
  split
  · next heq =>
    have hpath : pair.1 = path := LawfulEqCmp.eq_of_compare heq
    subst hpath
    constructor
    · intro hmount
      cases hmount
      exact .inr rfl
    · intro hmem
      rcases hmem with hmem | hmem
      · exact absurd (List.mem_map_of_mem hmem) hnew
      · exact congrArg some (congrArg Prod.snd hmem).symm
  · next hne =>
    rw [h path mount]
    constructor
    · exact .inl
    · intro hmem
      rcases hmem with hmem | hmem
      · exact hmem
      · cases hmem
        exact absurd ReflCmp.compare_self hne

/-- Trees that hold the same pairs are the same. -/
theorem toList_eq {others : MountMap} {more : List (Guest × Mount)} (h : mounts.Holds pairs)
    (h' : others.Holds more) (hperm : pairs.Perm more) : mounts.toList = others.toList := by
  have hequiv : mounts.Equiv others := by
    apply TreeMap.Equiv.of_forall_constGet?_eq
    intro path
    ext mount
    show mounts[path]? = some mount ↔ others[path]? = some mount
    rw [h path mount, h' path mount]
    exact hperm.mem_iff
  exact hequiv.toList_eq

end MountMap.Holds

/-- Where the edited tree is valid, it is the policy's. -/
theorem Policy.configureMountTree_eq (self : Policy) (configure : MountTree → MountTree) :
    ((self.configureMountTree configure).isSome = true ↔
      (isValidMountTree (configure self.mountTree).tree).isSome = true) ∧
    ∀ policy, self.configureMountTree configure = some policy →
      policy.mountTree.tree = (configure self.mountTree).tree := by
  unfold configureMountTree
  split
  · next newMounts hvalid =>
    unfold MountTree.isValid at hvalid
    split at hvalid
    · next n hn =>
      cases hvalid
      refine ⟨by simp [hn], fun policy hpolicy => ?_⟩
      cases hpolicy
      rfl
    · cases hvalid
  · next newMounts hvalid =>
    unfold MountTree.isValid at hvalid
    split at hvalid
    · cases hvalid
    · next hn => exact ⟨by simp [hn], fun _ hpolicy => by cases hpolicy⟩

/-- A policy that mounts one pair after another accepts them all exactly when the last
tree is valid: what is removed from a valid tree leaves a valid tree. -/
theorem Policy.mountEach_spec {pairs : List (Guest × Mount)} :
    ∀ {self : Policy} {before : List (Guest × Mount)}, self.mountTree.tree.Holds before →
      ((before ++ pairs).map Prod.fst).Nodup →
      ((self.mountEach pairs).isSome = true ↔ AllSynthetic (before ++ pairs)) ∧
      ∀ policy, self.mountEach pairs = some policy →
        MountMap.Holds policy.mountTree.tree (before ++ pairs) := by
  induction pairs with
  | nil =>
    intro self before hbefore _
    rw [List.append_nil]
    refine ⟨?_, fun policy hpolicy => ?_⟩
    · have hself := hbefore.isValid_iff
      rw [self.valid] at hself
      exact hself
    · cases hpolicy
      exact hbefore
  | cons pair pairs ih =>
    intro self before hbefore hnodup
    have hsplit : before ++ pair :: pairs = before ++ [pair] ++ pairs := by simp
    have hnew : pair.1 ∉ before.map Prod.fst := by
      rw [List.map_append, List.map_cons, List.nodup_append] at hnodup
      exact fun hmem => hnodup.2.2 _ hmem _ List.mem_cons_self rfl
    obtain ⟨hsome, htree⟩ := self.configureMountTree_eq fun tree => tree.mount pair.2 pair.1
    have hholds := hbefore.insert hnew
    have hstep : (self.configureMountTree fun tree => tree.mount pair.2 pair.1).isSome = true ↔
        AllSynthetic (before ++ [pair]) := hsome.trans hholds.isValid_iff
    rw [mountEach_cons]
    cases hnext : self.configureMountTree fun tree => tree.mount pair.2 pair.1 with
    | none =>
      rw [hnext] at hstep
      refine ⟨⟨fun h => ?_, fun h => ?_⟩, fun policy hpolicy => ?_⟩
      · cases h
      · exact absurd (hstep.mpr (h.subset (by simp))) (by simp)
      · cases hpolicy
    | some next =>
      have hheld : MountMap.Holds next.mountTree.tree (before ++ [pair]) :=
        htree next hnext ▸ hholds
      rw [hsplit] at hnodup ⊢
      exact ih hheld hnodup

/-- For every list of pairs with distinct paths and every two permutations of it, mounting
one pair after another from an empty tree fails in both orders, or succeeds in both with
the same tree and the same count. -/
theorem Policy.mountEach_perm (pairs xs ys : List (Guest × Mount))
    (hpairs : (pairs.map Prod.fst).Nodup) (hx : xs.Perm pairs) (hy : ys.Perm pairs)
    (self : Policy) (hempty : self.mountTree.tree.toList = []) :
    (self.mountEach xs = none ∧ self.mountEach ys = none) ∨
    ∃ p q, self.mountEach xs = some p ∧ self.mountEach ys = some q ∧
      p.mountTree.tree.toList = q.mountTree.tree.toList ∧
      p.mountTree.hostMountCount = q.mountTree.hostMountCount := by
  have hself : self.mountTree.tree.Holds [] := by
    intro path mount
    rw [← TreeMap.mem_toList_iff_getElem?_eq_some, hempty]
  obtain ⟨hvalid, htree⟩ := mountEach_spec hself ((hx.map Prod.fst).nodup_iff.mpr hpairs)
  obtain ⟨hvalid', htree'⟩ := mountEach_spec hself ((hy.map Prod.fst).nodup_iff.mpr hpairs)
  have hxy : xs.Perm ys := hx.trans hy.symm
  have hboth : (self.mountEach xs).isSome = true ↔ (self.mountEach ys).isSome = true := by
    rw [hvalid, hvalid']
    exact ⟨fun h => h.subset hxy.symm.subset, fun h => h.subset hxy.subset⟩
  cases hp : self.mountEach xs with
  | none =>
    rw [hp] at hboth
    exact .inl ⟨rfl, by simpa using hboth⟩
  | some p =>
    rw [hp] at hboth
    obtain ⟨q, hq⟩ := Option.isSome_iff_exists.mp (hboth.mp rfl)
    have htrees := (htree p hp).toList_eq (htree' q hq) hxy
    refine .inr ⟨p, q, rfl, hq, htrees, ?_⟩
    -- both counts are those of the one tree
    have hcount : some p.mountTree.hostMountCount = some q.mountTree.hostMountCount := by
      rw [← p.valid, ← q.valid]
      unfold isValidMountTree
      rw [htrees]
    exact Option.some.inj hcount

/-- A directory and a directory inside of it, in either order. -/
theorem Policy.mountEach_perm_nested :
    ∃ outer inner : Guest, outer ≠ inner ∧ inner.Under outer ∧
      ((default.mountEach [(outer, .emptyDirectory .user 0), (inner, .emptyDirectory .user 0)] =
          none ∧
        default.mountEach [(inner, .emptyDirectory .user 0), (outer, .emptyDirectory .user 0)] =
          none) ∨
      ∃ p q,
        default.mountEach [(outer, .emptyDirectory .user 0), (inner, .emptyDirectory .user 0)] =
          some p ∧
        default.mountEach [(inner, .emptyDirectory .user 0), (outer, .emptyDirectory .user 0)] =
          some q ∧
        p.mountTree.tree.toList = q.mountTree.tree.toList ∧
        p.mountTree.hostMountCount = q.mountTree.hostMountCount) := by
  let outer : Guest := ⟨⟨ascii "/", ascii "srv"⟩, ascii "/srv", by decide⟩
  let inner : Guest := ⟨⟨ascii "/srv", ascii "www"⟩, ascii "/srv/www", by decide⟩
  have hne : outer ≠ inner := fun h => absurd (congrArg Guest.inner h) (by decide)
  refine ⟨outer, inner, hne, Guest.startsWith_iff.mp (by decide), ?_⟩
  exact mountEach_perm _ _ _ (by simp [hne]) (.refl _) (.swap _ _ _) default rfl

end LayerCake.Bubblebox
