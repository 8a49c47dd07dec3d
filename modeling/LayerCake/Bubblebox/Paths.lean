import Mathlib.Data.List.DropRight
import Mathlib.Tactic.Common
import LayerCake.Meowix.Util
import LayerCake.Order.Lexicographic

/-
  Guest paths (`bubblebox/src/platform/linux/paths.rs`, `bubblebox/src/paths.rs`)
  over the unix `std::path` they are built with.

  Correspondence (Rust ↔ Lean):
    `Path::components`, `Component`            ↔ `Path.components`, `Component`
    `PathBuf::push`                            ↔ `Path.push`
    `Path::{is_absolute, parent, file_name}`   ↔ `Path.{isAbsolute, parent, fileName}`
    `GuestInner`, `GuestInner::new`            ↔ `GuestInner`, `GuestInner.new`
    `GuestInner::{components, starts_with}`    ↔ `GuestInner.{components, startsWith}`
    `Ord for GuestInner`                       ↔ `GuestInner.cmp`
    `Guest`                                    ↔ `Guest`, an inner value that `new` built
  `Component::Prefix` does not occur on unix and has no counterpart.

  What is proved: a guest path is the list of its names (`Guest.exists_names`),
  its order is a linear order of that list, `starts_with` is "has as a prefix",
  and what lies between a path and a path underneath it is underneath it.
-/

namespace LayerCake.Bubblebox

open LayerCake.Meowix Std

/-! ## `std::path` -/

/-- `/`. -/
def sep : UInt8 := 47

/-- `.`. -/
def dot : UInt8 := 46

/-- `std::path::Component`, in the order of its variants. -/
inductive Component where
  | rootDir
  | curDir
  | parentDir
  | normal (name : Bytes)
  deriving DecidableEq, Repr

namespace Component

/-- The position of the variant. -/
def rank : Component → Nat
  | rootDir => 0
  | curDir => 1
  | parentDir => 2
  | normal _ => 3

/-- The variant's field. -/
def name : Component → Bytes
  | normal name => name
  | _ => []

/-- The name of a normal component. -/
def asNormal : Component → Option Bytes
  | normal name => some name
  | _ => none

/-- The derived order: by variant, then by field. -/
def cmp : Component → Component → Ordering := compareLex (compareOn rank) (compareOn name)

instance : TransCmp cmp := inferInstanceAs (TransCmp (compareLex _ _))

instance : LawfulEqCmp cmp where
  compare_self := ReflCmp.compare_self
  eq_of_compare {a b} h := by
    obtain ⟨hrank, hname⟩ := compareLex_eq_eq.mp h
    have hr : a.rank = b.rank := LawfulEqOrd.eq_of_compare hrank
    have hn : a.name = b.name := LawfulEqOrd.eq_of_compare hname
    cases a <;> cases b <;> simp_all [rank, name]

end Component

namespace Path

def isAbsolute (path : Bytes) : Bool := path.head? == some sep

/-- Whether the path begins with a `.` component that is kept. -/
def includeCurDir : Bytes → Bool
  | [b] => b == dot
  | b :: c :: _ => b == dot && c == sep
  | [] => false

/-- `parse_single_component`. -/
def parseSingle (piece : Bytes) : Option Component :=
  if piece = [] ∨ piece = [dot] then none
  else if piece = [dot, dot] then some .parentDir
  else some (.normal piece)

/-- The components before the body of the path. -/
def front (path : Bytes) : List Component :=
  if isAbsolute path then [.rootDir] else if includeCurDir path then [.curDir] else []

def components (path : Bytes) : List Component :=
  front path ++ (path.splitOn sep).filterMap parseSingle

/-- The names of the normal components of a path. -/
def normals (path : Bytes) : List Bytes := (components path).filterMap Component.asNormal

/-- `PathBuf::push`. -/
def push (buf path : Bytes) : Bytes :=
  if isAbsolute path then path
  else if buf ≠ [] ∧ buf.getLast? ≠ some sep then buf ++ sep :: path
  else buf ++ path

/-- The pieces at the end of a path that are no components are trimmed. -/
def trimRight (pieces : List Bytes) : List Bytes :=
  pieces.rdropWhile fun piece => (parseSingle piece).isNone

def parent (path : Bytes) : Option Bytes :=
  match (components path).getLast? with
  | none | some .rootDir => none
  | some .curDir => some []
  | some _ =>
    let n := (front path).length
    let pieces := (trimRight ((path.drop n).splitOn sep)).dropLast
    some (path.take n ++ [sep].intercalate (trimRight pieces))

def fileName (path : Bytes) : Option Bytes :=
  match (components path).getLast? with
  | some (.normal name) => some name
  | _ => none

/-- The names a normal component can have. -/
structure IsName (name : Bytes) : Prop where
  ne_nil : name ≠ []
  no_sep : sep ∉ name
  ne_dot : name ≠ [dot]
  ne_dotdot : name ≠ [dot, dot]

/-- The absolute path of a list of names, with no separator to spare. -/
def render (names : List Bytes) : Bytes := sep :: [sep].intercalate names

theorem parseSingle_name {name : Bytes} (h : IsName name) :
    parseSingle name = some (.normal name) := by
  unfold parseSingle
  rw [if_neg (by simp [h.ne_nil, h.ne_dot]), if_neg h.ne_dotdot]

theorem isName_of_parseSingle {piece name : Bytes} (hsep : sep ∉ piece)
    (h : parseSingle piece = some (.normal name)) : IsName name := by
  unfold parseSingle at h
  split at h
  · cases h
  · next hne =>
    split at h
    · cases h
    · next hdd =>
      cases h
      exact ⟨fun e => hne (.inl e), hsep, fun e => hne (.inr e), hdd⟩

theorem sep_not_mem_of_mem_splitOn {path piece : Bytes} (h : piece ∈ path.splitOn sep) :
    sep ∉ piece := by
  induction path generalizing piece with
  | nil =>
    rw [List.splitOn_nil, List.mem_singleton] at h
    simp [h]
  | cons b path ih =>
    rw [List.splitOn_cons_eq_if_modifyHead] at h
    split at h
    · rcases List.mem_cons.mp h with rfl | hmem
      · simp
      · exact ih hmem
    · next hb =>
      have hne : sep ≠ b := fun e => hb (by simp [e])
      cases hp : path.splitOn sep with
      | nil => exact absurd hp (List.splitOn_ne_nil sep path)
      | cons p ps =>
        rw [hp, List.modifyHead_cons] at h
        rcases List.mem_cons.mp h with rfl | hmem
        · intro hsep
          rcases List.mem_cons.mp hsep with e | hin
          · exact hne e
          · exact ih (hp ▸ List.mem_cons_self) hin
        · exact ih (hp ▸ List.mem_cons_of_mem p hmem)

/-- The normal components of a path have names. -/
theorem isName_of_mem_components {path name : Bytes} (h : .normal name ∈ components path) :
    IsName name := by
  unfold components at h
  rcases List.mem_append.mp h with hfront | hbody
  · unfold front at hfront
    split at hfront
    · simp at hfront
    · split at hfront <;> simp at hfront
  · obtain ⟨piece, hpiece, hparse⟩ := List.mem_filterMap.mp hbody
    exact isName_of_parseSingle (sep_not_mem_of_mem_splitOn hpiece) hparse

theorem isName_of_mem_normals {path name : Bytes} (h : name ∈ normals path) : IsName name := by
  obtain ⟨c, hc, hname⟩ := List.mem_filterMap.mp h
  cases c with
  | normal n =>
    cases hname
    exact isName_of_mem_components hc
  | rootDir | curDir | parentDir => cases hname

section Render
variable {names : List Bytes}

theorem filterMap_asNormal (names : List Bytes) :
    (names.map Component.normal).filterMap Component.asNormal = names := by
  induction names with
  | nil => rfl
  | cons n names ih =>
    rw [List.map_cons, List.filterMap_cons, ih]
    rfl

theorem filterMap_parseSingle (h : ∀ n ∈ names, IsName n) :
    names.filterMap parseSingle = names.map .normal := by
  induction names with
  | nil => rfl
  | cons n names ih =>
    rw [List.filterMap_cons, parseSingle_name (h n List.mem_cons_self),
      ih fun m hm => h m (List.mem_cons_of_mem n hm)]
    rfl

theorem splitOn_intercalate_sep (hne : names ≠ []) (h : ∀ n ∈ names, IsName n) :
    ([sep].intercalate names).splitOn sep = names :=
  List.splitOn_intercalate sep (fun n hn => (h n hn).no_sep) hne

theorem isAbsolute_render : isAbsolute (render names) = true := rfl

theorem components_render (h : ∀ n ∈ names, IsName n) :
    components (render names) = .rootDir :: names.map .normal := by
  unfold components front
  rw [if_pos isAbsolute_render, render, List.splitOn_cons_eq_if_modifyHead, if_pos (by simp)]
  cases names with
  | nil => rfl
  | cons n names =>
    rw [splitOn_intercalate_sep (by simp) h, List.filterMap_cons]
    show [.rootDir] ++ (n :: names).filterMap parseSingle = _
    rw [filterMap_parseSingle h]
    rfl

/-- The names among the components of a rendered path. -/
theorem filter_name (h : ∀ n ∈ names, IsName n) :
    ((.rootDir :: names.map .normal).map Component.name).filter (· ≠ []) = names := by
  rw [List.map_cons, List.map_map, List.filter_cons, if_neg (by simp [Component.name])]
  have hmap : names.map (Component.name ∘ .normal) = names := by
    rw [show Component.name ∘ .normal = id from rfl, List.map_id]
  rw [hmap, List.filter_eq_self]
  intro n hn
  simp [(h n hn).ne_nil]

theorem intercalate_concat (hne : names ≠ []) (n : Bytes) :
    [sep].intercalate (names ++ [n]) = [sep].intercalate names ++ sep :: n := by
  induction names with
  | nil => exact absurd rfl hne
  | cons m names ih =>
    cases names with
    | nil => simp
    | cons m' names =>
      calc [sep].intercalate (m :: m' :: (names ++ [n]))
          = m ++ [sep] ++ [sep].intercalate (m' :: names ++ [n]) := List.intercalate_cons_cons
        _ = m ++ [sep] ++ ([sep].intercalate (m' :: names) ++ sep :: n) := by rw [ih (by simp)]
        _ = [sep].intercalate (m :: m' :: names) ++ sep :: n := by
          rw [List.intercalate_cons_cons]
          simp

theorem render_concat (hne : names ≠ []) (n : Bytes) :
    render (names ++ [n]) = render names ++ sep :: n := by
  unfold render
  rw [intercalate_concat hne]
  rfl

/-- The last byte of the path of some names is not a separator. -/
theorem getLast?_render (hne : names ≠ []) (h : ∀ n ∈ names, IsName n) :
    (render names).getLast? ≠ some sep := by
  intro hlast
  -- it is the last byte of the last name, which has none
  have hn := h (names.getLast hne) (List.getLast_mem hne)
  have hdrop : names = names.dropLast ++ [names.getLast hne] :=
    (List.dropLast_concat_getLast hne).symm
  generalize names.getLast hne = n at hn hdrop
  have hmem : sep ∈ n := by
    have hn' : render names = sep :: [sep].intercalate (names.dropLast ++ [n]) := by
      rw [← hdrop]
      rfl
    rw [hn'] at hlast
    by_cases hinit : names.dropLast = []
    · rw [hinit] at hlast
      have : (sep :: n).getLast? = n.getLast? := by
        cases n with
        | nil => exact absurd rfl hn.ne_nil
        | cons b n => rfl
      simp only [List.nil_append, List.intercalate_singleton, this] at hlast
      exact List.mem_of_getLast? hlast
    · rw [intercalate_concat hinit, ← List.cons_append, List.getLast?_append] at hlast
      cases n with
      | nil => exact absurd rfl hn.ne_nil
      | cons b n =>
        have : (sep :: b :: n).getLast? = (b :: n).getLast? := rfl
        rw [this, List.getLast?_cons] at hlast
        simp only [Option.some_or] at hlast
        exact List.mem_of_getLast? (by rw [List.getLast?_cons]; exact hlast)
  exact hn.no_sep hmem

theorem push_render (h : ∀ n ∈ names, IsName n) {n : Bytes} (hn : IsName n) :
    push (render names) n = render (names ++ [n]) := by
  have habs : isAbsolute n = false := by
    cases n with
    | nil => rfl
    | cons b n =>
      have : sep ≠ b := fun e => hn.no_sep (e ▸ List.mem_cons_self)
      simp [isAbsolute, Ne.symm this]
  unfold push
  rw [if_neg (by simp [habs])]
  by_cases hne : names = []
  · subst hne
    rw [if_neg (by simp [render])]
    simp [render]
  · rw [if_pos ⟨by simp [render], getLast?_render hne h⟩, render_concat hne]

theorem trimRight_names (h : ∀ n ∈ names, IsName n) : trimRight names = names := by
  unfold trimRight
  rw [List.rdropWhile_eq_self_iff]
  intro hne
  simp [parseSingle_name (h _ (List.getLast_mem hne))]

theorem getLast?_components_render (hne : names ≠ []) (h : ∀ n ∈ names, IsName n) :
    (components (render names)).getLast? = some (.normal (names.getLast hne)) := by
  rw [components_render h, List.getLast?_cons, List.getLast?_map, List.getLast?_eq_some_getLast hne]
  rfl

theorem fileName_render (hne : names ≠ []) (h : ∀ n ∈ names, IsName n) :
    fileName (render names) = some (names.getLast hne) := by
  unfold fileName
  rw [getLast?_components_render hne h]

theorem parent_render (hne : names ≠ []) (h : ∀ n ∈ names, IsName n) :
    parent (render names) = some (render names.dropLast) := by
  unfold parent
  rw [getLast?_components_render hne h]
  have hfront : (front (render names)).length = 1 := by simp [front, isAbsolute_render]
  have hbody : ((render names).drop 1).splitOn sep = names := splitOn_intercalate_sep hne h
  simp only [hfront, hbody, trimRight_names h]
  rw [trimRight_names fun n hn => h n (List.dropLast_subset names hn)]
  rfl

end Render

end Path

/-! ## Guest paths -/

/-- `errors::GuestPath`. -/
inductive GuestPathError where
  | pathNotAbsolute | pathContainsParent | pathContainsPrefix | noParentDirectory | noFileName
  | invalid
  deriving DecidableEq, Repr

/-- `platform::linux::paths::GuestInner`. -/
structure GuestInner where
  parentDir : Bytes
  fileName : Bytes
  deriving DecidableEq, Repr

namespace GuestInner

/-- One turn of the loop that normalises the path. -/
def normalizeStep (normalized : Bytes) : Component → Except GuestPathError Bytes
  | .rootDir | .curDir => .ok normalized
  | .normal c => .ok (Path.push normalized c)
  | .parentDir => .error .pathContainsParent

def new (path : Bytes) : Except GuestPathError GuestInner := do
  if !Path.isAbsolute path then throw .pathNotAbsolute
  let normalized ← (Path.components path).foldlM normalizeStep [sep]
  let some parent := Path.parent normalized | throw .noParentDirectory
  let .ok parentDir := withCStr PATH_MAX parent | throw .invalid
  let some name := Path.fileName normalized | throw .noFileName
  let .ok fileName := withCStr PATH_COMPONENT_MAX name | throw .invalid
  return { parentDir, fileName }

def components (g : GuestInner) : List Component :=
  Path.components g.parentDir ++ [.normal g.fileName]

/-- The loop of `starts_with`, over what is left of both iterators. -/
def startsWithFrom : List Component → List Component → Bool
  | left :: ls, right :: rs => if left ≠ right then false else startsWithFrom ls rs
  | _, rs => rs.isEmpty

def startsWith (self other : GuestInner) : Bool :=
  startsWithFrom self.components other.components

def cmp (a b : GuestInner) : Ordering := List.compareLex Component.cmp a.components b.components

end GuestInner

/-- `paths::Guest`: there is no other constructor than `new`. -/
structure Guest where
  inner : GuestInner
  built : ∃ path, GuestInner.new path = .ok inner

theorem GuestInner.startsWith_iff {self other : GuestInner} :
    self.startsWith other = true ↔ other.components <+: self.components := by
  unfold startsWith
  generalize self.components = ls
  generalize other.components = rs
  induction ls generalizing rs with
  | nil => cases rs <;> simp [startsWithFrom]
  | cons l ls ih =>
    cases rs with
    | nil => simp [startsWithFrom]
    | cons r rs =>
      rw [startsWithFrom, List.cons_prefix_cons]
      split
      · next hne => simp [Ne.symm hne]
      · next heq =>
        have hlr : l = r := by simpa using heq
        rw [ih, hlr]
        simp

/-- What the loop of `new` makes of the components it has left. -/
theorem GuestInner.normalize_eq {comps : List Component} {acc : List Bytes}
    (hacc : ∀ n ∈ acc, Path.IsName n) (hcomps : ∀ n, .normal n ∈ comps → Path.IsName n) :
    comps.foldlM normalizeStep (Path.render acc) =
      if .parentDir ∈ comps then .error .pathContainsParent
      else .ok (Path.render (acc ++ comps.filterMap Component.asNormal)) := by
  induction comps generalizing acc with
  | nil => simp [pure, Except.pure]
  | cons c comps ih =>
    have hrest : ∀ n, .normal n ∈ comps → Path.IsName n :=
      fun n hn => hcomps n (List.mem_cons_of_mem c hn)
    rw [List.foldlM_cons]
    cases c with
    | rootDir | curDir =>
      show comps.foldlM normalizeStep (Path.render acc) = _
      rw [ih hacc hrest]
      simp [List.filterMap_cons, Component.asNormal]
    | parentDir =>
      rw [if_pos List.mem_cons_self]
      rfl
    | normal n =>
      have hn : Path.IsName n := hcomps n List.mem_cons_self
      have hacc' : ∀ m ∈ acc ++ [n], Path.IsName m := by
        intro m hm
        rcases List.mem_append.mp hm with hm | hm
        · exact hacc m hm
        · exact List.mem_singleton.mp hm ▸ hn
      show comps.foldlM normalizeStep (Path.push (Path.render acc) n) = _
      rw [Path.push_render hacc hn, ih hacc' hrest]
      simp [Component.asNormal]

/-- The values `new` builds: the names of the path, the last of which is the file
name, when the path is absolute and goes up nowhere and both parts fit their buffers. -/
theorem GuestInner.new_eq_ok_iff {path : Bytes} {g : GuestInner} :
    new path = .ok g ↔ Path.isAbsolute path = true ∧ .parentDir ∉ Path.components path ∧
      ∃ names n, Path.normals path = names ++ [n] ∧ g = ⟨Path.render names, n⟩ ∧
        (Path.render names).length < PATH_MAX ∧ 0 ∉ Path.render names ∧
        n.length < PATH_COMPONENT_MAX ∧ 0 ∉ n := by
  have hnormals : ∀ n ∈ Path.normals path, Path.IsName n := fun _ => Path.isName_of_mem_normals
  unfold new
  cases Path.isAbsolute path with
  | false => simp [throw, throwThe, MonadExceptOf.throw, bind, Except.bind]
  | true =>
    have hfold : (Path.components path).foldlM normalizeStep [sep] =
        if .parentDir ∈ Path.components path then .error .pathContainsParent
        else .ok (Path.render (Path.normals path)) :=
      normalize_eq (List.forall_mem_nil _) fun _ => Path.isName_of_mem_components
    rw [hfold]
    by_cases hup : .parentDir ∈ Path.components path
    · simp [hup, bind, Except.bind]
    · rw [if_neg hup]
      rcases List.eq_nil_or_concat (Path.normals path) with hnil | hconcat
      · -- `/` itself has no parent
        rw [hnil]
        have hroot : Path.parent (Path.render []) = none := rfl
        simp [bind, Except.bind, hroot, throw, throwThe, MonadExceptOf.throw]
      · obtain ⟨names, n, hnames⟩ := hconcat
        have hne : names ++ [n] ≠ [] := by simp
        rw [List.concat_eq_append] at hnames
        rw [hnames] at hnormals ⊢
        simp only [bind, Except.bind, Path.parent_render hne hnormals,
          Path.fileName_render hne hnormals, List.dropLast_concat, List.getLast_concat]
        constructor
        · intro h
          rw [if_neg (by simp)] at h
          split at h
          · next parentDir hparent =>
            split at h
            · next fileName hname =>
              cases h
              obtain ⟨rfl, hlen, hnul⟩ := withCStr_eq_ok hparent
              obtain ⟨rfl, hlen', hnul'⟩ := withCStr_eq_ok hname
              exact ⟨trivial, hup, names, fileName, rfl, rfl, hlen, hnul, hlen', hnul'⟩
            · cases h
          · cases h
        · intro h
          obtain ⟨-, -, names', n', heq, rfl, hlen, hnul, hlen', hnul'⟩ := h
          obtain ⟨rfl, hn⟩ := List.append_inj' heq rfl
          cases hn
          rw [if_neg (by simp), withCStr_of_fits hlen hnul, withCStr_of_fits hlen' hnul']
          rfl

/-- A value built by `new` is a list of names, the last of which is the file
name. -/
theorem GuestInner.new_eq_ok {path : Bytes} {g : GuestInner} (h : new path = .ok g) :
    ∃ names n, (∀ m ∈ names ++ [n], Path.IsName m) ∧ g = ⟨Path.render names, n⟩ := by
  obtain ⟨-, -, names, n, hnames, hg, -⟩ := new_eq_ok_iff.mp h
  exact ⟨names, n, fun m hm => Path.isName_of_mem_normals (hnames ▸ hm), hg⟩

namespace Guest

def new (path : Bytes) : Except GuestPathError Guest :=
  match h : GuestInner.new path with
  | .ok inner => .ok ⟨inner, path, h⟩
  | .error e => .error e

def startsWith (self other : Guest) : Bool := self.inner.startsWith other.inner

def components (g : Guest) : List Component := g.inner.components

def cmp (a b : Guest) : Ordering := GuestInner.cmp a.inner b.inner

/-- The names of a guest path, from the root. -/
theorem exists_names (g : Guest) :
    ∃ names n, (∀ m ∈ names ++ [n], Path.IsName m) ∧ g.inner = ⟨Path.render names, n⟩ ∧
      g.components = .rootDir :: (names ++ [n]).map .normal := by
  obtain ⟨path, hpath⟩ := g.built
  obtain ⟨names, n, hnames, hinner⟩ := GuestInner.new_eq_ok hpath
  refine ⟨names, n, hnames, hinner, ?_⟩
  unfold components GuestInner.components
  rw [hinner, Path.components_render fun m hm => hnames m (List.mem_append_left _ hm)]
  simp

theorem components_injective {a b : Guest} (h : a.components = b.components) : a = b := by
  obtain ⟨as, x, -, ha, hca⟩ := a.exists_names
  obtain ⟨bs, y, -, hb, hcb⟩ := b.exists_names
  rw [hca, hcb, List.cons.injEq] at h
  have hnames : as ++ [x] = bs ++ [y] :=
    List.map_injective_iff.mpr (fun _ _ e => by cases e; rfl) h.2
  obtain ⟨rfl, hxy⟩ := List.append_inj' hnames rfl
  cases hxy
  cases a
  cases b
  simp_all

instance : TransCmp cmp := Order.transCmp_on (List.compareLex Component.cmp) components

instance : LawfulEqCmp cmp :=
  Order.lawfulEqCmp_on (List.compareLex Component.cmp) fun _ _ => components_injective

/-- `a` is `b` or an ancestor of `b`, component by component. -/
def Under (b a : Guest) : Prop := a.components <+: b.components

theorem startsWith_iff {b a : Guest} : b.startsWith a = true ↔ b.Under a :=
  GuestInner.startsWith_iff

theorem Under.isLE {b a : Guest} (h : b.Under a) : (cmp a b).isLE = true :=
  Order.isLE_of_prefix h

/-- The names along the path, the file name last. -/
def names (g : Guest) : List Bytes := (g.components.map Component.name).filter (· ≠ [])

theorem names_spec (g : Guest) : (∀ m ∈ g.names, Path.IsName m) ∧
    g.components = .rootDir :: g.names.map .normal ∧
    g.names = g.names.dropLast ++ [g.inner.fileName] ∧
    g.inner.parentDir = Path.render g.names.dropLast := by
  obtain ⟨names, n, hnames, hinner, hcomps⟩ := g.exists_names
  have heq : g.names = names ++ [n] := by
    unfold Guest.names
    rw [hcomps, Path.filter_name hnames]
  rw [heq, List.dropLast_concat, hinner]
  exact ⟨hnames, hcomps, rfl, rfl⟩

theorem under_iff_names {b a : Guest} : b.Under a ↔ a.names <+: b.names := by
  unfold Under
  have hinj : Function.Injective Component.normal := fun _ _ e => by cases e; rfl
  rw [a.names_spec.2.1, b.names_spec.2.1, List.cons_prefix_cons,
    List.prefix_map_iff_of_injective hinj]
  simp

/-- What lies between a path and a path underneath it is underneath it. -/
theorem Under.between {a b c : Guest} (h : c.Under a) (hab : (cmp a b).isLE = true)
    (hbc : (cmp b c).isLE = true) : b.Under a :=
  Order.prefix_of_between h hab hbc

end Guest

end LayerCake.Bubblebox
