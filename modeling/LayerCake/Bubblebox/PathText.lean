import LayerCake.Bubblebox.Paths

/-
  The text of a path and its components (`std::path`).

  Correspondence (Rust ↔ Lean):
    `Component::as_os_str`           ↔ `Component.text`
    `FromIterator for PathBuf`       ↔ `Path.collect`
    `Path::{strip_prefix, trim_prefix}` ↔ `Path.{stripPrefix, trimPrefix}`
  A path is the pieces between its separators. What is left of a path when a prefix is
  taken off is a part of its text, trimmed on both sides; where the prefix has no
  components, only the end is trimmed.

  What is proved: the components of a path depend on its pieces only
  (`components_intercalate`); those that are collected are the components of the result
  (`components_collect`); and a prefix that is taken off, pushed before what is left, gives
  the components back (`components_push_trimPrefix`).
-/

namespace LayerCake.Bubblebox

open LayerCake.Meowix

/-- `Component::as_os_str`. -/
def Component.text : Component → Bytes
  | rootDir => [sep]
  | curDir => [dot]
  | parentDir => [dot, dot]
  | normal name => name

namespace Path

/-- `PathBuf::from_iter`, of components. -/
def collect (components : List Component) : Bytes :=
  components.foldl (fun buf component => push buf component.text) []

/-- Whether a piece is no component. -/
def isBlank (piece : Bytes) : Bool := (parseSingle piece).isNone

/-- The pieces that are left once `n` of them were taken as components. -/
def dropComponents : Nat → List Bytes → List Bytes
  | 0, pieces => pieces
  | _ + 1, [] => []
  | n + 1, piece :: pieces =>
    if isBlank piece then dropComponents (n + 1) pieces else dropComponents n pieces

/-- `strip_prefix`. -/
def stripPrefix (path base : Bytes) : Option Bytes :=
  let n := (front path).length
  if components base <+: components path then
    if components base = [] then
      some (path.take n ++ [sep].intercalate (trimRight ((path.drop n).splitOn sep)))
    else
      some ([sep].intercalate (trimRight ((dropComponents ((components base).length - n)
        ((path.drop n).splitOn sep)).dropWhile isBlank)))
  else none

/-- `trim_prefix`. -/
def trimPrefix (path base : Bytes) : Bytes := (stripPrefix path base).getD path

/-! ## Pieces -/

/-- The front that the pieces of a path have. -/
def frontOf : List Bytes → List Component
  | [] :: _ :: _ => [.rootDir]
  | piece :: _ => if piece = [dot] then [.curDir] else []
  | [] => []

/-- The pieces of some text: there are some, and none has a separator. -/
structure Pieces (pieces : List Bytes) : Prop where
  ne_nil : pieces ≠ []
  no_sep : ∀ p ∈ pieces, sep ∉ p

theorem pieces_splitOn (path : Bytes) : Pieces (path.splitOn sep) :=
  ⟨List.splitOn_ne_nil sep path, fun _ => sep_not_mem_of_mem_splitOn⟩

theorem intercalate_cons (piece : Bytes) (pieces : List Bytes) :
    [sep].intercalate (piece :: pieces) =
      piece ++ if pieces = [] then [] else sep :: [sep].intercalate pieces := by
  cases pieces with
  | nil => simp
  | cons p ps =>
    rw [List.intercalate_cons_cons, if_neg (List.cons_ne_nil p ps)]
    simp

theorem front_intercalate {pieces : List Bytes} (h : Pieces pieces) :
    front ([sep].intercalate pieces) = frontOf pieces := by
  cases pieces with
  | nil => exact absurd rfl h.ne_nil
  | cons piece pieces =>
    have hsep : sep ∉ piece := h.no_sep piece List.mem_cons_self
    rw [intercalate_cons]
    cases piece with
    | nil =>
      cases pieces with
      | nil => rfl
      | cons p ps => rfl
    | cons b piece =>
      have hb : b ≠ sep := fun e => hsep (e ▸ List.mem_cons_self)
      have habs : isAbsolute (b :: piece ++
          if pieces = [] then [] else sep :: [sep].intercalate pieces) = false := by
        simp [isAbsolute, hb]
      unfold front
      rw [habs]
      show (if includeCurDir _ = true then [Component.curDir] else []) =
        if b :: piece = [dot] then [Component.curDir] else []
      cases piece with
      | nil =>
        split
        · simp [includeCurDir]
        · simp [includeCurDir]
      | cons c piece =>
        have hc : c ≠ sep := fun e => hsep (e ▸ List.mem_cons_of_mem b List.mem_cons_self)
        simp [includeCurDir, hc]

theorem front_eq (path : Bytes) : front path = frontOf (path.splitOn sep) := by
  have h := front_intercalate (pieces_splitOn path)
  rwa [List.intercalate_splitOn] at h

theorem components_intercalate {pieces : List Bytes} (h : Pieces pieces) :
    components ([sep].intercalate pieces) = frontOf pieces ++ pieces.filterMap parseSingle := by
  unfold components
  rw [front_intercalate h, List.splitOn_intercalate sep h.no_sep h.ne_nil]

/-! ## The components of a path -/

/-- A component whose text is a piece that parses to it. -/
def InBody (c : Component) : Prop := sep ∉ c.text ∧ parseSingle c.text = some c

/-- Components as paths have them: of the body, but for the first. -/
inductive Canonical : List Component → Prop
  | relative {body : List Component} (h : ∀ c ∈ body, InBody c) : Canonical body
  | absolute {body : List Component} (h : ∀ c ∈ body, InBody c) : Canonical (.rootDir :: body)
  | current {body : List Component} (h : ∀ c ∈ body, InBody c) : Canonical (.curDir :: body)

/-- The pieces that components are written with. -/
def piecesOf : List Component → List Bytes
  | [] => [[]]
  | [.rootDir] => [[], []]
  | .rootDir :: body => [] :: body.map Component.text
  | body => body.map Component.text

theorem parseSingle_eq_some {piece : Bytes} {c : Component} (h : parseSingle piece = some c) :
    c.text = piece := by
  unfold parseSingle at h
  split at h
  · cases h
  · split at h
    · next hdd =>
      cases h
      exact hdd.symm
    · cases h
      rfl

theorem InBody.ne_nil {c : Component} (h : InBody c) : c.text ≠ [] := by
  intro e
  have hparse := h.2
  rw [e] at hparse
  cases hparse

theorem InBody.ne_dot {c : Component} (h : InBody c) : c.text ≠ [dot] := by
  intro e
  have hparse := h.2
  rw [e] at hparse
  cases hparse

theorem inBody_of_mem_filterMap {pieces : List Bytes} (hsep : ∀ p ∈ pieces, sep ∉ p)
    {c : Component} (h : c ∈ pieces.filterMap parseSingle) : InBody c := by
  obtain ⟨piece, hpiece, hparse⟩ := List.mem_filterMap.mp h
  have htext := parseSingle_eq_some hparse
  exact ⟨htext ▸ hsep piece hpiece, htext ▸ hparse⟩

theorem filterMap_text {body : List Component} (h : ∀ c ∈ body, InBody c) :
    (body.map Component.text).filterMap parseSingle = body := by
  induction body with
  | nil => rfl
  | cons c body ih =>
    rw [List.map_cons, List.filterMap_cons, (h c List.mem_cons_self).2,
      ih fun c' hc' => h c' (List.mem_cons_of_mem c hc')]

theorem canonical_components (path : Bytes) : Canonical (components path) := by
  have hbody : ∀ c ∈ (path.splitOn sep).filterMap parseSingle, InBody c :=
    fun c hc => inBody_of_mem_filterMap (pieces_splitOn path).no_sep hc
  unfold components front
  split
  · exact .absolute hbody
  · split
    · exact .current hbody
    · exact .relative hbody

theorem InBody.ne_rootDir {c : Component} (h : InBody c) : c ≠ .rootDir := by
  intro e
  subst e
  cases h.2

theorem piecesOf_inBody {c : Component} (h : InBody c) (body : List Component) :
    piecesOf (c :: body) = (c :: body).map Component.text := by
  cases c with
  | rootDir => exact absurd rfl h.ne_rootDir
  | curDir | parentDir | normal => rfl

/-- What begins canonical components is canonical. -/
theorem Canonical.of_isPrefix {cs cs' : List Component} (h : Canonical cs') (hpre : cs <+: cs') :
    Canonical cs := by
  cases h with
  | relative h => exact .relative fun c hc => h c (hpre.subset hc)
  | absolute h =>
    cases cs with
    | nil => exact .relative fun c hc => by cases hc
    | cons c cs =>
      obtain ⟨rfl, hrest⟩ := List.cons_prefix_cons.mp hpre
      exact .absolute fun c hc => h c (hrest.subset hc)
  | current h =>
    cases cs with
    | nil => exact .relative fun c hc => by cases hc
    | cons c cs =>
      obtain ⟨rfl, hrest⟩ := List.cons_prefix_cons.mp hpre
      exact .current fun c hc => h c (hrest.subset hc)

section Collect
variable {body : List Component}

theorem intercalate_last (init : List Bytes) (piece : Bytes) :
    [sep].intercalate (init ++ [piece]) =
      (if init = [] then [] else [sep].intercalate init ++ [sep]) ++ piece := by
  split
  · next h => rw [h, List.nil_append, List.intercalate_singleton, List.nil_append]
  · next h => rw [intercalate_concat h, List.append_assoc, List.singleton_append]

/-- A piece that is pushed becomes the last one; an empty last one makes room for it. -/
theorem push_piece (init : List Bytes) {last piece : Bytes} (hlast : sep ∉ last)
    (hpiece : sep ∉ piece) : push ([sep].intercalate (init ++ [last])) piece =
      [sep].intercalate (if last = [] then init ++ [piece] else init ++ [last] ++ [piece]) := by
  have habs : ¬ isAbsolute piece = true := by
    cases piece with
    | nil => simp [isAbsolute]
    | cons b piece =>
      have hb : b ≠ sep := fun e => hpiece (e ▸ List.mem_cons_self)
      simp [isAbsolute, hb]
  unfold push
  rw [if_neg habs]
  by_cases h : last = []
  · subst h
    rw [if_pos rfl, intercalate_last, intercalate_last, List.append_nil]
    by_cases hinit : init = []
    · rw [if_pos hinit, if_neg (by simp)]
    · rw [if_neg hinit, if_neg (by simp)]
  · have hlast' : ([sep].intercalate (init ++ [last])).getLast? = last.getLast? := by
      rw [intercalate_last, List.getLast?_append_of_ne_nil _ h]
    have hne : init ++ [last] ≠ [] := by simp
    rw [if_neg h, intercalate_concat hne, if_pos]
    constructor
    · intro e
      rw [e] at hlast'
      exact h (List.getLast?_eq_none_iff.mp hlast'.symm)
    · rw [hlast']
      intro e
      exact hlast (List.mem_of_getLast? e)

theorem foldl_push (h : ∀ c ∈ body, InBody c) (init : List Bytes) {last : Bytes} (hne : last ≠ [])
    (hlast : sep ∉ last) :
    body.foldl (fun buf c => push buf c.text) ([sep].intercalate (init ++ [last])) =
      [sep].intercalate (init ++ [last] ++ body.map Component.text) := by
  induction body generalizing init last with
  | nil => simp
  | cons c body ih =>
    have hc := h c List.mem_cons_self
    rw [List.foldl_cons, push_piece init hlast hc.1, if_neg hne,
      ih (fun c' hc' => h c' (List.mem_cons_of_mem c hc')) _ hc.ne_nil hc.1]
    simp

theorem push_nil {piece : Bytes} (h : sep ∉ piece) : push [] piece = piece := by
  have hpush := push_piece [] (List.not_mem_nil (a := sep)) h
  rwa [if_pos rfl, List.nil_append, List.nil_append, List.intercalate_singleton,
    List.intercalate_singleton] at hpush

theorem collect_eq {cs : List Component} (h : Canonical cs) :
    collect cs = [sep].intercalate (piecesOf cs) := by
  cases h with
  | relative h =>
    cases cs with
    | nil => rfl
    | cons c body =>
      have hc := h c List.mem_cons_self
      have hbody : ∀ c' ∈ body, InBody c' := fun c' hc' => h c' (List.mem_cons_of_mem c hc')
      have hpieces : piecesOf (c :: body) = [] ++ [c.text] ++ body.map Component.text :=
        piecesOf_inBody hc body
      rw [hpieces, ← foldl_push hbody [] hc.ne_nil hc.1, collect, List.foldl_cons, push_nil hc.1]
      rw [List.nil_append, List.intercalate_singleton]
  | @absolute body h =>
    cases body with
    | nil => rfl
    | cons c body =>
      have hc := h c List.mem_cons_self
      have hbody : ∀ c' ∈ body, InBody c' := fun c' hc' => h c' (List.mem_cons_of_mem c hc')
      have hpush := push_piece [[]] (List.not_mem_nil (a := sep)) hc.1
      rw [if_pos rfl] at hpush
      show body.foldl _ (push ([sep].intercalate ([[]] ++ [[]])) c.text) = _
      rw [hpush, foldl_push hbody _ hc.ne_nil hc.1]
      rfl
  | @current body h => exact foldl_push h [] (List.cons_ne_nil dot []) (by decide : sep ∉ [dot])

theorem pieces_text (h : ∀ c ∈ body, InBody c) : ∀ p ∈ body.map Component.text, sep ∉ p := by
  intro p hp
  obtain ⟨c, hc, rfl⟩ := List.mem_map.mp hp
  exact (h c hc).1

theorem pieces_piecesOf {cs : List Component} (h : Canonical cs) : Pieces (piecesOf cs) := by
  cases h with
  | relative h =>
    cases cs with
    | nil => exact ⟨by simp [piecesOf], by simp [piecesOf]⟩
    | cons c body =>
      rw [piecesOf_inBody (h c List.mem_cons_self)]
      exact ⟨List.cons_ne_nil _ _, pieces_text h⟩
  | @absolute body h =>
    cases body with
    | nil => exact ⟨by simp [piecesOf], by simp [piecesOf]⟩
    | cons c body =>
      refine ⟨by simp [piecesOf], fun p hp => ?_⟩
      rcases List.mem_cons.mp hp with rfl | hmem
      · exact List.not_mem_nil
      · exact pieces_text h p hmem
  | @current body h =>
    refine ⟨by simp [piecesOf], fun p hp => ?_⟩
    rcases List.mem_cons.mp hp with rfl | hmem
    · decide
    · exact pieces_text h p hmem

/-- The components that are collected are those of the path. -/
theorem components_collect {cs : List Component} (h : Canonical cs) :
    components (collect cs) = cs := by
  rw [collect_eq h, components_intercalate (pieces_piecesOf h)]
  cases h with
  | relative h =>
    cases cs with
    | nil => rfl
    | cons c body =>
      have hc := h c List.mem_cons_self
      have hfront : frontOf ((c :: body).map Component.text) = [] := by
        rw [List.map_cons]
        unfold frontOf
        split
        · next heq => exact absurd (List.cons.inj heq).1 hc.ne_nil
        · next heq =>
          rw [if_neg]
          exact fun e => hc.ne_dot ((List.cons.inj heq).1.trans e)
        · rfl
      rw [piecesOf_inBody hc, hfront, filterMap_text h, List.nil_append]
  | @absolute body h =>
    cases body with
    | nil => rfl
    | cons c body => exact congrArg (Component.rootDir :: ·) (filterMap_text h)
  | @current body h => exact congrArg (Component.curDir :: ·) (filterMap_text h)

end Collect

/-! ## What is left of a path -/

theorem filterMap_dropComponents (n : Nat) (pieces : List Bytes) :
    (dropComponents n pieces).filterMap parseSingle = (pieces.filterMap parseSingle).drop n := by
  induction pieces generalizing n with
  | nil => cases n <;> simp [dropComponents]
  | cons piece pieces ih =>
    cases n with
    | zero => rfl
    | succ n =>
      rw [dropComponents]
      cases hparse : parseSingle piece with
      | none =>
        rw [if_pos (by simp [isBlank, hparse]), List.filterMap_cons_none hparse, ih]
      | some c =>
        rw [if_neg (by simp [isBlank, hparse]), List.filterMap_cons_some hparse, ih,
          List.drop_succ_cons]

theorem dropComponents_suffix (n : Nat) (pieces : List Bytes) :
    dropComponents n pieces <:+ pieces := by
  induction pieces generalizing n with
  | nil => cases n <;> simp [dropComponents]
  | cons piece pieces ih =>
    cases n with
    | zero => exact List.suffix_rfl
    | succ n =>
      rw [dropComponents]
      split
      · exact (ih (n + 1)).trans (List.suffix_cons piece pieces)
      · exact (ih n).trans (List.suffix_cons piece pieces)

theorem filterMap_blank {pieces : List Bytes} (h : ∀ p ∈ pieces, isBlank p = true) :
    pieces.filterMap parseSingle = [] := by
  rw [List.filterMap_eq_nil_iff]
  intro p hp
  exact Option.isNone_iff_eq_none.mp (h p hp)

theorem filterMap_dropWhile (pieces : List Bytes) :
    (pieces.dropWhile isBlank).filterMap parseSingle = pieces.filterMap parseSingle := by
  have hblank : ∀ p ∈ pieces.takeWhile isBlank, isBlank p = true :=
    fun _ hp => List.mem_takeWhile_imp hp
  calc (pieces.dropWhile isBlank).filterMap parseSingle
      = (pieces.takeWhile isBlank ++ pieces.dropWhile isBlank).filterMap parseSingle := by
        rw [List.filterMap_append, filterMap_blank hblank, List.nil_append]
    _ = pieces.filterMap parseSingle := by rw [List.takeWhile_append_dropWhile]

theorem filterMap_trimRight (pieces : List Bytes) :
    (trimRight pieces).filterMap parseSingle = pieces.filterMap parseSingle := by
  have hblank : ∀ p ∈ pieces.rtakeWhile isBlank, isBlank p = true :=
    fun _ hp => List.mem_rtakeWhile_imp hp
  have hsplit : trimRight pieces ++ pieces.rtakeWhile isBlank = pieces :=
    List.rdropWhile_append_rtakeWhile
  calc (trimRight pieces).filterMap parseSingle
      = (trimRight pieces ++ pieces.rtakeWhile isBlank).filterMap parseSingle := by
        rw [List.filterMap_append, filterMap_blank hblank, List.append_nil]
    _ = pieces.filterMap parseSingle := by rw [hsplit]

theorem trimRight_isPrefix (pieces : List Bytes) : trimRight pieces <+: pieces :=
  List.rdropWhile_prefix _ pieces

/-- The front of pieces is seen on the first two of them. -/
theorem frontOf_append {pieces more more' : List Bytes} (hne : pieces ≠ []) (h : more ≠ [])
    (h' : more' ≠ []) : frontOf (pieces ++ more) = frontOf (pieces ++ more') := by
  cases pieces with
  | nil => exact absurd rfl hne
  | cons p ps =>
    cases p with
    | nil =>
      cases ps with
      | nil =>
        obtain ⟨m, ms, rfl⟩ := List.exists_cons_of_ne_nil h
        obtain ⟨m', ms', rfl⟩ := List.exists_cons_of_ne_nil h'
        rfl
      | cons q qs => rfl
    | cons b p => rfl

theorem exists_of_isAbsolute {path : Bytes} (h : isAbsolute path = true) :
    ∃ tail, path = sep :: tail := by
  cases path with
  | nil => cases h
  | cons b tail =>
    have hb : b = sep := by simpa [isAbsolute] using h
    exact ⟨tail, by rw [hb]⟩

theorem exists_of_includeCurDir {path : Bytes} (h : includeCurDir path = true) :
    path = [dot] ∨ ∃ tail, path = dot :: sep :: tail := by
  cases path with
  | nil => cases h
  | cons b path =>
    cases path with
    | nil =>
      have hb : b = dot := by simpa [includeCurDir] using h
      exact .inl (by rw [hb])
    | cons c tail =>
      have hbc : b = dot ∧ c = sep := by simpa [includeCurDir] using h
      exact .inr ⟨tail, by rw [hbc.1, hbc.2]⟩

theorem splitOn_sep_cons (tail : Bytes) : (sep :: tail).splitOn sep = [] :: tail.splitOn sep := by
  rw [List.splitOn_cons_eq_if_modifyHead, if_pos (by simp)]

/-- Behind their front, the components of a path are those of the rest of its text. -/
theorem components_eq_front (path : Bytes) : components path = front path ++
    ((path.drop (front path).length).splitOn sep).filterMap parseSingle := by
  unfold components
  congr 1
  unfold front
  split
  · next habs =>
    obtain ⟨tail, rfl⟩ := exists_of_isAbsolute habs
    rw [splitOn_sep_cons]
    rfl
  · split
    · next hcur =>
      rcases exists_of_includeCurDir hcur with rfl | ⟨tail, rfl⟩
      · rfl
      · rw [List.splitOn_cons_eq_if_modifyHead, if_neg (by decide), List.length_singleton,
          List.drop_succ_cons, List.drop_zero, splitOn_sep_cons]
        rfl
    · rfl

theorem isAbsolute_iff (path : Bytes) :
    isAbsolute path = true ↔ (components path).head? = some .rootDir := by
  unfold components front
  constructor
  · intro h
    rw [if_pos h]
    rfl
  · intro h
    by_contra habs
    rw [if_neg habs] at h
    split at h
    · cases h
    · rw [List.nil_append] at h
      have hmem := List.mem_of_head? h
      exact (inBody_of_mem_filterMap (pieces_splitOn path).no_sep hmem).ne_rootDir rfl

/-- The text of pieces, the first of which is a component. -/
theorem components_of_first {piece : Bytes} {pieces : List Bytes} (h : Pieces (piece :: pieces))
    (hpiece : isBlank piece = false) : front ([sep].intercalate (piece :: pieces)) = [] ∧
      components ([sep].intercalate (piece :: pieces)) =
        (piece :: pieces).filterMap parseSingle := by
  have hfront : frontOf (piece :: pieces) = [] := by
    unfold frontOf
    split
    · next heq =>
      rw [(List.cons.inj heq).1] at hpiece
      cases hpiece
    · next heq =>
      rw [if_neg]
      intro e
      rw [(List.cons.inj heq).1, e] at hpiece
      cases hpiece
    · rfl
  rw [front_intercalate h, components_intercalate h, hfront]
  exact ⟨rfl, rfl⟩

/-- Pieces with components, trimmed at both ends, are the text of these components. -/
theorem components_trimmed {pieces : List Bytes} (hsep : ∀ p ∈ pieces, sep ∉ p)
    (hne : pieces.filterMap parseSingle ≠ []) :
    front ([sep].intercalate (trimRight (pieces.dropWhile isBlank))) = [] ∧
      components ([sep].intercalate (trimRight (pieces.dropWhile isBlank))) =
        pieces.filterMap parseSingle := by
  have htrimmed : (trimRight (pieces.dropWhile isBlank)).filterMap parseSingle =
      pieces.filterMap parseSingle := by
    rw [filterMap_trimRight, filterMap_dropWhile]
  rw [← htrimmed] at hne ⊢
  have hpre := trimRight_isPrefix (pieces.dropWhile isBlank)
  cases htrim : trimRight (pieces.dropWhile isBlank) with
  | nil => exact absurd (by rw [htrim]; rfl) hne
  | cons piece rest =>
    rw [htrim] at hpre
    -- the first piece is not blank, as no other is dropped
    have hpiece : isBlank piece = false := by
      obtain ⟨more, hmore⟩ := hpre
      have hhead := List.head?_dropWhile_not isBlank pieces
      rw [← hmore, List.cons_append, List.head?_cons] at hhead
      simpa using hhead
    have hpieces : Pieces (piece :: rest) := by
      refine ⟨List.cons_ne_nil piece rest, fun p hp => hsep p ?_⟩
      exact (List.dropWhile_suffix isBlank).subset (hpre.subset hp)
    exact components_of_first hpieces hpiece

/-- A prefix with components that is taken off leaves the components behind it, and no front. -/
theorem trimPrefix_prefix {path base : Bytes} {cs : List Component}
    (h : components path = components base ++ cs) (hbase : components base ≠ []) (hcs : cs ≠ []) :
    front (trimPrefix path base) = [] ∧ components (trimPrefix path base) = cs := by
  have hbody := components_eq_front path
  have hsep := (pieces_splitOn (path.drop (front path).length)).no_sep
  unfold trimPrefix stripPrefix
  dsimp only
  rw [if_pos ⟨cs, h.symm⟩, if_neg hbase, Option.getD_some]
  generalize hps : (path.drop (front path).length).splitOn sep = ps at hbody hsep
  have hn : (front path).length ≤ (components base).length := by
    have hlen : (front path).length ≤ 1 := by
      unfold front
      split
      · simp
      · split <;> simp
    have hpos := List.length_pos_iff.mpr hbase
    omega
  -- what is left, before it is trimmed, has the components `cs`
  have hleft : (dropComponents ((components base).length - (front path).length) ps).filterMap
      parseSingle = cs := by
    have hdrop := congrArg (List.drop (components base).length) (hbody.symm.trans h)
    rw [List.drop_left, List.drop_append, List.drop_of_length_le hn, List.nil_append] at hdrop
    rw [filterMap_dropComponents, hdrop]
  have hsub : ∀ p ∈ dropComponents ((components base).length - (front path).length) ps,
      sep ∉ p := fun p hp => hsep p ((dropComponents_suffix _ _).subset hp)
  have htrimmed := components_trimmed hsub (hleft ▸ hcs)
  rwa [hleft] at htrimmed

theorem frontOf_of_prefix {pieces pieces' : List Bytes} (h : pieces <+: pieces')
    (hfront : frontOf pieces' = []) : frontOf pieces = [] := by
  obtain ⟨more, rfl⟩ := h
  cases pieces with
  | nil => rfl
  | cons p ps =>
    cases p with
    | nil =>
      cases ps with
      | nil => rfl
      | cons q qs => cases hfront
    | cons b p => exact hfront

/-- Pieces behind the root. -/
theorem components_root {pieces : List Bytes} (hsep : ∀ p ∈ pieces, sep ∉ p) :
    components ([sep] ++ [sep].intercalate pieces) =
      .rootDir :: pieces.filterMap parseSingle := by
  cases pieces with
  | nil => rfl
  | cons piece pieces =>
    have hjoin : [sep] ++ [sep].intercalate (piece :: pieces) =
        [sep].intercalate ([] :: piece :: pieces) := by
      rw [intercalate_cons [], if_neg (List.cons_ne_nil piece pieces)]
      rfl
    rw [hjoin, components_intercalate ⟨List.cons_ne_nil _ _, by simpa using hsep⟩]
    rfl

/-- Pieces behind the current directory. -/
theorem components_current {pieces : List Bytes} (hsep : ∀ p ∈ pieces, sep ∉ p) :
    components ([dot] ++ [sep].intercalate ([] :: pieces)) =
      .curDir :: pieces.filterMap parseSingle := by
  have hjoin : [dot] ++ [sep].intercalate ([] :: pieces) =
      [sep].intercalate ([dot] :: pieces) := by
    rw [intercalate_cons, intercalate_cons, List.nil_append]
  have hdot : ∀ p ∈ [dot] :: pieces, sep ∉ p := by
    intro p hp
    rcases List.mem_cons.mp hp with rfl | hmem
    · decide
    · exact hsep p hmem
  rw [hjoin, components_intercalate ⟨List.cons_ne_nil _ _, hdot⟩]
  rfl

/-- A prefix without components leaves them all. -/
theorem trimPrefix_nil {path base : Bytes} (hbase : components base = []) :
    components (trimPrefix path base) = components path := by
  have hbody := components_eq_front path
  unfold trimPrefix stripPrefix
  dsimp only
  rw [if_pos (hbase ▸ List.nil_prefix), if_pos hbase, Option.getD_some, hbody]
  have hpieces := pieces_splitOn (path.drop (front path).length)
  generalize hps : (path.drop (front path).length).splitOn sep = ps at hpieces
  have hsep : ∀ p ∈ trimRight ps, sep ∉ p :=
    fun p hp => hpieces.no_sep p ((trimRight_isPrefix ps).subset hp)
  rw [← filterMap_trimRight]
  unfold front at hps ⊢
  split
  · next habs =>
    obtain ⟨tail, rfl⟩ := exists_of_isAbsolute habs
    exact components_root hsep
  · next habs =>
    rw [if_neg habs] at hps
    split
    · next hcur =>
      rw [if_pos hcur, List.length_singleton] at hps
      have hcurrent : path.take 1 = [dot] ∧ ∃ tail, ps = [] :: tail := by
        rw [← hps]
        rcases exists_of_includeCurDir hcur with rfl | ⟨tail, rfl⟩
        · exact ⟨rfl, [], rfl⟩
        · refine ⟨rfl, tail.splitOn sep, ?_⟩
          rw [List.drop_succ_cons, List.drop_zero, splitOn_sep_cons]
      obtain ⟨htake, tail, rfl⟩ := hcurrent
      rw [List.length_singleton, htake]
      -- the empty piece behind the dot is trimmed, or is what is left of it
      have hpre := trimRight_isPrefix ([] :: tail)
      cases htrimmed : trimRight ([] :: tail) with
      | nil => rfl
      | cons q qs =>
        rw [htrimmed] at hpre hsep
        obtain ⟨rfl, -⟩ := List.cons_prefix_cons.mp hpre
        exact components_current fun p hp => hsep p (List.mem_cons_of_mem _ hp)
    · next hcur =>
      rw [if_neg hcur, List.length_nil, List.drop_zero] at hps
      rw [List.length_nil, List.take_zero, List.nil_append, List.nil_append]
      by_cases hnil : trimRight ps = []
      · rw [hnil]
        rfl
      · have hfront : frontOf ps = [] := by
          rw [← hps, ← front_eq]
          unfold front
          rw [if_neg habs, if_neg hcur]
        rw [components_intercalate ⟨hnil, hsep⟩, frontOf_of_prefix (trimRight_isPrefix ps) hfront,
          List.nil_append]

/-- Behind a text and a separator, a path without front adds its components. -/
theorem components_append_sep (text : Bytes) {path : Bytes} (hpath : front path = []) :
    components (text ++ sep :: path) = frontOf (text.splitOn sep ++ [[]]) ++
      (text.splitOn sep).filterMap parseSingle ++ components path := by
  have hcomponents : components path = (path.splitOn sep).filterMap parseSingle := by
    unfold components
    rw [hpath, List.nil_append]
  have hsplit : (text ++ sep :: path).splitOn sep = text.splitOn sep ++ path.splitOn sep :=
    List.splitOn_append_cons_self text path
  have hfront : front (text ++ sep :: path) = frontOf (text.splitOn sep ++ [[]]) := by
    rw [front_eq, hsplit]
    exact frontOf_append (List.splitOn_ne_nil sep text) (List.splitOn_ne_nil sep path)
      (List.cons_ne_nil [] [])
  calc components (text ++ sep :: path)
      = frontOf (text.splitOn sep ++ [[]]) ++
          (text.splitOn sep ++ path.splitOn sep).filterMap parseSingle := by
        rw [components, hfront, hsplit]
    _ = frontOf (text.splitOn sep ++ [[]]) ++ (text.splitOn sep).filterMap parseSingle ++
          components path := by
        rw [hcomponents, List.filterMap_append, List.append_assoc]

/-- A separator behind a text adds nothing to its front. -/
theorem frontOf_splitOn_append {text : Bytes} (h : text ≠ []) :
    frontOf (text.splitOn sep ++ [[]]) = front text := by
  rw [front_eq]
  cases hpieces : text.splitOn sep with
  | nil => exact absurd hpieces (List.splitOn_ne_nil sep text)
  | cons p ps =>
    cases p with
    | nil =>
      cases ps with
      | nil =>
        have hnil : [sep].intercalate (text.splitOn sep) = text := List.intercalate_splitOn sep
        rw [hpieces] at hnil
        exact absurd hnil.symm h
      | cons q qs => rfl
    | cons b p => rfl

/-- What is pushed adds its components, where it has no front. -/
theorem components_push {buf path : Bytes} (hbuf : buf ≠ []) (hpath : front path = []) :
    components (push buf path) = components buf ++ components path := by
  have habs : ¬ isAbsolute path = true := by
    intro habs
    unfold front at hpath
    rw [if_pos habs] at hpath
    cases hpath
  unfold push
  rw [if_neg habs]
  by_cases hlast : buf.getLast? = some sep
  · obtain ⟨text, rfl⟩ := List.getLast?_eq_some_iff.mp hlast
    rw [if_neg (fun h => h.2 hlast), List.append_assoc, List.singleton_append,
      components_append_sep text hpath, components_append_sep text rfl]
    show _ = _ ++ [] ++ _
    rw [List.append_nil]
  · rw [if_pos ⟨hbuf, hlast⟩, components_append_sep buf hpath, frontOf_splitOn_append hbuf]
    rfl

end Path

end LayerCake.Bubblebox
