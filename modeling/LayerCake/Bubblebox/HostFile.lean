import LayerCake.Bubblebox.HostCalls
import LayerCake.Tree.Lookup

/-
  A file of the host, opened by its directory and its name
  (`HostFile` in `bubblebox/src/platform/linux/paths.rs`).

  Correspondence (Rust ↔ Lean):
    the loop of `open_at_internal`        ↔ `HostFile.splitName`
    `open_at_internal::<OPEN, RESOLVE>`   ↔ `HostFile.openAtInternal OPEN RESOLVE`
    `open_nofollow`                       ↔ `HostFile.openNofollow`

  The kernel behind the calls is a file tree with symbolic links and a table of
  descriptors. It reads a path piece by piece. Which number a new descriptor has, and how
  often a call is interrupted, is left open; so is what `openat2` does with any flag of
  `resolve` other than `RESOLVE_NO_MAGICLINKS`.

  The code opens the components of a path, in two steps. The kernel reads the path itself,
  in one: the separators and the `.` behind its name ask for a directory, and a path that
  is too long leads nowhere.

  What is proved: where the components lead to a file, the two are the same exactly when
  the path fits a call and ends in its name, as long as its directory part is no link
  itself and fits its buffer, and otherwise only in that both fail
  (`open_nofollow_agrees_iff`).
-/

namespace LayerCake.Bubblebox.Host

open LayerCake.Effects LayerCake.Meowix LayerCake.Linux LayerCake.Tree
open LayerCake.Bubblebox.Spawn.Mounting (AtFd OpenHow Statx)

/-! ## `HostFile` -/

structure HostFile where
  dirfd : RawFd
  name : Bytes
  fd : RawFd
  isSymlink : Bool
  deriving DecidableEq, Repr

namespace HostFile

/-- The loop over the components behind the first: the directory so far, and the name. -/
def splitName (first : Component) (components : List Component) : Bytes × Component :=
  components.foldl (fun (directory, name) component => (Path.push directory name.text, component))
    ([], first)

def DIRECTORY_HOW (openFlags resolveFlags : UInt32) : OpenHow :=
  { flags := (O_PATH ||| O_CLOEXEC ||| O_DIRECTORY ||| openFlags).toUInt64
    mode := 0
    resolve := (RESOLVE_NO_MAGICLINKS ||| resolveFlags).toUInt64 }

def FILE_HOW (openFlags resolveFlags : UInt32) : OpenHow :=
  { flags := (O_PATH ||| O_CLOEXEC ||| openFlags).toUInt64
    mode := 0
    resolve := (RESOLVE_NO_MAGICLINKS ||| resolveFlags).toUInt64 }

def openAtInternal (openFlags resolveFlags : UInt32) (relativeTo : AtFd) (path : Bytes) :
    Opening HostFile :=
  match Path.components path with
  | [] => throw .notAFile
  | first :: components => do
    let (directory, name) := splitName first components
    let directory ← asCStr PATH_MAX (if directory = [] then ascii "." else directory)
    let dirfd ← openat2 relativeTo directory (DIRECTORY_HOW openFlags resolveFlags)
    let name ← asCStr PATH_COMPONENT_MAX name.text
    let fd ← openat2 (.fd dirfd) name (FILE_HOW openFlags resolveFlags)
    if !(← isDirectory (.fd fd)) then
      return { dirfd, name, fd, isSymlink := openFlags &&& O_NOFOLLOW != 0 }
    else throw .notAFile

def openNofollow (path : Bytes) : Opening HostFile := openAtInternal O_NOFOLLOW 0 .cwd path

end HostFile

/-! ## The kernel -/

/-- A piece of a path, as the kernel reads it. -/
def pieceStep (piece : Bytes) : Option (PathStep Bytes) :=
  if piece = [] then none
  else if piece = [dot] then some .here
  else if piece = [dot, dot] then some .up
  else some (.name piece)

/-- A path, as the kernel reads it. A separator behind a component asks for a directory. -/
def pathSteps (path : Bytes) : List (PathStep Bytes) :=
  (if Path.isAbsolute path then [.root] else []) ++ (path.splitOn sep).filterMap pieceStep ++
    if path.getLast? = some sep ∧ (path.splitOn sep).filterMap pieceStep ≠ [] then [.here] else []

def errnoOf : LookupError → Errno
  | .noEntry => .NOENT
  | .notDirectory => .NOTDIR
  | .tooManyLinks => .LOOP

/-- How many links a lookup follows. -/
def MAXSYMLINKS : Nat := 40

/-- The files of the host, and the current directory. Names are what a directory can hold. -/
structure Files (Ino : Type) where
  tree : FileTree Ino Bytes
  cwd : Ino
  cwd_directory : tree.isDirectory cwd = true
  names : ∀ d parent entry n, tree.inode d = .directory parent entry → entry n ≠ none →
    n.length < PATH_COMPONENT_MAX ∧ (0 : UInt8) ∉ n

/-- The open descriptors. -/
abbrev Table (Ino : Type) := RawFd → Option Ino

namespace Files
variable {Ino : Type} (files : Files Ino)

def base (table : Table Ino) : AtFd → Option Ino
  | .cwd => some files.cwd
  | .fd fd => table fd

/-- What `openat2` opens, without a flag in `resolve` that concerns it. -/
def openPath (start : Ino) (path : Bytes) (how : OpenHow) : Except Errno Ino :=
  if path = [] then .error .NOENT
  else if PATH_MAX ≤ path.length then .error .NAMETOOLONG
  else
    match files.tree.lookup (how.flags &&& O_NOFOLLOW.toUInt64 == 0) MAXSYMLINKS (pathSteps path)
      start with
    | .error e => .error (errnoOf e)
    | .ok i =>
      if how.flags &&& O_DIRECTORY.toUInt64 != 0 && !files.tree.isDirectory i then .error .NOTDIR
      else .ok i

/-- What a call that opens a file leaves. -/
def Opened (table : Table Ino) (found : Except Errno Ino) (r : Except Errno RawFd)
    (table' : Table Ino) : Prop :=
  match found with
  | .error e => r = .error e ∧ table' = table
  | .ok i => ∃ fd, table fd = none ∧ r = .ok fd ∧ table' = Function.update table fd (some i)

def kernel : Kernel Calls (Table Ino)
  | table, .openat2 dirfd path how, r, table' =>
    (r = .error .INTR ∧ table' = table) ∨
    (how.resolve = RESOLVE_NO_MAGICLINKS.toUInt64 →
      Opened table (match files.base table dirfd with
        | none => .error .BADF
        | some start => files.openPath start path how) r table')
  | table, .statx dirfd path _ mask, r, table' =>
    table' = table ∧ (path = [] → mask = STATX_TYPE → match files.base table dirfd with
      | none => r = .error .BADF
      | some i => ∃ statx, r = .ok statx ∧
        (statx.mode.toUInt32 &&& S_IFMT == S_IFDIR) = files.tree.isDirectory i)

end Files

/-! ## The paths that are opened -/

/-- The step that a component is. -/
def stepOf : Component → PathStep Bytes
  | .rootDir => .root
  | .curDir => .here
  | .parentDir => .up
  | .normal name => .name name

theorem pieceStep_text {c : Component} (h : Path.InBody c) :
    pieceStep c.text = some (stepOf c) := by
  have hne := h.ne_nil
  have hdot := h.ne_dot
  unfold pieceStep
  rw [if_neg hne, if_neg hdot]
  cases c with
  | rootDir => exact absurd rfl h.ne_rootDir
  | curDir => exact absurd rfl hdot
  | parentDir => rfl
  | normal name =>
    have hparse := h.2
    rw [if_neg]
    · rfl
    · intro e
      rw [e] at hparse
      cases hparse

theorem filterMap_pieceStep {body : List Component} (h : ∀ c ∈ body, Path.InBody c) :
    (body.map Component.text).filterMap pieceStep = body.map stepOf := by
  induction body with
  | nil => rfl
  | cons c body ih =>
    rw [List.map_cons, List.filterMap_cons, pieceStep_text (h c List.mem_cons_self),
      ih fun c' hc' => h c' (List.mem_cons_of_mem c hc')]
    rfl

/-- No separator is left over behind components, unless there is nothing but the root. -/
theorem getLast?_collect {cs : List Component} (h : Path.Canonical cs) (hroot : cs ≠ [.rootDir]) :
    (Path.collect cs).getLast? ≠ some sep := by
  rw [Path.collect_eq h]
  have hsep := (Path.pieces_piecesOf h).no_sep
  -- the last piece is the text of the last component, which is not empty
  have hlast : ∀ init last, Path.piecesOf cs = init ++ [last] → last ≠ [] →
      ([sep].intercalate (Path.piecesOf cs)).getLast? ≠ some sep := by
    intro init last hpieces hne hsome
    rw [hpieces, Path.intercalate_last, List.getLast?_append_of_ne_nil _ hne] at hsome
    exact hsep last (hpieces ▸ List.mem_append_right init List.mem_cons_self)
      (List.mem_of_getLast? hsome)
  cases h with
  | relative h =>
    rcases List.eq_nil_or_concat cs with rfl | ⟨init, c, rfl⟩
    · decide
    · have hc := h c (by simp)
      refine hlast (init.map Component.text) c.text ?_ hc.ne_nil
      cases init with
      | nil => exact Path.piecesOf_inBody hc []
      | cons c' init =>
        have hpieces := Path.piecesOf_inBody (h c' (by simp)) (init ++ [c])
        simpa using hpieces
  | @absolute body h =>
    rcases List.eq_nil_or_concat body with rfl | ⟨init, c, rfl⟩
    · exact absurd rfl hroot
    · have hc := h c (by simp)
      refine hlast ([] :: init.map Component.text) c.text ?_ hc.ne_nil
      cases init with
      | nil => rfl
      | cons c' init => simp [Path.piecesOf]
  | @current body h =>
    rcases List.eq_nil_or_concat body with rfl | ⟨init, c, rfl⟩
    · decide
    · exact hlast ([dot] :: init.map Component.text) c.text
        (by simp [Path.piecesOf, Component.text]) (h c (by simp)).ne_nil

/-- The kernel reads components where they were collected. -/
theorem pathSteps_collect {cs : List Component} (h : Path.Canonical cs) :
    pathSteps (Path.collect cs) = cs.map stepOf := by
  have hsplit : (Path.collect cs).splitOn sep = Path.piecesOf cs := by
    rw [Path.collect_eq h, List.splitOn_intercalate sep (Path.pieces_piecesOf h).no_sep
      (Path.pieces_piecesOf h).ne_nil]
  have habs := Path.isAbsolute_iff (Path.collect cs)
  rw [Path.components_collect h] at habs
  by_cases hroot : cs = [.rootDir]
  · subst hroot
    rfl
  · have hslash : ¬ ((Path.collect cs).getLast? = some sep ∧
        (Path.piecesOf cs).filterMap pieceStep ≠ []) := fun h' => getLast?_collect h hroot h'.1
    unfold pathSteps
    rw [hsplit, if_neg hslash, List.append_nil]
    cases h with
    | relative h =>
      cases cs with
      | nil => rfl
      | cons c body =>
        have hc := h c List.mem_cons_self
        rw [if_neg fun e => hc.ne_rootDir (by simpa using habs.mp e), Path.piecesOf_inBody hc,
          filterMap_pieceStep h, List.nil_append]
    | @absolute body h =>
      cases body with
      | nil => exact absurd rfl hroot
      | cons c body =>
        rw [if_pos (habs.mpr rfl)]
        exact congrArg (PathStep.root :: ·) (filterMap_pieceStep h)
    | @current body h =>
      rw [if_neg (fun e => by simpa using habs.mp e), List.nil_append]
      exact congrArg (PathStep.here :: ·) (filterMap_pieceStep h)

/-- The loop takes the last component for the name, and collects the others. -/
theorem splitName_eq {first name : Component} {components directory : List Component}
    (h : first :: components = directory ++ [name]) :
    HostFile.splitName first components = (Path.collect directory, name) := by
  induction components using List.reverseRecOn generalizing directory name with
  | nil =>
    have hsingle : [] ++ [first] = directory ++ [name] := h
    obtain ⟨hdirectory, hname⟩ := List.append_inj' hsingle rfl
    cases hname
    rw [← hdirectory]
    rfl
  | append_singleton components last ih =>
    rw [← List.cons_append] at h
    obtain ⟨hdirectory, hlast⟩ := List.append_inj' h rfl
    cases hlast
    obtain ⟨init, before, hinit⟩ := (List.eq_nil_or_concat (first :: components)).resolve_left
      (List.cons_ne_nil first components)
    rw [List.concat_eq_append] at hinit
    have hloop := ih hinit
    unfold HostFile.splitName at hloop ⊢
    rw [List.foldl_append, hloop, ← hdirectory, hinit]
    unfold Path.collect
    rw [List.foldl_append]
    rfl

/-! ## Opening a file in two steps -/

section Opening
variable {Ino : Type} (files : Files Ino)

namespace Files

/-- What one call opens that is given the whole path: it follows all links but the last. -/
def resolve (path : Bytes) : Except Errno Ino :=
  files.openPath files.cwd path (HostFile.FILE_HOW O_NOFOLLOW 0)

/-- Where the components of a path lead, with all links followed but the last. -/
def lead (path : Bytes) : Except LookupError Ino :=
  files.tree.lookup false MAXSYMLINKS ((Path.components path).map stepOf) files.cwd

/-- The components before the last. -/
def directoryOf (path : Bytes) : List Component := (Path.components path).dropLast

/-- The text that the directory is opened by. -/
def directoryText (path : Bytes) : Bytes :=
  if directoryOf path = [] then ascii "." else Path.collect (directoryOf path)

/-- The file that was opened is the one the path leads to, and none was opened only where
the path leads nowhere or to a directory. -/
def Outcome (path : Bytes) (r : Except PolicyError HostFile) (table : Table Ino) : Prop :=
  match r with
  | .ok file => ∃ i, files.resolve path = .ok i ∧ table file.fd = some i
  | .error _ => ∀ i, files.resolve path = .ok i → files.tree.isDirectory i = true

/-- Every run has that outcome. -/
def Agrees (path : Bytes) : Prop :=
  ∀ table r table', Returns files.kernel (HostFile.openNofollow path).run table r table' →
    files.Outcome path r table'

/-- The components lead to a file, or a link, and not to a directory. -/
def LeadsToFile (path : Bytes) : Prop :=
  ∃ i, files.lead path = .ok i ∧ files.tree.isDirectory i = false

/-- The path fits a call, and nothing behind its last name asks for a directory. -/
def EndsInName (path : Bytes) : Prop :=
  path.length < PATH_MAX ∧ ∃ name, (pathSteps path).getLast? = some (.name name)

/-- The directory part fits its buffer, and does not end at a link itself. -/
def Direct (path : Bytes) : Prop :=
  (directoryText path).length < PATH_MAX ∧
    ∀ j, files.tree.lookup false MAXSYMLINKS ((directoryOf path).map stepOf) files.cwd = .ok j →
      files.tree.isLink j = false

theorem canonical_directoryOf (path : Bytes) : Path.Canonical (directoryOf path) :=
  (Path.canonical_components path).of_isPrefix (List.dropLast_prefix _)

theorem collect_directoryOf_eq_nil_iff {path : Bytes} :
    Path.collect (directoryOf path) = [] ↔ directoryOf path = [] := by
  constructor
  · intro h
    have hsame := Path.components_collect (canonical_directoryOf path)
    rw [h] at hsame
    exact hsame.symm
  · intro h
    rw [h]
    rfl

theorem lookup_directoryText {path : Bytes} (follow : Bool) :
    files.tree.lookup follow MAXSYMLINKS (pathSteps (directoryText path)) files.cwd =
      files.tree.lookup follow MAXSYMLINKS ((directoryOf path).map stepOf) files.cwd := by
  unfold directoryText
  split
  · next hnil =>
    have hchild := FileTree.child_here files.cwd_directory
    have hlink := FileTree.isLink_of_isDirectory files.cwd_directory
    have hsteps : pathSteps (ascii ".") = [.here] := by decide
    rw [hnil, hsteps, FileTree.lookup_step _ hchild hlink]
    rfl
  · rw [pathSteps_collect (canonical_directoryOf path)]

theorem directoryText_ne_nil (path : Bytes) : directoryText path ≠ [] := by
  unfold directoryText
  split
  · decide
  · next hne => exact fun e => hne (collect_directoryOf_eq_nil_iff.mp e)

/-- The directory is opened without following its last component, and must be one. -/
theorem openPath_directory {path : Bytes} (hlen : (directoryText path).length < PATH_MAX) :
    files.openPath files.cwd (directoryText path) (HostFile.DIRECTORY_HOW O_NOFOLLOW 0) =
      match files.tree.lookup false MAXSYMLINKS ((directoryOf path).map stepOf) files.cwd with
      | .error e => .error (errnoOf e)
      | .ok i => if files.tree.isDirectory i then .ok i else .error .NOTDIR := by
  have hfollow : ((HostFile.DIRECTORY_HOW O_NOFOLLOW 0).flags &&& O_NOFOLLOW.toUInt64 == 0) =
      false := by decide
  have hdirectory : ((HostFile.DIRECTORY_HOW O_NOFOLLOW 0).flags &&& O_DIRECTORY.toUInt64 != 0) =
      true := by decide
  unfold openPath
  rw [if_neg (directoryText_ne_nil path), if_neg (Nat.not_le_of_lt hlen), hfollow,
    lookup_directoryText, hdirectory]
  cases files.tree.lookup false MAXSYMLINKS ((directoryOf path).map stepOf) files.cwd with
  | error e => rfl
  | ok i =>
    cases hi : files.tree.isDirectory i with
    | true => simp [hi]
    | false => simp [hi]

theorem pathSteps_name {name : Bytes} (h : Path.IsName name) : pathSteps name = [.name name] := by
  have hbody : ∀ c ∈ [Component.normal name], Path.InBody c := by
    intro c hc
    rw [List.mem_singleton] at hc
    subst hc
    exact ⟨h.no_sep, Path.parseSingle_name h⟩
  have hcollect : Path.collect [.normal name] = name := Path.push_nil h.no_sep
  have hsteps := pathSteps_collect (.relative hbody)
  rwa [hcollect] at hsteps

/-- The name is opened from the directory, without following it. -/
theorem openPath_name (j : Ino) {name : Bytes} (h : Path.IsName name)
    (hlen : name.length < PATH_COMPONENT_MAX) :
    files.openPath j name (HostFile.FILE_HOW O_NOFOLLOW 0) =
      match files.tree.child j (.name name) with
      | .error e => .error (errnoOf e)
      | .ok i => .ok i := by
  have hfollow : ((HostFile.FILE_HOW O_NOFOLLOW 0).flags &&& O_NOFOLLOW.toUInt64 == 0) =
      false := by decide
  have hdirectory : ((HostFile.FILE_HOW O_NOFOLLOW 0).flags &&& O_DIRECTORY.toUInt64 != 0) =
      false := by decide
  have hlookup := FileTree.lookup_concat (t := files.tree) (.name name) MAXSYMLINKS [] j
  rw [FileTree.lookup_nil] at hlookup
  have hfits : name.length < PATH_MAX := Nat.lt_trans hlen (by decide)
  unfold openPath
  rw [if_neg h.ne_nil, if_neg (Nat.not_le_of_lt hfits), hfollow, pathSteps_name h, hdirectory]
  rw [List.nil_append] at hlookup
  rw [hlookup]
  rfl

end Files

section Calls
variable {files} {α : Type} {table : Table Ino}

theorem wp_openat2 {dirfd : AtFd} {path : Bytes} {how : OpenHow} {start : Ino}
    {Q : Except PolicyError RawFd → Table Ino → Prop} (hbase : files.base table dirfd = some start)
    (hresolve : how.resolve = RESOLVE_NO_MAGICLINKS.toUInt64)
    (hok : ∀ i fd, files.openPath start path how = .ok i →
      Q (.ok fd) (Function.update table fd (some i)))
    (herror : ∀ e, files.openPath start path how = .error e →
      Q (.error (.syscall ⟨.openat2, e⟩)) table) :
    Wp files.kernel (openat2 dirfd path how).run Q table := by
  -- a call that is not interrupted opens what the path leads to
  have hanswer : ∀ r t', files.kernel table (.openat2 dirfd path how) r t' →
      (r = .error .INTR ∧ t' = table) ∨
        Files.Opened table (files.openPath start path how) r t' := by
    intro r t' hk
    rcases hk with hintr | hopened
    · exact .inl hintr
    · have h := hopened hresolve
      rw [hbase] at h
      exact .inr h
  refine sat_tryCall (Wp.performUntil (· = table) rfl ?_ ?_)
  · intro t r t' ht hk hr
    subst ht
    rcases hanswer r t' hk with hintr | hopened
    · exact hintr.2
    · unfold Files.Opened at hopened
      split at hopened
      · exact hopened.2
      · obtain ⟨fd, -, rfl, -⟩ := hopened
        cases hr
  · intro t r t' ht hk hr
    subst ht
    rcases hanswer r t' hk with ⟨rfl, -⟩ | hopened
    · cases hr
    · unfold Files.Opened at hopened
      split at hopened
      · next e he =>
        obtain ⟨rfl, rfl⟩ := hopened
        exact wp_done.mpr (herror e he)
      · next i hi =>
        obtain ⟨fd, -, rfl, rfl⟩ := hopened
        exact wp_done.mpr (hok i fd hi)

theorem wp_isDirectory {fd : RawFd} {i : Ino} {Q : Except PolicyError Bool → Table Ino → Prop}
    (hfd : table fd = some i) (h : Q (.ok (files.tree.isDirectory i)) table) :
    Wp files.kernel (isDirectory (.fd fd)).run Q table := by
  refine Wp.bindE (sat_tryCall (Wp.perform fun r t hk => ?_))
  obtain ⟨rfl, hstatx⟩ := hk
  have hstat := hstatx rfl rfl
  rw [show files.base t (.fd fd) = some i from hfd] at hstat
  obtain ⟨statx, rfl, hmode⟩ := hstat
  refine wp_done.mpr (wp_pureE.mpr ?_)
  rw [hmode]
  exact h

theorem wp_asCStr {N : Nat} {bytes : Bytes} {Q : Except PolicyError Bytes → Table Ino → Prop}
    (hok : bytes.length < N → (0 : UInt8) ∉ bytes → Q (.ok bytes) table)
    (herror : ∀ e, ¬ (bytes.length < N ∧ (0 : UInt8) ∉ bytes) → Q (.error e) table) :
    Wp files.kernel (asCStr N bytes).run Q table := by
  unfold asCStr
  cases hc : withCStr N bytes with
  | ok c =>
    obtain ⟨rfl, hlen, hnul⟩ := withCStr_eq_ok hc
    exact wp_pureE.mpr (hok hlen hnul)
  | error e =>
    refine wp_done.mpr (herror _ fun h => ?_)
    rw [withCStr_of_fits h.1 h.2] at hc
    cases hc

end Calls

section Agreement
variable {files} {path name : Bytes}

/-- The directory part, and the name. -/
theorem components_split (h : (Path.components path).getLast? = some (.normal name)) :
    Path.components path = Files.directoryOf path ++ [.normal name] :=
  (List.dropLast_append_getLast? _ h).symm

theorem isName_of_last (h : (Path.components path).getLast? = some (.normal name)) :
    Path.IsName name := Path.isName_of_mem_components (List.mem_of_getLast? h)

/-- The components lead where the name does in the directory the others lead to. -/
theorem lead_eq (h : (Path.components path).getLast? = some (.normal name)) :
    files.lead path =
      (files.tree.lookup true MAXSYMLINKS ((Files.directoryOf path).map stepOf) files.cwd).bind
        fun j => files.tree.child j (.name name) := by
  calc files.lead path
      = files.tree.lookup false MAXSYMLINKS
          ((Files.directoryOf path).map stepOf ++ [.name name]) files.cwd := by
        unfold Files.lead
        rw [components_split h, List.map_append]
        rfl
    _ = _ := FileTree.lookup_concat (.name name) MAXSYMLINKS _ _

/-- So they do from a directory part that is no link. -/
theorem lead_of_directory (h : (Path.components path).getLast? = some (.normal name)) {j : Ino}
    (hj : files.tree.lookup false MAXSYMLINKS ((Files.directoryOf path).map stepOf) files.cwd =
      .ok j) (hlink : files.tree.isLink j = false) :
    files.lead path = files.tree.child j (.name name) := by
  have hfollowed := (FileTree.lookup_follow MAXSYMLINKS _ _).2 j hj hlink
  calc files.lead path
      = (files.tree.lookup true MAXSYMLINKS ((Files.directoryOf path).map stepOf) files.cwd).bind
          fun j => files.tree.child j (.name name) := lead_eq h
    _ = files.tree.child j (.name name) := by
        rw [hfollowed]
        rfl

/-- They lead nowhere where the directory part does. -/
theorem lead_of_no_directory (h : (Path.components path).getLast? = some (.normal name))
    {e : LookupError} (he : files.tree.lookup false MAXSYMLINKS
      ((Files.directoryOf path).map stepOf) files.cwd = .error e) :
    files.lead path = .error e := by
  rw [lead_eq h, (FileTree.lookup_follow MAXSYMLINKS _ _).1 e he]
  rfl

/-- The names on a path that leads somewhere are such that a directory can hold. -/
theorem names_of_lead {i : Ino} (h : files.lead path = .ok i) {n : Bytes}
    (hn : .normal n ∈ Path.components path) : n.length < PATH_COMPONENT_MAX ∧ (0 : UInt8) ∉ n := by
  obtain ⟨d, parent, entry, hd, hentry⟩ :=
    FileTree.entry_of_lookup MAXSYMLINKS _ _ i h n (List.mem_map_of_mem hn)
  exact files.names d parent entry n hd hentry

theorem mem_collect {b : UInt8} (hb : b ≠ sep) {cs : List Component} (h : b ∈ Path.collect cs) :
    ∃ c ∈ cs, b ∈ c.text := by
  induction cs using List.reverseRecOn with
  | nil => cases h
  | append_singleton cs c ih =>
    have hcollect : Path.collect (cs ++ [c]) = Path.push (Path.collect cs) c.text := by
      unfold Path.collect
      rw [List.foldl_append]
      rfl
    have hpush : b ∈ Path.collect cs ∨ b ∈ c.text := by
      rw [hcollect] at h
      unfold Path.push at h
      split at h
      · exact .inr h
      · split at h
        · simpa [hb] using h
        · exact List.mem_append.mp h
    rcases hpush with hbuf | htext
    · obtain ⟨c', hc', hmem⟩ := ih hbuf
      exact ⟨c', List.mem_append_left _ hc', hmem⟩
    · exact ⟨c, by simp, htext⟩

/-- The directory of a path that leads somewhere has no null byte. -/
theorem nul_not_mem_directoryText {i : Ino} (h : files.lead path = .ok i) :
    (0 : UInt8) ∉ Files.directoryText path := by
  intro hmem
  unfold Files.directoryText at hmem
  split at hmem
  · revert hmem
    decide
  · obtain ⟨c, hc, htext⟩ := mem_collect (by decide) hmem
    have hc' : c ∈ Path.components path := (List.dropLast_prefix _).subset hc
    cases c with
    | rootDir | curDir | parentDir =>
      revert htext
      decide
    | normal n => exact (names_of_lead h hc').2 htext

/-- The calls in which the file is opened. -/
theorem openNofollow_eq (h : (Path.components path).getLast? = some (.normal name)) :
    HostFile.openNofollow path = (do
      let directory ← asCStr PATH_MAX (Files.directoryText path)
      let dirfd ← openat2 .cwd directory (HostFile.DIRECTORY_HOW O_NOFOLLOW 0)
      let name ← asCStr PATH_COMPONENT_MAX name
      let fd ← openat2 (.fd dirfd) name (HostFile.FILE_HOW O_NOFOLLOW 0)
      if !(← isDirectory (.fd fd)) then
        return { dirfd, name, fd, isSymlink := true }
      else throw .notAFile) := by
  have hsplit := components_split h
  cases hcomponents : Path.components path with
  | nil =>
    rw [hcomponents] at h
    cases h
  | cons first components =>
    rw [hcomponents] at hsplit
    have htext : (if Path.collect (Files.directoryOf path) = [] then ascii "." else
        Path.collect (Files.directoryOf path)) = Files.directoryText path := by
      unfold Files.directoryText
      simp only [Files.collect_directoryOf_eq_nil_iff]
    unfold HostFile.openNofollow HostFile.openAtInternal
    simp only [hcomponents, splitName_eq hsplit, htext]
    rfl

/-- What the two steps come to: the file that the components lead to, where the directory
part is direct, and nothing where they lead to none. -/
def Files.TwoSteps (files : Files Ino) (path : Bytes) (r : Except PolicyError HostFile)
    (table : Table Ino) : Prop :=
  match r with
  | .ok file => files.Direct path ∧
    ∃ i, files.lead path = .ok i ∧ files.tree.isDirectory i = false ∧ table file.fd = some i
  | .error _ => ¬ (files.Direct path ∧ files.LeadsToFile path)

theorem twoSteps_error {e : PolicyError} (h : ∀ i, files.lead path ≠ .ok i) :
    files.TwoSteps path (.error e) table := by
  intro hopens
  obtain ⟨-, i, hi, -⟩ := hopens
  exact h i hi

/-- From the directory, the file is opened that the components lead to. -/
theorem wp_openName (h : (Path.components path).getLast? = some (.normal name)) {j : Ino}
    {dirfd : RawFd} (hfd : table dirfd = some j) (hdirect : files.Direct path)
    (hlead : files.lead path = files.tree.child j (.name name)) :
    Wp files.kernel (do
      let name ← asCStr PATH_COMPONENT_MAX name
      let fd ← openat2 (.fd dirfd) name (HostFile.FILE_HOW O_NOFOLLOW 0)
      if !(← isDirectory (.fd fd)) then
        return { dirfd, name, fd, isSymlink := true }
      else throw .notAFile : Opening HostFile).run (files.TwoSteps path) table := by
  refine Wp.bindE (wp_asCStr (fun hlen _ => ?_) fun e hbad => ?_)
  · refine Wp.bindE (wp_openat2 hfd rfl (fun i fd hi => ?_) fun e he => ?_)
    · rw [Files.openPath_name files j (isName_of_last h) hlen, ← hlead] at hi
      have hi' : files.lead path = .ok i := by
        cases hr : files.lead path with
        | error e => simp [hr] at hi
        | ok i' => simpa [hr] using hi
      refine Wp.bindE (wp_isDirectory (Function.update_self fd (some i) table) ?_)
      dsimp only
      cases hdirectory : files.tree.isDirectory i with
      | false =>
        exact wp_pureE.mpr ⟨hdirect, i, hi', hdirectory, Function.update_self fd (some i) table⟩
      | true =>
        refine wp_done.mpr fun hopens => ?_
        obtain ⟨-, i', hi'', hfile⟩ := hopens
        rw [hi'] at hi''
        cases hi''
        rw [hdirectory] at hfile
        cases hfile
    · rw [Files.openPath_name files j (isName_of_last h) hlen, ← hlead] at he
      refine twoSteps_error fun i hi => ?_
      rw [hi] at he
      cases he
  · refine twoSteps_error fun i hi => hbad (names_of_lead hi ?_)
    exact List.mem_of_getLast? h

/-- Where the components lead anywhere, a directory part that is direct leads to a directory. -/
theorem directory_of_lead (h : (Path.components path).getLast? = some (.normal name))
    (hdirect : files.Direct path) {i : Ino} (hi : files.lead path = .ok i) :
    ∃ j, files.tree.lookup false MAXSYMLINKS ((Files.directoryOf path).map stepOf) files.cwd =
      .ok j ∧ files.tree.isDirectory j = true := by
  cases hlookup : files.tree.lookup false MAXSYMLINKS
      ((Files.directoryOf path).map stepOf) files.cwd with
  | error e =>
    rw [lead_of_no_directory h hlookup] at hi
    cases hi
  | ok j =>
    refine ⟨j, rfl, ?_⟩
    by_contra hnot
    rw [lead_of_directory h hlookup (hdirect.2 j hlookup),
      FileTree.child_of_not_directory (by simpa using hnot)] at hi
    cases hi

/-- Every run comes to what the two steps do. -/
theorem wp_openNofollow (h : (Path.components path).getLast? = some (.normal name)) :
    Wp files.kernel (HostFile.openNofollow path).run (files.TwoSteps path) table := by
  rw [openNofollow_eq h]
  refine Wp.bindE (wp_asCStr (fun hlen _ => ?_) fun e hbad => ?_)
  · refine Wp.bindE (wp_openat2 rfl rfl (fun j dirfd hj => ?_) fun e he => ?_)
    · rw [Files.openPath_directory files hlen] at hj
      cases hlookup : files.tree.lookup false MAXSYMLINKS
          ((Files.directoryOf path).map stepOf) files.cwd with
      | error e => simp [hlookup] at hj
      | ok j' =>
        cases hdirectory : files.tree.isDirectory j' with
        | false => simp [hlookup, hdirectory] at hj
        | true =>
          have hjj : j' = j := by simpa [hlookup, hdirectory] using hj
          subst hjj
          have hlink := FileTree.isLink_of_isDirectory hdirectory
          have hdirect : files.Direct path := by
            refine ⟨hlen, fun k hk => ?_⟩
            rw [hlookup, Except.ok.injEq] at hk
            exact hk ▸ hlink
          exact wp_openName h (Function.update_self dirfd (some j') table) hdirect
            (lead_of_directory h hlookup hlink)
    · intro hopens
      obtain ⟨hdirect, i, hi, -⟩ := hopens
      obtain ⟨j, hj, hdirectory⟩ := directory_of_lead h hdirect hi
      rw [Files.openPath_directory files hlen] at he
      simp [hj, hdirectory] at he
  · intro hopens
    obtain ⟨hdirect, i, hi, -⟩ := hopens
    exact hbad ⟨hdirect.1, nul_not_mem_directoryText hi⟩

/-! ### The path in one call -/

theorem filter_pieceStep (pieces : List Bytes) :
    (pieces.filterMap pieceStep).filter (· ≠ .here) =
      ((pieces.filterMap Path.parseSingle).map stepOf).filter (· ≠ .here) := by
  induction pieces with
  | nil => rfl
  | cons piece pieces ih =>
    unfold pieceStep Path.parseSingle at ih ⊢
    by_cases hnil : piece = []
    · simpa [List.filterMap_cons, hnil] using ih
    · by_cases hdot : piece = [dot]
      · simpa [List.filterMap_cons, hdot] using ih
      · by_cases hup : piece = [dot, dot]
        · simpa [List.filterMap_cons, hup, stepOf] using ih
        · simpa [List.filterMap_cons, hnil, hdot, hup, stepOf] using ih

/-- A path and its components differ in steps that stay where they are. -/
theorem filter_pathSteps (path : Bytes) : (pathSteps path).filter (· ≠ .here) =
    ((Path.components path).map stepOf).filter (· ≠ .here) := by
  have hfront : (if Path.isAbsolute path then [.root] else [] : List (PathStep Bytes)) =
      ((Path.front path).map stepOf).filter (· ≠ .here) := by
    unfold Path.front
    split
    · rfl
    · split
      · rfl
      · rfl
  have hroot : (if Path.isAbsolute path then [.root] else [] : List (PathStep Bytes)).filter
      (· ≠ .here) = if Path.isAbsolute path then [.root] else [] := by
    split
    · rfl
    · rfl
  have hlast : (if path.getLast? = some sep ∧ (path.splitOn sep).filterMap pieceStep ≠ [] then
      [.here] else [] : List (PathStep Bytes)).filter (· ≠ .here) = [] := by
    split
    · rfl
    · rfl
  unfold pathSteps Path.components
  rw [List.filter_append, List.filter_append, hlast, hroot, filter_pieceStep, hfront,
    List.append_nil, List.map_append, List.filter_append]

/-- The last step of a path that ends in a name stays where it is, or is the name. -/
theorem pathSteps_concat (h : (Path.components path).getLast? = some (.normal name)) :
    ∃ steps last, pathSteps path = steps ++ [last] ∧ (last = .here ∨ last = .name name ∧
      steps.filter (· ≠ .here) =
        ((Files.directoryOf path).map stepOf).filter (· ≠ .here)) := by
  have hsteps := filter_pathSteps path
  rw [components_split h, List.map_append, List.filter_append] at hsteps
  have hname : ([Component.normal name].map stepOf).filter (· ≠ .here) = [.name name] := rfl
  rw [hname] at hsteps
  rcases List.eq_nil_or_concat (pathSteps path) with hnil | ⟨steps, last, hconcat⟩
  · rw [hnil] at hsteps
    simp at hsteps
  · rw [List.concat_eq_append] at hconcat
    refine ⟨steps, last, hconcat, ?_⟩
    by_cases hlast : last = .here
    · exact .inl hlast
    · rw [hconcat, List.filter_append, List.filter_cons_of_pos (by simpa using hlast),
        List.filter_nil] at hsteps
      obtain ⟨hdirectory, hsame⟩ := List.append_inj' hsteps rfl
      exact .inr ⟨List.singleton_inj.mp hsame, hdirectory⟩

/-- Whatever the path ends in, one call looks up its steps where it fits. -/
theorem resolve_eq (h : (Path.components path).getLast? = some (.normal name)) :
    files.resolve path =
      if PATH_MAX ≤ path.length then .error .NAMETOOLONG
      else match files.tree.lookup false MAXSYMLINKS (pathSteps path) files.cwd with
        | .error e => .error (errnoOf e)
        | .ok i => .ok i := by
  have hne : path ≠ [] := by
    intro e
    subst e
    cases h
  have hfollow : ((HostFile.FILE_HOW O_NOFOLLOW 0).flags &&& O_NOFOLLOW.toUInt64 == 0) =
      false := by decide
  have hdirectory : ((HostFile.FILE_HOW O_NOFOLLOW 0).flags &&& O_DIRECTORY.toUInt64 != 0) =
      false := by decide
  unfold Files.resolve Files.openPath
  rw [if_neg hne, hfollow, hdirectory]
  rfl

/-- In a name, the call leads where the components do. -/
theorem resolve_of_endsInName (h : (Path.components path).getLast? = some (.normal name))
    (hends : Files.EndsInName path) (i : Ino) :
    files.resolve path = .ok i ↔ files.lead path = .ok i := by
  obtain ⟨hlen, name', hname'⟩ := hends
  obtain ⟨steps, last, hconcat, hlast⟩ := pathSteps_concat h
  have hlookup : files.tree.lookup false MAXSYMLINKS (pathSteps path) files.cwd =
      files.lead path := by
    rcases hlast with rfl | ⟨rfl, hsame⟩
    · rw [hconcat, List.getLast?_concat] at hname'
      cases hname'
    · calc files.tree.lookup false MAXSYMLINKS (pathSteps path) files.cwd
          = files.tree.lookup false MAXSYMLINKS
              (steps.filter (· ≠ .here) ++ [.name name]) files.cwd := by
            rw [hconcat, FileTree.lookup_filter_here]
        _ = files.tree.lookup false MAXSYMLINKS
              ((Files.directoryOf path).map stepOf ++ [.name name]) files.cwd := by
            rw [hsame, FileTree.lookup_filter_here]
        _ = files.lead path := by
            unfold Files.lead
            rw [components_split h, List.map_append]
            rfl
  rw [resolve_eq h, if_neg (Nat.not_le_of_lt hlen), hlookup]
  cases files.lead path with
  | error e => simp
  | ok j => simp

/-- In anything else, it leads to a directory or nowhere. -/
theorem isDirectory_of_resolve (h : (Path.components path).getLast? = some (.normal name))
    (hends : ¬ Files.EndsInName path) {i : Ino} (hi : files.resolve path = .ok i) :
    files.tree.isDirectory i = true := by
  obtain ⟨steps, last, hconcat, hlast⟩ := pathSteps_concat h
  rw [resolve_eq h] at hi
  split at hi
  · cases hi
  · next hlen =>
    have hhere : last = .here := by
      refine hlast.resolve_right fun hname => hends ⟨Nat.lt_of_not_le hlen, name, ?_⟩
      rw [hconcat, List.getLast?_concat, hname.1]
    rw [hconcat, hhere] at hi
    cases hlookup : files.tree.lookup false MAXSYMLINKS (steps ++ [.here]) files.cwd with
    | error e =>
      rw [hlookup] at hi
      cases hi
    | ok j =>
      rw [hlookup, Except.ok.injEq] at hi
      exact hi ▸ FileTree.isDirectory_of_lookup_here hlookup

/-! ### Runs that return -/

/-- Nothing is found to be interrupted. -/
theorem openPath_ne_intr (start : Ino) (text : Bytes) (how : OpenHow) :
    files.openPath start text how ≠ .error .INTR := by
  unfold Files.openPath
  split
  · exact fun h => absurd (Except.error.inj h) (by decide)
  · split
    · exact fun h => absurd (Except.error.inj h) (by decide)
    · split
      · next e _ => cases e <;> exact fun h => absurd (Except.error.inj h) (by decide)
      · split
        · exact fun h => absurd (Except.error.inj h) (by decide)
        · exact fun h => by cases h

/-- With a descriptor to spare, `openat2` returns. -/
theorem exists_returns_openat2 (files : Files Ino) (dirfd : AtFd) (text : Bytes) (how : OpenHow)
    {fd : RawFd} (hfd : table fd = none) :
    ∃ x table', Returns files.kernel (openat2 dirfd text how).run table x table' ∧
      ∀ fd', fd' ≠ fd → table' fd' = table fd' := by
  have hcall : ∀ (r : Except Errno RawFd) table', files.kernel table (.openat2 dirfd text how) r
      table' → interrupted r = false → ∃ x, Returns files.kernel (openat2 dirfd text how).run
        table x table' := by
    intro r table' hk hr
    cases r with
    | ok fd => exact ⟨.ok fd, .head (.next hk hr) (.refl _ _)⟩
    | error e => exact ⟨.error (.syscall ⟨.openat2, e⟩), .head (.next hk hr) (.refl _ _)⟩
  generalize hfound : (match files.base table dirfd with
    | none => .error .BADF
    | some start => files.openPath start text how : Except Errno Ino) = found
  have hne : found ≠ .error .INTR := by
    rw [← hfound]
    split
    · exact fun h => absurd (Except.error.inj h) (by decide)
    · exact openPath_ne_intr _ _ _
  cases found with
  | error e =>
    obtain ⟨x, hx⟩ := hcall (.error e) table (.inr fun _ => by rw [hfound]; exact ⟨rfl, rfl⟩)
      (by simpa [interrupted] using hne)
    exact ⟨x, table, hx, fun _ _ => rfl⟩
  | ok i =>
    obtain ⟨x, hx⟩ := hcall (.ok fd) (Function.update table fd (some i))
      (.inr fun _ => by rw [hfound]; exact ⟨fd, hfd, rfl, rfl⟩) rfl
    exact ⟨x, _, hx, fun fd' hne' => Function.update_of_ne hne' _ _⟩

theorem exists_returns_isDirectory (files : Files Ino) (table : Table Ino) (fd : RawFd) :
    ∃ x, Returns files.kernel (isDirectory (.fd fd)).run table x table := by
  cases hfd : table fd with
  | none =>
    have hk : files.kernel table (.statx (.fd fd) [] (AT_EMPTY_PATH ||| AT_SYMLINK_NOFOLLOW)
        STATX_TYPE) (.error .BADF) table := by
      refine ⟨rfl, fun _ _ => ?_⟩
      rw [show files.base table (.fd fd) = none from hfd]
    exact ⟨_, .head (.next hk rfl) (.refl _ _)⟩
  | some i =>
    have hmode : ∃ mode : UInt16, (mode.toUInt32 &&& S_IFMT == S_IFDIR) =
        files.tree.isDirectory i := by
      cases files.tree.isDirectory i with
      | true => exact ⟨0o040000, by decide⟩
      | false => exact ⟨0, by decide⟩
    obtain ⟨mode, hmode⟩ := hmode
    have hk : files.kernel table (.statx (.fd fd) [] (AT_EMPTY_PATH ||| AT_SYMLINK_NOFOLLOW)
        STATX_TYPE) (.ok ⟨STATX_TYPE, mode, 0, 0, 0⟩) table := by
      refine ⟨rfl, fun _ _ => ?_⟩
      rw [show files.base table (.fd fd) = some i from hfd]
      exact ⟨_, rfl, hmode⟩
    exact ⟨_, .head (.next hk rfl) (.refl _ _)⟩

theorem exists_returns_asCStr (files : Files Ino) (table : Table Ino) (N : Nat) (bytes : Bytes) :
    ∃ x, Returns files.kernel (asCStr N bytes).run table x table := by
  unfold asCStr
  split
  · exact ⟨_, .refl _ _⟩
  · exact ⟨_, .refl _ _⟩

/-- With two descriptors to spare, some run returns. -/
theorem exists_returns (h : (Path.components path).getLast? = some (.normal name)) {fd fd' : RawFd}
    (hne : fd ≠ fd') (hfd : table fd = none) (hfd' : table fd' = none) :
    ∃ r table', Returns files.kernel (HostFile.openNofollow path).run table r table' := by
  rw [openNofollow_eq h]
  obtain ⟨x, hx⟩ := exists_returns_asCStr files table PATH_MAX (Files.directoryText path)
  refine exists_returns_bindE hx fun directory _ => ?_
  obtain ⟨x, table₁, hx, hsame⟩ := exists_returns_openat2 files .cwd directory
    (HostFile.DIRECTORY_HOW O_NOFOLLOW 0) hfd
  refine exists_returns_bindE hx fun dirfd _ => ?_
  obtain ⟨x, hx⟩ := exists_returns_asCStr files table₁ PATH_COMPONENT_MAX name
  refine exists_returns_bindE hx fun name _ => ?_
  have hfree : table₁ fd' = none := (hsame fd' hne.symm).trans hfd'
  obtain ⟨x, table₂, hx, -⟩ := exists_returns_openat2 files (.fd dirfd) name
    (HostFile.FILE_HOW O_NOFOLLOW 0) hfree
  refine exists_returns_bindE hx fun file _ => ?_
  obtain ⟨x, hx⟩ := exists_returns_isDirectory files table₂ file
  refine exists_returns_bindE hx fun directory _ => ?_
  cases directory with
  | true => exact ⟨_, _, .refl _ _⟩
  | false => exact ⟨_, _, .refl _ _⟩

/-- Where the components of a path lead to a file, one call and the two steps open the same
exactly when the path fits and ends in its name as long as the directory part is direct, and
both open nothing otherwise. Where they lead to none, the two are never told apart. With
descriptors to spare, it is tried to the end. -/
theorem open_nofollow_agrees_iff (h : (Path.components path).getLast? = some (.normal name)) :
    (files.Agrees path ↔
      (files.LeadsToFile path → (Files.EndsInName path ↔ files.Direct path))) ∧
      ∀ table fd fd', fd ≠ fd' → table fd = none → table fd' = none → ∃ r table',
        Returns files.kernel (HostFile.openNofollow path).run table r table' := by
  refine ⟨⟨?_, ?_⟩, fun table fd fd' hne hfd hfd' => exists_returns h hne hfd hfd'⟩
  · intro hagrees hfile
    have hreturns : ∃ r table', Returns files.kernel (HostFile.openNofollow path).run
        (fun _ => none) r table' := exists_returns h (by decide : (0 : RawFd) ≠ 1) rfl rfl
    obtain ⟨r, table', hrun⟩ := hreturns
    have hsteps := (wp_openNofollow h).returns hrun
    have houtcome := hagrees _ _ _ hrun
    cases r with
    | ok file =>
      obtain ⟨hdirect, i, -, hi, hfd⟩ := hsteps
      obtain ⟨i', hresolve, hfd'⟩ := houtcome
      rw [hfd, Option.some.injEq] at hfd'
      subst hfd'
      refine ⟨fun _ => hdirect, fun _ => ?_⟩
      by_contra hends
      rw [isDirectory_of_resolve h hends hresolve] at hi
      cases hi
    | error e =>
      refine ⟨fun hends => ?_, fun hdirect => absurd ⟨hdirect, hfile⟩ hsteps⟩
      obtain ⟨i, hlead, hi⟩ := hfile
      rw [houtcome i ((resolve_of_endsInName h hends i).mpr hlead)] at hi
      cases hi
  · intro hsame table r table' hrun
    have hsteps := (wp_openNofollow h).returns hrun
    cases r with
    | ok file =>
      obtain ⟨hdirect, i, hlead, hi, hfd⟩ := hsteps
      have hends := (hsame ⟨i, hlead, hi⟩).mpr hdirect
      exact ⟨i, (resolve_of_endsInName h hends i).mpr hlead, hfd⟩
    | error e =>
      intro i hresolve
      by_contra hi
      by_cases hends : Files.EndsInName path
      · have hfile : files.LeadsToFile path :=
          ⟨i, (resolve_of_endsInName h hends i).mp hresolve, by simpa using hi⟩
        exact hsteps ⟨(hsame hfile).mp hends, hfile⟩
      · exact hi (isDirectory_of_resolve h hends hresolve)

end Agreement

end Opening

/-! ## A directory that is a link -/

/-- The root has a directory `dir` with a file in it, and a `link` to that directory. -/
def linkedInode : Nat → Inode Nat Bytes
  | 0 => .directory 0 fun n =>
    if n = ascii "dir" then some 1 else if n = ascii "link" then some 3 else none
  | 1 => .directory 0 fun n => if n = ascii "file" then some 2 else none
  | 3 => .link [.name (ascii "dir")]
  | _ => .other

def linkedFiles : Files Nat where
  tree := ⟨0, linkedInode⟩
  cwd := 0
  cwd_directory := rfl
  names := by
    intro d parent entry n hd hentry
    match d with
    | 0 =>
      cases hd
      by_cases hdir : n = ascii "dir"
      · subst hdir
        decide
      · by_cases hlink : n = ascii "link"
        · subst hlink
          decide
        · simp [hdir, hlink] at hentry
    | 1 =>
      cases hd
      by_cases hfile : n = ascii "file"
      · subst hfile
        decide
      · simp [hfile] at hentry
    | 2 | 3 | _ + 4 => cases hd

/-- Where the two paths to the file lead, and the directory part of the one by the link. -/
theorem linked_lookups :
    linkedFiles.lead (ascii "dir/file") = .ok 2 ∧ linkedFiles.lead (ascii "link/file") = .ok 2 ∧
    linkedFiles.resolve (ascii "link/file") = .ok 2 ∧
    linkedFiles.tree.lookup false MAXSYMLINKS
      ((Files.directoryOf (ascii "dir/file")).map stepOf) linkedFiles.cwd = .ok 1 := by
  decide +kernel

/-- By the name of its directory, the file is opened. -/
theorem open_nofollow_agrees_iff_dir : linkedFiles.Agrees (ascii "dir/file") := by
  have hname : (Path.components (ascii "dir/file")).getLast? = some (.normal (ascii "file")) := by
    decide
  have hends : Files.EndsInName (ascii "dir/file") := ⟨by decide, ascii "file", by decide⟩
  have hdirect : linkedFiles.Direct (ascii "dir/file") := by
    refine ⟨by decide, fun j hj => ?_⟩
    rw [linked_lookups.2.2.2] at hj
    have hj' : (1 : Nat) = j := by injection hj
    exact hj' ▸ rfl
  exact (open_nofollow_agrees_iff hname).1.mpr fun _ => ⟨fun _ => hdirect, fun _ => hends⟩

/-- By the link to its directory, one call leads to the file, and no run opens it. -/
theorem open_nofollow_link :
    (Path.components (ascii "link/file")).getLast? = some (.normal (ascii "file")) ∧
      linkedFiles.resolve (ascii "link/file") = .ok 2 ∧
      linkedFiles.tree.isDirectory 2 = false ∧ ¬ linkedFiles.Agrees (ascii "link/file") := by
  have hname : (Path.components (ascii "link/file")).getLast? = some (.normal (ascii "file")) := by
    decide
  refine ⟨hname, linked_lookups.2.2.1, rfl, fun hagrees => ?_⟩
  have hreturns : ∃ r table', Returns linkedFiles.kernel
      (HostFile.openNofollow (ascii "link/file")).run (fun _ => none) r table' :=
    exists_returns hname (by decide : (0 : RawFd) ≠ 1) rfl rfl
  obtain ⟨r, table', hrun⟩ := hreturns
  have houtcome := hagrees _ _ _ hrun
  have hsteps := (wp_openNofollow hname).returns hrun
  have hlink : ¬ linkedFiles.Direct (ascii "link/file") := by
    intro hdirect
    have hlookup : linkedFiles.tree.lookup false MAXSYMLINKS
        ((Files.directoryOf (ascii "link/file")).map stepOf) linkedFiles.cwd = .ok 3 := by
      decide +kernel
    exact absurd (hdirect.2 3 hlookup) (by decide)
  cases r with
  | ok file => exact hlink hsteps.1
  | error e => exact absurd (houtcome 2 linked_lookups.2.2.1) (by decide)

end LayerCake.Bubblebox.Host
