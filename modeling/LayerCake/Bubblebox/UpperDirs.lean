import LayerCake.Bubblebox.HostCalls
import LayerCake.Bubblebox.Mounts
import LayerCake.Effects.Log
import LayerCake.Order.CommonPrefix

/-
  The upper directories of an overlay, opened from the host
  (`UpperDirs::fd` in `bubblebox/src/platform/linux/mounts.rs`, `nearest_ancestor` in
  `bubblebox/src/paths.rs`).

  Correspondence (Rust ↔ Lean):
    `nearest_ancestor`        ↔ `nearestAncestor`
    `UpperDirs::{fd, fd_at}`  ↔ `UpperDirs.{fd, fdAt}`

  The two directories are opened from an anchor, which must have both of them beneath it.
  The anchor is the path of the components they begin with in common, and the current
  directory where there are none.

  What is proved: the common components and what is left of each directory fit together,
  and what is left is opened beneath the anchor and never refused there, exactly when both
  paths are absolute or both are relative (`fd_anchored_iff`). An absolute and a relative
  path have nothing in common, and the absolute one is opened as it is.
-/

namespace LayerCake.Bubblebox.Host

open LayerCake.Effects LayerCake.Meowix LayerCake.Linux LayerCake.Order
open LayerCake.Bubblebox.Spawn.Mounting (AtFd OpenHow)

def nearestAncestor (ax bx : Bytes) : Bytes :=
  Path.collect (mapWhile (fun p => if p.1 = p.2 then some p.1 else none)
    ((Path.components ax).zip (Path.components bx)))

namespace UpperDirs

def PARENT_HOW : OpenHow :=
  { flags := (O_PATH ||| O_CLOEXEC ||| O_DIRECTORY).toUInt64
    mode := 0
    resolve := RESOLVE_NO_MAGICLINKS.toUInt64 }

def BENEATH_HOW : OpenHow :=
  { flags := (O_PATH ||| O_CLOEXEC ||| O_DIRECTORY).toUInt64
    mode := 0
    resolve := (RESOLVE_NO_MAGICLINKS ||| RESOLVE_BENEATH ||| RESOLVE_NO_XDEV).toUInt64 }

def fdAt (parent : RawFd) (upperdir workdir : Bytes) : Opening UpperDirs := do
  let upperdir ← asCStr PATH_MAX upperdir
  let workdir ← asCStr PATH_MAX workdir
  let upperdirFd ← openat2 (.fd parent) upperdir BENEATH_HOW
  let workdirFd ← openat2 (.fd parent) workdir BENEATH_HOW
  return .fd parent upperdir upperdirFd workdir workdirFd

def fd (upperdir workdir : Bytes) : Opening UpperDirs := do
  let parent := nearestAncestor upperdir workdir
  let (upperdir, workdir) := (Path.trimPrefix upperdir parent, Path.trimPrefix workdir parent)
  let path ← asCStr PATH_MAX (if parent = [] then ascii "." else parent)
  let parent ← openat2 .cwd path PARENT_HOW
  fdAt parent upperdir workdir

/-! ## What the anchor is for -/

/-- Whether components lead out of where they start, which they are at the given depth
beneath. `RESOLVE_BENEATH` refuses these, whatever is there. -/
def escapes : Nat → List Component → Bool
  | _, [] => false
  | _, .rootDir :: _ => true
  | depth, .curDir :: cs => escapes depth cs
  | 0, .parentDir :: _ => true
  | depth + 1, .parentDir :: cs => escapes depth cs
  | depth, .normal _ :: cs => escapes (depth + 1) cs

/-- The path that is opened for the anchor. -/
def anchor (upperdir workdir : Bytes) : Bytes :=
  if nearestAncestor upperdir workdir = [] then [dot] else nearestAncestor upperdir workdir

/-- What is left of a path leads from its prefix to where the path does, and down. -/
structure Remainder (parent path : Bytes) : Prop where
  joined : Path.components (Path.push parent (Path.trimPrefix path parent)) = Path.components path
  ne_nil : Path.trimPrefix path parent ≠ []
  relative : Path.isAbsolute (Path.trimPrefix path parent) = false

/-- The anchor is opened as it is, and what is left of the directories beneath it, in vain
for no lexical reason. -/
def Opens (upperdir workdir : Bytes) : Op → Prop
  | .openat2 .cwd path how => path = anchor upperdir workdir ∧ how = PARENT_HOW
  | .openat2 (.fd _) path how =>
    (path = Path.trimPrefix upperdir (nearestAncestor upperdir workdir) ∨
      path = Path.trimPrefix workdir (nearestAncestor upperdir workdir)) ∧
    how = BENEATH_HOW ∧ escapes 0 (Path.components path) = false
  | .statx .. => False

/-- The texts that are opened: the anchor, and what is left of each directory. -/
def texts (upperdir workdir : Bytes) : List Bytes :=
  [anchor upperdir workdir, Path.trimPrefix upperdir (nearestAncestor upperdir workdir),
    Path.trimPrefix workdir (nearestAncestor upperdir workdir)]

/-- The calls that open the anchor and, beneath it, what is left of each directory. -/
def openings (upperdir workdir : Bytes) (parent upperdirFd workdirFd : RawFd) :
    List (Event Calls) :=
  [⟨.openat2 .cwd (anchor upperdir workdir) PARENT_HOW, .ok parent⟩,
    ⟨.openat2 (.fd parent) (Path.trimPrefix upperdir (nearestAncestor upperdir workdir))
      BENEATH_HOW, .ok upperdirFd⟩,
    ⟨.openat2 (.fd parent) (Path.trimPrefix workdir (nearestAncestor upperdir workdir))
      BENEATH_HOW, .ok workdirFd⟩]

/-- What the calls of `openings` are answered with. -/
def opened (upperdir workdir : Bytes) (parent upperdirFd workdirFd : RawFd) : UpperDirs :=
  .fd parent (Path.trimPrefix upperdir (nearestAncestor upperdir workdir)) upperdirFd
    (Path.trimPrefix workdir (nearestAncestor upperdir workdir)) workdirFd

/-- A text is no C string of the size, or the last call has failed. -/
inductive FailsWith (upperdir workdir : Bytes) : List (Event Calls) → PolicyError → Prop
  | text {trace : List (Event Calls)} {text : Bytes} {e : WithCStrError}
      (h : text ∈ texts upperdir workdir) (he : withCStr PATH_MAX text = .error e) :
      FailsWith upperdir workdir trace (.ofWithCStr e)
  | call (past : List (Event Calls)) {dirfd : AtFd} {path : Bytes} {how : OpenHow} {e : Errno} :
      FailsWith upperdir workdir (past ++ [⟨.openat2 dirfd path how, .error e⟩])
        (.syscall ⟨.openat2, e⟩)

/-- The three opens of a run that succeeds are the descriptors it returns. -/
structure Opened (upperdir workdir : Bytes) (r : Except PolicyError UpperDirs)
    (trace : List (Event Calls)) : Prop where
  ok : ∀ upperDirs, r = .ok upperDirs → ∃ parent upperdirFd workdirFd,
    trace = openings upperdir workdir parent upperdirFd workdirFd ∧
    upperDirs = opened upperdir workdir parent upperdirFd workdirFd
  error : ∀ e, r = .error e → FailsWith upperdir workdir trace e

/-- The anchor is the longest path both directories begin with, and both are opened from
it: a run fails only where a call or a text does, and ends well on any three answers. -/
structure Anchored (upperdir workdir : Bytes) : Prop where
  left : Path.components (nearestAncestor upperdir workdir) <+: Path.components upperdir
  right : Path.components (nearestAncestor upperdir workdir) <+: Path.components workdir
  longest : ∀ cs, cs <+: Path.components upperdir → cs <+: Path.components workdir →
    cs <+: Path.components (nearestAncestor upperdir workdir)
  upper : Remainder (nearestAncestor upperdir workdir) upperdir
  work : Remainder (nearestAncestor upperdir workdir) workdir
  opens : (fd upperdir workdir).run.Calls (Opens upperdir workdir)
  exact : Traced (fd upperdir workdir).run (Opened upperdir workdir)
  succeeds : (∀ text ∈ texts upperdir workdir, withCStr PATH_MAX text = .ok text) →
    ∀ parent upperdirFd workdirFd, (fd upperdir workdir).run.Trace
      (openings upperdir workdir parent upperdirFd workdirFd)
      (.ok (opened upperdir workdir parent upperdirFd workdirFd))

theorem components_nearestAncestor (ax bx : Bytes) : Path.components (nearestAncestor ax bx) =
    commonPrefix (Path.components ax) (Path.components bx) := by
  unfold nearestAncestor
  rw [mapWhile_zip, Path.components_collect]
  exact (Path.canonical_components ax).of_isPrefix (commonPrefix_left _ _)

theorem nearestAncestor_eq_nil_iff {ax bx : Bytes} : nearestAncestor ax bx = [] ↔
    commonPrefix (Path.components ax) (Path.components bx) = [] := by
  constructor
  · intro h
    rw [← components_nearestAncestor, h]
    rfl
  · intro h
    unfold nearestAncestor
    rw [mapWhile_zip, h]
    rfl

theorem escapes_of_down {cs : List Component} (hroot : .rootDir ∉ cs) (hup : .parentDir ∉ cs)
    (depth : Nat) : escapes depth cs = false := by
  induction cs generalizing depth with
  | nil => cases depth <;> rfl
  | cons c cs ih =>
    have hroot' : .rootDir ∉ cs := fun h => hroot (List.mem_cons_of_mem c h)
    have hup' : .parentDir ∉ cs := fun h => hup (List.mem_cons_of_mem c h)
    cases c with
    | rootDir => exact absurd List.mem_cons_self hroot
    | parentDir => exact absurd List.mem_cons_self hup
    | curDir =>
      rw [escapes]
      exact ih hroot' hup' depth
    | normal name =>
      rw [escapes]
      exact ih hroot' hup' (depth + 1)

section Remainders
variable {parent path : Bytes}

theorem isAbsolute_of_rootDir_mem (h : .rootDir ∈ Path.components path) :
    Path.isAbsolute path = true := by
  unfold Path.components at h
  rcases List.mem_append.mp h with hfront | hbody
  · unfold Path.front at hfront
    split at hfront
    · assumption
    · split at hfront <;> simp at hfront
  · exact absurd rfl
      (Path.inBody_of_mem_filterMap (Path.pieces_splitOn path).no_sep hbody).ne_rootDir

theorem components_ne_nil (h : Path.components path ≠ []) : path ≠ [] := by
  intro e
  rw [e] at h
  exact h rfl

/-- Behind a prefix with components, what is left has the other components. -/
theorem remainder_of_prefix {cs : List Component}
    (h : Path.components path = Path.components parent ++ cs)
    (hparent : Path.components parent ≠ []) (hcs : cs ≠ []) :
    Remainder parent path ∧ Path.components (Path.trimPrefix path parent) = cs := by
  obtain ⟨hfront, hcomponents⟩ := Path.trimPrefix_prefix h hparent hcs
  refine ⟨⟨?_, ?_, ?_⟩, hcomponents⟩
  · calc Path.components (Path.push parent (Path.trimPrefix path parent))
        = Path.components parent ++ Path.components (Path.trimPrefix path parent) :=
          Path.components_push (components_ne_nil hparent) hfront
      _ = Path.components parent ++ cs := by rw [hcomponents]
      _ = Path.components path := h.symm
  · exact components_ne_nil (hcomponents ▸ hcs)
  · unfold Path.front at hfront
    split at hfront
    · cases hfront
    · next habs => simpa using habs

/-- Behind nothing, all of the path is left. -/
theorem remainder_nil (hpath : Path.components path ≠ []) :
    Path.components (Path.trimPrefix path []) = Path.components path ∧
      Path.isAbsolute (Path.trimPrefix path []) = Path.isAbsolute path ∧
      (Path.isAbsolute path = false → Remainder [] path) := by
  have hcomponents : Path.components (Path.trimPrefix path []) = Path.components path :=
    Path.trimPrefix_nil rfl
  have habs : Path.isAbsolute (Path.trimPrefix path []) = Path.isAbsolute path := by
    rw [Bool.eq_iff_iff, Path.isAbsolute_iff, Path.isAbsolute_iff, hcomponents]
  refine ⟨hcomponents, habs, fun hrelative => ⟨?_, ?_, habs.trans hrelative⟩⟩
  · have hpush : Path.push [] (Path.trimPrefix path []) = Path.trimPrefix path [] := by
      unfold Path.push
      split
      · rfl
      · rw [if_neg (by simp), List.nil_append]
    rw [hpush, hcomponents]
  · exact components_ne_nil (hcomponents ▸ hpath)

end Remainders

section Directories
variable {upperdir workdir : Bytes}

/-- Where one of two paths goes on behind what they have in common, both being absolute or
both relative, it has a remainder. -/
theorem remainder (habs : Path.isAbsolute upperdir = Path.isAbsolute workdir)
    (hne : ¬ Path.components upperdir <+: Path.components workdir) :
    Remainder (nearestAncestor upperdir workdir) upperdir ∧
      ∀ c ∈ Path.components (Path.trimPrefix upperdir (nearestAncestor upperdir workdir)),
        c ∈ Path.components upperdir := by
  have hupperdir : Path.components upperdir ≠ [] := fun e => hne (e ▸ List.nil_prefix)
  have hcommon := components_nearestAncestor upperdir workdir
  by_cases hnil : nearestAncestor upperdir workdir = []
  · have hrelative : Path.isAbsolute upperdir = false := by
      by_contra h
      have h₁ : Path.isAbsolute upperdir = true := by simpa using h
      have h₂ : Path.isAbsolute workdir = true := habs ▸ h₁
      obtain ⟨cs, hcs⟩ := List.head?_eq_some_iff.mp ((Path.isAbsolute_iff upperdir).mp h₁)
      obtain ⟨cs', hcs'⟩ := List.head?_eq_some_iff.mp ((Path.isAbsolute_iff workdir).mp h₂)
      have hempty := nearestAncestor_eq_nil_iff.mp hnil
      rw [hcs, hcs', commonPrefix, if_pos rfl] at hempty
      cases hempty
    obtain ⟨hcomponents, -, hremainder⟩ := remainder_nil hupperdir
    rw [hnil, hcomponents]
    exact ⟨hremainder hrelative, fun c hc => hc⟩
  · have hparent : Path.components (nearestAncestor upperdir workdir) ≠ [] := by
      rw [hcommon]
      exact fun e => hnil (nearestAncestor_eq_nil_iff.mpr e)
    have hleft : Path.components (nearestAncestor upperdir workdir) <+: Path.components upperdir :=
      hcommon ▸ commonPrefix_left _ _
    obtain ⟨cs, hcs⟩ := hleft
    have hrest : cs ≠ [] := by
      intro e
      rw [e, List.append_nil] at hcs
      exact hne (hcs ▸ hcommon ▸ commonPrefix_right _ _)
    obtain ⟨hremainder, hcomponents⟩ := remainder_of_prefix hcs.symm hparent hrest
    refine ⟨hremainder, fun c hc => ?_⟩
    rw [← hcs]
    exact List.mem_append_right _ (hcomponents ▸ hc)

theorem nearestAncestor_comm (ax bx : Bytes) : nearestAncestor ax bx = nearestAncestor bx ax := by
  unfold nearestAncestor
  rw [mapWhile_zip, mapWhile_zip, commonPrefix_comm]

/-- A remainder that goes up nowhere is not refused. -/
theorem escapes_remainder {parent path : Bytes} (h : Remainder parent path)
    (hsub : ∀ c ∈ Path.components (Path.trimPrefix path parent), c ∈ Path.components path)
    (hup : .parentDir ∉ Path.components path) :
    escapes 0 (Path.components (Path.trimPrefix path parent)) = false := by
  apply escapes_of_down
  · intro hroot
    have habs := isAbsolute_of_rootDir_mem hroot
    rw [h.relative] at habs
    cases habs
  · exact fun hmem => hup (hsub _ hmem)

/-- Where the remainders are not refused, these and the anchor are what is opened. -/
theorem fd_opens
    (hupper : escapes 0 (Path.components
      (Path.trimPrefix upperdir (nearestAncestor upperdir workdir))) = false)
    (hwork : escapes 0 (Path.components
      (Path.trimPrefix workdir (nearestAncestor upperdir workdir))) = false) :
    (fd upperdir workdir).run.Calls (Opens upperdir workdir) := by
  refine calls_asCStr fun path hpath => ?_
  obtain ⟨rfl, -⟩ := withCStr_eq_ok hpath
  refine calls_openat2 ⟨rfl, rfl⟩ fun parent => ?_
  refine calls_asCStr fun upper hupper' => calls_asCStr fun work hwork' => ?_
  obtain ⟨rfl, -⟩ := withCStr_eq_ok hupper'
  obtain ⟨rfl, -⟩ := withCStr_eq_ok hwork'
  refine calls_openat2 ⟨.inl rfl, rfl, hupper⟩ fun upperdirFd => ?_
  exact calls_openat2 ⟨.inr rfl, rfl, hwork⟩ fun workdirFd => trivial

/-- A run opens the anchor and both directories, and returns what it has opened. -/
theorem fd_opened : Traced (fd upperdir workdir).run (Opened upperdir workdir) := by
  have hfails : ∀ {trace e}, FailsWith upperdir workdir trace e →
      Opened upperdir workdir (.error e) trace := by
    intro trace e h
    exact ⟨fun _ hr => (by cases hr), fun _ hr => by cases hr; exact h⟩
  refine traced_asCStr (fun e he => hfails (.text List.mem_cons_self he)) fun path hpath => ?_
  obtain ⟨rfl, -⟩ := withCStr_eq_ok hpath
  refine traced_openat2 (fun e => hfails (.call [])) fun parent => ?_
  refine traced_asCStr (fun e he => hfails (.text (by simp [texts]) he)) fun upper hupper => ?_
  obtain ⟨rfl, -⟩ := withCStr_eq_ok hupper
  refine traced_asCStr (fun e he => hfails (.text (by simp [texts]) he)) fun work hwork => ?_
  obtain ⟨rfl, -⟩ := withCStr_eq_ok hwork
  refine traced_openat2 (fun e => hfails (.call [_])) fun upperdirFd => ?_
  refine traced_openat2 (fun e => hfails (.call [_, _])) fun workdirFd => ?_
  refine traced_done.mpr ⟨fun _ hr => ?_, fun _ hr => (by cases hr)⟩
  cases hr
  exact ⟨parent, upperdirFd, workdirFd, rfl, rfl⟩

/-- Where the texts fit, any three descriptors are an answer. -/
theorem fd_succeeds (h : ∀ text ∈ texts upperdir workdir, withCStr PATH_MAX text = .ok text)
    (parent upperdirFd workdirFd : RawFd) : (fd upperdir workdir).run.Trace
      (openings upperdir workdir parent upperdirFd workdirFd)
      (.ok (opened upperdir workdir parent upperdirFd workdirFd)) := by
  have hparent := h (anchor upperdir workdir) List.mem_cons_self
  have hupper := h (Path.trimPrefix upperdir (nearestAncestor upperdir workdir)) (by simp [texts])
  have hwork := h (Path.trimPrefix workdir (nearestAncestor upperdir workdir)) (by simp [texts])
  refine trace_asCStr hparent (trace_openat2 ?_)
  refine trace_asCStr hupper (trace_asCStr hwork ?_)
  exact trace_openat2 (trace_openat2 ⟨rfl, rfl⟩)

/-- Two directories, neither on the way to the other and neither with a `..`, are opened from
the longest path they have in common exactly when both are absolute or both are relative. -/
theorem fd_anchored_iff (hupper : .parentDir ∉ Path.components upperdir)
    (hwork : .parentDir ∉ Path.components workdir)
    (hne : ¬ Path.components upperdir <+: Path.components workdir)
    (hne' : ¬ Path.components workdir <+: Path.components upperdir) :
    Anchored upperdir workdir ↔ Path.isAbsolute upperdir = Path.isAbsolute workdir := by
  have hcommon := components_nearestAncestor upperdir workdir
  constructor
  · intro h
    by_contra habs
    -- nothing is in common, and the absolute path is left as it is
    have hnil : nearestAncestor upperdir workdir = [] := by
      rw [nearestAncestor_eq_nil_iff]
      by_contra hsome
      obtain ⟨c, cs, hcs⟩ := List.exists_cons_of_ne_nil hsome
      have hleft := commonPrefix_left (Path.components upperdir) (Path.components workdir)
      have hright := commonPrefix_right (Path.components upperdir) (Path.components workdir)
      rw [hcs] at hleft hright
      obtain ⟨ls, hls⟩ := hleft
      obtain ⟨rs, hrs⟩ := hright
      apply habs
      rw [Bool.eq_iff_iff, Path.isAbsolute_iff, Path.isAbsolute_iff, ← hls, ← hrs]
      rfl
    have hupperdir : Path.components upperdir ≠ [] := fun e => hne (e ▸ List.nil_prefix)
    have hworkdir : Path.components workdir ≠ [] := fun e => hne' (e ▸ List.nil_prefix)
    have hrelative := h.upper.relative
    have hrelative' := h.work.relative
    rw [hnil, (remainder_nil hupperdir).2.1] at hrelative
    rw [hnil, (remainder_nil hworkdir).2.1] at hrelative'
    exact habs (hrelative.trans hrelative'.symm)
  · intro habs
    obtain ⟨hupperdir, hsub⟩ := remainder habs hne
    obtain ⟨hworkdir, hsub'⟩ := remainder habs.symm hne'
    rw [nearestAncestor_comm] at hworkdir hsub'
    exact {
      left := hcommon ▸ commonPrefix_left _ _
      right := hcommon ▸ commonPrefix_right _ _
      longest := fun cs h h' => hcommon ▸ prefix_commonPrefix h h'
      upper := hupperdir
      work := hworkdir
      opens := fd_opens (escapes_remainder hupperdir hsub hupper)
        (escapes_remainder hworkdir hsub' hwork)
      exact := fd_opened
      succeeds := fd_succeeds }

end Directories

/-- Two relative directories under one parent. -/
theorem fd_anchored_iff_siblings : Anchored (ascii "./a//upper/") (ascii "./a/work/x") :=
  (fd_anchored_iff (by decide) (by decide) (by decide) (by decide)).mpr (by decide)

/-- An absolute directory is left absolute beside a relative one. -/
theorem fd_anchored_mixed : ¬ ∀ upperdir workdir, .parentDir ∉ Path.components upperdir →
    .parentDir ∉ Path.components workdir →
    ¬ Path.components upperdir <+: Path.components workdir →
    ¬ Path.components workdir <+: Path.components upperdir → Anchored upperdir workdir := by
  intro h
  have hrelative := (h (ascii "/upper") (ascii "work") (by decide) (by decide) (by decide)
    (by decide)).upper.relative
  revert hrelative
  decide

end UpperDirs

end LayerCake.Bubblebox.Host
