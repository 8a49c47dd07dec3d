import LayerCake.Bubblebox.Paths
import LayerCake.Effects.Unchecked

/-
  What a guest path accepts, means and is handed on as
  (`bubblebox/src/platform/linux/paths.rs`).

  Correspondence (Rust ↔ Lean):
    `get_unchecked_mut(a..b).copy_from_slice`  ↔ `copyUnchecked`
    `GuestInner::with_c_str::<N>`              ↔ `GuestInner.withCStr`

  What is proved:
    1. `guest_paths_by_names` — `new` accepts exactly the absolute paths without `..`
       whose names fit their buffers, equal values are equal lists of names, and what
       `with_c_str` hands on is the same path again.
    2. `conversion_in_guest` — of an accepted path, `with_c_str::<PATH_MAX>` can only
       fail because the two parts together do not fit.
    3. `guest_paths_ordered` — the order is linear, and the paths underneath a path
       follow it without a gap.
-/

namespace LayerCake.Bubblebox

open LayerCake.Effects LayerCake.Meowix Std

/-! ## The path as one string -/

/-- `get_unchecked_mut(start..start + bytes.len())` and `copy_from_slice`: undefined
outside of the buffer. -/
def copyUnchecked (buffer : Bytes) (start : Nat) (bytes : Bytes) :
    Except (Stop WithCStrError) Bytes :=
  if start + bytes.length ≤ buffer.length then
    .ok (buffer.take start ++ bytes ++ buffer.drop (start + bytes.length))
  else .error .undefined

/-- `get_unchecked(..len)`. -/
def getUnchecked (buffer : Bytes) (len : Nat) : Except (Stop WithCStrError) Bytes :=
  if len ≤ buffer.length then .ok (buffer.take len) else .error .undefined

def GuestInner.withCStr (N : Nat) (self : GuestInner) : Except (Stop WithCStrError) Bytes := do
  let buffer := List.replicate N 0
  let parentDirLen := self.parentDir.length
  let fileNameLen := self.fileName.length
  -- one more to contain the `/` separating them
  if !(parentDirLen + fileNameLen + 1 < buffer.length) then throw (.error .cStrBufferTooSmall)
  let buffer ← copyUnchecked buffer 0 self.parentDir
  let buffer ← copyUnchecked buffer parentDirLen [sep]
  let buffer ← copyUnchecked buffer (parentDirLen + 1) self.fileName
  match cStrFromBytesWithNul (← getUnchecked buffer (parentDirLen + fileNameLen + 2)) with
  | some path => return path
  | none => throw (.error .fromBytesWithNulError)

/-- A copy to where the bytes copied before end, into a buffer that is still zero there. -/
theorem copyUnchecked_append {before bytes : Bytes} {n k : Nat} (hn : before.length = n)
    (h : bytes.length ≤ k) :
    copyUnchecked (before ++ List.replicate k 0) n bytes =
      .ok (before ++ bytes ++ List.replicate (k - bytes.length) 0) := by
  subst hn
  unfold copyUnchecked
  rw [if_pos (by simp [h]), List.take_left' rfl, List.drop_append, List.drop_replicate]
  simp

/-- What was copied, with the zero behind it. -/
theorem getUnchecked_append {before : Bytes} {n k : Nat} (hn : before.length + 1 = n)
    (hk : 0 < k) : getUnchecked (before ++ List.replicate k 0) n = .ok (before ++ [0]) := by
  subst hn
  unfold getUnchecked
  rw [if_pos (by simp; omega)]
  obtain ⟨rest, rfl⟩ := Nat.exists_eq_succ_of_ne_zero (Nat.ne_of_gt hk)
  rw [List.replicate_succ, List.append_cons, List.take_left' (by simp)]

/-- The copies fill the buffer from its start, and leave a null byte after them. -/
theorem GuestInner.withCStr_eq (N : Nat) (self : GuestInner) :
    self.withCStr N =
      if self.parentDir.length + self.fileName.length + 2 ≤ N then
        match cStrFromBytesWithNul (self.parentDir ++ sep :: self.fileName ++ [0]) with
        | some path => .ok path
        | none => .error (.error .fromBytesWithNulError)
      else .error (.error .cStrBufferTooSmall) := by
  unfold GuestInner.withCStr
  simp only [List.length_replicate]
  by_cases hlen : self.parentDir.length + self.fileName.length + 2 ≤ N
  · have hparent : copyUnchecked (List.replicate N 0) 0 self.parentDir =
        .ok (self.parentDir ++ List.replicate (N - self.parentDir.length) 0) :=
      @copyUnchecked_append [] _ _ _ rfl (by omega)
    have hsep : copyUnchecked (self.parentDir ++ List.replicate (N - self.parentDir.length) 0)
        self.parentDir.length [sep] =
        .ok (self.parentDir ++ [sep] ++ List.replicate (N - self.parentDir.length - 1) 0) :=
      copyUnchecked_append rfl (by simp; omega)
    have hname : copyUnchecked (self.parentDir ++ [sep] ++
        List.replicate (N - self.parentDir.length - 1) 0) (self.parentDir.length + 1)
        self.fileName = .ok (self.parentDir ++ [sep] ++ self.fileName ++
          List.replicate (N - self.parentDir.length - 1 - self.fileName.length) 0) :=
      copyUnchecked_append (by simp) (by omega)
    have hget : getUnchecked (self.parentDir ++ [sep] ++ self.fileName ++
        List.replicate (N - self.parentDir.length - 1 - self.fileName.length) 0)
        (self.parentDir.length + self.fileName.length + 2) =
        .ok (self.parentDir ++ sep :: self.fileName ++ [0]) := by
      rw [getUnchecked_append (by simp; omega) (by omega)]
      simp
    rw [if_neg (by simp; omega), if_pos hlen]
    simp only [bind, Except.bind, hparent, hsep, hname, hget]
    rfl
  · rw [if_neg hlen, if_pos (by simp; omega)]
    rfl

/-! ## Names and strings -/

/-- The parent's path, a separator and the file name are the path of all the names,
also where the parent is the root and the separator stands twice. -/
theorem Path.components_join {names : List Bytes} {n : Bytes}
    (h : ∀ m ∈ names ++ [n], Path.IsName m) :
    Path.components (Path.render names ++ sep :: n) = .rootDir :: (names ++ [n]).map .normal := by
  by_cases hne : names = []
  · subst hne
    have hn : Path.IsName n := h n (by simp)
    have hsplit : (sep :: sep :: n).splitOn sep = [[], [], n] := by
      have hlast : ([sep].intercalate [n]).splitOn sep = [n] :=
        Path.splitOn_intercalate_sep (by simp) h
      rw [List.intercalate_singleton] at hlast
      simp [List.splitOn_cons_eq_if_modifyHead, hlast]
    show Path.components (sep :: sep :: n) = _
    unfold Path.components Path.front
    rw [hsplit, if_pos (by simp [Path.isAbsolute])]
    have hempty : Path.parseSingle [] = none := rfl
    simp only [List.filterMap_cons, hempty, Path.parseSingle_name hn]
    rfl
  · rw [← Path.render_concat hne, Path.components_render h]

theorem Path.normals_render {names : List Bytes} (h : ∀ n ∈ names, Path.IsName n) :
    Path.normals (Path.render names) = names := by
  unfold Path.normals
  rw [Path.components_render h, List.filterMap_cons]
  exact Path.filterMap_asNormal names

theorem Path.zero_not_mem_render {names : List Bytes} :
    0 ∉ Path.render names ↔ ∀ n ∈ names, (0 : UInt8) ∉ n := by
  unfold Path.render
  rw [List.mem_cons, not_or, and_iff_right (by decide)]
  induction names with
  | nil => simp
  | cons n names ih =>
    cases names with
    | nil => simp
    | cons m names =>
      rw [List.intercalate_cons_cons, List.forall_mem_cons, ← ih]
      simp [show ¬ (0 : UInt8) = sep by decide]

section Built
variable {path : Bytes} {g : GuestInner}

/-- Of a value built by `new`, the conversion depends on its length alone. -/
theorem GuestInner.withCStr_built (h : new path = .ok g) (N : Nat) :
    g.withCStr N =
      if g.parentDir.length + g.fileName.length + 2 ≤ N then
        .ok (g.parentDir ++ sep :: g.fileName)
      else .error (.error .cStrBufferTooSmall) := by
  obtain ⟨-, -, names, n, -, rfl, -, hparent, -, hname⟩ := new_eq_ok_iff.mp h
  have hnul : (0 : UInt8) ∉ Path.render names ++ sep :: n := by
    simp only [List.mem_append, List.mem_cons, not_or]
    exact ⟨hparent, by decide, hname⟩
  rw [withCStr_eq, cStrFromBytesWithNul_concat hnul]

theorem GuestInner.withCStr_isOk (h : new path = .ok g) (N : Nat) :
    (∃ c, g.withCStr N = .ok c) ↔ g.parentDir.length + g.fileName.length + 2 ≤ N := by
  rw [withCStr_built h]
  split
  · next hfits => exact iff_of_true ⟨_, rfl⟩ hfits
  · next hfits =>
    apply iff_of_false _ hfits
    intro hc
    obtain ⟨c, hc⟩ := hc
    cases hc

/-- The string of a value built by `new` is again a path of that value. -/
theorem GuestInner.new_string (h : new path = .ok g) :
    new (g.parentDir ++ sep :: g.fileName) = .ok g := by
  obtain ⟨-, -, names, n, hnormals, rfl, hfits⟩ := new_eq_ok_iff.mp h
  have hnames : ∀ m ∈ names ++ [n], Path.IsName m :=
    fun m hm => Path.isName_of_mem_normals (hnormals ▸ hm)
  have hcomps := Path.components_join hnames
  refine new_eq_ok_iff.mpr ⟨rfl, ?_, names, n, ?_, rfl, hfits⟩
  · rw [hcomps]
    simp
  · unfold Path.normals
    rw [hcomps, List.filterMap_cons]
    exact Path.filterMap_asNormal (names ++ [n])

end Built

/-! ## What `new` accepts -/

/-- A path is accepted by its names, and by the lengths of the two parts. -/
theorem GuestInner.new_isOk_iff (path : Bytes) :
    (∃ g, GuestInner.new path = .ok g) ↔
      Path.isAbsolute path = true ∧ .parentDir ∉ Path.components path ∧
        ∃ names n, Path.normals path = names ++ [n] ∧ (∀ m ∈ Path.normals path, 0 ∉ m) ∧
          n.length ≤ 255 ∧ (Path.render names).length ≤ 4095 := by
  simp only [GuestInner.new_eq_ok_iff]
  constructor
  · intro h
    obtain ⟨g, habs, hup, names, n, hnormals, -, hlen, hnul, hlen', hnul'⟩ := h
    refine ⟨habs, hup, names, n, hnormals, ?_, Nat.le_of_lt_succ hlen', Nat.le_of_lt_succ hlen⟩
    intro m hm
    rw [hnormals] at hm
    rcases List.mem_append.mp hm with hm | hm
    · exact Path.zero_not_mem_render.mp hnul m hm
    · exact List.mem_singleton.mp hm ▸ hnul'
  · intro h
    obtain ⟨habs, hup, names, n, hnormals, hnul, hlen', hlen⟩ := h
    rw [hnormals] at hnul
    exact ⟨_, habs, hup, names, n, hnormals, rfl, Nat.lt_succ_of_le hlen,
      Path.zero_not_mem_render.mpr fun m hm => hnul m (List.mem_append_left _ hm),
      Nat.lt_succ_of_le hlen', hnul n (by simp)⟩

/-- Accepted paths are stored alike where they have the same names. -/
theorem GuestInner.eq_iff_normals {p q : Bytes} {g h : GuestInner}
    (hg : GuestInner.new p = .ok g) (hh : GuestInner.new q = .ok h) :
    g = h ↔ Path.normals p = Path.normals q := by
  obtain ⟨-, -, names, n, hp, rfl, -⟩ := GuestInner.new_eq_ok_iff.mp hg
  obtain ⟨-, -, names', n', hq, rfl, -⟩ := GuestInner.new_eq_ok_iff.mp hh
  have hnames : ∀ m ∈ names ++ [n], Path.IsName m :=
    fun m hm => Path.isName_of_mem_normals (hp ▸ hm)
  have hnames' : ∀ m ∈ names' ++ [n'], Path.IsName m :=
    fun m hm => Path.isName_of_mem_normals (hq ▸ hm)
  rw [hp, hq]
  constructor
  · intro heq
    obtain ⟨hparent, rfl⟩ := GuestInner.mk.inj heq
    -- the parent's path determines its names
    calc names ++ [n] = Path.normals (Path.render names) ++ [n] := by
          rw [Path.normals_render fun m hm => hnames m (List.mem_append_left _ hm)]
      _ = Path.normals (Path.render names') ++ [n] := by rw [hparent]
      _ = names' ++ [n] := by
          rw [Path.normals_render fun m hm => hnames' m (List.mem_append_left _ hm)]
  · intro heq
    obtain ⟨rfl, hn⟩ := List.append_inj' heq rfl
    cases hn
    rfl

/-- For every path, `new` succeeds exactly when it is absolute, goes up nowhere and has
names, none of them with a null byte, the last of at most 255 bytes and the normalised
path of the others of at most 4095; two values are equal exactly when the paths have the
same names; and for every buffer size, `with_c_str` succeeds exactly when both parts, the
separator and the terminator fit, with a path of the same value. -/
theorem guest_paths_by_names :
    (∀ path, (∃ g, GuestInner.new path = .ok g) ↔
      Path.isAbsolute path = true ∧ .parentDir ∉ Path.components path ∧
        ∃ names n, Path.normals path = names ++ [n] ∧ (∀ m ∈ Path.normals path, 0 ∉ m) ∧
          n.length ≤ 255 ∧ (Path.render names).length ≤ 4095) ∧
    (∀ p q g h, GuestInner.new p = .ok g → GuestInner.new q = .ok h →
      (g = h ↔ Path.normals p = Path.normals q)) ∧
    ∀ path g, GuestInner.new path = .ok g → ∀ N,
      ((∃ c, g.withCStr N = .ok c) ↔ g.parentDir.length + g.fileName.length + 2 ≤ N) ∧
      ∀ c, g.withCStr N = .ok c → GuestInner.new c = .ok g := by
  refine ⟨GuestInner.new_isOk_iff, fun p q g h hg hh => GuestInner.eq_iff_normals hg hh, ?_⟩
  intro path g hg N
  refine ⟨GuestInner.withCStr_isOk hg N, fun c hc => ?_⟩
  rw [GuestInner.withCStr_built hg] at hc
  split at hc
  · cases hc
    exact GuestInner.new_string hg
  · cases hc

/-- Slashes to spare and `.` make no other path. -/
example : GuestInner.new (ascii "/usr//./lib/") = GuestInner.new (ascii "/usr/lib") := by decide

theorem guest_paths_usr_lib :
    (∃ g, GuestInner.new (ascii "/usr/lib") = .ok g) ∧
      ∃ c, (⟨ascii "/usr", ascii "lib"⟩ : GuestInner).withCStr 9 = .ok c ∧
        GuestInner.new c = .ok ⟨ascii "/usr", ascii "lib"⟩ := by
  obtain ⟨haccepts, -, hstring⟩ := guest_paths_by_names
  have hnew : GuestInner.new (ascii "/usr/lib") = .ok ⟨ascii "/usr", ascii "lib"⟩ := by decide
  obtain ⟨hfits, hagain⟩ := hstring _ _ hnew 9
  obtain ⟨c, hc⟩ := hfits.mpr (by decide)
  refine ⟨(haccepts _).mpr ?_, c, hc, hagain c hc⟩
  exact ⟨by decide, by decide, [ascii "usr"], ascii "lib", by decide, by decide, by decide,
    by decide⟩

/-! ## What the guest converts -/

/-- For every path `new` accepts, its file name fits a buffer of `PATH_COMPONENT_MAX`,
and `with_c_str::<PATH_MAX>` fails at most because the buffer is too small, exactly
when both parts, the separator and the terminator are longer. -/
theorem conversion_in_guest (path : Bytes) (g : GuestInner) (h : GuestInner.new path = .ok g) :
    withCStr PATH_COMPONENT_MAX g.fileName = .ok g.fileName ∧
    ((∃ c, g.withCStr PATH_MAX = .ok c) ↔
      g.parentDir.length + g.fileName.length + 2 ≤ PATH_MAX) ∧
    ∀ e, g.withCStr PATH_MAX = .error e → e = .error .cStrBufferTooSmall := by
  obtain ⟨-, -, names, n, -, rfl, -, -, hlen, hnul⟩ := GuestInner.new_eq_ok_iff.mp h
  refine ⟨withCStr_of_fits hlen hnul, GuestInner.withCStr_isOk h PATH_MAX, fun e he => ?_⟩
  rw [GuestInner.withCStr_built h] at he
  split at he
  · cases he
  · cases he
    rfl

theorem conversion_in_guest_usr_lib :
    ∃ c, (⟨ascii "/usr", ascii "lib"⟩ : GuestInner).withCStr PATH_MAX = .ok c :=
  (conversion_in_guest (ascii "/usr/lib") _ (by decide)).2.1.mpr (by decide)

/-- A name of 250 bytes. -/
def longName : Bytes := List.replicate 250 97

/-- A path of seventeen such names is accepted, because its parent and its file name
fit, and does not fit as a whole. -/
theorem long_path_not_converted :
    ¬ ∀ path g, GuestInner.new path = .ok g →
      withCStr PATH_COMPONENT_MAX g.fileName = .ok g.fileName ∧
        ∃ c, g.withCStr PATH_MAX = .ok c := by
  intro h
  have hlen : longName.length = 250 := List.length_replicate
  have hname : Path.IsName longName := ⟨by decide, by decide, by decide, by decide⟩
  have hnames : ∀ m ∈ List.replicate 16 longName ++ [longName], Path.IsName m := by
    intro m hm
    rcases List.mem_append.mp hm with hm | hm
    · exact List.eq_of_mem_replicate hm ▸ hname
    · exact List.mem_singleton.mp hm ▸ hname
  have hparent : (Path.render (List.replicate 16 longName)).length = 4016 := by decide +kernel
  have hnew : GuestInner.new (Path.render (List.replicate 16 longName ++ [longName])) =
      .ok ⟨Path.render (List.replicate 16 longName), longName⟩ := by
    refine GuestInner.new_eq_ok_iff.mpr ⟨rfl, ?_, _, _, Path.normals_render hnames, rfl, ?_⟩
    · rw [Path.components_render hnames]
      simp
    · have hnul : (0 : UInt8) ∉ longName := by decide
      refine ⟨?_, Path.zero_not_mem_render.mpr fun m hm => ?_, ?_, hnul⟩
      · rw [hparent]
        decide
      · rwa [List.eq_of_mem_replicate hm]
      · rw [hlen]
        decide
  obtain ⟨-, hconverted⟩ := h _ _ hnew
  have hfits := (GuestInner.withCStr_isOk hnew PATH_MAX).mp hconverted
  simp only [hparent, hlen] at hfits
  exact absurd hfits (by decide)

/-! ## The order -/

/-- For all guest paths: `cmp` is a linear order whose `Equal` is the derived equality,
`starts_with` is "has as a prefix" of the components, a path is not greater than what
lies underneath it, and what lies between the two lies underneath it too. -/
theorem guest_paths_ordered :
    (∀ a b : Guest, Guest.cmp a b = .eq ↔ a.inner = b.inner) ∧
    (∀ a b, Guest.cmp a b = (Guest.cmp b a).swap) ∧
    (∀ a b c, (Guest.cmp a b).isLE = true → (Guest.cmp b c).isLE = true →
      (Guest.cmp a c).isLE = true) ∧
    (∀ a b : Guest, b.startsWith a = true ↔ a.components <+: b.components) ∧
    (∀ a b : Guest, b.startsWith a = true → (Guest.cmp a b).isLE = true) ∧
    ∀ a b c : Guest, (Guest.cmp a b).isLE = true → (Guest.cmp b c).isLE = true →
      c.startsWith a = true → b.startsWith a = true := by
  refine ⟨fun a b => ?_, fun _ _ => OrientedCmp.eq_swap, fun _ _ _ => TransCmp.isLE_trans,
    fun _ _ => Guest.startsWith_iff, fun a b h => ?_, fun a b c hab hbc h => ?_⟩
  · constructor
    · intro h
      rw [LawfulEqCmp.eq_of_compare h]
    · intro h
      have hself : Guest.cmp a a = .eq := ReflCmp.compare_self
      cases a
      cases b
      subst h
      exact hself
  · exact (Guest.startsWith_iff.mp h).isLE
  · exact Guest.startsWith_iff.mpr ((Guest.startsWith_iff.mp h).between hab hbc)

end LayerCake.Bubblebox
