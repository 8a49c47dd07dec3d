import LayerCake.Bubblebox.Spawn.Resolve
import LayerCake.Effects.Log
import LayerCake.Meowix.Decimal

/-
  The texts by which the guest configures its namespaces and its tmpfs mounts
  (`bubblebox/src/platform/linux/spawn/namespace.rs`, `spawn/fmt.rs`, and
  `apply_tmpfs_size` in `spawn/mounts.rs`).

  Correspondence (Rust ↔ Lean):
    `write_checked!`                       ↔ `writeChecked`
    `buffer.get(..offset).ok_or(…)?`       ↔ `firstBytes`
    `size_offset_buffer`                   ↔ `sizeOffsetBuffer`
    a block of `write_timens_offsets`      ↔ `writeOffset`
    `write_timens_offsets`                 ↔ `writeTimensOffsets`
    `size_uid_gid_map_buffer`              ↔ `sizeUidGidMapBuffer`
    a mapping of `write_simple_uid_gid_map` ↔ `writeMap`
    `write_simple_uid_gid_map`             ↔ `writeSimpleUidGidMap`
  Each buffer is filled from its start again for the next text, over what the last one
  left there.

  What is proved: where the calls succeed, the kernel is given all of the texts, and they
  read back as the numbers they were made of; a call that fails or writes too little is
  the one error, and no buffer is ever too small (`decimal_texts_exact`).
-/

namespace LayerCake.Bubblebox.Spawn.Mounting

open LayerCake.Effects LayerCake.Meowix LayerCake.Linux

/-! ## Writing a text -/

def firstBytes (buffer : Bytes) (offset : Nat) : Except PostSpawnGuest Bytes :=
  if offset ≤ buffer.length then .ok (buffer.take offset) else .error (.other .bufferTooSmall)

def writeChecked (fd : RawFd) (value : Bytes) : Setup Unit := do
  let n ← attempt .write (performUntil (I := Calls) (.write fd value) interrupted)
  if n ≠ value.length then throw (.error .incompleteWrite)

/-- How `open_beneath_and_write!` opens its file. -/
def BENEATH_HOW : OpenHow :=
  { flags := (O_WRONLY ||| O_CLOEXEC).toUInt64
    mode := 0
    resolve := (RESOLVE_BENEATH ||| RESOLVE_NO_MAGICLINKS ||| RESOLVE_NO_SYMLINKS).toUInt64 }

/-! ## `write_timens_offsets` -/

/-- `policy::namespace::TimeOffset`. -/
structure TimeOffset where
  seconds : Int64
  nanoseconds : UInt32
  deriving DecidableEq, Repr

def sizeOffsetBuffer : Nat :=
  signedDecimalDigitsUpperBound 8 + unsignedDecimalDigitsUpperBound 4 + 11

def TIMENS_HOW : OpenHow :=
  { flags := (O_WRONLY ||| O_CLOEXEC).toUInt64
    mode := 0
    resolve := RESOLVE_BENEATH.toUInt64 }

section Offsets
variable [Itoa]

/-- The offset of one clock, whose name comes with the space behind it. -/
def writeOffset (fd : RawFd) (clock buffer : Bytes) (timeOffset : TimeOffset) : Setup Bytes := do
  let (buffer, offset) ← orStop (writeBytes buffer 0 clock)
  let (buffer, offset) ← orStop (writeInteger buffer offset timeOffset.seconds.toInt)
  let (buffer, offset) ← orStop (writeBytes buffer offset (ascii " "))
  let (buffer, offset) ← orStop (writeInteger buffer offset timeOffset.nanoseconds.toNat)
  let value ← orStop (firstBytes buffer offset)
  writeChecked fd value
  return buffer

def writeTimensOffsets (procFd : RawFd) (monotonicOffset boottimeOffset : Option TimeOffset) :
    Setup Unit := do
  let timensOffsetsFd ← openat2Retry procFd (ascii "self/timens_offsets") TIMENS_HOW
  let offsetBuffer := List.replicate sizeOffsetBuffer 0
  let offsetBuffer ← (match monotonicOffset with
    | some monotonicOffset =>
      writeOffset timensOffsetsFd (ascii "monotonic ") offsetBuffer monotonicOffset
    | none => pure offsetBuffer)
  match boottimeOffset with
  | some boottimeOffset => do
    let _ ← writeOffset timensOffsetsFd (ascii "boottime ") offsetBuffer boottimeOffset
  | none => pure ()

end Offsets

/-! ## `write_simple_uid_gid_map` -/

/-- The size for ids of `size` bytes. -/
def sizeUidGidMapBuffer (size : Nat) : Nat := 2 * unsignedDecimalDigitsUpperBound size + 3

def PROC_SELF_HOW : OpenHow :=
  { flags := (O_PATH ||| O_CLOEXEC ||| O_DIRECTORY).toUInt64
    mode := 0
    resolve := RESOLVE_BENEATH.toUInt64 }

/-- The mapping of one id. -/
def writeMap [Itoa] (dirfd : RawFd) (path buffer : Bytes) (dest source : UInt32) : Setup Bytes := do
  let (buffer, offset) ← orStop (writeInteger buffer 0 dest.toNat)
  let (buffer, offset) ← orStop (writeBytes buffer offset (ascii " "))
  let (buffer, offset) ← orStop (writeInteger buffer offset source.toNat)
  let (buffer, offset) ← orStop (writeBytes buffer offset (ascii " 1"))
  let fd ← openat2Retry dirfd path BENEATH_HOW
  let value ← orStop (firstBytes buffer offset)
  writeChecked fd value
  return buffer

def denySetgroupsIn (dirfd : RawFd) : Setup Unit := do
  let fd ← openat2Retry dirfd (ascii "setgroups") BENEATH_HOW
  writeChecked fd (ascii "deny")

def writeSimpleUidGidMap [Itoa] (procFd : RawFd) (sourceUid sourceGid destUid destGid : UInt32)
    (denySetgroups : Bool) : Setup Unit := do
  let uidGidMapBuffer := List.replicate (max (sizeUidGidMapBuffer 4) (sizeUidGidMapBuffer 4)) 0
  let procSelfFd ← openat2Retry procFd (ascii "self") PROC_SELF_HOW
  let uidGidMapBuffer ← writeMap procSelfFd (ascii "uid_map") uidGidMapBuffer destUid sourceUid
  if denySetgroups then denySetgroupsIn procSelfFd else pure ()
  let _ ← writeMap procSelfFd (ascii "gid_map") uidGidMapBuffer destGid sourceGid

/-! ## What the kernel is given -/

/-- The texts among the calls, each under the name of the file it was written to or of the
option it was set for; `opened` is the file that was opened last. -/
def handed (opened : Option (RawFd × Bytes)) : List (Effects.Event Calls) → List (Bytes × Bytes)
  | [] => []
  | ⟨.openat2 _ path _, .ok fd⟩ :: trace => handed (some (fd, path)) trace
  | ⟨.write fd bytes, _⟩ :: trace =>
    (((opened.filter (·.1 = fd)).map Prod.snd).getD [], bytes) :: handed opened trace
  | ⟨.fsconfigSetString _ key value, _⟩ :: trace => (key, value) :: handed opened trace
  | _ :: trace => handed opened trace

/-- A line of `timens_offsets`: the clock, its seconds and its nanoseconds. -/
def readOffset (line : Bytes) : Option (Bytes × Int × Nat) :=
  match fields line with
  | [clock, seconds, nanoseconds] => do return (clock, ← readInt seconds, ← readNat nanoseconds)
  | _ => none

/-- A line of `uid_map` or `gid_map`: the first id inside, the first outside, and how many. -/
def readMap (line : Bytes) : Option (Nat × Nat × Nat) :=
  match fields line with
  | [dest, source, length] => do return (← readNat dest, ← readNat source, ← readNat length)
  | _ => none

/-- The `size` option, and whether it is a percentage. -/
def readSize (value : Bytes) : Option (Nat × Bool) :=
  if value.getLast? = some 37 then (readNat value.dropLast).map (·, true)
  else (readNat value).map (·, false)

/-- The call failed with an error that is reported so, or wrote too little. -/
inductive FailsWith : Effects.Event Calls → PostSpawnGuest → Prop
  | openat2 {dirfd : RawFd} {path : Bytes} {how : OpenHow} {error : Errno} :
      FailsWith ⟨.openat2 dirfd path how, .error error⟩ (.syscall ⟨.openat2, error⟩)
  | write {fd : RawFd} {bytes : Bytes} {error : Errno} :
      FailsWith ⟨.write fd bytes, .error error⟩ (.syscall ⟨.write, error⟩)
  | short {fd : RawFd} {bytes : Bytes} {n : Nat} (h : n ≠ bytes.length) :
      FailsWith ⟨.write fd bytes, .ok n⟩ .incompleteWrite
  | fsconfig {fd : RawFd} {key value : Bytes} {error : Errno} :
      FailsWith ⟨.fsconfigSetString fd key value, .error error⟩ (.syscall ⟨.fsconfig, error⟩)

/-- The kernel is given the texts in order, and all of them where no call fails; the last
call is the one whose failure is the error. -/
structure Exact (opened : Option (RawFd × Bytes)) (texts : List (Bytes × Bytes))
    (r : Except (Stop PostSpawnGuest) Unit) (trace : List (Effects.Event Calls)) : Prop where
  ok_iff : r = .ok () ↔ ∀ event ∈ trace, ∀ error, ¬ FailsWith event error
  error : ∀ stop, r = .error stop →
    ∃ past last error, trace = past ++ [last] ∧ FailsWith last error ∧ stop = .error error
  ordered : handed opened trace <+: texts
  complete : r = .ok () → handed opened trace = texts

/-- The program gives the kernel the texts, and some of its runs succeed. -/
structure Prints (opened : Option (RawFd × Bytes)) (texts : List (Bytes × Bytes))
    (p : Setup Unit) : Prop where
  exact : Traced p.run (Exact opened texts)
  succeeds : ∃ trace, p.run.Trace trace (.ok ())

section Rules
variable {α : Type} {opened opened' : Option (RawFd × Bytes)} {texts texts' : List (Bytes × Bytes)}
  {fd : RawFd} {event : Effects.Event Calls} {trace : List (Effects.Event Calls)}

/-- A call that succeeds, and the texts it hands over. -/
theorem Exact.cons {r : Except (Stop PostSpawnGuest) Unit} (given : List (Bytes × Bytes))
    (h : Exact opened' texts r trace) (hevent : ∀ error, ¬ FailsWith event error)
    (hhanded : ∀ trace, handed opened (event :: trace) = given ++ handed opened' trace) :
    Exact opened (given ++ texts) r (event :: trace) where
  ok_iff := by
    rw [h.ok_iff, List.forall_mem_cons]
    exact ⟨fun hrest => ⟨hevent, hrest⟩, And.right⟩
  error stop hstop := by
    obtain ⟨past, last, error, rfl, hlast, heq⟩ := h.error stop hstop
    exact ⟨event :: past, last, error, rfl, hlast, heq⟩
  ordered := by
    rw [hhanded]
    exact (List.prefix_append_right_inj given).mpr h.ordered
  complete hok := by rw [hhanded, h.complete hok]

/-- A call that fails, with what it was given. -/
theorem Exact.failed {error : PostSpawnGuest} (hevent : FailsWith event error)
    (hordered : handed opened [event] <+: texts) :
    Exact opened texts (.error (.error error)) [event] where
  ok_iff := by
    refine ⟨fun h => (by cases h), fun h => ?_⟩
    exact absurd hevent (h event List.mem_cons_self error)
  error stop hstop := by
    cases hstop
    exact ⟨[], event, error, rfl, hevent, rfl⟩
  ordered := hordered
  complete h := by cases h

theorem prints_pure : Prints opened [] (pure ()) where
  exact := traced_done.mpr
    ⟨⟨fun _ _ h => absurd h List.not_mem_nil, fun _ => rfl⟩, fun _ h => (by cases h),
      List.prefix_rfl, fun _ => rfl⟩
  succeeds := ⟨[], rfl, rfl⟩

theorem prints_openat2 {dirfd : RawFd} {path : Bytes} {how : OpenHow} {f : RawFd → Setup Unit}
    (h : ∀ fd, Prints (some (fd, path)) texts (f fd)) :
    Prints opened texts (openat2Retry dirfd path how >>= f) where
  exact := by
    refine Traced.bindE (Traced.call fun r _ => ?_)
    cases r with
    | error e => exact traced_done.mpr (.failed .openat2 List.nil_prefix)
    | ok fd =>
      refine traced_done.mpr fun trace a htrace => ?_
      refine ((h fd).exact trace a htrace).cons [] (fun error herror => ?_) fun _ => rfl
      cases herror
  succeeds := by
    obtain ⟨trace, htrace⟩ := (h 0).succeeds
    exact ⟨⟨.openat2 dirfd path how, .ok (0 : RawFd)⟩ :: trace, .ok (0 : RawFd), trace, rfl, rfl,
      htrace⟩

theorem handed_write (path value : Bytes) (r : Except Errno Nat)
    (trace : List (Effects.Event Calls)) :
    handed (some (fd, path)) (⟨.write fd value, r⟩ :: trace) =
      [(path, value)] ++ handed (some (fd, path)) trace := by
  simp [handed, Option.filter]

theorem prints_writeChecked {path value : Bytes} {f : Unit → Setup Unit}
    (h : Prints (some (fd, path)) texts (f ())) :
    Prints (some (fd, path)) ((path, value) :: texts) (writeChecked fd value >>= f) where
  exact := by
    have hgiven : ∀ r : Except Errno Nat,
        handed (some (fd, path)) [⟨.write fd value, r⟩] <+: (path, value) :: texts := by
      intro r
      rw [handed_write]
      exact List.prefix_append [(path, value)] texts
    refine Traced.bindE (Traced.bindE (Traced.call fun r _ => ?_))
    cases r with
    | error e => exact traced_done.mpr (.failed .write (hgiven _))
    | ok n =>
      refine traced_done.mpr ?_
      show Traced (if n ≠ value.length then throw (.error .incompleteWrite) else pure () :
        Setup Unit).run _
      split
      · next hshort => exact traced_done.mpr (.failed (.short hshort) (hgiven _))
      · next hwhole =>
        refine traced_done.mpr fun trace a htrace => ?_
        refine (h.exact trace a htrace).cons [(path, value)] (fun error herror => ?_)
          (handed_write path value _)
        cases herror with
        | short hshort => exact hwhole hshort
  succeeds := by
    obtain ⟨trace, htrace⟩ := h.succeeds
    refine ⟨⟨.write fd value, .ok value.length⟩ :: trace, .ok value.length, trace, rfl, rfl, ?_⟩
    show Prog.Trace ((if value.length ≠ value.length then throw (.error .incompleteWrite)
      else pure () : Setup Unit) >>= f).run trace (.ok ())
    rw [if_neg (not_not_intro rfl)]
    exact htrace

theorem prints_fsconfigSetString {key value : Bytes} {f : Unit → Setup Unit}
    (h : Prints opened texts (f ())) :
    Prints opened ((key, value) :: texts) (fsconfigSetString fd key value >>= f) where
  exact := by
    refine Traced.bindE (Traced.call fun r _ => ?_)
    cases r with
    | error e =>
      exact traced_done.mpr (.failed .fsconfig (List.prefix_append [(key, value)] texts))
    | ok u =>
      refine traced_done.mpr fun trace a htrace => ?_
      refine (h.exact trace a htrace).cons [(key, value)] (fun error herror => ?_)
        fun _ => rfl
      cases herror
  succeeds := by
    obtain ⟨trace, htrace⟩ := h.succeeds
    exact ⟨⟨.fsconfigSetString fd key value, .ok ()⟩ :: trace, .ok (), trace, rfl, rfl, htrace⟩

end Rules

/-! ## Filling a buffer -/

/-- The buffer of `size` bytes begins with the text, which ends at the offset. -/
structure Formatted (size : Nat) (text : Bytes) (r : Bytes × Nat) : Prop where
  size : r.1.length = size
  offset : r.2 = text.length
  text : r.1.take r.2 = text

section Formatted
variable {size : Nat} {text : Bytes} {r : Bytes × Nat}

/-- A text that is written from the start does not depend on what the buffer holds. -/
theorem Formatted.start {buffer : Bytes} (h : buffer.length = size) :
    Formatted size [] (buffer, 0) := ⟨h, rfl, rfl⟩

theorem Formatted.write (h : Formatted size text r) (bytes : Bytes)
    (hfits : text.length + bytes.length ≤ size) :
    ∃ r', writeBytes r.1 r.2 bytes = .ok r' ∧ Formatted size (text ++ bytes) r' := by
  obtain ⟨hsize, hoffset, htext⟩ := h
  have hfits' : r.2 + bytes.length ≤ r.1.length := by omega
  have hlen : (r.1.take r.2 ++ bytes).length = r.2 + bytes.length := by
    rw [List.length_append, htext, hoffset]
  refine ⟨_, if_pos hfits', ?_, ?_, ?_⟩
  · simp only [List.length_append, List.length_take, List.length_drop]
    omega
  · simp only [List.length_append]
    omega
  · show (r.1.take r.2 ++ bytes ++ r.1.drop (r.2 + bytes.length)).take (r.2 + bytes.length) = _
    rw [List.take_left' hlen, htext]

theorem Formatted.offset_le (h : Formatted size text r) : r.2 ≤ r.1.length := by
  have := congrArg List.length h.text
  rw [List.length_take, ← h.offset] at this
  omega

theorem Formatted.firstBytes (h : Formatted size text r) : firstBytes r.1 r.2 = .ok text := by
  unfold Mounting.firstBytes
  rw [if_pos h.offset_le, h.text]

end Formatted

theorem orStop_ok_bind {α β : Type} (a : α) (f : α → Setup β) :
    (orStop (.ok a : Except PostSpawnGuest α) >>= f) = f a := rfl

/-- The line of a clock, whose name comes with a space. -/
def offsetLine (clock : Bytes) (timeOffset : TimeOffset) : Bytes :=
  clock ++ signedDecimal timeOffset.seconds.toInt ++ ascii " " ++
    decimal timeOffset.nanoseconds.toNat

/-- The line that maps one id. -/
def mapLine (dest source : UInt32) : Bytes :=
  decimal dest.toNat ++ ascii " " ++ decimal source.toNat ++ ascii " 1"

section Lawful
variable [Itoa] [LawfulItoa]

theorem writeOffset_eq (fd : RawFd) {clock buffer : Bytes} (timeOffset : TimeOffset)
    (hclock : clock.length ≤ 10) (hbuffer : buffer.length = sizeOffsetBuffer) :
    ∃ buffer', buffer'.length = sizeOffsetBuffer ∧ writeOffset fd clock buffer timeOffset =
      (do writeChecked fd (offsetLine clock timeOffset); return buffer') := by
  have hsize : sizeOffsetBuffer =
      signedDecimalDigitsUpperBound 8 + unsignedDecimalDigitsUpperBound 4 + 11 := rfl
  have hseconds : (signedDecimal timeOffset.seconds.toInt).length ≤
      signedDecimalDigitsUpperBound 8 :=
    signedDecimal_length_le_signed (natAbs_toInt_le timeOffset.seconds.toBitVec)
  have hnanoseconds : (decimal timeOffset.nanoseconds.toNat).length ≤
      unsignedDecimalDigitsUpperBound 4 :=
    decimal_length_le_unsigned (by decide) timeOffset.nanoseconds.toNat_lt
  have hspace : (ascii " ").length = 1 := rfl
  obtain ⟨⟨buffer₁, offset₁⟩, h₁, hr₁⟩ := (Formatted.start hbuffer).write clock
    (by simp only [List.length_nil]; omega)
  obtain ⟨⟨buffer₂, offset₂⟩, h₂, hr₂⟩ := hr₁.write (signedDecimal timeOffset.seconds.toInt)
    (by simp only [List.length_append, List.length_nil]; omega)
  obtain ⟨⟨buffer₃, offset₃⟩, h₃, hr₃⟩ := hr₂.write (ascii " ")
    (by simp only [List.length_append, List.length_nil]; omega)
  obtain ⟨⟨buffer₄, offset₄⟩, h₄, hr₄⟩ := hr₃.write (decimal timeOffset.nanoseconds.toNat)
    (by simp only [List.length_append, List.length_nil]; omega)
  refine ⟨buffer₄, hr₄.size, ?_⟩
  unfold writeOffset writeInteger
  simp only [format_int64, format_uint32, h₁, h₂, h₃, h₄, hr₄.firstBytes, orStop_ok_bind]
  rfl

theorem writeMap_eq (dirfd : RawFd) (path : Bytes) {buffer : Bytes} (dest source : UInt32)
    (hbuffer : buffer.length = sizeUidGidMapBuffer 4) :
    ∃ buffer', buffer'.length = sizeUidGidMapBuffer 4 ∧ writeMap dirfd path buffer dest source =
      (do let fd ← openat2Retry dirfd path BENEATH_HOW
          writeChecked fd (mapLine dest source)
          return buffer') := by
  have hsize : sizeUidGidMapBuffer 4 = 2 * unsignedDecimalDigitsUpperBound 4 + 3 := rfl
  have hid : ∀ id : UInt32, (decimal id.toNat).length ≤ unsignedDecimalDigitsUpperBound 4 :=
    fun id => decimal_length_le_unsigned (by decide) id.toNat_lt
  have hdest := hid dest
  have hsource := hid source
  have hspace : (ascii " ").length = 1 := rfl
  have hone : (ascii " 1").length = 2 := rfl
  obtain ⟨⟨buffer₁, offset₁⟩, h₁, hr₁⟩ := (Formatted.start hbuffer).write (decimal dest.toNat)
    (by simp only [List.length_nil]; omega)
  obtain ⟨⟨buffer₂, offset₂⟩, h₂, hr₂⟩ := hr₁.write (ascii " ")
    (by simp only [List.length_append, List.length_nil]; omega)
  obtain ⟨⟨buffer₃, offset₃⟩, h₃, hr₃⟩ := hr₂.write (decimal source.toNat)
    (by simp only [List.length_append, List.length_nil]; omega)
  obtain ⟨⟨buffer₄, offset₄⟩, h₄, hr₄⟩ := hr₃.write (ascii " 1")
    (by simp only [List.length_append, List.length_nil]; omega)
  refine ⟨buffer₄, hr₄.size, ?_⟩
  unfold writeMap writeInteger
  simp only [format_uint32, h₁, h₂, h₃, h₄, hr₄.firstBytes, orStop_ok_bind]
  rfl

/-! ## What is written -/

section Written
variable {opened : Option (RawFd × Bytes)} {texts : List (Bytes × Bytes)} {fd : RawFd}
  {path buffer : Bytes} {f : Bytes → Setup Unit}

theorem writeOffset_prints {clock : Bytes} {timeOffset : TimeOffset} (hclock : clock.length ≤ 10)
    (hbuffer : buffer.length = sizeOffsetBuffer)
    (h : ∀ buffer, buffer.length = sizeOffsetBuffer →
      Prints (some (fd, path)) texts (f buffer)) :
    Prints (some (fd, path)) ((path, offsetLine clock timeOffset) :: texts)
      (writeOffset fd clock buffer timeOffset >>= f) := by
  obtain ⟨buffer', hbuffer', heq⟩ := writeOffset_eq fd timeOffset hclock hbuffer
  rw [heq, bind_assoc]
  exact prints_writeChecked (h buffer' hbuffer')

theorem writeMap_prints {dest source : UInt32} (hbuffer : buffer.length = sizeUidGidMapBuffer 4)
    (h : ∀ opened buffer, buffer.length = sizeUidGidMapBuffer 4 →
      Prints opened texts (f buffer)) :
    Prints opened ((path, mapLine dest source) :: texts)
      (writeMap fd path buffer dest source >>= f) := by
  obtain ⟨buffer', hbuffer', heq⟩ := writeMap_eq fd path dest source hbuffer
  rw [heq, bind_assoc]
  refine prints_openat2 fun fd' => ?_
  rw [bind_assoc]
  exact prints_writeChecked (h _ buffer' hbuffer')

end Written

/-- The lines of the clocks that have an offset. -/
def offsetLines (clock : Bytes) (timeOffset : Option TimeOffset) : List Bytes :=
  timeOffset.toList.map (offsetLine clock)

def TIMENS_OFFSETS : Bytes := ascii "self/timens_offsets"

theorem writeTimensOffsets_prints (procFd : RawFd)
    (monotonicOffset boottimeOffset : Option TimeOffset) :
    Prints none ((offsetLines (ascii "monotonic ") monotonicOffset ++
        offsetLines (ascii "boottime ") boottimeOffset).map (TIMENS_OFFSETS, ·))
      (writeTimensOffsets procFd monotonicOffset boottimeOffset) := by
  have hboottime : ∀ (fd : RawFd) (buffer : Bytes), buffer.length = sizeOffsetBuffer →
      Prints (some (fd, TIMENS_OFFSETS))
        ((offsetLines (ascii "boottime ") boottimeOffset).map (TIMENS_OFFSETS, ·))
        (match boottimeOffset with
        | some boottimeOffset => do
          let _ ← writeOffset fd (ascii "boottime ") buffer boottimeOffset
        | none => pure ()) := by
    intro fd buffer hbuffer
    cases boottimeOffset with
    | none => exact prints_pure
    | some boottimeOffset => exact writeOffset_prints (by decide) hbuffer fun _ _ => prints_pure
  unfold writeTimensOffsets
  refine prints_openat2 fun fd => ?_
  cases monotonicOffset with
  | none => exact hboottime fd _ List.length_replicate
  | some monotonicOffset =>
    exact writeOffset_prints (by decide) List.length_replicate fun buffer => hboottime fd buffer

theorem writeSimpleUidGidMap_prints (procFd : RawFd) (sourceUid sourceGid destUid destGid : UInt32)
    (denySetgroups : Bool) :
    Prints none ((ascii "uid_map", mapLine destUid sourceUid) ::
        ((if denySetgroups then [(ascii "setgroups", ascii "deny")] else []) ++
          [(ascii "gid_map", mapLine destGid sourceGid)]))
      (writeSimpleUidGidMap procFd sourceUid sourceGid destUid destGid denySetgroups) := by
  have hgid : ∀ (opened : Option (RawFd × Bytes)) (fd : RawFd) (buffer : Bytes),
      buffer.length = sizeUidGidMapBuffer 4 →
      Prints opened [(ascii "gid_map", mapLine destGid sourceGid)]
        (writeMap fd (ascii "gid_map") buffer destGid sourceGid >>= fun _ => pure ()) :=
    fun opened fd buffer hbuffer => writeMap_prints hbuffer fun _ _ _ => prints_pure
  unfold writeSimpleUidGidMap
  refine prints_openat2 fun procSelfFd => ?_
  have hzeroed : (List.replicate (max (sizeUidGidMapBuffer 4) (sizeUidGidMapBuffer 4))
      (0 : UInt8)).length = sizeUidGidMapBuffer 4 := by
    rw [List.length_replicate, Nat.max_self]
  refine writeMap_prints hzeroed fun opened buffer hbuffer => ?_
  cases denySetgroups with
  | false => exact hgid opened procSelfFd buffer hbuffer
  | true =>
    show Prints opened _ (denySetgroupsIn procSelfFd >>= _)
    unfold denySetgroupsIn
    rw [bind_assoc]
    refine prints_openat2 fun fd => ?_
    exact prints_writeChecked (hgid _ procSelfFd buffer hbuffer)

/-! ### The size of a tmpfs -/

/-- The value of the `size` option. -/
def sizeText : TmpfsSize → Bytes
  | .unlimited => ascii "0"
  | .bytes bytes => decimal bytes.toNat
  | .percent percent => decimal percent.toNat ++ ascii "%"

omit [Itoa] [LawfulItoa] in
theorem asCStr_decimal {size n : Nat} (h : size ≤ 16) (hn : n < 2 ^ (size * 8)) :
    asCStr (unsignedDecimalDigitsUpperBound size + 1) (decimal n) = pure (decimal n) := by
  have hlen := decimal_length_le_unsigned h hn
  unfold asCStr
  rw [withCStr_of_fits (Nat.lt_succ_of_le hlen) (decimal_no_nul n)]

theorem formatPercent_eq (percent : UInt64) :
    formatPercent percent = pure (sizeText (.percent percent)) := by
  have hlen : (decimal percent.toNat).length ≤ unsignedDecimalDigitsUpperBound 8 :=
    decimal_length_le_unsigned (by decide) percent.toNat_lt
  have hsign : (ascii "%" ++ [0]).length = 2 := rfl
  have hbuffer : (List.replicate (unsignedDecimalDigitsUpperBound 8 + 2) (0 : UInt8)).length =
      unsignedDecimalDigitsUpperBound 8 + 2 := List.length_replicate
  obtain ⟨⟨buffer₁, offset₁⟩, h₁, hr₁⟩ := (Formatted.start hbuffer).write (decimal percent.toNat)
    (by simp only [List.length_nil]; omega)
  obtain ⟨⟨buffer₂, offset₂⟩, h₂, hr₂⟩ := hr₁.write (ascii "%" ++ [0])
    (by simp only [List.length_append, List.length_nil] at hsign ⊢; omega)
  have hnul : (0 : UInt8) ∉ sizeText (.percent percent) := by
    intro hmem
    rcases List.mem_append.mp hmem with hmem | hmem
    · exact decimal_no_nul _ hmem
    · exact absurd hmem (by decide)
  have hle : offset₂ ≤ buffer₂.length := hr₂.offset_le
  have htext : buffer₂.take offset₂ = sizeText (.percent percent) ++ [0] := by
    rw [hr₂.text]
    exact (List.append_assoc _ _ _).symm
  unfold formatPercent writeInteger
  simp only [format_uint64, h₁, h₂, orStop_ok_bind, if_pos hle, htext]
  show orUndefined (cStrFromBytesWithNul (sizeText (.percent percent) ++ [0])) = _
  rw [cStrFromBytesWithNul_concat hnul]
  rfl

/-- The size is set as its text, and then the inodes. -/
theorem applyTmpfsSize_eq (fsFd : RawFd) (size : TmpfsSize) (maxInodes : Option UInt64) :
    applyTmpfsSize fsFd size maxInodes = (do
      fsconfigSetString fsFd (ascii "size") (sizeText size)
      maxInodes.elim (pure ()) fun maxInodes =>
        fsconfigSetString fsFd (ascii "nr_inodes") (decimal maxInodes.toNat)) := by
  have htext : ∀ n : UInt64, asCStr (unsignedDecimalDigitsUpperBound 8 + 1) (decimal n.toNat) =
      pure (decimal n.toNat) := fun n => asCStr_decimal (by decide : 8 ≤ 16) n.toNat_lt
  unfold applyTmpfsSize
  cases size with
  | unlimited => cases maxInodes <;> simp [format_uint64, htext, sizeText]
  | bytes bytes => cases maxInodes <;> simp [format_uint64, htext, sizeText]
  | percent percent => cases maxInodes <;> simp [format_uint64, htext, formatPercent_eq]

theorem applyTmpfsSize_prints (fsFd : RawFd) (size : TmpfsSize) (maxInodes : Option UInt64) :
    Prints none ((ascii "size", sizeText size) ::
        maxInodes.toList.map fun maxInodes => (ascii "nr_inodes", decimal maxInodes.toNat))
      (applyTmpfsSize fsFd size maxInodes) := by
  rw [applyTmpfsSize_eq]
  refine prints_fsconfigSetString ?_
  cases maxInodes with
  | none => exact prints_pure
  | some maxInodes =>
    show Prints none _ (fsconfigSetString fsFd (ascii "nr_inodes") (decimal maxInodes.toNat))
    rw [← bind_pure (fsconfigSetString _ _ _)]
    exact prints_fsconfigSetString prints_pure

end Lawful

/-! ## What is read -/

theorem readOffset_offsetLine {clock : Bytes} (h : (32 : UInt8) ∉ clock) (timeOffset : TimeOffset) :
    readOffset (offsetLine (clock ++ ascii " ") timeOffset) =
      some (clock, timeOffset.seconds.toInt, timeOffset.nanoseconds.toNat) := by
  have hline : offsetLine (clock ++ ascii " ") timeOffset = [32].intercalate
      [clock, signedDecimal timeOffset.seconds.toInt, decimal timeOffset.nanoseconds.toNat] := by
    simp [offsetLine, ascii, List.intercalate_cons_cons]
  have hfields : fields (offsetLine (clock ++ ascii " ") timeOffset) =
      [clock, signedDecimal timeOffset.seconds.toInt, decimal timeOffset.nanoseconds.toNat] := by
    rw [hline]
    refine fields_intercalate (by simp) ?_
    simp only [List.forall_mem_cons]
    exact ⟨h, not_mem_signedDecimal (by decide), not_mem_decimal (by decide), List.forall_mem_nil _⟩
  unfold readOffset
  rw [hfields]
  simp only [readInt_signedDecimal, readNat_decimal]
  rfl

theorem readMap_mapLine (dest source : UInt32) :
    readMap (mapLine dest source) = some (dest.toNat, source.toNat, 1) := by
  have hline : mapLine dest source =
      [32].intercalate [decimal dest.toNat, decimal source.toNat, decimal 1] := by
    have hone : decimal 1 = [49] := rfl
    simp [mapLine, ascii, List.intercalate_cons_cons, hone]
  have hfields : fields (mapLine dest source) =
      [decimal dest.toNat, decimal source.toNat, decimal 1] := by
    rw [hline]
    have hid : ∀ n, (32 : UInt8) ∉ decimal n := fun n => not_mem_decimal (by decide)
    refine fields_intercalate (by simp) ?_
    simp only [List.forall_mem_cons]
    exact ⟨hid _, hid _, hid _, List.forall_mem_nil _⟩
  unfold readMap
  rw [hfields]
  simp only [readNat_decimal]
  rfl

/-- The size, and whether it is a percentage. -/
def TmpfsSize.amount : TmpfsSize → Nat × Bool
  | .unlimited => (0, false)
  | .bytes bytes => (bytes.toNat, false)
  | .percent percent => (percent.toNat, true)

theorem readSize_decimal (n : Nat) : readSize (decimal n) = some (n, false) := by
  have hsign : (37 : UInt8) ∉ decimal n := not_mem_decimal (by decide)
  unfold readSize
  rw [if_neg fun hlast => hsign (List.mem_of_getLast? hlast), readNat_decimal]
  rfl

theorem readSize_sizeText (size : TmpfsSize) :
    readSize (sizeText size) = some (TmpfsSize.amount size) := by
  cases size with
  | unlimited => exact readSize_decimal 0
  | bytes bytes => exact readSize_decimal bytes.toNat
  | percent percent =>
    show readSize (decimal percent.toNat ++ [37]) = _
    unfold readSize
    rw [if_pos (by simp), List.dropLast_concat, readNat_decimal]
    rfl

/-- For every pair of ids, the kernel is given a line for each that reads back as the
destination, the source and 1; for every offset of a clock, a line with the clock, its
seconds and its nanoseconds; and for every tmpfs, its size with the sign of a percentage,
and its number of inodes. The kernel is given all of these texts, in order and with nothing
in between, where its calls succeed, and some runs do; otherwise the error is that of the
first call that fails or writes too little, and it was given the texts up to there. So no
buffer is ever too small, and nothing is undefined. -/
theorem decimal_texts_exact [Itoa] [LawfulItoa] :
    (∀ (procFd : RawFd) (sourceUid sourceGid destUid destGid : UInt32) (denySetgroups : Bool),
      ∃ uidMap gidMap,
        Prints none ((ascii "uid_map", uidMap) ::
            ((if denySetgroups then [(ascii "setgroups", ascii "deny")] else []) ++
              [(ascii "gid_map", gidMap)]))
          (writeSimpleUidGidMap procFd sourceUid sourceGid destUid destGid denySetgroups) ∧
        readMap uidMap = some (destUid.toNat, sourceUid.toNat, 1) ∧
        readMap gidMap = some (destGid.toNat, sourceGid.toNat, 1)) ∧
    (∀ (procFd : RawFd) (monotonicOffset boottimeOffset : Option TimeOffset),
      ∃ lines : List Bytes,
      Prints none (lines.map (TIMENS_OFFSETS, ·))
        (writeTimensOffsets procFd monotonicOffset boottimeOffset) ∧
      lines.map readOffset =
        (monotonicOffset.toList.map fun o =>
          some (ascii "monotonic", o.seconds.toInt, o.nanoseconds.toNat)) ++
        boottimeOffset.toList.map fun o =>
          some (ascii "boottime", o.seconds.toInt, o.nanoseconds.toNat)) ∧
    ∀ (fsFd : RawFd) (size : TmpfsSize) (maxInodes : Option UInt64),
      ∃ (value : Bytes) (inodes : List Bytes),
      Prints none ((ascii "size", value) :: inodes.map (ascii "nr_inodes", ·))
        (applyTmpfsSize fsFd size maxInodes) ∧
      readSize value = some (TmpfsSize.amount size) ∧
      inodes.map readNat = maxInodes.toList.map fun n => some n.toNat := by
  refine ⟨fun procFd sourceUid sourceGid destUid destGid denySetgroups => ?_,
    fun procFd monotonicOffset boottimeOffset => ?_, fun fsFd size maxInodes => ?_⟩
  · exact ⟨mapLine destUid sourceUid, mapLine destGid sourceGid,
      writeSimpleUidGidMap_prints procFd sourceUid sourceGid destUid destGid denySetgroups,
      readMap_mapLine destUid sourceUid, readMap_mapLine destGid sourceGid⟩
  · refine ⟨_, writeTimensOffsets_prints procFd monotonicOffset boottimeOffset, ?_⟩
    have hmonotonic : ascii "monotonic " = ascii "monotonic" ++ ascii " " := by decide
    have hboottime : ascii "boottime " = ascii "boottime" ++ ascii " " := by decide
    unfold offsetLines
    rw [List.map_append, List.map_map, List.map_map, hmonotonic, hboottime]
    congr 1
    · exact List.map_congr_left fun o _ => readOffset_offsetLine (by decide) o
    · exact List.map_congr_left fun o _ => readOffset_offsetLine (by decide) o
  · refine ⟨sizeText size, maxInodes.toList.map fun n => decimal n.toNat, ?_,
      readSize_sizeText size, ?_⟩
    · rw [List.map_map]
      exact applyTmpfsSize_prints fsFd size maxInodes
    · rw [List.map_map]
      exact List.map_congr_left fun n _ => readNat_decimal n.toNat

/-- The longest offsets are set where the calls succeed. -/
theorem decimal_texts_exact_longest :
    ∃ lines : List Bytes, lines.map readOffset =
        [some (ascii "monotonic", -(2 ^ 63), 4294967295)] ∧
      ∃ trace,
        (@writeTimensOffsets Itoa.decimal 3 (some ⟨Int64.minValue, 4294967295⟩) none).run.Trace
          trace (.ok ()) ∧ handed none trace = lines.map (TIMENS_OFFSETS, ·) := by
  obtain ⟨lines, hprints, hlines⟩ :=
    (@decimal_texts_exact Itoa.decimal Itoa.decimal_lawful).2.1 3
      (some ⟨Int64.minValue, 4294967295⟩) none
  obtain ⟨trace, htrace⟩ := hprints.succeeds
  exact ⟨lines, hlines.trans (by decide), trace, htrace,
    (hprints.exact trace _ htrace).complete rfl⟩

/-- The longest line leaves no byte of its buffer to spare. -/
example : (offsetLine (ascii "monotonic ") ⟨Int64.minValue, 4294967295⟩).length =
    sizeOffsetBuffer := by
  rw [sizeOffsetBuffer, signedDecimalDigitsUpperBound_eq,
    unsignedDecimalDigitsUpperBound_eq (by decide)]
  decide

end LayerCake.Bubblebox.Spawn.Mounting
