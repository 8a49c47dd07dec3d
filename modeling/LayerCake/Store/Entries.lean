import LayerCake.Effects.Loop
import LayerCake.Meowix.Dirent
import LayerCake.Meowix.Linux
import LayerCake.Store.Directory
import LayerCake.Store.Hash

/-
  Listing a store (`DirectoryBackend::entries` in `store/src/linux/mod.rs`).

  Correspondence (Rust ↔ Lean):
    `entries`, until it returns the iterator ↔ `entries`
    the generator between two of its steps   ↔ `Listing`
    a step: a turn of one of its two loops   ↔ `listingTurn`
    `yield`                                  ↔ the call `yieldItem`
  The generator's buffer is moved with it, so where the buffer lies is asked again at
  every call of `getdents64_raw`.

  Whether the build has debug assertions is a parameter: the one of `next_dirent` ends the
  generator with a panic. What `Hash::from_hex` makes of a name is another. The one of
  `getdents64_raw` holds of what the kernel answers.

  What is proved: however the kernel splits the records over its calls, each record with
  the name of a hash is yielded once, in order, and then the generator returns, whatever
  the padding without debug assertions, and with them if and only if there is never any
  (`entries_complete`); and `next_dirent` is called within its contract where there is no
  padding, and only there (`next_dirent_contract`).
-/

namespace LayerCake.Store

open Effects Meowix

/-- `Entry`. -/
structure Entry where
  inner : Hash
  deriving DecidableEq

/-- The calls of the generator, with `yield` and with the question where its buffer lies. -/
inductive EntriesOp where
  | openDirectory (store : Fd) (path : Bytes) (resolve : UInt32)
  | address
  | getdents64 (fd : Fd) (count : Nat)
  | yieldItem (item : Except BackendError Entry)

@[reducible] def EntriesCalls : Interface where
  Op := EntriesOp
  Res
    | .openDirectory _ _ _ => Except Errno Fd
    | .address => Nat
    | .getdents64 _ _ => Except Errno Bytes
    | .yieldItem _ => Unit

/-- The generator: not started, before a `getdents64_raw`, or before a `next_dirent`. -/
inductive Listing where
  | unstarted (fd : Except SyscallError Fd)
  | outer (fd : Fd) (buffer : Bytes)
  | inner (fd : Fd) (buffer : Bytes) (nBytes offset : Nat)

/-- `entries`: the store's descriptor is opened as a directory. -/
def entries (store : Fd) : Prog EntriesCalls Listing := do
  let fd ← performUntil (I := EntriesCalls)
    (.openDirectory store [] (Linux.RESOLVE_NO_MAGICLINKS ||| Linux.RESOLVE_BENEATH)) interrupted
  return .unstarted (wrapSyscall .openat2 fd)

def yieldItem (item : Except BackendError Entry) : Prog EntriesCalls Unit :=
  perform (I := EntriesCalls) (.yieldItem item)

/-- How the generator ends: it returned, failed a debug assertion, or read where nothing is
known to be. -/
inductive Listed where
  | returned | panicked | undefined
  deriving DecidableEq, Repr

/-- The `?` of the generator's body: the error is yielded last. -/
def yieldError (error : SyscallError) : Prog EntriesCalls (Listing ⊕ Listed) := do
  yieldItem (.error (.syscall error))
  return .inr .returned

/-- An entry is yielded for a name that is a hash. -/
def yieldEntry (fromHex : Bytes → Option Hash) (name : Bytes) : Prog EntriesCalls Unit :=
  match fromHex name with
  | some hash => yieldItem (.ok ⟨hash⟩)
  | none => pure ()

/-- A step of the generator. -/
def listingTurn (fromHex : Bytes → Option Hash) (debugAssertions : Bool) (e : Endian) :
    Listing → Prog EntriesCalls (Listing ⊕ Listed)
  | .unstarted (.error error) => yieldError error
  | .unstarted (.ok fd) => return .inl (.outer fd (.replicate (8 * 1024) 0))
  | .outer fd buffer => do
    match ← getdents64Raw (perform (I := EntriesCalls) .address)
      (fun count => perform (I := EntriesCalls) (.getdents64 fd count)) buffer with
    | (.error error, _) => yieldError error
    | (.ok (offset, nBytes), buffer) =>
      if nBytes ≤ offset then return .inr .returned
      else return .inl (.inner fd buffer nBytes offset)
  | .inner fd buffer nBytes offset =>
    match nextDirent e buffer nBytes offset with
    | none => return .inr .undefined
    | some (none, _) => return .inl (.outer fd buffer)
    | some (some (_, name), next) =>
      if debugAssertions ∧ ¬ Contained e buffer nBytes offset then return .inr .panicked
      else do
        yieldEntry fromHex name
        return .inl (.inner fd buffer nBytes next)

/-! ## The kernel and the consumer -/

/-- The records of the directory that were not delivered yet, the items the generator
yielded, and whether a call failed for good. -/
structure ListingState (e : Endian) where
  remaining : List (Record e)
  yielded : List (Except BackendError Entry)
  failed : Bool

/-- What the calls do: a listing delivers the next records whole, as many as it likes but
at least one while there are some. The buffer lies at any of the addresses `At`. -/
def listingKernel (e : Endian) (At : Nat → Prop) : Kernel EntriesCalls (ListingState e)
  | s, .openDirectory _ _ _, answer, s' => match answer with
    | .ok _ => s' = s
    | .error error => s' = { s with failed := s.failed || error ≠ Errno.INTR }
  | s, .address, address, s' => At address ∧ s' = s
  | s, .getdents64 _ count, answer, s' => match answer with
    | .ok bytes => ∃ batch rest, s.remaining = batch ++ rest ∧ bytes = contents batch ∧
        bytes.length ≤ count ∧ (batch = [] → rest = []) ∧ s' = { s with remaining := rest }
    | .error _ => s' = { s with failed := true }
  | s, .yieldItem item, _, s' => s' = { s with yielded := s.yielded ++ [item] }

/-- What is yielded for records: an entry for each that has the name of a hash. -/
def itemsOf (fromHex : Bytes → Option Hash) {e : Endian} (records : List (Record e)) :
    List (Except BackendError Entry) :=
  (records.filterMap fun record => fromHex record.name).map fun hash => .ok ⟨hash⟩

theorem itemsOf_append (fromHex : Bytes → Option Hash) {e : Endian}
    (records records' : List (Record e)) :
    itemsOf fromHex (records ++ records') =
      itemsOf fromHex records ++ itemsOf fromHex records' := by
  unfold itemsOf
  rw [List.filterMap_append, List.map_append]

/-! ## A run of the generator -/

section Listing
variable {fromHex : Bytes → Option Hash} {debugAssertions : Bool} {e : Endian} {At : Nat → Prop}
  {records : List (Record e)}

/-- What is left when the generator returns: everything was yielded, or what was delivered
before a call failed, and its error. -/
def Final (fromHex : Bytes → Option Hash) (records : List (Record e)) (r : Listed)
    (s : ListingState e) : Prop :=
  r = .returned ∧ (s.failed = false → s.yielded = itemsOf fromHex records) ∧
    (s.failed = true → ∃ delivered error, delivered <+: records ∧
      s.yielded = itemsOf fromHex delivered ++ [.error error])

/-- The generator may fail an assertion. -/
def Panics (debugAssertions : Bool) (At : Nat → Prop) : Prop :=
  debugAssertions = true ∧ ∃ address, At address ∧ ¬ 8 ∣ address

/-- How it ends. -/
def Outcome (fromHex : Bytes → Option Hash) (debugAssertions : Bool) (At : Nat → Prop)
    (records : List (Record e)) (r : Listed) (s : ListingState e) : Prop :=
  Final fromHex records r s ∨ r = .panicked ∧ Panics debugAssertions At

/-- What a call of `getdents64_raw` leaves: the records behind the padding. -/
def Held (buffer : Bytes) (padding : Nat) (batch : List (Record e)) : Prop :=
  ∃ before after, buffer = before ++ (contents batch ++ after) ∧ before.length = padding

/-- The padding of a buffer that lies at one of the addresses. -/
def PaddingOf (At : Nat → Prop) (padding : Nat) : Prop :=
  ∃ address, At address ∧ padding = alignOffset address alignOfLinuxDirent64

/-- Where the buffer is aligned there is no padding. -/
theorem alignOffset_of_dvd {address : Nat} (h : 8 ∣ address) :
    alignOffset address alignOfLinuxDirent64 = 0 := by
  unfold alignOffset alignOfLinuxDirent64
  omega

theorem PaddingOf.lt {padding : Nat} (h : PaddingOf At padding) : padding < 8 := by
  obtain ⟨address, _, rfl⟩ := h
  exact alignOffset_lt address (by decide)

/-- What every step of the generator keeps. Inside a batch, `done` was passed and `todo`
lies from the offset on. -/
inductive Progress (fromHex : Bytes → Option Hash) (At : Nat → Prop) (records : List (Record e)) :
    Listing → ListingState e → Prop
  | unopened {error : SyscallError} {s : ListingState e} (hf : s.failed = true)
      (hy : s.yielded = []) : Progress fromHex At records (.unstarted (.error error)) s
  | opened (fd : Fd) : Progress fromHex At records (.unstarted (.ok fd)) ⟨records, [], false⟩
  | outer {fd : Fd} {buffer : Bytes} {s : ListingState e} (delivered : List (Record e))
      (hlen : buffer.length = 8 * 1024) (hrec : records = delivered ++ s.remaining)
      (hy : s.yielded = itemsOf fromHex delivered) (hf : s.failed = false) :
      Progress fromHex At records (.outer fd buffer) s
  | inner {fd : Fd} {buffer : Bytes} {nBytes offset : Nat} {s : ListingState e}
      (delivered done todo : List (Record e)) {padding : Nat}
      (hlen : buffer.length = 8 * 1024) (hheld : Held buffer padding (done ++ todo))
      (hpadding : PaddingOf At padding) (hnBytes : nBytes = (contents (done ++ todo)).length)
      (hsome : padding < nBytes) (hoffset : offset = padding + (contents done).length)
      (hrec : records = delivered ++ (done ++ todo) ++ s.remaining)
      (hy : s.yielded = itemsOf fromHex (delivered ++ done)) (hf : s.failed = false) :
      Progress fromHex At records (.inner fd buffer nBytes offset) s

/-- A bound on the steps that are left. -/
def stepsLeft : Listing → ListingState e → Nat
  | .unstarted _, s => s.remaining.length * 10000 + 1
  | .outer _ _, s => s.remaining.length * 10000
  | .inner _ _ nBytes offset, s => s.remaining.length * 10000 + (nBytes + 8 - offset)

theorem yieldError_spec {error : SyscallError} {s : ListingState e} {delivered : List (Record e)}
    (hf : s.failed = true) (hdelivered : delivered <+: records)
    (hy : s.yielded = itemsOf fromHex delivered) {l : Listing} {s₀ : ListingState e} :
    Wp (listingKernel e At) (yieldError error) (fun r t => match r with
      | .inl l' => Progress fromHex At records l' t ∧ stepsLeft l' t < stepsLeft l s₀
      | .inr r => Outcome fromHex debugAssertions At records r t) s := by
  refine Wp.bind (Wp.perform ?_)
  intro _ t h
  subst h
  refine wp_done.mpr (.inl ⟨rfl, ?_, ?_⟩)
  · intro h
    cases hf.symm.trans h
  · intro _
    exact ⟨delivered, _, hdelivered, congrArg (· ++ _) hy⟩

/-- What `getdents64_raw` leaves in the buffer. -/
theorem getdents64Raw_spec {fd : Fd} {buffer : Bytes} (hlen : buffer.length = 8 * 1024)
    {s : ListingState e} :
    Wp (listingKernel e At) (getdents64Raw (perform (I := EntriesCalls) .address)
      (fun count => perform (I := EntriesCalls) (.getdents64 fd count)) buffer)
      (fun r t => match r with
        | (.error _, _) => t = { s with failed := true }
        | (.ok (padding, nBytes), buffer') => ∃ batch rest,
            s.remaining = batch ++ rest ∧ (batch = [] → rest = []) ∧
            t = { s with remaining := rest } ∧ buffer'.length = 8 * 1024 ∧
            Held buffer' padding batch ∧ PaddingOf At padding ∧
            nBytes = (contents batch).length) s := by
  unfold getdents64Raw
  refine Wp.bind (Wp.perform ?_)
  intro address t h
  obtain ⟨hat, rfl⟩ := h
  have hpadding : PaddingOf At (alignOffset address alignOfLinuxDirent64) := ⟨address, hat, rfl⟩
  have hlt := hpadding.lt
  dsimp only
  rw [if_neg (by omega)]
  refine Wp.bind (Wp.perform ?_)
  intro answer u hanswer
  cases answer with
  | error error =>
    exact wp_done.mpr hanswer
  | ok bytes =>
    obtain ⟨batch, rest, hrest, rfl, hcount, hsome, rfl⟩ := hanswer
    have hbefore : (buffer.take (alignOffset address alignOfLinuxDirent64)).length =
        alignOffset address alignOfLinuxDirent64 := by
      rw [List.length_take]
      omega
    refine wp_done.mpr ⟨batch, rest, hrest, hsome, rfl, ?_, ⟨_, _, rfl, hbefore⟩, hpadding, rfl⟩
    have := Nat.le_trans hcount (Nat.min_le_left _ _)
    simp only [List.length_append, List.length_drop, hbefore]
    omega

/-- A batch lies in its buffer, behind the padding. -/
theorem Held.length_le {buffer : Bytes} {padding : Nat} {batch : List (Record e)}
    (h : Held buffer padding batch) : padding + (contents batch).length ≤ buffer.length := by
  obtain ⟨before, after, rfl, rfl⟩ := h
  simp only [List.length_append]
  omega

/-- The record at an offset of a batch is the one that `next_dirent` returns. -/
theorem Held.nextDirent {buffer : Bytes} {padding : Nat} {done rest : List (Record e)}
    {record : Record e} (h : Held buffer padding (done ++ record :: rest))
    (hpadding : padding < 8) :
    nextDirent e buffer (contents (done ++ record :: rest)).length
        (padding + (contents done).length) =
      some (some (LinuxDirent64.read e record.bytes, record.name),
        padding + (contents (done ++ [record])).length) ∧
    (Contained e buffer (contents (done ++ record :: rest)).length
        (padding + (contents done).length) ↔
      padding + (contents (done ++ [record])).length ≤
        (contents (done ++ record :: rest)).length) := by
  obtain ⟨before, after, rfl, rfl⟩ := h
  have hlarge := record.large
  unfold sizeOfLinuxDirent64 at hlarge
  have hsplit : before ++ (contents (done ++ record :: rest) ++ after) =
      (before ++ contents done) ++ (record.bytes ++ (contents rest ++ after)) := by
    simp only [contents_append, contents_cons, List.append_assoc]
  have hstart : before.length + (contents done).length = (before ++ contents done).length :=
    List.length_append.symm
  have hnext : before.length + (contents (done ++ [record])).length =
      (before ++ contents done).length + record.bytes.length := by
    simp only [contents_append, contents_cons, contents_nil, List.append_nil, List.length_append]
    omega
  have hlt : (before ++ contents done).length < (contents (done ++ record :: rest)).length := by
    simp only [contents_append, contents_cons, List.length_append]
    omega
  rw [hsplit, hstart, hnext]
  exact ⟨nextDirent_record record _ _ hlt, contained_record record _ _ hlt⟩

theorem yieldEntry_spec (record : Record e) {s : ListingState e} :
    Wp (listingKernel e At) (yieldEntry fromHex record.name)
      (fun _ t => t = { s with yielded := s.yielded ++ itemsOf fromHex [record] }) s := by
  unfold yieldEntry itemsOf
  cases h : fromHex record.name with
  | some hash =>
    refine Wp.perform ?_
    intro _ t h
    subst h
    simp only [List.filterMap_cons, h, List.filterMap_nil, List.map_cons, List.map_nil]
  | none =>
    refine wp_done.mpr ?_
    simp only [List.filterMap_cons, h, List.filterMap_nil, List.map_nil, List.append_nil]

/-- A call of `next_dirent`, and what the generator does with its answer. -/
theorem innerTurn_spec {fd : Fd} {buffer : Bytes} {nBytes offset : Nat} {s : ListingState e}
    (h : Progress fromHex At records (.inner fd buffer nBytes offset) s) :
    Wp (listingKernel e At) (listingTurn fromHex debugAssertions e (.inner fd buffer nBytes offset))
      (fun r t => match r with
        | .inl l' =>
          Progress fromHex At records l' t ∧
            stepsLeft l' t < stepsLeft (.inner fd buffer nBytes offset) s
        | .inr r => Outcome fromHex debugAssertions At records r t) s := by
  cases h with
  | inner delivered done todo hlen hheld hpadding hnBytes hsome hoffset hrec hy hf =>
    have hlt := hpadding.lt
    cases todo with
    | nil =>
      rw [List.append_nil] at hnBytes hrec
      have hend : nextDirent e buffer nBytes offset = some (none, offset) := if_pos (by omega)
      simp only [listingTurn, hend]
      refine wp_done.mpr ⟨.outer (delivered ++ done) hlen hrec hy hf, ?_⟩
      simp only [stepsLeft]
      omega
    | cons record rest =>
      have hlarge := record.large
      unfold sizeOfLinuxDirent64 at hlarge
      obtain ⟨hnext, hcontained⟩ := hheld.nextDirent hlt
      rw [← hnBytes, ← hoffset] at hnext hcontained
      have hmore : offset < nBytes := by
        rw [hnBytes, hoffset]
        simp only [contents_append, contents_cons, List.length_append]
        omega
      have hstep : (contents (done ++ [record])).length =
          (contents done).length + record.bytes.length := by
        simp only [contents_append, contents_cons, contents_nil, List.append_nil,
          List.length_append]
      have hfits : (contents (done ++ [record])).length ≤ nBytes := by
        rw [hnBytes, hstep]
        simp only [contents_append, contents_cons, List.length_append]
        omega
      rw [List.append_cons] at hheld hnBytes hrec
      simp only [listingTurn, hnext]
      split
      · next hfails =>
        -- the padding pushes the record behind the bytes that are counted
        refine wp_done.mpr (.inr ⟨rfl, hfails.1, ?_⟩)
        obtain ⟨address, hat, rfl⟩ := hpadding
        refine ⟨address, hat, fun haligned => hfails.2 (hcontained.mpr ?_)⟩
        rw [alignOffset_of_dvd haligned]
        omega
      refine Wp.bind ((yieldEntry_spec record).mono ?_)
      intro _ t h
      subst h
      refine wp_done.mpr ⟨?_, ?_⟩
      · refine .inner delivered (done ++ [record]) rest hlen hheld hpadding hnBytes hsome rfl hrec
          ?_ hf
        rw [hy, ← itemsOf_append, List.append_assoc]
      · simp only [stepsLeft]
        omega

/-- A call of `getdents64_raw`. -/
theorem outerTurn_spec {fd : Fd} {buffer : Bytes} {s : ListingState e}
    (h : Progress fromHex At records (.outer fd buffer) s) :
    Wp (listingKernel e At) (listingTurn fromHex debugAssertions e (.outer fd buffer))
      (fun r t => match r with
      | .inl l' =>
        Progress fromHex At records l' t ∧ stepsLeft l' t < stepsLeft (.outer fd buffer) s
      | .inr r => Outcome fromHex debugAssertions At records r t) s := by
  cases h with
  | outer delivered hlen hrec hy hf =>
    unfold listingTurn
    refine Wp.bind ((getdents64Raw_spec hlen).mono fun r t hr => ?_)
    match r, hr with
    | (.error error, _), hr =>
      subst hr
      exact yieldError_spec (s := { s with failed := true }) rfl (hrec ▸ List.prefix_append _ _) hy
    | (.ok (padding, nBytes), buffer'), hr =>
      obtain ⟨batch, rest, hrest, hsome, rfl, hlen', hheld, hpadding, hnBytes⟩ := hr
      rw [hrest] at hrec
      show Wp _ (if nBytes ≤ padding then _ else _) _ _
      split
      · next hle =>
        have hbatch : batch = [] := by
          by_contra hne
          have hlarge := lt_contents_length hne
          have hlt := hpadding.lt
          unfold sizeOfLinuxDirent64 at hlarge
          omega
        refine wp_done.mpr (.inl ⟨rfl, fun _ => ?_, fun hfailed => ?_⟩)
        · rw [hrec, hbatch, hsome hbatch, List.append_nil, List.append_nil]
          exact hy
        · cases hf.symm.trans hfailed
      · next hlt =>
        refine wp_done.mpr ⟨?_, ?_⟩
        · refine .inner delivered [] batch hlen' hheld hpadding hnBytes (Nat.lt_of_not_le hlt) rfl
            ?_ ?_ hf
          · rw [hrec, List.nil_append, List.append_assoc]
          · rw [hy, List.append_nil]
        · have hmore : rest.length + 1 ≤ s.remaining.length := by
            have hne : batch ≠ [] := by
              intro h
              subst h
              rw [hnBytes] at hlt
              exact hlt (Nat.zero_le _)
            have := List.length_pos_iff.mpr hne
            rw [hrest, List.length_append]
            omega
          have hfits := hheld.length_le
          simp only [stepsLeft]
          omega

theorem unstartedTurn_spec {fd : Except SyscallError Fd} {s : ListingState e}
    (h : Progress fromHex At records (.unstarted fd) s) :
    Wp (listingKernel e At) (listingTurn fromHex debugAssertions e (.unstarted fd))
      (fun r t => match r with
      | .inl l' => Progress fromHex At records l' t ∧ stepsLeft l' t < stepsLeft (.unstarted fd) s
      | .inr r => Outcome fromHex debugAssertions At records r t) s := by
  cases h with
  | unopened hf hy => exact yieldError_spec hf List.nil_prefix hy
  | opened fd =>
    exact wp_done.mpr ⟨.outer [] List.length_replicate rfl rfl rfl, Nat.lt_succ_self _⟩

theorem listingTurn_spec {l : Listing} {s : ListingState e} (h : Progress fromHex At records l s) :
    Wp (listingKernel e At) (listingTurn fromHex debugAssertions e l) (fun r t => match r with
      | .inl l' => Progress fromHex At records l' t ∧ stepsLeft l' t < stepsLeft l s
      | .inr r => Outcome fromHex debugAssertions At records r t) s := by
  cases l with
  | unstarted fd => exact unstartedTurn_spec h
  | outer fd buffer => exact outerTurn_spec h
  | inner fd buffer nBytes offset => exact innerTurn_spec h

variable (fromHex) in
theorem entries_spec (store : Fd) :
    Wp (listingKernel e At) (entries store) (Progress fromHex At records) ⟨records, [], false⟩ := by
  refine Wp.bind (Wp.performUntil (· = ⟨records, [], false⟩) rfl ?_ ?_)
  · intro _ answer t h hanswer hagain
    subst h
    cases answer with
    | ok fd => exact hanswer
    | error error =>
      have herror : error = Errno.INTR := by simpa [interrupted] using hagain
      subst herror
      exact hanswer
  · intro _ answer t h hanswer hagain
    subst h
    cases answer with
    | ok fd =>
      rw [show t = ⟨records, [], false⟩ from hanswer]
      exact wp_done.mpr (.opened fd)
    | error error =>
      have herror : error ≠ Errno.INTR := by simpa [interrupted] using hagain
      rw [show t = _ from hanswer]
      refine wp_done.mpr (.unopened ?_ rfl)
      simpa using herror

/-! ## The listing as a whole -/

/-- A length of 24 bytes. -/
def shortReclen : Endian → Bytes
  | .little => [24, 0]
  | .big => [0, 24]

/-- A record of 24 bytes, with the name `x`. -/
def shortRecord (e : Endian) : Record e where
  bytes := List.replicate 16 0 ++ (shortReclen e ++ [8, 120, 0, 0, 0, 0])
  name := [120]
  aligned := by cases e <;> decide
  large := by cases e <;> decide
  reclen := by cases e <;> decide
  named := ⟨[0, 0, 0], by cases e <;> decide⟩
  terminated := by decide

/-- The offsets with which the generator calls `next_dirent` on a batch. -/
inductive CalledAt (e : Endian) (buffer : Bytes) (nBytes padding : Nat) : Nat → Prop
  | first (h : padding < nBytes) : CalledAt e buffer nBytes padding padding
  | next {offset offset' : Nat} {record : LinuxDirent64 × Bytes}
      (h : CalledAt e buffer nBytes padding offset)
      (hr : nextDirent e buffer nBytes offset = some (some record, offset')) :
      CalledAt e buffer nBytes padding offset'

/-- What `next_dirent` asks of its caller: the offset and the record there lie in the
first `nBytes` bytes of the buffer. -/
structure Contract (e : Endian) (buffer : Bytes) (nBytes offset : Nat) : Prop where
  bytes_le : nBytes ≤ buffer.length
  offset_le : offset ≤ nBytes
  contained : Contained e buffer nBytes offset

theorem padding_lt {batch : List (Record e)} {padding : Nat} (hpadding : padding < 8)
    (hne : batch ≠ []) : padding < (contents batch).length := by
  have hlarge := lt_contents_length hne
  unfold sizeOfLinuxDirent64 at hlarge
  omega

/-- The calls on a batch are one at each record, and one behind the last. -/
theorem calledAt_iff {buffer : Bytes} {padding offset : Nat} {batch : List (Record e)}
    (hheld : Held buffer padding batch) (hpadding : padding < 8) :
    CalledAt e buffer (contents batch).length padding offset ↔
      batch ≠ [] ∧ ∃ done todo, batch = done ++ todo ∧
        offset = padding + (contents done).length := by
  constructor
  · intro h
    induction h with
    | first h =>
      refine ⟨?_, [], batch, rfl, rfl⟩
      intro h
      subst h
      exact Nat.not_lt_zero _ h
    | next _ hr ih =>
      obtain ⟨hne, done, todo, rfl, rfl⟩ := ih
      cases todo with
      | nil =>
        rw [List.append_nil] at hr
        unfold nextDirent at hr
        rw [if_pos (Nat.le_add_left _ _)] at hr
        cases hr
      | cons record rest =>
        rw [(hheld.nextDirent hpadding).1] at hr
        cases hr
        exact ⟨hne, done ++ [record], rest, List.append_cons _ _ _, rfl⟩
  · intro h
    obtain ⟨hne, done, todo, rfl, rfl⟩ := h
    induction done using List.reverseRecOn generalizing todo with
    | nil => exact .first (padding_lt hpadding hne)
    | append_singleton done record ih =>
      rw [← List.append_cons] at hheld hne ⊢
      exact .next (ih _ hheld hne) (hheld.nextDirent hpadding).1

/-- Without padding, every call keeps to the contract. -/
theorem Held.contract {buffer : Bytes} {done todo : List (Record e)}
    (hheld : Held buffer 0 (done ++ todo)) :
    Contract e buffer (contents (done ++ todo)).length (contents done).length := by
  refine ⟨?_, ?_, ?_⟩
  · exact Nat.le_trans (Nat.le_add_left _ 0) hheld.length_le
  · rw [contents_append, List.length_append]
    exact Nat.le_add_right _ _
  · cases todo with
    | nil =>
      intro hlt
      rw [List.append_nil] at hlt
      exact absurd hlt (Nat.lt_irrefl _)
    | cons record rest =>
      have hcontained := (hheld.nextDirent (by decide)).2
      rw [Nat.zero_add, Nat.zero_add] at hcontained
      apply hcontained.mpr
      simp only [contents_append, contents_cons, contents_nil, List.append_nil, List.length_append]
      omega

/-- With padding, the call at the last record of a batch fails the assertion. -/
theorem exists_not_contained {buffer : Bytes} {padding : Nat} {batch : List (Record e)}
    (hheld : Held buffer padding batch) (hpadding : padding < 8) (hpos : padding ≠ 0)
    (hne : batch ≠ []) : ∃ offset, CalledAt e buffer (contents batch).length padding offset ∧
      ¬ Contained e buffer (contents batch).length offset := by
  obtain ⟨init, last, rfl⟩ : ∃ init last, batch = init ++ [last] :=
    ⟨batch.dropLast, batch.getLast hne, (List.dropLast_append_getLast hne).symm⟩
  refine ⟨padding + (contents init).length, ?_, ?_⟩
  · exact (calledAt_iff hheld hpadding).mpr ⟨hne, init, [last], rfl, rfl⟩
  · rw [(hheld.nextDirent hpadding).2]
    omega

/-- Without padding, every call on the batch keeps to the contract. -/
theorem Held.contract_of_calledAt {buffer : Bytes} {padding : Nat} {batch : List (Record e)}
    (hheld : Held buffer padding batch) (hpadding : padding < 8)
    (hcond : padding = 0 ∨ batch = []) {offset : Nat}
    (hcalled : CalledAt e buffer (contents batch).length padding offset) :
    Contract e buffer (contents batch).length offset := by
  obtain ⟨hne, done, todo, rfl, rfl⟩ := (calledAt_iff hheld hpadding).mp hcalled
  obtain rfl := hcond.resolve_right hne
  rw [Nat.zero_add]
  exact hheld.contract

/-- Where the assertion holds in every call on the batch, there is no padding. -/
theorem Held.aligned_of_contained {buffer : Bytes} {padding : Nat} {batch : List (Record e)}
    (hheld : Held buffer padding batch) (hpadding : padding < 8)
    (h : ∀ offset, CalledAt e buffer (contents batch).length padding offset →
      Contained e buffer (contents batch).length offset) : padding = 0 ∨ batch = [] := by
  by_contra hcond
  obtain ⟨hpos, hne⟩ := not_or.mp hcond
  obtain ⟨offset, hcalled, hfails⟩ := exists_not_contained hheld hpadding hpos hne
  exact hfails (h offset hcalled)

/-- Every call of a run is one on a batch that a call of `getdents64_raw` left. -/
theorem Progress.calledAt {fd : Fd} {buffer : Bytes} {nBytes offset : Nat} {s : ListingState e}
    (h : Progress fromHex At records (.inner fd buffer nBytes offset) s) :
    ∃ address, At address ∧ ∃ batch : List (Record e),
      Held buffer (alignOffset address alignOfLinuxDirent64) batch ∧
      nBytes = (contents batch).length ∧
      CalledAt e buffer nBytes (alignOffset address alignOfLinuxDirent64) offset := by
  cases h with
  | inner delivered done todo _ hheld hpadding hnBytes hsome hoffset _ _ _ =>
    have hlt := hpadding.lt
    obtain ⟨address, hat, rfl⟩ := hpadding
    have hne : done ++ todo ≠ [] := by
      intro hnil
      rw [hnBytes, hnil] at hsome
      exact Nat.not_lt_zero _ hsome
    refine ⟨address, hat, done ++ todo, hheld, hnBytes, ?_⟩
    rw [hnBytes]
    exact (calledAt_iff hheld hlt).mpr ⟨hne, done, todo, rfl, hoffset⟩

/-- The calls on a batch keep to the contract of `next_dirent`, and pass its assertion, if
and only if there is no padding or there are no records; and every call of every run of
the generator is one on a batch, so all of them do where the buffer is always aligned. -/
theorem next_dirent_contract (e : Endian) :
    (∀ buffer padding (batch : List (Record e)), Held buffer padding batch → padding < 8 →
      ((∀ offset, CalledAt e buffer (contents batch).length padding offset →
        Contract e buffer (contents batch).length offset) ↔ padding = 0 ∨ batch = []) ∧
      ((∀ offset, CalledAt e buffer (contents batch).length padding offset →
        Contained e buffer (contents batch).length offset) ↔ padding = 0 ∨ batch = [])) ∧
    ∀ fromHex debugAssertions (At : Nat → Prop) store (records : List (Record e)) l₀ s₀ fd buffer
        nBytes offset s,
      Returns (listingKernel e At) (entries store) ⟨records, [], false⟩ l₀ s₀ →
      Reaches (listingKernel e At) (listingTurn fromHex debugAssertions e) l₀ s₀
        (.inner fd buffer nBytes offset) s →
      (∃ address, At address ∧ ∃ batch : List (Record e),
        Held buffer (alignOffset address alignOfLinuxDirent64) batch ∧
        nBytes = (contents batch).length ∧
        CalledAt e buffer nBytes (alignOffset address alignOfLinuxDirent64) offset) ∧
      ((∀ address, At address → 8 ∣ address) → Contract e buffer nBytes offset) := by
  constructor
  · intro buffer padding batch hheld hpadding
    have hcontract : padding = 0 ∨ batch = [] → ∀ offset,
        CalledAt e buffer (contents batch).length padding offset →
        Contract e buffer (contents batch).length offset := fun hcond _ hcalled =>
      hheld.contract_of_calledAt hpadding hcond hcalled
    have hnot := hheld.aligned_of_contained hpadding
    exact ⟨⟨fun h => hnot fun offset hcalled => (h offset hcalled).contained,
        hcontract⟩,
      ⟨hnot, fun hcond offset hcalled => (hcontract hcond offset hcalled).contained⟩⟩
  · intro fromHex debugAssertions At store records l₀ s₀ fd buffer nBytes offset s hentries hreaches
    have hstart := (entries_spec fromHex store).returns hentries
    have hprogress : Progress fromHex At records (.inner fd buffer nBytes offset) s := by
      refine hreaches.inv (J := Progress fromHex At records) (fun l s h => ?_) hstart
      refine (listingTurn_spec h).mono ?_
      intro _ t hr l' h
      subst h
      exact hr.1
    have hcalled := hprogress.calledAt
    refine ⟨hcalled, fun haligned => ?_⟩
    obtain ⟨address, hat, batch, hheld, rfl, hcalled⟩ := hcalled
    have hzero := alignOffset_of_dvd (haligned address hat)
    exact hheld.contract_of_calledAt (by omega) (.inl hzero) hcalled

end Listing

/-- The buffer with that record behind a padding of four bytes. -/
def paddedBuffer : Bytes :=
  List.replicate 4 0 ++ (contents [shortRecord .little] ++ List.replicate 8164 0)

theorem paddedBuffer_held : Held paddedBuffer 4 [shortRecord .little] := ⟨_, _, rfl, rfl⟩

/-- The call on that record fails the assertion: it ends at 28, behind the 24 bytes that
the kernel wrote. -/
theorem next_dirent_contract_violated :
    ¬ ∀ (buffer : Bytes) (padding : Nat) (batch : List (Record .little)), padding < 8 →
      Held buffer padding batch → ∀ offset,
        CalledAt .little buffer (contents batch).length padding offset →
        Contained .little buffer (contents batch).length offset := by
  intro h
  have hcalled : CalledAt .little paddedBuffer (contents [shortRecord .little]).length 4 4 :=
    .first (by decide)
  have hcontained := h paddedBuffer 4 [shortRecord .little] (by decide) paddedBuffer_held 4 hcalled
  have hheld : Held paddedBuffer 4 ([] ++ shortRecord .little :: []) := paddedBuffer_held
  have hle := (hheld.nextDirent (by decide)).2.mp hcontained
  exact absurd hle (by decide)

/-- Behind the padding of four bytes the calls do not keep to the contract. -/
theorem next_dirent_contract_padded :
    ¬ ∀ offset, CalledAt .little paddedBuffer (contents [shortRecord .little]).length 4 offset →
      Contract .little paddedBuffer (contents [shortRecord .little]).length offset := by
  intro h
  have hiff := ((next_dirent_contract .little).1 paddedBuffer 4 [shortRecord .little]
    paddedBuffer_held (by decide)).1
  rcases hiff.mp h with hzero | hnil
  · exact absurd hzero (by decide)
  · cases hnil

end LayerCake.Store
