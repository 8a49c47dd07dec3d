import LayerCake.Store.Directory
import LayerCake.Store.Hash

/-
  Inserting blobs (`store/src/linux/mod.rs`), by any number of writers at once.

  Correspondence (Rust ↔ Lean):
    `DirectoryBackend::insert_blob`            ↔ `insertBlob`
    `FdWriteHandle`                            ↔ `FdWriteHandle`
    `io::Write for FdWriteHandle`              ↔ `FdWriteHandle.writes`, a list of its calls
    `FdWriteHandle::finish`                    ↔ `FdWriteHandle.finish`
  What `blake3` and `itoa` do is a parameter; the digest is any function of the bytes.

  What is proved, of every run of any number of writers: `inserted` — an entry named by a
  digest links to a file with that digest that is complete; entries never change; a
  `finish` that returns `Ok` returns the digest of the bytes its handle accepted, and the
  entry is there; a writer that fails or drops its handle has added no such entry.
-/

namespace LayerCake.Store

open Effects Meowix

/-! ## The code -/

/-- `FdWriteHandle`. -/
structure FdWriteHandle where
  store : Fd
  file : Fd
  deriving DecidableEq

/-- `insert_blob`. -/
def insertBlob (inner : Fd) : ExceptT BackendError (Prog StoreCalls) FdWriteHandle := do
  let storeFd ← attempt .fcntl (.fcntlDupfd inner)
  let fileFd ← attemptUntil .openat2 (.openTmpfile storeFd (RUSR ||| WUSR))
  return { store := storeFd, file := fileFd }

/-- The calls of `io::Write`. -/
inductive WriteCall where
  | write (buf : Bytes)
  | writeVectored (bufs : List Bytes)
  | flush
  deriving DecidableEq

namespace FdWriteHandle

/-- A sequence of writes, none of them retried: the bytes accepted so far, and by all. -/
def writes (handle : FdWriteHandle) (accepted : Bytes) : List WriteCall → Prog StoreCalls Bytes
  | [] => return accepted
  | .write buf :: calls => do
    match ← perform (I := StoreCalls) (.write handle.file buf) with
    | .ok n => handle.writes (accepted ++ buf.take n) calls
    | .error _ => handle.writes accepted calls
  | .writeVectored bufs :: calls => do
    match ← perform (I := StoreCalls) (.writev handle.file bufs) with
    | .ok n => handle.writes (accepted ++ bufs.flatten.take n) calls
    | .error _ => handle.writes accepted calls
  | .flush :: calls => handle.writes accepted calls

end FdWriteHandle

/-- `c"user.generation"`. -/
def GENERATION_XATTR : Bytes := ascii "user.generation"

/-- `c"user.store_type"`. -/
def STORE_TYPE_XATTR : Bytes := ascii "user.store_type"

section Code
variable [Itoa] (blake3 : Blake3)

/-- The attributes and the mode that `finish` gives the file. -/
def sealBlob (file : Fd) (generation : Nat) : ExceptT BackendError (Prog StoreCalls) Unit := do
  attempt .fsetxattr (.fsetxattr file GENERATION_XATTR (Itoa.format generation))
  attempt .fsetxattr (.fsetxattr file STORE_TYPE_XATTR (ascii "blob"))
  attempt .fchmod (.fchmod file RUSR)
  return ()

/-- The link that `finish` makes; that the name exists is not an error. -/
def linkBlob (handle : FdWriteHandle) (digest : Hash) :
    ExceptT BackendError (Prog StoreCalls) Hash :=
  match withCStr PATH_MAX (blake3.toHex digest) with
  | .error e => throw (.ofWithCStr e)
  | .ok fileName => do
    match ← ExceptT.lift
      (perform (I := StoreCalls) (.linkat handle.file handle.store fileName)) with
    | .ok () => return digest
    | .error e => if e = .EXIST then return digest else throw (.syscall ⟨.linkat, e⟩)

/-- `finish`. -/
def FdWriteHandle.finish (handle : FdWriteHandle) :
    ExceptT BackendError (Prog StoreCalls) Hash := do
  let _ ← attempt .lseek (.lseek handle.file 0)
  let hasher ← ExceptT.mk (Except.mapError .io <$> blake3.updateReader blake3.new handle.file)
  let _ ← acquireSharedStoreLock handle.store
  let generation ← currentGeneration handle.store
  sealBlob handle.file generation
  linkBlob blake3 handle (blake3.finalize hasher)

/-- How a writer ends: with the bytes its handle accepted, if it had one, and the result of
`finish`, if it was not dropped. -/
inductive WriterOutcome where
  | failed (error : BackendError)
  | dropped (accepted : Bytes)
  | finished (accepted : Bytes) (result : Except BackendError Hash)
  deriving DecidableEq

/-- What a writer does: the calls on its handle, and whether it finishes. -/
structure Job where
  calls : List WriteCall
  finishes : Bool

/-- A writer on the store that it has open as `inner`. -/
def writer (inner : Fd) (job : Job) : Prog StoreCalls WriterOutcome := do
  match ← (insertBlob inner).run with
  | .error e => return .failed e
  | .ok handle =>
    let accepted ← handle.writes [] job.calls
    if job.finishes then
      let result ← (handle.finish blake3).run
      return .finished accepted result
    else return .dropped accepted

end Code

/-! ## Specification -/

section Spec
variable [Itoa] {ι : Type}

/-- What a file is published with under a name: if the name is a digest, it is the file's, and
the file has its attributes and is read-only. -/
structure Blob (hash : Bytes → Hash) (digest : Hash) (x : File ι) : Prop where
  digest : hash x.contents = digest
  generation : ∃ generation : Nat, x.xattrs GENERATION_XATTR = some (Itoa.format generation)
  storeType : x.xattrs STORE_TYPE_XATTR = some (ascii "blob")
  mode : x.mode = RUSR

def BlobPub (blake3 : Blake3) (hash : Bytes → Hash) (name : Bytes) (x : File ι) : Prop :=
  ∀ digest : Hash, name = blake3.toHex digest → Blob hash digest x

/-- Process `i` has added no entry named by a digest. -/
def Unpublished (blake3 : Blake3) (i : ι) (s : Fs ι) : Prop :=
  ∀ (digest : Hash) l, s.entries (blake3.toHex digest) = some l → l.linker ≠ some i

/-- A store before any of the writers runs: its entries are in order, none is theirs, and
each of them has the directory open. -/
structure Ready (blake3 : Blake3) (hash : Bytes → Hash) (inner : ι → Fd) (s : Fs ι) : Prop where
  good : Good (BlobPub blake3 hash) s
  unpublished : ∀ i, Unpublished blake3 i s
  dir : ∀ i, s.table i (inner i) = some .directory

/-- Every writer is about to start. -/
def inserting (blake3 : Blake3) (inner : ι → Fd) (job : ι → Job) (s : Fs ι) :
    Config StoreCalls (Fs ι) WriterOutcome ι where
  shared := s
  procs i := some (writer blake3 (inner i) (job i))

/-- The store after a fallible step of writer `i`: an error leaves no entry of its own. -/
def OrUnpublished {α : Type} (blake3 : Blake3) (i : ι) (Q : α → Fs ι → Prop) :
    Except BackendError α → Fs ι → Prop
  | .ok a, s => Q a s
  | .error _, s => Unpublished blake3 i s

/-- What the result of `finish` is to say of the store. -/
def Finished (blake3 : Blake3) (hash : Bytes → Hash) (i : ι) (accepted : Bytes) :
    Except BackendError Hash → Fs ι → Prop :=
  OrUnpublished blake3 i fun digest s =>
    digest = hash accepted ∧ s.entries (blake3.toHex digest) ≠ none

/-- What the outcome of writer `i` is to say of the store. -/
def Reported (blake3 : Blake3) (hash : Bytes → Hash) (i : ι) : WriterOutcome → Fs ι → Prop
  | .finished accepted result, s => Finished blake3 hash i accepted result s
  | .failed _, s | .dropped _, s => Unpublished blake3 i s

omit [Itoa] in
theorem Blake3.Documented.lock_not_digest {blake3 : Blake3} {hash : Bytes → Hash}
    (h : blake3.Documented hash) (digest : Hash) : LOCK_FILE_PATH ≠ blake3.toHex digest := by
  intro heq
  have hlen := congrArg List.length heq
  rw [h.toHex_length] at hlen
  exact absurd hlen (by decide)

end Spec

/-! ## One writer -/

section Writer
variable [Itoa] {ι : Type} [DecidableEq ι] {blake3 : Blake3} {hash : Bytes → Hash} {i : ι}
  {s s' : Fs ι} {store file : Fd}

omit [DecidableEq ι] in
theorem Unpublished.stable :
    Stable (Others (BlobPub blake3 hash) i) (Unpublished (ι := ι) blake3 i) := by
  intro s s' hs hk digest l hl
  obtain ⟨j, hij, h⟩ := hk
  rcases h.added _ l hl with hl | ⟨hlinker, _⟩
  · exact hs digest l hl
  · rw [hlinker]
    exact fun he => hij (Option.some.inj he).symm

/-- A writer before it links its file, which satisfies `P`. -/
structure Writing (blake3 : Blake3) (hash : Bytes → Hash) (i : ι) (store file : Fd)
    (P : File ι → Nat → Prop)
    (s : Fs ι) : Prop where
  good : Good (BlobPub blake3 hash) s
  unpublished : Unpublished blake3 i s
  owns : ∃ f offset x, Owns i store file f offset x s ∧ P x offset

variable {P : File ι → Nat → Prop}

theorem Writing.kept :
    Kept (BlobPub blake3 hash) i [store, file] (Writing blake3 hash i store file P) where
  stable s s' hs h := by
    obtain ⟨f, offset, x, howns, hx⟩ := hs.owns
    exact ⟨Good.stable s s' hs.good h, Unpublished.stable s s' hs.unpublished h,
      f, offset, x, howns.stable s s' h, hx⟩
  opened s fd hs hfd := by
    obtain ⟨f, offset, x, howns, _⟩ := hs.owns
    have hkept : Kept (BlobPub blake3 hash) i [store, file] (Owns i store file f offset x) :=
      Owns.kept
    exact hkept.opened s fd howns hfd
  openAs s fd d hs hfd := by
    obtain ⟨f, offset, x, howns, hx⟩ := hs.owns
    exact ⟨hs.good, hs.unpublished, f, offset, x, howns.openAs hfd, hx⟩

/-- The writer's file has these contents. -/
abbrev Holds (contents : Bytes) : File ι → Nat → Prop := fun x _ => x.contents = contents

/-- A change of the file, and of the place of its descriptor. -/
theorem Writing.change {P' : File ι → Nat → Prop} (hs : Writing blake3 hash i store file P s)
    (hchange : ∀ f offset x, Owns i store file f offset x s → P x offset →
      ∃ x' offset', x'.owner = x.owner ∧ P' x' offset' ∧
        s' = (s.setFile f x').openAs i file (.file f offset')) :
    Acts (BlobPub blake3 hash) i s s' ∧ Writing blake3 hash i store file P' s' := by
  obtain ⟨f, offset, x, howns, hx⟩ := hs.owns
  obtain ⟨x', offset', howner, hx', rfl⟩ := hchange f offset x howns hx
  have hset : Acts (BlobPub blake3 hash) i s (s.setFile f x') ∧ _ := howns.setFile howner
  have hacts : Acts (BlobPub blake3 hash) i s ((s.setFile f x').openAs i file (.file f offset')) :=
    hset.1.trans acts_openAs
  exact ⟨hacts, hacts.good hs.good, hs.unpublished, f, offset', x', hset.2.seek offset', hx'⟩

omit [Itoa] [DecidableEq ι] in
theorem setFile_self {f : FileId} {x : File ι} (h : s.files f = some x) : s.setFile f x = s := by
  unfold Fs.setFile
  rw [← h, Function.update_eq_self]

omit [Itoa] in
theorem openAs_self {fd : Fd} {d : Desc} (h : s.table i fd = some d) : s.openAs i fd d = s := by
  unfold Fs.openAs
  rw [← h, Function.update_eq_self, Function.update_eq_self]

/-- The writer's bytes are what its calls accepted, and the descriptor is at their end. -/
abbrev Accepted (accepted : Bytes) : File ι → Nat → Prop :=
  fun x offset => x.contents = accepted ∧ offset = accepted.length

/-- A write that is accepted in part. -/
theorem Writing.append {accepted buf : Bytes} {n : Nat}
    (hs : Writing blake3 hash i store file (Accepted accepted) s)
    (hdone : Done i s (.write file buf) n s') :
    Acts (BlobPub blake3 hash) i s s' ∧
      Writing blake3 hash i store file (Accepted (accepted ++ buf.take n)) s' := by
  obtain ⟨f', offset', x', htable, hfile, hn, rfl⟩ := hdone
  apply hs.change
  intro f offset x howns hx
  obtain ⟨rfl, rfl, rfl⟩ := howns.unique htable hfile
  obtain ⟨rfl, rfl⟩ := hx
  refine ⟨x'.write x'.contents.length (buf.take n), _, rfl, ⟨x'.write_end _, ?_⟩, rfl⟩
  rw [List.length_append, List.length_take, Nat.min_eq_left hn]

theorem writes_runs (handle : FdWriteHandle) (calls : List WriteCall) (accepted : Bytes)
    (hs : Writing blake3 hash i handle.store handle.file (Accepted accepted) s) :
    Runs (storeKernel i) (BlobPub blake3 hash) i (handle.writes accepted calls)
      (fun r t => Writing blake3 hash i handle.store handle.file (Accepted r) t) s := by
  have hst : ∀ accepted, Stable (Others (BlobPub blake3 hash) i)
      (Writing blake3 hash i handle.store handle.file (Accepted accepted)) :=
    fun _ => Writing.kept.stable
  induction calls generalizing accepted s with
  | nil => exact Sat.return _ hs (hst accepted) fun _ h => h
  | cons call calls ih =>
    cases call with
    | flush => exact ih accepted hs
    | write buf =>
      apply Sat.perform _ hs (hst accepted)
      intro t r t' ht hk
      cases r with
      | error e =>
        obtain ⟨_, rfl⟩ := hk
        exact ⟨Acts.refl i t', ih accepted ht⟩
      | ok n =>
        obtain ⟨hacts, hnew⟩ := ht.append hk
        exact ⟨hacts, ih _ hnew⟩
    | writeVectored bufs =>
      apply Sat.perform _ hs (hst accepted)
      intro t r t' ht hk
      cases r with
      | error e =>
        obtain ⟨_, rfl⟩ := hk
        exact ⟨Acts.refl i t', ih accepted ht⟩
      | ok n =>
        have hdone : Done i t (.write handle.file bufs.flatten) n t' := hk
        obtain ⟨hacts, hnew⟩ := ht.append hdone
        exact ⟨hacts, ih _ hnew⟩

/-! ### Reading the file back -/

/-- The file is unchanged, and its descriptor has passed the bytes that are hashed. -/
abbrev Hashed (contents hashed : Bytes) : File ι → Nat → Prop :=
  fun x offset => x.contents = contents ∧ hashed = contents.take offset

/-- A read of some of the rest, or at the end of nothing. -/
theorem Writing.read {contents hashed bytes : Bytes} {len : Nat} (hlen : 0 < len)
    (hs : Writing blake3 hash i store file (Hashed contents hashed) s)
    (hdone : Done i s (.read file len) bytes s') :
    Acts (BlobPub blake3 hash) i s s' ∧
      Writing blake3 hash i store file (Hashed contents (hashed ++ bytes)) s' ∧
      (bytes.length = 0 → hashed = contents) := by
  obtain ⟨f', offset', x', htable, hfile, hprefix, _, hend, rfl⟩ := hdone
  obtain ⟨f, offset, x, howns, hx, hhashed⟩ := hs.owns
  obtain ⟨rfl, rfl, rfl⟩ := howns.unique htable hfile
  subst hx
  have hnext : hashed ++ bytes = x'.contents.take (offset' + bytes.length) := by
    rw [List.take_add, ← hhashed, List.prefix_iff_eq_take.mp hprefix]
    simp
  have hchange :
      Acts (BlobPub blake3 hash) i s (s.openAs i file (.file f' (offset' + bytes.length))) ∧
      Writing blake3 hash i store file (Hashed x'.contents (hashed ++ bytes))
        (s.openAs i file (.file f' (offset' + bytes.length))) := by
    apply hs.change
    intro f₂ offset₂ x₂ howns₂ _
    obtain ⟨rfl, rfl, rfl⟩ := howns₂.unique htable hfile
    exact ⟨x', _, rfl, ⟨rfl, hnext⟩, by rw [setFile_self hfile]⟩
  refine ⟨hchange.1, hchange.2, fun hnil => ?_⟩
  have := hend (List.eq_nil_of_length_eq_zero hnil) hlen
  rw [hhashed, List.take_of_length_le this]

omit [DecidableEq ι] in
theorem Writing.mono {P' : File ι → Nat → Prop} (hs : Writing blake3 hash i store file P s)
    (h : ∀ x offset, P x offset → P' x offset) : Writing blake3 hash i store file P' s := by
  obtain ⟨f, offset, x, howns, hx⟩ := hs.owns
  exact ⟨hs.good, hs.unpublished, f, offset, x, howns, h x offset hx⟩

/-- What reads the file to its end is given what it holds, however the reads are split. -/
theorem ReadsToEnd.runs {α : Type} {Suits : Bytes → α → Prop} {contents given : Bytes}
    {p : Prog StoreCalls (Except Errno α)} (h : ReadsToEnd file Suits given p)
    (hs : Writing blake3 hash i store file (Hashed contents given) s) :
    Runs (storeKernel i) (BlobPub blake3 hash) i p
      (fun r t => Writing blake3 hash i store file (Holds contents) t ∧
        ∀ a, r = .ok a → Suits contents a) s := by
  induction h generalizing s with
  | @read given len again k hlen hagain hend hmore herror ih =>
    refine Sat.callUntil _ hs Writing.kept.stable ?_ ?_
    · intro t r t' ht hk hr
      cases r with
      | ok bytes => cases (hagain bytes).symm.trans hr
      | error e =>
        obtain ⟨_, rfl⟩ := hk
        exact ⟨Acts.refl i t', ht⟩
    · intro t r t' ht hk hr
      cases r with
      | error e =>
        obtain ⟨_, rfl⟩ := hk
        refine ⟨Acts.refl i t', ?_⟩
        have hholds : Writing blake3 hash i store file (Holds contents) t' :=
          ht.mono fun _ _ h => h.1
        rw [herror e hr]
        exact Sat.return _ hholds Writing.kept.stable fun _ h => ⟨h, fun _ he => by cases he⟩
      | ok bytes =>
        obtain ⟨hacts, hnew, heof⟩ := ht.read hlen hk
        refine ⟨hacts, ?_⟩
        by_cases hnil : bytes = []
        · subst hnil
          have hholds : Writing blake3 hash i store file (Holds contents) t' :=
            hnew.mono fun _ _ h => h.1
          obtain ⟨a, ha, hdone⟩ := hend
          obtain rfl := heof rfl
          rw [hdone]
          exact Sat.return _ hholds Writing.kept.stable fun _ h =>
            ⟨h, fun _ he => by cases he; exact ha⟩
        · exact ih bytes hnil hnew
  | @forever given len k hlen =>
    -- beyond the reads that are followed it reads on for ever
    refine Sat.callUntil
      (fun t => ∃ given, Writing blake3 hash i store file (Hashed contents given) t)
      ⟨given, hs⟩ ?_ ?_ ?_
    · intro t t' hk h
      obtain ⟨given, ht⟩ := hk
      exact ⟨given, Writing.kept.stable t t' ht h⟩
    · intro t r t' h hk _
      obtain ⟨given, ht⟩ := h
      cases r with
      | error e =>
        obtain ⟨_, rfl⟩ := hk
        exact ⟨Acts.refl i t', given, ht⟩
      | ok bytes =>
        obtain ⟨hacts, hnew, _⟩ := ht.read hlen hk
        exact ⟨hacts, _, hnew⟩
    · intro t r t' _ _ hr
      cases hr

/-! ### The lock -/

omit [DecidableEq ι] in
/-- The lock file, when it is new, is another file under another name. -/
theorem Writing.addLock (hblake3 : blake3.Documented hash)
    (hs : Writing blake3 hash i store file P s) {f : FileId}
    (hf : s.files f = none) (hname : s.entries LOCK_FILE_PATH = none) (mode : UInt32) :
    Acts (BlobPub blake3 hash) i s
        ((s.setFile f (.empty mode (some i))).addLink LOCK_FILE_PATH ⟨f, some i⟩) ∧
      Writing blake3 hash i store file P
        ((s.setFile f (.empty mode (some i))).addLink LOCK_FILE_PATH ⟨f, some i⟩) := by
  have hset : Acts (BlobPub blake3 hash) i s (s.setFile f (.empty mode (some i))) := by
    apply acts_setFile
    intro x hx
    rw [hf] at hx
    cases hx
  have hlink : Acts (BlobPub blake3 hash) i (s.setFile f (.empty mode (some i)))
      ((s.setFile f (.empty mode (some i))).addLink LOCK_FILE_PATH ⟨f, some i⟩) :=
    acts_addLink hname (Function.update_self ..) rfl
      fun digest h => absurd h (hblake3.lock_not_digest digest)
  refine ⟨hset.trans hlink, (hset.trans hlink).good hs.good, ?_, ?_⟩
  · intro digest l hl
    simp only [Fs.addLink, Function.update_of_ne (hblake3.lock_not_digest digest).symm] at hl
    exact hs.unpublished digest l hl
  · obtain ⟨f', offset, x, howns, hx⟩ := hs.owns
    have hne : f' ≠ f := by
      intro e
      subst e
      have := howns.file.symm.trans hf
      cases this
    refine ⟨f', offset, x, ⟨howns.dir, howns.table, ?_, howns.owner, ?_⟩, hx⟩
    · exact (Function.update_of_ne hne _ _).trans howns.file
    · intro h
      obtain ⟨name, l, hl, rfl⟩ := h
      by_cases hlock : name = LOCK_FILE_PATH
      · subst hlock
        simp only [Fs.addLink, Function.update_self, Option.some.injEq] at hl
        subst hl
        exact hne rfl
      · simp only [Fs.addLink, Function.update_of_ne hlock] at hl
        exact howns.unlinked ⟨name, l, hl, rfl⟩

/-- Taking the lock keeps the file, whether it succeeds or not. -/
theorem acquireSharedStoreLock_runs (hblake3 : blake3.Documented hash) {lockStore : Fd}
    (hs : Writing blake3 hash i store file P s) :
    Runs (storeKernel i) (BlobPub blake3 hash) i (acquireSharedStoreLock lockStore).run
      (fun _ t => Writing blake3 hash i store file P t) s := by
  have hK : IsStore i (storeKernel i) := fun _ _ _ _ h => h
  have hdone : ∀ {r : Except BackendError Fd} {t : Fs ι}, Writing blake3 hash i store file P t →
      Runs (storeKernel i) (BlobPub blake3 hash) i (.done r)
        (fun _ t => Writing blake3 hash i store file P t) t :=
    fun ht => Sat.return _ ht Writing.kept.stable fun _ h => h
  have hflock : ∀ {fd : Fd} {t : Fs ι}, Writing blake3 hash i store file P t →
      Runs (storeKernel i) (BlobPub blake3 hash) i (do
        attemptUntil .flock (.flock fd LOCK_SH)
        return fd : ExceptT BackendError (Prog StoreCalls) Fd).run
        (fun _ t => Writing blake3 hash i store file P t) t := by
    intro fd t ht
    refine runs_attempt hK (fun _ => rfl) _ ht Writing.kept.stable ?_ fun _ _ ht _ => hdone ht
    intro t _ _ ht u
    cases u
    exact ⟨Acts.refl i t, hdone ht⟩
  refine runs_attempt hK (fun _ => rfl) _ hs Writing.kept.stable ?_ fun _ _ ht _ => hdone ht
  intro t fd t' ht hk
  obtain ⟨_, hfresh, ⟨l, _, rfl⟩ | ⟨mode, f, _, hname, hf, rfl⟩⟩ := hk
  · have hfd := Writing.kept.fresh ht hfresh
    exact ⟨acts_openAs, hflock (Writing.kept.openAs _ _ _ ht hfd)⟩
  · have hfd := Writing.kept.fresh ht hfresh
    obtain ⟨hacts, hnew⟩ := ht.addLock hblake3 hf hname mode
    exact ⟨hacts.trans acts_openAs, hflock (Writing.kept.openAs _ _ _ hnew hfd)⟩

/-! ### Sealing and linking it -/

/-- A failure before the link leaves the store without an entry of this writer. -/
theorem unpublished_error {α : Type} {e : BackendError} {Q : α → Fs ι → Prop}
    (hs : Writing blake3 hash i store file P s) :
    Runs (storeKernel i) (BlobPub blake3 hash) i (.done (.error e)) (OrUnpublished blake3 i Q) s :=
  Sat.return _ hs.unpublished Unpublished.stable fun _ h => h

/-- The file is ready to be linked. -/
abbrev Sealed (contents : Bytes) : File ι → Nat → Prop := fun x _ =>
  x.contents = contents ∧
    (∃ generation : Nat, x.xattrs GENERATION_XATTR = some (Itoa.format generation)) ∧
    x.xattrs STORE_TYPE_XATTR = some (ascii "blob") ∧ x.mode = RUSR

/-- An attribute is set. -/
theorem Writing.fsetxattr {P' : File ι → Nat → Prop} {name value : Bytes}
    (hs : Writing blake3 hash i store file P s)
    (hdone : Done i s (.fsetxattr file name value) () s')
    (h : ∀ x offset, P x offset →
      P' { x with xattrs := Function.update x.xattrs name (some value) } offset) :
    Acts (BlobPub blake3 hash) i s s' ∧ Writing blake3 hash i store file P' s' := by
  obtain ⟨f', offset', x', htable, hfile, _, rfl⟩ := hdone
  apply hs.change
  intro f offset x howns hx
  obtain ⟨rfl, rfl, rfl⟩ := howns.unique htable hfile
  refine ⟨{ x' with xattrs := Function.update x'.xattrs name (some value) }, offset', rfl,
    h x' offset' hx, ?_⟩
  rw [openAs_self]
  exact htable

/-- The mode is set. -/
theorem Writing.fchmod {P' : File ι → Nat → Prop} {mode : UInt32}
    (hs : Writing blake3 hash i store file P s) (hdone : Done i s (.fchmod file mode) () s')
    (h : ∀ x offset, P x offset → P' { x with mode := mode } offset) :
    Acts (BlobPub blake3 hash) i s s' ∧ Writing blake3 hash i store file P' s' := by
  obtain ⟨f', offset', x', htable, hfile, rfl⟩ := hdone
  apply hs.change
  intro f offset x howns hx
  obtain ⟨rfl, rfl, rfl⟩ := howns.unique htable hfile
  refine ⟨{ x' with mode := mode }, offset', rfl, h x' offset' hx, ?_⟩
  rw [openAs_self]
  exact htable

theorem sealBlob_runs {contents : Bytes} {generation : Nat}
    (hs : Writing blake3 hash i store file (Holds contents) s) :
    Runs (storeKernel i) (BlobPub blake3 hash) i (sealBlob file generation).run
      (OrUnpublished blake3 i fun _ t => Writing blake3 hash i store file (Sealed contents) t)
      s := by
  have hK : IsStore i (storeKernel i) := fun _ _ _ _ h => h
  refine runs_attempt hK (fun _ => rfl) _ hs Writing.kept.stable ?_
    fun _ _ ht _ => unpublished_error ht
  intro t u t' ht hk
  cases u
  have hgeneration : Acts (BlobPub blake3 hash) i t t' ∧
      Writing blake3 hash i store file (fun x _ =>
        x.contents = contents ∧ x.xattrs GENERATION_XATTR = some (Itoa.format generation)) t' :=
    ht.fsetxattr hk fun x _ hx => ⟨hx, by simp⟩
  refine ⟨hgeneration.1, ?_⟩
  refine runs_attempt hK (fun _ => rfl) _ hgeneration.2 Writing.kept.stable ?_
    fun _ _ ht _ => unpublished_error ht
  intro t u t' ht hk
  cases u
  have htype : Acts (BlobPub blake3 hash) i t t' ∧ Writing blake3 hash i store file (fun x _ =>
      x.contents = contents ∧ x.xattrs GENERATION_XATTR = some (Itoa.format generation) ∧
        x.xattrs STORE_TYPE_XATTR = some (ascii "blob")) t' := by
    refine ht.fsetxattr hk fun x _ hx => ⟨hx.1, ?_, by simp⟩
    have hne : GENERATION_XATTR ≠ STORE_TYPE_XATTR := by decide
    simpa [Function.update_of_ne hne] using hx.2
  refine ⟨htype.1, ?_⟩
  refine runs_attempt hK (fun _ => rfl) _ htype.2 Writing.kept.stable ?_
    fun _ _ ht _ => unpublished_error ht
  intro t u t' ht hk
  cases u
  have hmode : Acts (BlobPub blake3 hash) i t t' ∧
      Writing blake3 hash i store file (Sealed contents) t' :=
    ht.fchmod hk fun x _ hx => ⟨hx.1, ⟨generation, hx.2.1⟩, hx.2.2, rfl⟩
  exact ⟨hmode.1, Sat.return _ hmode.2 Writing.kept.stable fun _ h => h⟩

omit [DecidableEq ι] in
/-- A name stays in the directory. -/
theorem entry_stable {name : Bytes} :
    Stable (Others (BlobPub blake3 hash) i) fun s : Fs ι => s.entries name ≠ none := by
  intro s s' hs hk
  obtain ⟨j, _, h⟩ := hk
  obtain ⟨l, hl⟩ := Option.ne_none_iff_exists'.mp hs
  rw [h.entries _ l hl]
  simp

omit [DecidableEq ι] in
theorem Finished.stable (accepted : Bytes) (r : Except BackendError Hash) :
    Stable (Others (BlobPub blake3 hash) i) (Finished (ι := ι) blake3 hash i accepted r) := by
  intro s s' hs h
  cases r with
  | error e => exact Unpublished.stable s s' hs h
  | ok digest => exact ⟨hs.1, entry_stable s s' hs.2 h⟩

/-- The link publishes the file under its digest, or finds the name taken. -/
theorem linkBlob_runs (hblake3 : blake3.Documented hash) {contents : Bytes}
    {handle : FdWriteHandle}
    (hs : Writing blake3 hash i handle.store handle.file (Sealed contents) s) :
    Runs (storeKernel i) (BlobPub blake3 hash) i (linkBlob blake3 handle (hash contents)).run
      (Finished blake3 hash i contents) s := by
  have hlinked : ∀ {t : Fs ι}, t.entries (blake3.toHex (hash contents)) ≠ none →
      Runs (storeKernel i) (BlobPub blake3 hash) i (.done (.ok (hash contents)))
        (Finished blake3 hash i contents) t := by
    intro t ht
    have hfinished : Finished blake3 hash i contents (.ok (hash contents)) t := ⟨rfl, ht⟩
    exact Sat.return _ hfinished (Finished.stable contents _) fun _ h => h
  unfold linkBlob
  cases hname : withCStr PATH_MAX (blake3.toHex (hash contents)) with
  | error e => exact unpublished_error hs
  | ok fileName =>
    obtain ⟨rfl, _⟩ := withCStr_eq_ok hname
    dsimp only
    rw [ExceptT.run_bind_lift]
    apply Sat.perform _ hs Writing.kept.stable
    intro t r t' ht hk
    cases r with
    | error e =>
      obtain ⟨hmay, rfl⟩ := hk
      refine ⟨Acts.refl i t', ?_⟩
      show Sat _ _ _ (if e = .EXIST then pure _ else throw _ :
        ExceptT BackendError (Prog StoreCalls) Hash).run _ _
      split
      · next hexist => exact hlinked (hmay hexist)
      · exact unpublished_error ht
    | ok u =>
      obtain ⟨f', offset', htable, _, hnone, rfl⟩ := hk
      obtain ⟨f, offset, x, howns, hx, hgeneration, htype, hmode⟩ := ht.owns
      obtain ⟨rfl, rfl⟩ := howns.same htable
      refine ⟨acts_addLink hnone howns.file howns.owner ?_, hlinked (by simp [Fs.addLink])⟩
      intro digest hdigest
      have hsame := hblake3.toHex_inj hdigest
      exact ⟨by rw [hx, hsame], hgeneration, htype, hmode⟩

/-- `finish` publishes the bytes that the handle accepted, or nothing. -/
theorem finish_runs (hblake3 : blake3.Documented hash) {accepted : Bytes}
    {handle : FdWriteHandle}
    (hs : Writing blake3 hash i handle.store handle.file (Accepted accepted) s) :
    Runs (storeKernel i) (BlobPub blake3 hash) i (handle.finish blake3).run
      (Finished blake3 hash i accepted) s := by
  have hK : IsStore i (storeKernel i) := fun _ _ _ _ h => h
  have hfail : ∀ {e : BackendError} {P : File ι → Nat → Prop} {t : Fs ι},
      Writing blake3 hash i handle.store handle.file P t →
      Runs (storeKernel i) (BlobPub blake3 hash) i (.done (.error e))
        (Finished blake3 hash i accepted) t :=
    fun ht => unpublished_error ht
  -- the seek
  refine runs_attempt hK (fun _ => rfl) _ hs Writing.kept.stable ?_ fun _ _ ht _ => hfail ht
  intro t _ t' ht hk
  obtain ⟨f', offset', htable, _, rfl⟩ := hk
  have hseek : Acts (BlobPub blake3 hash) i t (t.openAs i handle.file (.file f' 0)) ∧
      Writing blake3 hash i handle.store handle.file (Hashed accepted [])
        (t.openAs i handle.file (.file f' 0)) := by
    apply ht.change
    intro f offset x howns hx
    obtain ⟨rfl, rfl⟩ := howns.same htable
    exact ⟨x, 0, rfl, ⟨hx.1, by simp⟩, by rw [setFile_self howns.file]⟩
  refine ⟨hseek.1, ?_⟩
  -- the digest
  refine Sat.bindE (Sat.bind (((hblake3.updateReader _).runs hseek.2).mono fun r t ht => ?_))
  obtain ⟨ht, hdigest⟩ := ht
  cases r with
  | error e => exact Sat.return _ ht Writing.kept.stable fun _ ht => hfail ht
  | ok hasher =>
  have hfinalized : blake3.finalize hasher = hash accepted := hdigest hasher rfl
  apply Sat.return _ ht Writing.kept.stable
  intro t ht
  -- the lock and the generation
  refine Sat.bindE ((acquireSharedStoreLock_runs hblake3 ht).mono fun r t ht => ?_)
  cases r with
  | error e => exact hfail ht
  | ok lock =>
  refine Sat.bindE ((currentGeneration_runs hK Writing.kept ht).mono fun r t ht => ?_)
  cases r with
  | error e => exact hfail ht.1
  | ok generation =>
  -- the attributes, the mode and the link
  refine Sat.bindE ((sealBlob_runs ht.1).mono fun r t ht => ?_)
  cases r with
  | error e => exact Sat.return _ ht Unpublished.stable fun _ h => h
  | ok u =>
    rw [hfinalized]
    exact linkBlob_runs hblake3 ht

/-- A handle holds a new file. -/
theorem insertBlob_runs {inner : Fd} (hgood : Good (BlobPub blake3 hash) s)
    (hun : Unpublished blake3 i s)
    (hdir : s.table i inner = some .directory) :
    Runs (storeKernel i) (BlobPub blake3 hash) i (insertBlob inner).run
      (OrUnpublished blake3 i fun handle t =>
        Writing blake3 hash i handle.store handle.file (Accepted []) t) s := by
  have hK : IsStore i (storeKernel i) := fun _ _ _ _ h => h
  let Opened (fd : Fd) (t : Fs ι) : Prop :=
    Good (BlobPub blake3 hash) t ∧ Unpublished blake3 i t ∧ t.table i fd = some .directory
  have hst : ∀ fd, Stable (Others (BlobPub blake3 hash) i) (Opened fd) := fun fd t t' ht h =>
    ⟨Good.stable t t' ht.1 h, Unpublished.stable t t' ht.2.1 h, by rw [h.table]; exact ht.2.2⟩
  have hfail : ∀ {α : Type} {Q : α → Fs ι → Prop} {fd : Fd} {e : BackendError} {t : Fs ι},
      Opened fd t →
      Runs (storeKernel i) (BlobPub blake3 hash) i (.done (.error e))
        (OrUnpublished blake3 i Q) t :=
    fun ht => Sat.return _ ht.2.1 Unpublished.stable fun _ h => h
  refine runs_attempt hK (fun _ => rfl) (Opened inner) ⟨hgood, hun, hdir⟩ (hst inner) ?_
    fun _ _ ht _ => hfail ht
  intro t store _ ht hk
  obtain ⟨_, _, rfl⟩ := hk
  refine ⟨acts_openAs, ?_⟩
  refine runs_attempt hK (fun _ => rfl) (Opened store) ⟨ht.1, ht.2.1, openAs_table⟩ (hst store) ?_
    fun _ _ ht _ => hfail ht
  intro t file _ ht hk
  obtain ⟨_, hfresh, f, hf, rfl⟩ := hk
  obtain ⟨hacts, howns⟩ := Owns.new ht.1 ht.2.2 hfresh hf (RUSR ||| WUSR)
  refine ⟨hacts, ?_⟩
  have hnew : Writing blake3 hash i store file (Accepted []) _ :=
    ⟨hacts.good ht.1, ht.2.1, f, 0, _, howns, rfl, rfl⟩
  exact Sat.return _ hnew Writing.kept.stable fun _ h => h

theorem writer_runs (hblake3 : blake3.Documented hash) {inner : Fd} (job : Job)
    (hgood : Good (BlobPub blake3 hash) s)
    (hun : Unpublished blake3 i s) (hdir : s.table i inner = some .directory) :
    Runs (storeKernel i) (BlobPub blake3 hash) i (writer blake3 inner job)
      (Reported blake3 hash i) s := by
  refine Sat.bind ((insertBlob_runs hgood hun hdir).mono fun r t ht => ?_)
  cases r with
  | error e => exact Sat.return _ ht Unpublished.stable fun _ h => h
  | ok handle =>
    refine Sat.bind ((writes_runs handle job.calls [] ht).mono fun accepted t ht => ?_)
    show Sat _ _ _ (if job.finishes then _ else _) _ _
    split
    · refine Sat.bind ((finish_runs hblake3 ht).mono fun r t ht => ?_)
      exact Sat.return _ ht (Finished.stable accepted r) fun _ h => h
    · exact Sat.return _ ht.unpublished Unpublished.stable fun _ h => h

end Writer

/-! ## All of them -/

section Runs
variable [Itoa] {ι : Type} [DecidableEq ι] {blake3 : Blake3} {hash : Bytes → Hash}
  {inner : ι → Fd} {job : ι → Job} {s : Fs ι} {c c' : Config StoreCalls (Fs ι) WriterOutcome ι}

theorem inserting_sat (hblake3 : blake3.Documented hash) (hs : Ready blake3 hash inner s) :
    AllSat storeKernel (Others (BlobPub blake3 hash)) (Acts (BlobPub blake3 hash))
      (Reported blake3 hash) (inserting blake3 inner job s) := by
  intro i p hp
  cases hp
  exact writer_runs hblake3 (job i) hs.good (hs.unpublished i) (hs.dir i)

/-- Entries that are there stay, with their files as they are. -/
def EntriesKept (s s' : Fs ι) : Prop :=
  ∀ name l, s.entries name = some l → s'.entries name = some l ∧
    ∀ x, s.files l.file = some x → s'.files l.file = some x

omit [Itoa] [DecidableEq ι] in
theorem Acts.entriesKept {Pub : Bytes → File ι → Prop} {i : ι} {s s' : Fs ι}
    (h : Acts Pub i s s') : EntriesKept s s' := fun name l hl =>
  ⟨h.entries name l hl, fun x hx => h.files _ x hx (.inr ⟨name, l, hl, rfl⟩)⟩

theorem inserting_kept
    (hsat : AllSat storeKernel (Others (BlobPub blake3 hash)) (Acts (BlobPub blake3 hash))
      (Reported blake3 hash) c) (hr : Reach storeKernel reap c c') :
    EntriesKept c.shared c'.shared ∧
      (Good (BlobPub blake3 hash) c.shared → Good (BlobPub blake3 hash) c'.shared) := by
  have hreap := fun i j hij (s s' : Fs ι) h => acts_others i j hij s s'
    (acts_reap h : Acts (BlobPub blake3 hash) i s s')
  constructor
  · refine Reach.related (H := EntriesKept) (fun s name l hl => ⟨hl, fun _ h => h⟩) ?_ acts_others
      hreap (fun _ _ _ h => h.entriesKept)
      (fun i s s' h => (acts_reap h : Acts (BlobPub blake3 hash) i s s').entriesKept) hsat hr
    intro s s' s'' h h' name l hl
    have h₁ := h name l hl
    have h₂ := h' name l h₁.1
    exact ⟨h₂.1, fun x hx => h₂.2 x (h₁.2 x hx)⟩
  · exact Reach.related
      (H := fun s s' => Good (BlobPub blake3 hash) s → Good (BlobPub blake3 hash) s')
      (fun _ h => h) (fun _ _ _ h h' hs => h' (h hs)) acts_others hreap (fun _ _ _ h => h.good)
      (fun _ _ _ h => (acts_reap h).good) hsat hr

/-- In every state of every run of any number of writers on one store, however their calls
are interleaved and split, fail, or are cut off by a kill:
* an entry named by a digest links to a file that has this digest, its generation and store
  type, and the read-only mode;
* a `finish` that returned `Ok` returned the digest of the bytes that the handle accepted,
  and the store has an entry of that name;
* a writer whose `finish` returned `Err`, whose `insert_blob` did, or that dropped its handle
  has added no entry named by a digest;
* two writers that finished with the same bytes got the same entry;
* whatever happens next, every entry stays and so does its file. -/
theorem inserted (hblake3 : blake3.Documented hash) (hs : Ready blake3 hash inner s)
    (hr : Reach storeKernel reap (inserting blake3 inner job s) c) :
    (∀ (digest : Hash) l, c.shared.entries (blake3.toHex digest) = some l →
      ∃ x, c.shared.files l.file = some x ∧ Blob hash digest x) ∧
    (∀ i accepted digest, c.procs i = some (.done (.finished accepted (.ok digest))) →
      digest = hash accepted ∧ ∃ l, c.shared.entries (blake3.toHex digest) = some l) ∧
    (∀ i o, c.procs i = some (.done o) → (∀ accepted digest, o ≠ .finished accepted (.ok digest)) →
      ∀ (digest : Hash) l, c.shared.entries (blake3.toHex digest) = some l → l.linker ≠ some i) ∧
    (∀ i j accepted digest digest',
      c.procs i = some (.done (.finished accepted (.ok digest))) →
      c.procs j = some (.done (.finished accepted (.ok digest'))) → digest = digest') ∧
    (∀ c', Reach storeKernel reap c c' → EntriesKept c.shared c'.shared) := by
  have hsat₀ : AllSat storeKernel (Others (BlobPub blake3 hash)) (Acts (BlobPub blake3 hash))
      (Reported blake3 hash) (inserting blake3 inner job s) := inserting_sat hblake3 hs
  have hsat := Reach.sat acts_others (fun i j hij s s' h => acts_others i j hij s s' (acts_reap h))
    hsat₀ hr
  have hgood := (inserting_kept hsat₀ hr).2 hs.good
  have hfinished : ∀ i accepted digest, c.procs i = some (.done (.finished accepted (.ok digest))) →
      digest = hash accepted ∧ ∃ l, c.shared.entries (blake3.toHex digest) = some l := by
    intro i accepted digest hdone
    obtain ⟨hdigest, hentry⟩ : Finished blake3 hash i accepted (.ok digest) c.shared :=
      hsat.returned hdone
    exact ⟨hdigest, Option.ne_none_iff_exists'.mp hentry⟩
  refine ⟨?_, hfinished, ?_, ?_, fun c' hr' => (inserting_kept hsat hr').1⟩
  · intro digest l hl
    obtain ⟨x, hx, hpub⟩ := hgood _ l hl
    exact ⟨x, hx, hpub digest rfl⟩
  · intro i o hdone hne
    have hreported : Reported blake3 hash i o c.shared := hsat.returned hdone
    match o with
    | .failed e => exact hreported
    | .dropped accepted => exact hreported
    | .finished accepted (.error e) => exact hreported
    | .finished accepted (.ok digest) => exact absurd rfl (hne accepted digest)
  · intro i j accepted digest digest' hi hj
    rw [(hfinished i accepted digest hi).1, (hfinished j accepted digest' hj).1]

end Runs

/-! ## Two writers of the same bytes -/

section Twice

/-- The digest of `abc`, and for other bytes any. -/
def abcHash (bytes : Bytes) : Hash :=
  if bytes = ascii "abc" then
    ⟨[100, 55, 179, 172, 56, 70, 81, 51, 255, 182, 59, 117, 39, 58, 141, 181, 72, 197, 88, 70, 93,
      121, 219, 3, 253, 53, 156, 108, 213, 189, 157, 133], rfl⟩
  else ⟨List.replicate 32 0, rfl⟩

/-- A store as `open` leaves it, open in two processes. -/
def emptyStore : Fs (Fin 2) where
  directory := true
  creator := none
  entries name := if name = GENERATION_FILE_PATH then some ⟨0, none⟩ else none
  files f := if f = 0 then some ⟨ascii "0", RUSR, fun _ => none, none⟩ else none
  table _ fd := if fd = 0 then some .directory else none

theorem emptyStore_entries {name : Bytes} {l : Link (Fin 2)}
    (h : emptyStore.entries name = some l) : name = GENERATION_FILE_PATH ∧ l = ⟨0, none⟩ := by
  simp only [emptyStore] at h
  split at h
  · next hname => exact ⟨hname, (Option.some.inj h).symm⟩
  · cases h

theorem emptyStore_ready [Itoa] {blake3 : Blake3} {hash : Bytes → Hash}
    (hblake3 : blake3.Documented hash) : Ready blake3 hash (fun _ => 0) emptyStore where
  good name l hl := by
    obtain ⟨rfl, rfl⟩ := emptyStore_entries hl
    refine ⟨_, rfl, fun digest h => ?_⟩
    have hlen := congrArg List.length h
    rw [hblake3.toHex_length] at hlen
    exact absurd hlen (by decide)
  unpublished i digest l hl := by
    obtain ⟨_, rfl⟩ := emptyStore_entries hl
    simp
  dir _ := rfl

/-- Two writers of the same bytes, in pieces: the second finds the entry of the first. -/
def abcJob : Job where
  calls := [.write (ascii "ab"), .flush, .writeVectored [ascii "c", []]]
  finishes := true

/-- The libraries in that run. -/
def abcBlake3 : Blake3 := Blake3.reference abcHash 4

local instance abcItoa : Itoa := Itoa.decimal

theorem inserted_twice :
    ∃ c, Reach storeKernel reap
        (inserting abcBlake3 (fun _ => 0) (fun _ : Fin 2 => abcJob) emptyStore) c ∧
      c.procs 0 = some (.done (.finished (ascii "abc") (.ok (abcHash (ascii "abc"))))) ∧
      c.procs 1 = some (.done (.finished (ascii "abc") (.ok (abcHash (ascii "abc"))))) ∧
      ∃ l x, c.shared.entries (abcBlake3.toHex (abcHash (ascii "abc"))) = some l ∧
        l.linker = some 0 ∧ c.shared.files l.file = some x ∧
        Blob abcHash (abcHash (ascii "abc")) x := by
  have hrun : ((run (storeImpl (0 : Fin 2)) 40 (writer abcBlake3 0 abcJob) emptyStore).bind fun x =>
      (run (storeImpl (1 : Fin 2)) 40 (writer abcBlake3 0 abcJob) x.2).map fun y =>
        (x.1, y.1, (y.2.entries (abcBlake3.toHex (abcHash (ascii "abc")))).map (·.linker))) =
      some (.finished (ascii "abc") (.ok (abcHash (ascii "abc"))),
        .finished (ascii "abc") (.ok (abcHash (ascii "abc"))), some (some 0)) := by decide +kernel
  obtain ⟨⟨o, s₁⟩, hfirst, hrun⟩ := Option.bind_eq_some_iff.mp hrun
  obtain ⟨⟨o', s₂⟩, hsecond, heq⟩ := Option.map_eq_some_iff.mp hrun
  simp only [Prod.mk.injEq] at heq
  obtain ⟨rfl, rfl, hlinker⟩ := heq
  obtain ⟨l, hl, hlinker⟩ := Option.map_eq_some_iff.mp hlinker
  have hreach₁ : Reach storeKernel reap
      (inserting abcBlake3 (fun _ => 0) (fun _ : Fin 2 => abcJob) emptyStore) _ :=
    Reach.of_steps (K := storeKernel) (i := (0 : Fin 2))
      (run_returns (storeImpl_storeKernel 0) 40 hfirst) rfl
  have hreach := hreach₁.trans (Reach.of_steps (K := storeKernel) (i := (1 : Fin 2))
    (run_returns (storeImpl_storeKernel 1) 40 hsecond) rfl)
  have hblake3 : abcBlake3.Documented abcHash := Blake3.reference_documented abcHash 4
  obtain ⟨x, hx, hblob⟩ := (inserted hblake3 (emptyStore_ready hblake3) hreach).1 _ l hl
  exact ⟨_, hreach, rfl, rfl, l, x, hl, hlinker, hx, hblob⟩

end Twice

end LayerCake.Store
