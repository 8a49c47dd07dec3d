import Mathlib.Logic.Function.Basic
import LayerCake.Effects.System
import LayerCake.Meowix.Util

/-
  The directory of a store and the calls the Linux backend makes on it
  (`store/src/linux/mod.rs`).

  Correspondence (Rust ↔ Lean):
    `BackendError`                       ↔ `BackendError`
    `store_lock_file`                    ↔ `storeLockFile`
    `acquire_shared_store_lock`          ↔ `acquireSharedStoreLock`
    `current_generation`                 ↔ `currentGeneration`
    `u64::from_ascii_bytes`              ↔ `u64FromAsciiBytes`
  A descriptor is an index into the table of its process. `openat2` is one call for
  each of its uses: the store directory, an unnamed file (`O_TMPFILE`), a regular file.
  Closing descriptors is left out: no call that is modelled depends on it.

  Any call may fail, and then it does nothing; reads and writes move any number of bytes
  they can. `File.owner` and `Link.linker` are history: who made a file or a link.

  What is proved: `Acts` is what the calls of one process do to what the others see, and
  what they may rely on — entries only appear, linked files and the files of others do
  not change — and `Acts.good`: a property of every entry that is checked where the entry
  is added holds of every entry for good.
-/

namespace LayerCake.Store

open Effects Meowix

/-! ## Values -/

/-- `Mode::RUSR`. -/
def RUSR : UInt32 := 0o400

/-- `Mode::WUSR`. -/
def WUSR : UInt32 := 0o200

/-- `Mode::RWXU`. -/
def RWXU : UInt32 := 0o700

/-- `linux::LOCK_SH`. -/
def LOCK_SH : UInt32 := 1

/-- `LOCK_FILE_PATH`. -/
def LOCK_FILE_PATH : Bytes := ascii ".lock"

/-- `GENERATION_FILE_PATH`. -/
def GENERATION_FILE_PATH : Bytes := ascii ".generation"

/-- `IntErrorKind`, as far as parsing an unsigned integer reports it. -/
inductive IntErrorKind where
  | empty | invalidDigit | posOverflow
  deriving DecidableEq, Repr

/-- `BackendError`; `NotADirectory` is not raised here. -/
inductive BackendError where
  | syscall (error : SyscallError)
  | cStrBufferTooSmall
  | fromBytesWithNul
  | parseIntError (kind : IntErrorKind)
  | partialTransfer (error : PartialTransfer)
  | io (error : Errno)
  deriving DecidableEq, Repr

/-- `From<WithCStrError> for BackendError`. -/
def BackendError.ofWithCStr : WithCStrError → BackendError
  | .cStrBufferTooSmall => .cStrBufferTooSmall
  | .fromBytesWithNulError => .fromBytesWithNul

/-- The digits of a `u64` from the left, once they amount to `value`. -/
def parseDigits (value : Nat) : Bytes → Except IntErrorKind Nat
  | [] => .ok value
  | c :: cs => match digitValue c with
    | none => .error .invalidDigit
    | some d =>
      if value * 10 + d < 2 ^ 64 then parseDigits (value * 10 + d) cs else .error .posOverflow

/-- `u64::from_ascii_bytes`. -/
def u64FromAsciiBytes : Bytes → Except IntErrorKind Nat
  | [] => .error .empty
  | [43] => .error .invalidDigit -- a sign alone
  | 43 :: cs => parseDigits 0 cs
  | cs => parseDigits 0 cs

/-! ## The calls -/

abbrev Fd := Nat

inductive StoreOp where
  | openStore (path : Bytes) (resolve : UInt64)
  | mkdirat (path : Bytes) (mode : UInt32)
  | fcntlDupfd (fd : Fd)
  | openTmpfile (dir : Fd) (mode : UInt32)
  | openRegular (dir : Fd) (name : Bytes) (create : Option UInt32)
  | read (fd : Fd) (len : Nat)
  | write (fd : Fd) (bytes : Bytes)
  | writev (fd : Fd) (bufs : List Bytes)
  | lseek (fd : Fd) (offset : Nat)
  | flock (fd : Fd) (operation : UInt32)
  | fsetxattr (fd : Fd) (name value : Bytes)
  | fchmod (fd : Fd) (mode : UInt32)
  | linkat (fd dir : Fd) (name : Bytes)

/-- What a call returns when it does not fail. -/
@[reducible] def StoreOp.Answer : StoreOp → Type
  | .openStore _ _ | .fcntlDupfd _ | .openTmpfile _ _ | .openRegular _ _ _ => Fd
  | .read _ _ => Bytes
  | .write _ _ | .writev _ _ | .lseek _ _ => Nat
  | _ => Unit

@[reducible] def StoreCalls : Interface where
  Op := StoreOp
  Res op := Except Errno op.Answer

/-- A call of the backend, and its `?`. -/
def attempt (syscall : Syscall) (op : StoreOp) : ExceptT BackendError (Prog StoreCalls) op.Answer :=
  tryCall .syscall syscall (perform (I := StoreCalls) op)

/-- The same under `retry_on_interrupt!`. -/
def attemptUntil (syscall : Syscall) (op : StoreOp) :
    ExceptT BackendError (Prog StoreCalls) op.Answer :=
  tryCall .syscall syscall (performUntil (I := StoreCalls) op interrupted)

/-! ## The code shared by the operations -/

/-- `store_lock_file`. -/
def storeLockFile (store : Fd) : ExceptT BackendError (Prog StoreCalls) Fd :=
  attemptUntil .openat2 (.openRegular store LOCK_FILE_PATH (some RUSR))

/-- `acquire_shared_store_lock`. -/
def acquireSharedStoreLock (store : Fd) : ExceptT BackendError (Prog StoreCalls) Fd := do
  let lockFile ← storeLockFile store
  attemptUntil .flock (.flock lockFile LOCK_SH)
  return lockFile

/-- What `current_generation` makes of the bytes it read. -/
def parseGeneration : Bytes × Option PartialTransfer → Except BackendError Nat
  | (buffer, none) => (u64FromAsciiBytes buffer).mapError .parseIntError
  | (buffer, some ⟨transferred, none⟩) =>
    (u64FromAsciiBytes (buffer.take transferred)).mapError .parseIntError
  | (_, some ⟨_, some error⟩) => .error (.syscall error)

/-- `current_generation`. -/
def currentGeneration (store : Fd) : ExceptT BackendError (Prog StoreCalls) Nat := do
  let generationFd ← attemptUntil .openat2 (.openRegular store GENERATION_FILE_PATH none)
  let transfer ← ExceptT.lift (readUntilFull
    (fun len => performUntil (I := StoreCalls) (.read generationFd len) interrupted)
    (unsignedDecimalDigitsUpperBound 8))
  ExceptT.mk (return parseGeneration transfer)

/-! ## What the calls do -/

abbrev FileId := Nat

/-- A regular file, and the process that made it. -/
structure File (ι : Type) where
  contents : Bytes
  mode : UInt32
  xattrs : Bytes → Option Bytes
  owner : Option ι

/-- What a descriptor is open on. -/
inductive Desc where
  | directory
  | file (id : FileId) (offset : Nat)
  deriving DecidableEq

/-- A name in the store directory, and the process that added it. -/
structure Link (ι : Type) where
  file : FileId
  linker : Option ι

/-- The store's place in the file system: whether the directory is there and which process
made it, its entries, the files, and the descriptors of each process. -/
structure Fs (ι : Type) where
  directory : Bool
  creator : Option ι
  entries : Bytes → Option (Link ι)
  files : FileId → Option (File ι)
  table : ι → Fd → Option Desc

section Kernel
variable {ι : Type} [DecidableEq ι]

/-- An empty file. -/
def File.empty (mode : UInt32) (owner : Option ι) : File ι :=
  { contents := [], mode, xattrs := fun _ => none, owner }

/-- The file with `bytes` at `offset`. -/
def File.write (x : File ι) (offset : Nat) (bytes : Bytes) : File ι :=
  { x with contents := x.contents.take offset ++ bytes ++ x.contents.drop (offset + bytes.length) }

def Fs.openAs (s : Fs ι) (i : ι) (fd : Fd) (d : Desc) : Fs ι :=
  { s with table := Function.update s.table i (Function.update (s.table i) fd (some d)) }

def Fs.setFile (s : Fs ι) (f : FileId) (x : File ι) : Fs ι :=
  { s with files := Function.update s.files f (some x) }

def Fs.addLink (s : Fs ι) (name : Bytes) (l : Link ι) : Fs ι :=
  { s with entries := Function.update s.entries name (some l) }

/-- What a call of process `i` does when it does not fail. -/
def Done (i : ι) (s : Fs ι) : (op : StoreOp) → op.Answer → Fs ι → Prop
  | .openStore _ _, fd, s' =>
    s.directory = true ∧ s.table i fd = none ∧ s' = s.openAs i fd .directory
  | .mkdirat _ _, _, s' =>
    s.directory = false ∧ s' = { s with directory := true, creator := some i }
  | .fcntlDupfd fd, fd', s' =>
    s.table i fd = some .directory ∧ s.table i fd' = none ∧ s' = s.openAs i fd' .directory
  | .openTmpfile dir mode, fd, s' =>
    s.table i dir = some .directory ∧ s.table i fd = none ∧
      ∃ f, s.files f = none ∧ s' = (s.setFile f (.empty mode (some i))).openAs i fd (.file f 0)
  | .openRegular dir name create, fd, s' =>
    s.table i dir = some .directory ∧ s.table i fd = none ∧
      ((∃ l, s.entries name = some l ∧ s' = s.openAs i fd (.file l.file 0)) ∨
        ∃ mode f, create = some mode ∧ s.entries name = none ∧ s.files f = none ∧
          s' = ((s.setFile f (.empty mode (some i))).addLink name ⟨f, some i⟩).openAs i fd
            (.file f 0))
  | .read fd len, bytes, s' =>
    ∃ f offset x, s.table i fd = some (.file f offset) ∧ s.files f = some x ∧
      bytes <+: x.contents.drop offset ∧ bytes.length ≤ len ∧
      (bytes = [] → 0 < len → x.contents.length ≤ offset) ∧
      s' = s.openAs i fd (.file f (offset + bytes.length))
  | .write fd bytes, n, s' =>
    ∃ f offset x, s.table i fd = some (.file f offset) ∧ s.files f = some x ∧ n ≤ bytes.length ∧
      s' = (s.setFile f (x.write offset (bytes.take n))).openAs i fd (.file f (offset + n))
  | .writev fd bufs, n, s' =>
    ∃ f offset x, s.table i fd = some (.file f offset) ∧ s.files f = some x ∧
      n ≤ bufs.flatten.length ∧
      s' = (s.setFile f (x.write offset (bufs.flatten.take n))).openAs i fd (.file f (offset + n))
  | .lseek fd offset, n, s' =>
    ∃ f old, s.table i fd = some (.file f old) ∧ n = offset ∧ s' = s.openAs i fd (.file f offset)
  | .flock _ _, _, s' => s' = s
  | .fsetxattr fd name value, _, s' =>
    ∃ f offset x, s.table i fd = some (.file f offset) ∧ s.files f = some x ∧
      x.xattrs name = none ∧
      s' = s.setFile f { x with xattrs := Function.update x.xattrs name (some value) }
  | .fchmod fd mode, _, s' =>
    ∃ f offset x, s.table i fd = some (.file f offset) ∧ s.files f = some x ∧
      s' = s.setFile f { x with mode := mode }
  | .linkat fd dir name, _, s' =>
    ∃ f offset, s.table i fd = some (.file f offset) ∧ s.table i dir = some .directory ∧
      s.entries name = none ∧ s' = s.addLink name ⟨f, some i⟩

/-- The errors that tell something about the directory. -/
def MayFail (s : Fs ι) : StoreOp → Errno → Prop
  | .openRegular _ name _, e => e = .NOENT → s.entries name = none
  | .linkat _ _ name, e => e = .EXIST → s.entries name ≠ none
  | _, _ => True

/-- The calls of process `i`: one that fails does nothing. -/
def storeKernel (i : ι) : Kernel StoreCalls (Fs ι) := fun s op r s' =>
  match r with
  | .ok a => Done i s op a s'
  | .error e => MayFail s op e ∧ s' = s

/-- The death of a process closes its descriptors. -/
def reap (i : ι) (s s' : Fs ι) : Prop :=
  s' = { s with table := Function.update s.table i fun _ => none }

end Kernel

/-! ## What others see of a call -/

section Acts
variable {ι : Type}

/-- A name of the file is in the directory. -/
def Fs.Linked (s : Fs ι) (f : FileId) : Prop := ∃ name l, s.entries name = some l ∧ l.file = f

variable (Pub : Bytes → File ι → Prop)

/-- The actions of process `i`: entries are only added, to files of its own that may be
published under their name, and the files of others and linked files do not change. -/
structure Acts (i : ι) (s s' : Fs ι) : Prop where
  directory : s.directory = true → s'.directory = true ∧ s'.creator = s.creator
  creator : s'.creator = s.creator ∨ s'.creator = some i
  table : ∀ j, j ≠ i → s'.table j = s.table j
  entries : ∀ name l, s.entries name = some l → s'.entries name = some l
  added : ∀ name l, s'.entries name = some l → s.entries name = some l ∨
    (l.linker = some i ∧ ∃ x, s'.files l.file = some x ∧ x.owner = some i ∧ Pub name x)
  files : ∀ f x, s.files f = some x → x.owner ≠ some i ∨ s.Linked f → s'.files f = some x

/-- What process `i` relies on. -/
def Others (i : ι) (s s' : Fs ι) : Prop := ∃ j, i ≠ j ∧ Acts Pub j s s'

/-- Every entry is published properly. -/
def Good (s : Fs ι) : Prop :=
  ∀ name l, s.entries name = some l → ∃ x, s.files l.file = some x ∧ Pub name x

variable {Pub} {i : ι} {s s' s'' : Fs ι}

theorem Acts.linked (h : Acts Pub i s s') {f : FileId} (hf : s.Linked f) : s'.Linked f := by
  obtain ⟨name, l, hl, rfl⟩ := hf
  exact ⟨name, l, h.entries name l hl, rfl⟩

theorem Acts.good (h : Acts Pub i s s') (hs : Good Pub s) : Good Pub s' := by
  intro name l hl
  rcases h.added name l hl with hl | ⟨_, x, hx, _, hpub⟩
  · obtain ⟨x, hx, hpub⟩ := hs name l hl
    exact ⟨x, h.files _ x hx (.inr ⟨name, l, hl, rfl⟩), hpub⟩
  · exact ⟨x, hx, hpub⟩

theorem Acts.refl (i : ι) (s : Fs ι) : Acts Pub i s s where
  directory h := ⟨h, rfl⟩
  creator := .inl rfl
  table _ _ := rfl
  entries _ _ h := h
  added _ _ h := .inl h
  files _ _ h _ := h

theorem Acts.trans (h : Acts Pub i s s') (h' : Acts Pub i s' s'') : Acts Pub i s s'' where
  directory hd :=
    have h₁ := h.directory hd
    have h₂ := h'.directory h₁.1
    ⟨h₂.1, h₂.2.trans h₁.2⟩
  creator := by
    rcases h'.creator with hc | hc
    · rw [hc]
      exact h.creator
    · exact .inr hc
  table j hj := (h'.table j hj).trans (h.table j hj)
  entries name l hl := h'.entries name l (h.entries name l hl)
  added name l hl := by
    rcases h'.added name l hl with hl | hnew
    · rcases h.added name l hl with hl' | ⟨hlinker, x, hx, hpub⟩
      · exact .inl hl'
      · exact .inr ⟨hlinker, x, h'.files _ x hx (.inr ⟨name, l, hl, rfl⟩), hpub⟩
    · exact .inr hnew
  files f x hx hf := h'.files f x (h.files f x hx hf) (hf.imp id h.linked)

theorem acts_others (i j : ι) (hij : i ≠ j) (s s' : Fs ι) (h : Acts Pub i s s') :
    Others Pub j s s' :=
  ⟨i, hij.symm, h⟩

/-- A new directory. -/
theorem acts_mkdirat (h : s.directory = false) :
    Acts Pub i s { s with directory := true, creator := some i } where
  directory hd := by rw [h] at hd; cases hd
  creator := .inr rfl
  table _ _ := rfl
  entries _ _ h := h
  added _ _ h := .inl h
  files _ _ h _ := h

/-- A file that is new, or the process's own and not linked. -/
theorem acts_setFile {f : FileId} {x' : File ι}
    (h : ∀ x, s.files f = some x → x.owner = some i ∧ ¬ s.Linked f) :
    Acts Pub i s (s.setFile f x') where
  directory h := ⟨h, rfl⟩
  creator := .inl rfl
  table _ _ := rfl
  entries _ _ h := h
  added _ _ h := .inl h
  files f' x hx hf := by
    have hne : f' ≠ f := by
      intro e
      subst e
      obtain ⟨howner, hlinked⟩ := h x hx
      rcases hf with hf | hf
      · exact hf howner
      · exact hlinked hf
    exact (Function.update_of_ne hne _ _).trans hx

/-- A new name for a file of the process. -/
theorem acts_addLink {name : Bytes} {f : FileId} {x : File ι} (hname : s.entries name = none)
    (hx : s.files f = some x) (howner : x.owner = some i) (hpub : Pub name x) :
    Acts Pub i s (s.addLink name ⟨f, some i⟩) where
  directory h := ⟨h, rfl⟩
  creator := .inl rfl
  table _ _ := rfl
  entries name' l hl := by
    have hne : name' ≠ name := by
      intro e
      subst e
      rw [hname] at hl
      cases hl
    exact (Function.update_of_ne hne _ _).trans hl
  added name' l hl := by
    by_cases hne : name' = name
    · subst hne
      simp only [Fs.addLink, Function.update_self, Option.some.injEq] at hl
      subst hl
      exact .inr ⟨rfl, x, hx, howner, hpub⟩
    · simp only [Fs.addLink, Function.update_of_ne hne] at hl
      exact .inl hl
  files _ _ h _ := h

variable [DecidableEq ι]

theorem acts_openAs {fd : Fd} {d : Desc} : Acts Pub i s (s.openAs i fd d) where
  directory h := ⟨h, rfl⟩
  creator := .inl rfl
  table _ hj := Function.update_of_ne hj _ _
  entries _ _ h := h
  added _ _ h := .inl h
  files _ _ h _ := h

theorem acts_reap (h : reap i s s') : Acts Pub i s s' := by
  cases h
  exact {
    directory := fun h => ⟨h, rfl⟩
    creator := .inl rfl
    table := fun _ hj => Function.update_of_ne hj _ _
    entries := fun _ _ h => h
    added := fun _ _ h => .inl h
    files := fun _ _ h _ => h }

end Acts

/-! ## Specifications of the calls -/

section Specs
variable {ι : Type} [DecidableEq ι] {Pub : Bytes → File ι → Prop} {i : ι} {s s' : Fs ι}

/-- From `s`, process `i` running `p` against any number of others acts as it may and ends
in `Q`. -/
abbrev Runs (K : Kernel StoreCalls (Fs ι)) (Pub : Bytes → File ι → Prop) (i : ι) {α : Type}
    (p : Prog StoreCalls α) (Q : α → Fs ι → Prop) (s : Fs ι) : Prop :=
  Sat K (Others Pub i) (Acts Pub i) p Q s

/-- The calls of `K` are calls of process `i`. -/
def IsStore (i : ι) (K : Kernel StoreCalls (Fs ι)) : Prop :=
  ∀ s op r s', K s op r s' → storeKernel i s op r s'

variable {K : Kernel StoreCalls (Fs ι)} {α : Type}

/-- The rule of a call and its `?`, under `retry_on_interrupt!` or not. -/
theorem runs_attempt (hK : IsStore i K) {syscall : Syscall} {op : StoreOp}
    {again : Except Errno op.Answer → Bool} (hagain : ∀ a, again (.ok a) = false)
    {f : op.Answer → ExceptT BackendError (Prog StoreCalls) α}
    {Q : Except BackendError α → Fs ι → Prop} (J : Fs ι → Prop) (hJ : J s)
    (hst : Stable (Others Pub i) J)
    (hok : ∀ t a t', J t → K t op (.ok a) t' → Acts Pub i t t' ∧ Runs K Pub i (f a).run Q t')
    (herr : ∀ t e, J t → MayFail t op e →
      Runs K Pub i (.done (.error (.syscall ⟨syscall, e⟩))) Q t) :
    Runs K Pub i (tryCall .syscall syscall (.call op again .done) >>= f).run Q s := by
  refine Sat.callUntil J hJ hst ?_ ?_
  · -- only a failed call is made again, and it changed nothing
    intro t r t' ht hk hr
    cases r with
    | ok a =>
      rw [hagain] at hr
      cases hr
    | error e =>
      obtain ⟨_, rfl⟩ := hK _ _ _ _ hk
      exact ⟨Acts.refl i t', ht⟩
  · intro t r t' ht hk _
    cases r with
    | ok a => exact hok t a t' ht hk
    | error e =>
      obtain ⟨hmay, rfl⟩ := hK _ _ _ _ hk
      exact ⟨Acts.refl i t', herr t' e ht hmay⟩

/-! ### Reading the generation -/

/-- What a process knows and keeps while it opens and reads descriptors other than those
in `keep`. -/
structure Kept (Pub : Bytes → File ι → Prop) (i : ι) (keep : List Fd) (J : Fs ι → Prop) :
    Prop where
  stable : Stable (Others Pub i) J
  opened : ∀ s fd, J s → fd ∈ keep → s.table i fd ≠ none
  openAs : ∀ s fd d, J s → fd ∉ keep → J (s.openAs i fd d)

variable {keep : List Fd} {J : Fs ι → Prop}

theorem Kept.fresh (hJ : Kept Pub i keep J) (hs : J s) {fd : Fd} (hfd : s.table i fd = none) :
    fd ∉ keep :=
  fun h => hJ.opened s fd hs h hfd

/-- The reads of `read_until_full` change no more than the descriptor. -/
theorem readUntilFullFrom_runs (hK : IsStore i K) (hJ : Kept Pub i keep J) {fd : Fd}
    (hfd : fd ∉ keep) (N n : Nat) (buf : Bytes) (hn : N - buf.length = n) (hs : J s) :
    Runs K Pub i
      (readUntilFullFrom (fun len => performUntil (I := StoreCalls) (.read fd len) interrupted) N
        buf)
      (fun r t => J t ∧ ∀ e, r.2 = some e → ∃ n e', e = ⟨n, some ⟨.read, e'⟩⟩) s := by
  induction n using Nat.strongRecOn generalizing buf s with
  | ind n ih =>
    have hdone : ∀ {t : Fs ι} {buf : Bytes} {e : Option PartialTransfer}, J t →
        (∀ e', e = some e' → ∃ n e'', e' = ⟨n, some ⟨.read, e''⟩⟩) →
        Runs K Pub i (.done (buf, e))
          (fun r t => J t ∧ ∀ e, r.2 = some e → ∃ n e', e = ⟨n, some ⟨.read, e'⟩⟩) t :=
      fun ht he => Sat.return J ht hJ.stable fun _ h => ⟨h, he⟩
    rw [readUntilFullFrom]
    split
    · refine Sat.callUntil J hs hJ.stable ?_ ?_
      · intro t r t' ht hk hr
        cases r with
        | ok a => cases hr
        | error e =>
          obtain ⟨_, rfl⟩ := hK _ _ _ _ hk
          exact ⟨Acts.refl i t', ht⟩
      · intro t r t' ht hk _
        cases r with
        | error e =>
          obtain ⟨_, rfl⟩ := hK _ _ _ _ hk
          exact ⟨Acts.refl i t', hdone ht fun _ h => by cases h; exact ⟨_, e, rfl⟩⟩
        | ok bytes =>
          obtain ⟨f, offset, x, _, _, _, _, _, rfl⟩ := hK _ _ _ _ hk
          refine ⟨acts_openAs, ?_⟩
          have ht' := hJ.openAs t fd (.file f (offset + bytes.length)) ht hfd
          show Sat _ _ _ (if _h : bytes.length = 0 then _ else _) _ _
          split
          · exact hdone ht' fun _ h => by cases h
          · exact ih (N - (buf ++ bytes).length) (by rw [List.length_append]; omega) _ rfl ht'
    · exact hdone hs fun _ h => by cases h

/-- The errors of reading and parsing are not those of opening. -/
theorem parseGeneration_ne {r : Bytes × Option PartialTransfer}
    (h : ∀ e, r.2 = some e → ∃ n e', e = ⟨n, some ⟨.read, e'⟩⟩) {e : Errno} :
    parseGeneration r ≠ .error (.syscall ⟨.openat2, e⟩) := by
  have hparse : ∀ bytes, (u64FromAsciiBytes bytes).mapError BackendError.parseIntError ≠
      .error (.syscall ⟨.openat2, e⟩) := by
    intro bytes
    cases u64FromAsciiBytes bytes with
    | ok n => simp [Except.mapError]
    | error kind => simp [Except.mapError]
  obtain ⟨buffer, _ | error⟩ := r
  · exact hparse buffer
  · obtain ⟨n, e', rfl⟩ := h error rfl
    simp [parseGeneration]

/-- `current_generation` changes nothing a process keeps, and where it reports that the
generation is not there, it is not. -/
theorem currentGeneration_runs (hK : IsStore i K) (hJ : Kept Pub i keep J) {store : Fd}
    (hs : J s) :
    Runs K Pub i (currentGeneration store).run
      (fun r t => J t ∧ (r = .error (.syscall ⟨.openat2, .NOENT⟩) →
        ∃ t', J t' ∧ t'.entries GENERATION_FILE_PATH = none)) s := by
  refine runs_attempt hK (fun _ => rfl) J hs hJ.stable ?_ ?_
  · intro t fd t' ht hk
    obtain ⟨_, hfresh, ⟨l, _, rfl⟩ | ⟨_, _, h, _⟩⟩ := hK _ _ _ _ hk
    · refine ⟨acts_openAs, ?_⟩
      have hfd := hJ.fresh ht hfresh
      have ht' := hJ.openAs t fd (.file l.file 0) ht hfd
      rw [ExceptT.run_bind_lift]
      refine Sat.bind ((readUntilFullFrom_runs hK hJ hfd _ _ [] rfl ht').mono fun r t h => ?_)
      refine Sat.return J h.1 hJ.stable fun t' ht' => ⟨ht', fun herr => ?_⟩
      exact absurd herr (parseGeneration_ne h.2)
    · cases h
  · intro t e ht hmay
    refine Sat.return J ht hJ.stable fun t' ht' => ⟨ht', ?_⟩
    -- `ENOENT` says that there was nothing when the call was made
    intro h
    cases h
    exact ⟨t, ht, hmay rfl⟩

/-! ### A file that only one process holds -/

/-- Process `i` has the directory open as `dir` and, as `fd`, a file of its own that has no
name. -/
structure Owns (i : ι) (dir fd : Fd) (f : FileId) (offset : Nat) (x : File ι) (s : Fs ι) :
    Prop where
  dir : s.table i dir = some .directory
  table : s.table i fd = some (.file f offset)
  file : s.files f = some x
  owner : x.owner = some i
  unlinked : ¬ s.Linked f

variable {dir fd : Fd} {f : FileId} {offset : Nat} {x : File ι}

omit [DecidableEq ι] in
theorem Others.unlinked (h : Others Pub i s s') (hx : s.files f = some x)
    (howner : x.owner = some i) (hf : ¬ s.Linked f) : s'.files f = some x ∧ ¬ s'.Linked f := by
  obtain ⟨j, hij, h⟩ := h
  -- the others neither change a file of another owner nor link it
  have hne : x.owner ≠ some j := by
    rw [howner]
    exact fun he => hij (Option.some.inj he)
  have hx' := h.files f x hx (.inl hne)
  refine ⟨hx', ?_⟩
  intro h
  obtain ⟨name, l, hl, rfl⟩ := h
  rcases h.added name l hl with hl | ⟨_, x', hx₂, howner', _⟩
  · exact hf ⟨name, l, hl, rfl⟩
  · rw [hx'] at hx₂
    cases hx₂
    exact hne howner'

omit [DecidableEq ι] in
theorem Others.table (h : Others Pub i s s') : s'.table i = s.table i := by
  obtain ⟨j, hij, h⟩ := h
  exact h.table i hij

omit [DecidableEq ι] in
theorem Owns.stable : Stable (Others Pub i) (Owns i dir fd f offset x) := by
  intro s s' hs h
  obtain ⟨hx, hf⟩ := h.unlinked hs.file hs.owner hs.unlinked
  exact ⟨by rw [h.table]; exact hs.dir, by rw [h.table]; exact hs.table, hx, hs.owner, hf⟩

theorem openAs_table_ne {fd' : Fd} {d : Desc} (h : fd ≠ fd') :
    (s.openAs i fd' d).table i fd = s.table i fd := by
  simp [Fs.openAs, Function.update_self, Function.update_of_ne h]

theorem openAs_table {d : Desc} : (s.openAs i fd d).table i fd = some d := by
  simp [Fs.openAs]

theorem Owns.openAs (hs : Owns i dir fd f offset x s) {fd' : Fd} {d : Desc}
    (h : fd' ∉ [dir, fd]) : Owns i dir fd f offset x (s.openAs i fd' d) := by
  simp only [List.mem_cons, List.not_mem_nil, or_false, not_or] at h
  exact ⟨(openAs_table_ne (Ne.symm h.1)).trans hs.dir,
    (openAs_table_ne (Ne.symm h.2)).trans hs.table, hs.file, hs.owner, hs.unlinked⟩

theorem Owns.kept : Kept Pub i [dir, fd] (Owns i dir fd f offset x) where
  stable := Owns.stable
  opened s fd' hs h := by
    simp only [List.mem_cons, List.not_mem_nil, or_false] at h
    rcases h with rfl | rfl
    · rw [hs.dir]
      simp
    · rw [hs.table]
      simp
  openAs _ _ _ hs h := hs.openAs h

omit [DecidableEq ι] in
theorem Good.stable : Stable (Others Pub i) (Good Pub) := by
  intro s s' hs hk
  obtain ⟨j, _, h⟩ := hk
  exact h.good hs

/-- An unnamed file that was just made. -/
theorem Owns.new (hgood : Good Pub s) (hdir : s.table i dir = some .directory)
    (hfd : s.table i fd = none) (hf : s.files f = none) (mode : UInt32) :
    Acts Pub i s ((s.setFile f (.empty mode (some i))).openAs i fd (.file f 0)) ∧
      Owns i dir fd f 0 (.empty mode (some i))
        ((s.setFile f (.empty mode (some i))).openAs i fd (.file f 0)) := by
  have hacts : Acts Pub i s (s.setFile f (.empty mode (some i))) := by
    apply acts_setFile
    intro x hx
    rw [hf] at hx
    cases hx
  have hne : dir ≠ fd := by
    intro e
    subst e
    rw [hfd] at hdir
    cases hdir
  refine ⟨hacts.trans acts_openAs, (openAs_table_ne hne).trans hdir, openAs_table,
    Function.update_self .., rfl, ?_⟩
  intro h
  obtain ⟨name, l, hl, rfl⟩ := h
  obtain ⟨x, hx, _⟩ := hgood name l hl
  rw [hf] at hx
  cases hx

/-- The descriptor moves. -/
theorem Owns.seek (hs : Owns i dir fd f offset x s) (offset' : Nat) :
    Owns i dir fd f offset' x (s.openAs i fd (.file f offset')) := by
  have hne : dir ≠ fd := by
    intro e
    subst e
    have := hs.dir.symm.trans hs.table
    cases this
  exact ⟨(openAs_table_ne hne).trans hs.dir, openAs_table, hs.file, hs.owner, hs.unlinked⟩

omit [DecidableEq ι] in
/-- The file changes. -/
theorem Owns.setFile (hs : Owns i dir fd f offset x s) {x' : File ι} (howner : x'.owner = x.owner) :
    Acts Pub i s (s.setFile f x') ∧ Owns i dir fd f offset x' (s.setFile f x') := by
  refine ⟨acts_setFile ?_, hs.dir, hs.table, Function.update_self .., howner.trans hs.owner,
    hs.unlinked⟩
  intro y hy
  rw [hs.file] at hy
  cases hy
  exact ⟨hs.owner, hs.unlinked⟩

/-- A write to the file, at the offset. -/
theorem Owns.write (hs : Owns i dir fd f offset x s) (bytes : Bytes) (n : Nat) :
    Acts Pub i s ((s.setFile f (x.write offset bytes)).openAs i fd (.file f (offset + n))) ∧
      Owns i dir fd f (offset + n) (x.write offset bytes)
        ((s.setFile f (x.write offset bytes)).openAs i fd (.file f (offset + n))) := by
  have hset : Acts Pub i s (s.setFile f (x.write offset bytes)) ∧ _ := hs.setFile rfl
  exact ⟨hset.1.trans acts_openAs, hset.2.seek _⟩

omit [DecidableEq ι] in
/-- The descriptor refers to this file only. -/
theorem Owns.same (hs : Owns i dir fd f offset x s) {f' : FileId} {offset' : Nat}
    (htable : s.table i fd = some (.file f' offset')) : f' = f ∧ offset' = offset := by
  have h := hs.table.symm.trans htable
  simp only [Option.some.injEq, Desc.file.injEq] at h
  exact ⟨h.1.symm, h.2.symm⟩

omit [DecidableEq ι] in
theorem Owns.unique (hs : Owns i dir fd f offset x s) {f' : FileId} {offset' : Nat} {x' : File ι}
    (htable : s.table i fd = some (.file f' offset')) (hfile : s.files f' = some x') :
    f' = f ∧ offset' = offset ∧ x' = x := by
  obtain ⟨rfl, rfl⟩ := hs.same htable
  have h := hs.file.symm.trans hfile
  cases h
  exact ⟨rfl, rfl, rfl⟩

omit [DecidableEq ι] in
/-- A write at the end appends. -/
theorem File.write_end (x : File ι) (bytes : Bytes) :
    (x.write x.contents.length bytes).contents = x.contents ++ bytes := by
  simp [File.write]

end Specs
/-! ## A kernel on which nothing goes wrong -/

section Impl
variable {ι : Type} [DecidableEq ι]

/-- A number below 64 that is not in use. -/
def fresh {α : Type} (used : Nat → Option α) : Option Nat :=
  (List.range 64).find? fun n => (used n).isNone

theorem fresh_eq {α : Type} {used : Nat → Option α} {n : Nat} (h : fresh used = some n) :
    used n = none := by
  have h := List.find?_some h
  simpa using h

/-- The descriptor's file. -/
def fileOf (s : Fs ι) (i : ι) (fd : Fd) : Option (FileId × Nat × File ι) :=
  match s.table i fd with
  | some (.file f offset) => (s.files f).map fun x => (f, offset, x)
  | _ => none

omit [DecidableEq ι] in
theorem fileOf_eq {s : Fs ι} {i : ι} {fd : Fd} {f : FileId} {offset : Nat} {x : File ι}
    (h : fileOf s i fd = some (f, offset, x)) :
    s.table i fd = some (.file f offset) ∧ s.files f = some x := by
  unfold fileOf at h
  split at h
  · next f' offset' htable =>
    obtain ⟨x', hx, heq⟩ := Option.map_eq_some_iff.mp h
    cases heq
    exact ⟨htable, hx⟩
  · cases h

/-- A kernel whose calls succeed where they can, and move all the bytes they can. -/
def storeImpl (i : ι) : Impl StoreCalls (Fs ι)
  | s, .openStore _ _ =>
    match s.directory, fresh (s.table i) with
    | true, some fd => (.ok fd, s.openAs i fd .directory)
    | _, _ => (.error .NOENT, s)
  | s, .mkdirat _ _ =>
    if s.directory = false then (.ok (), { s with directory := true, creator := some i })
    else (.error .INVAL, s)
  | s, .fcntlDupfd fd =>
    match s.table i fd, fresh (s.table i) with
    | some .directory, some fd' => (.ok fd', s.openAs i fd' .directory)
    | _, _ => (.error .INVAL, s)
  | s, .openTmpfile dir mode =>
    match s.table i dir, fresh (s.table i), fresh s.files with
    | some .directory, some fd, some f =>
      (.ok fd, (s.setFile f (.empty mode (some i))).openAs i fd (.file f 0))
    | _, _, _ => (.error .INVAL, s)
  | s, .openRegular dir name create =>
    match s.table i dir, fresh (s.table i), s.entries name, create, fresh s.files with
    | some .directory, some fd, some l, _, _ => (.ok fd, s.openAs i fd (.file l.file 0))
    | some .directory, some fd, none, some mode, some f =>
      (.ok fd,
        ((s.setFile f (.empty mode (some i))).addLink name ⟨f, some i⟩).openAs i fd (.file f 0))
    | _, _, _, _, _ => (.error .INVAL, s)
  | s, .read fd len =>
    match fileOf s i fd with
    | some (f, offset, x) =>
      (.ok ((x.contents.drop offset).take len),
        s.openAs i fd (.file f (offset + ((x.contents.drop offset).take len).length)))
    | none => (.error .INVAL, s)
  | s, .write fd bytes =>
    match fileOf s i fd with
    | some (f, offset, x) =>
      (.ok bytes.length,
        (s.setFile f (x.write offset (bytes.take bytes.length))).openAs i fd
          (.file f (offset + bytes.length)))
    | none => (.error .INVAL, s)
  | s, .writev fd bufs =>
    match fileOf s i fd with
    | some (f, offset, x) =>
      (.ok bufs.flatten.length,
        (s.setFile f (x.write offset (bufs.flatten.take bufs.flatten.length))).openAs i fd
          (.file f (offset + bufs.flatten.length)))
    | none => (.error .INVAL, s)
  | s, .lseek fd offset =>
    match fileOf s i fd with
    | some (f, _, _) => (.ok offset, s.openAs i fd (.file f offset))
    | none => (.error .INVAL, s)
  | s, .flock _ _ => (.ok (), s)
  | s, .fsetxattr fd name value =>
    match fileOf s i fd with
    | some (f, _, x) =>
      if x.xattrs name = none then
        (.ok (), s.setFile f { x with xattrs := Function.update x.xattrs name (some value) })
      else (.error .INVAL, s)
    | none => (.error .INVAL, s)
  | s, .fchmod fd mode =>
    match fileOf s i fd with
    | some (f, _, x) => (.ok (), s.setFile f { x with mode := mode })
    | none => (.error .INVAL, s)
  | s, .linkat fd dir name =>
    match fileOf s i fd, s.table i dir, s.entries name with
    | some (f, _, _), some .directory, none => (.ok (), s.addLink name ⟨f, some i⟩)
    | some _, some .directory, some _ => (.error .EXIST, s)
    | _, _, _ => (.error .INVAL, s)

omit [DecidableEq ι] in
theorem INVAL_mayFail (s : Fs ι) (op : StoreOp) : MayFail s op .INVAL := by
  cases op <;> first | trivial | (intro h; exact absurd h (by decide))

theorem storeImpl_storeKernel (i : ι) (s : Fs ι) (op : StoreOp) :
    storeKernel i s op (storeImpl i s op).1 (storeImpl i s op).2 := by
  have hinval : ∀ op : StoreOp, storeKernel i s op (.error .INVAL) s :=
    fun op => ⟨INVAL_mayFail s op, rfl⟩
  cases op with
  | openStore path resolve =>
    simp only [storeImpl]
    split
    · next hdir hfd => exact ⟨hdir, fresh_eq hfd, rfl⟩
    · exact ⟨trivial, rfl⟩
  | mkdirat path mode =>
    simp only [storeImpl]
    split
    · next h => exact ⟨h, rfl⟩
    · exact hinval _
  | fcntlDupfd fd =>
    simp only [storeImpl]
    split
    · next hdir hfd => exact ⟨hdir, fresh_eq hfd, rfl⟩
    · exact hinval _
  | openTmpfile dir mode =>
    simp only [storeImpl]
    split
    · next hdir hfd hf => exact ⟨hdir, fresh_eq hfd, _, fresh_eq hf, rfl⟩
    · exact hinval _
  | openRegular dir name create =>
    simp only [storeImpl]
    split
    · next hdir hfd hl => exact ⟨hdir, fresh_eq hfd, .inl ⟨_, hl, rfl⟩⟩
    · next hdir hfd hl hf => exact ⟨hdir, fresh_eq hfd, .inr ⟨_, _, rfl, hl, fresh_eq hf, rfl⟩⟩
    · exact hinval _
  | read fd len =>
    simp only [storeImpl]
    split
    · next f offset x h =>
      obtain ⟨htable, hfile⟩ := fileOf_eq h
      refine ⟨f, offset, x, htable, hfile, List.take_prefix _ _, List.length_take_le _ _, ?_, rfl⟩
      intro hnil hlen
      have := congrArg List.length hnil
      simp only [List.length_take, List.length_drop, List.length_nil] at this
      omega
    · exact hinval _
  | write fd bytes =>
    simp only [storeImpl]
    split
    · next f offset x h =>
      obtain ⟨htable, hfile⟩ := fileOf_eq h
      exact ⟨f, offset, x, htable, hfile, Nat.le_refl _, rfl⟩
    · exact hinval _
  | writev fd bufs =>
    simp only [storeImpl]
    split
    · next f offset x h =>
      obtain ⟨htable, hfile⟩ := fileOf_eq h
      exact ⟨f, offset, x, htable, hfile, Nat.le_refl _, rfl⟩
    · exact hinval _
  | lseek fd offset =>
    simp only [storeImpl]
    split
    · next f old x h => exact ⟨f, old, (fileOf_eq h).1, rfl, rfl⟩
    · exact hinval _
  | flock fd operation => exact rfl
  | fsetxattr fd name value =>
    simp only [storeImpl]
    split
    · next f offset x h =>
      obtain ⟨htable, hfile⟩ := fileOf_eq h
      split
      · next hattr => exact ⟨f, offset, x, htable, hfile, hattr, rfl⟩
      · exact hinval _
    · exact hinval _
  | fchmod fd mode =>
    simp only [storeImpl]
    split
    · next f offset x h =>
      obtain ⟨htable, hfile⟩ := fileOf_eq h
      exact ⟨f, offset, x, htable, hfile, rfl⟩
    · exact hinval _
  | linkat fd dir name =>
    simp only [storeImpl]
    split
    · next f offset x h hdir hname => exact ⟨f, offset, (fileOf_eq h).1, hdir, hname, rfl⟩
    · next hdir l hname => exact ⟨fun _ => by rw [hname]; simp, rfl⟩
    · exact hinval _

end Impl
end LayerCake.Store
