import LayerCake.Meowix.Linux
import LayerCake.Store.Directory

/-
  Opening a store (`store/src/linux/mod.rs`), by any number of processes at once.

  Correspondence (Rust ↔ Lean):
    `DirectoryBackend::open_at_internal` ↔ `openAtInternal` (its creating part is
                                            `createStore`); the `open*` functions are
                                            its cases, with their `RESOLVE_FLAGS`
  Every process opens the same path, which is absent at first.

  What is proved: an open that finds the directory of another process returns it as it
  is, so it may be without its generation for good (`opened_without_generation`). When no
  process looks the path up in that state, every open that succeeds returns a directory
  with a complete generation, and reading it does not fail with `ENOENT`
  (`opened_with_generation`).
-/

namespace LayerCake.Store

open Effects Meowix

/-- `write_all` to a descriptor, and its `?`. -/
def writeAllTo (fd : Fd) (bytes : Bytes) : ExceptT BackendError (Prog StoreCalls) Unit :=
  ExceptT.mk do
    match ← writeAll (fun segment =>
      performUntil (I := StoreCalls) (.write fd segment) interrupted) bytes with
    | .ok () => return .ok ()
    | .error e => return .error (.partialTransfer e)

/-- The part of `open_at_internal` that creates the store. -/
def createStore (resolve : UInt64) (path : Bytes) : ExceptT BackendError (Prog StoreCalls) Fd := do
  attempt .mkdirat (.mkdirat path RWXU)
  let fd ← attemptUntil .openat2 (.openStore path resolve)
  let generationFd ← attemptUntil .openat2 (.openTmpfile fd RUSR)
  writeAllTo generationFd (ascii "0")
  attempt .linkat (.linkat generationFd fd GENERATION_FILE_PATH)
  return fd

/-- `open_at_internal`. -/
def openAtInternal (resolveFlags : UInt64) (path : Bytes) :
    ExceptT BackendError (Prog StoreCalls) Fd := do
  let resolve := Linux.RESOLVE_NO_MAGICLINKS.toUInt64 ||| resolveFlags
  match withCStr PATH_MAX path with
  | .error e => throw (.ofWithCStr e)
  | .ok path =>
    match ← ExceptT.lift (performUntil (I := StoreCalls) (.openStore path resolve) interrupted) with
    | .ok fd => return fd
    | .error e =>
      if e = .NOENT then createStore resolve path else throw (.syscall ⟨.openat2, e⟩)

/-- What a process makes of the store. -/
inductive OpenOutcome where
  | failed (error : BackendError)
  | opened (store : Fd)
  | read (store : Fd) (generation : Except BackendError Nat)
  deriving DecidableEq

/-- A process that opens the store and may go on to read its generation. -/
def opener (resolveFlags : UInt64) (path : Bytes) (reads : Bool) : Prog StoreCalls OpenOutcome := do
  match ← (openAtInternal resolveFlags path).run with
  | .error e => return .failed e
  | .ok store =>
    if reads then
      let generation ← (currentGeneration store).run
      return .read store generation
    else return .opened store

section Runs
variable {ι : Type} [DecidableEq ι]

/-- The store is not there, and nobody has anything open. -/
def absent : Fs ι where
  directory := false
  creator := none
  entries _ := none
  files _ := none
  table _ _ := none

/-- Every process is about to open the store. -/
def opening (resolveFlags : ι → UInt64) (path : Bytes) (reads : ι → Bool) :
    Config StoreCalls (Fs ι) OpenOutcome ι where
  shared := absent
  procs i := some (opener (resolveFlags i) path (reads i))

/-- The generation file is in the directory, with all of its contents. -/
def Complete (s : Fs ι) : Prop :=
  ∃ l x, s.entries GENERATION_FILE_PATH = some l ∧ s.files l.file = some x ∧ x.contents = ascii "0"

/-- What the outcome of process `i` is to guarantee. -/
def Initialised (i : ι) : OpenOutcome → Fs ι → Prop
  | .failed _, _ => True
  | .opened store, s => s.table i store = some .directory ∧ Complete s
  | .read store generation, s => s.table i store = some .directory ∧ Complete s ∧
      generation ≠ .error (.syscall ⟨.openat2, .NOENT⟩)

/-- The calls of a process that looks the store up only where it does not exist, where it
made the directory itself, or where the generation is in it. -/
def lookupKernel (i : ι) : Kernel StoreCalls (Fs ι) := fun s op r s' =>
  storeKernel i s op r s' ∧ ∀ path resolve, op = .openStore path resolve →
    s.directory = true → s.creator ≠ some i → s.entries GENERATION_FILE_PATH ≠ none

/-- The only entry that is published is the generation, complete. -/
def OpenPub (name : Bytes) (x : File ι) : Prop :=
  name = GENERATION_FILE_PATH → x.contents = ascii "0"

theorem lookupKernel_isStore (i : ι) : IsStore i (lookupKernel i) := fun _ _ _ _ h => h.1

/-! ## One process -/

/-- The process has the directory open, and the generation is in it. -/
structure HasGeneration (i : ι) (fd : Fd) (s : Fs ι) : Prop where
  dir : s.table i fd = some .directory
  generation : s.entries GENERATION_FILE_PATH ≠ none

variable {i : ι} {s : Fs ι}

omit [DecidableEq ι] in
theorem generation_stable {Pub : Bytes → File ι → Prop} {s' : Fs ι} (h : Others Pub i s s')
    (hs : s.entries GENERATION_FILE_PATH ≠ none) : s'.entries GENERATION_FILE_PATH ≠ none := by
  obtain ⟨j, _, h⟩ := h
  obtain ⟨l, hl⟩ := Option.ne_none_iff_exists'.mp hs
  rw [h.entries _ l hl]
  simp

theorem HasGeneration.kept {fd : Fd} : Kept OpenPub i [fd] (HasGeneration i fd) where
  stable s s' hs h := ⟨by rw [h.table]; exact hs.dir, generation_stable h hs.generation⟩
  opened s fd' hs h := by
    rw [List.mem_singleton.mp h, hs.dir]
    simp
  openAs s fd' d hs h := by
    rw [List.mem_singleton] at h
    exact ⟨(openAs_table_ne (Ne.symm h)).trans hs.dir, hs.generation⟩

/-- An error promises nothing. -/
theorem runs_error {ε α : Type} {e : ε} {P : α → Fs ι → Prop} :
    Runs (lookupKernel i) OpenPub i (.done (.error e))
      (fun (r : Except ε α) t => ∀ a, r = .ok a → P a t) s :=
  Sat.return (fun _ => True) trivial (fun _ _ _ _ => trivial) fun _ _ _ h => by cases h

/-- The process's file, once `n` bytes of `bytes` are in it. -/
def Written (i : ι) (dir fd : Fd) (bytes : Bytes) (n : Nat) (s : Fs ι) : Prop :=
  ∃ f x, Owns i dir fd f n x s ∧ n ≤ bytes.length ∧ x.contents = bytes.take n

omit [DecidableEq ι] in
theorem Written.stable {dir fd : Fd} {bytes : Bytes} {n : Nat} :
    Stable (Others OpenPub i) (Written i dir fd bytes n) := by
  intro s s' hk h
  obtain ⟨f, x, howns, hx⟩ := hk
  exact ⟨f, x, howns.stable _ _ h, hx⟩

/-- A write of some of the rest. -/
theorem Written.write {dir fd : Fd} {bytes : Bytes} {n k : Nat} {s' : Fs ι}
    (hs : Written i dir fd bytes n s) (hdone : Done i s (.write fd (bytes.drop n)) k s') :
    Acts OpenPub i s s' ∧ Written i dir fd bytes (n + k) s' := by
  obtain ⟨f, x, howns, hn, hx⟩ := hs
  obtain ⟨f', n', x', htable, hfile, hk, rfl⟩ := hdone
  obtain ⟨rfl, rfl, rfl⟩ := howns.unique htable hfile
  have hwrite : Acts OpenPub i s _ ∧ _ := howns.write ((bytes.drop n').take k) k
  obtain ⟨hacts, hnew⟩ := hwrite
  refine ⟨hacts, f', _, hnew, ?_, ?_⟩
  · have hk : k ≤ bytes.length - n' := by simpa using hk
    omega
  · have hlen : x'.contents.length = n' := by
      rw [hx, List.length_take]
      omega
    have hend := x'.write_end ((bytes.drop n').take k)
    rw [hlen, hx] at hend
    rw [hend, List.take_add]

theorem writeUntilStalledFrom_runs {dir fd : Fd} (bytes : Bytes) (m n : Nat)
    (hm : bytes.length - n = m) (hs : Written i dir fd bytes n s) :
    Runs (lookupKernel i) OpenPub i
      (writeUntilStalledFrom (fun segment =>
        performUntil (I := StoreCalls) (.write fd segment) interrupted) bytes n)
      (fun r t => ∀ k, r = .ok k → Written i dir fd bytes k t) s := by
  induction m using Nat.strongRecOn generalizing n s with
  | ind m ih =>
    have hdone : ∀ {k : Nat} {t : Fs ι}, Written i dir fd bytes k t →
        Runs (lookupKernel i) OpenPub i (.done (.ok k))
          (fun r t => ∀ k, r = (.ok k : Except PartialTransfer Nat) → Written i dir fd bytes k t)
          t :=
      fun ht => Sat.return _ ht Written.stable fun _ ht' _ he => by cases he; exact ht'
    rw [writeUntilStalledFrom]
    split
    · refine Sat.callUntil (Written i dir fd bytes n) hs Written.stable ?_ ?_
      · intro t r t' ht hk hr
        cases r with
        | ok a => cases hr
        | error e =>
          obtain ⟨⟨_, rfl⟩, _⟩ := hk
          exact ⟨Acts.refl i t', ht⟩
      · intro t r t' ht hk _
        change Except Errno Nat at r
        cases r with
        | error e =>
          obtain ⟨⟨_, rfl⟩, _⟩ := hk
          exact ⟨Acts.refl i t', runs_error⟩
        | ok k =>
          obtain ⟨hacts, hnew⟩ := ht.write hk.1
          refine ⟨hacts, ?_⟩
          show Sat _ _ _ (if _h : k = 0 then _ else _) _ _
          split
          · next h0 =>
            rw [h0] at hnew
            exact hdone hnew
          · exact ih (bytes.length - (n + k)) (by omega) (n + k) rfl hnew
    · exact hdone hs

/-- When `write_all` succeeds, all of the bytes are in the file. -/
theorem writeAll_runs {dir fd : Fd} {bytes : Bytes} (hs : Written i dir fd bytes 0 s) :
    Runs (lookupKernel i) OpenPub i
      (writeAll (fun segment =>
        performUntil (I := StoreCalls) (.write fd segment) interrupted) bytes)
      (fun r t => ∀ u, r = .ok u → Written i dir fd bytes bytes.length t) s := by
  refine Sat.bind ((writeUntilStalledFrom_runs bytes _ 0 rfl hs).mono fun r t ht => ?_)
  cases r with
  | error e => exact runs_error
  | ok k =>
    have hk := ht k rfl
    show Sat _ _ _ (if k < bytes.length then _ else _) _ _
    split
    · exact runs_error
    · next hlt =>
      have hall : k = bytes.length := by
        obtain ⟨_, _, _, hle, _⟩ := hk
        omega
      subst hall
      exact Sat.return _ hk Written.stable fun t ht _ _ => ht

theorem writeAllTo_runs {dir fd : Fd} {bytes : Bytes} (hs : Written i dir fd bytes 0 s) :
    Runs (lookupKernel i) OpenPub i (writeAllTo fd bytes).run
      (fun r t => ∀ u, r = .ok u → Written i dir fd bytes bytes.length t) s := by
  refine Sat.bind ((writeAll_runs hs).mono fun r t ht => ?_)
  cases r with
  | error e => exact runs_error
  | ok u => exact Sat.return _ (ht u rfl) Written.stable fun t ht _ _ => ht

/-- The process made the directory. -/
structure Made (i : ι) (s : Fs ι) : Prop where
  good : Good OpenPub s
  directory : s.directory = true
  creator : s.creator = some i

/-- The process has not made it. -/
structure Looking (i : ι) (s : Fs ι) : Prop where
  good : Good OpenPub s
  creator : s.creator ≠ some i

/-- The process has the directory open. -/
structure Opened (i : ι) (fd : Fd) (s : Fs ι) : Prop where
  good : Good OpenPub s
  dir : s.table i fd = some .directory

omit [DecidableEq ι] in
theorem Made.stable : Stable (Others OpenPub i) (Made i) := by
  intro s s' hs hk
  obtain ⟨j, _, h⟩ := hk
  obtain ⟨hd, hc⟩ := h.directory hs.directory
  exact ⟨h.good hs.good, hd, hc.trans hs.creator⟩

omit [DecidableEq ι] in
theorem Looking.stable : Stable (Others OpenPub i) (Looking i) := by
  intro s s' hs hk
  obtain ⟨j, hij, h⟩ := hk
  refine ⟨h.good hs.good, ?_⟩
  rcases h.creator with hc | hc
  · rw [hc]
    exact hs.creator
  · rw [hc]
    exact fun he => hij (Option.some.inj he).symm

omit [DecidableEq ι] in
theorem Opened.stable {fd : Fd} : Stable (Others OpenPub i) (Opened i fd) := by
  intro s s' hs h
  exact ⟨Good.stable s s' hs.good h, by rw [h.table]; exact hs.dir⟩

/-- A process that creates the store returns it with the generation in it. -/
theorem createStore_runs (resolve : UInt64) (path : Bytes) (hs : Looking i s) :
    Runs (lookupKernel i) OpenPub i (createStore resolve path).run
      (fun r t => ∀ fd, r = .ok fd → HasGeneration i fd t) s := by
  have hK := lookupKernel_isStore i
  -- `mkdirat`
  refine runs_attempt hK (fun _ => rfl) _ hs Looking.stable ?_ fun _ _ _ _ => runs_error
  intro t u _ ht hk
  cases u
  obtain ⟨⟨habsent, rfl⟩, _⟩ := hk
  refine ⟨acts_mkdirat habsent, ?_⟩
  -- the directory
  refine runs_attempt hK (fun _ => rfl) (Made i) ⟨ht.good, rfl, rfl⟩ Made.stable ?_
    fun _ _ _ _ => runs_error
  intro t dir _ ht hk
  obtain ⟨⟨_, _, rfl⟩, _⟩ := hk
  refine ⟨acts_openAs, ?_⟩
  -- the unnamed file
  refine runs_attempt hK (fun _ => rfl) (Opened i dir) ⟨acts_openAs.good ht.good, openAs_table⟩
    Opened.stable ?_ fun _ _ _ _ => runs_error
  intro t fd _ ht hk
  obtain ⟨⟨_, hfresh, f, hf, rfl⟩, _⟩ := hk
  obtain ⟨hacts, howns⟩ := Owns.new ht.good ht.dir hfresh hf RUSR
  refine ⟨hacts, ?_⟩
  -- its contents
  refine Sat.bindE ((writeAllTo_runs ⟨f, _, howns, Nat.zero_le _, rfl⟩).mono fun r t ht => ?_)
  cases r with
  | error e => exact runs_error
  | ok u =>
  -- its name
  refine runs_attempt hK (fun _ => rfl) _ (ht u rfl) Written.stable ?_ fun _ _ _ _ => runs_error
  intro t u _ hk h
  cases u
  obtain ⟨f, x, howns, _, hx⟩ := hk
  obtain ⟨⟨f', n, htable, _, hname, rfl⟩, _⟩ := h
  obtain ⟨rfl, _⟩ := howns.same htable
  rw [List.take_length] at hx
  refine ⟨acts_addLink hname howns.file howns.owner fun _ => hx, ?_⟩
  have hhas : HasGeneration i dir (t.addLink GENERATION_FILE_PATH ⟨f', some i⟩) :=
    ⟨howns.dir, by simp [Fs.addLink]⟩
  exact Sat.return _ hhas HasGeneration.kept.stable fun t ht fd h => by cases h; exact ht

/-- An open that succeeds returns a directory with the generation in it. -/
theorem openAtInternal_runs (resolveFlags : UInt64) (path : Bytes) (hs : Looking i s) :
    Runs (lookupKernel i) OpenPub i (openAtInternal resolveFlags path).run
      (fun r t => ∀ fd, r = .ok fd → HasGeneration i fd t) s := by
  unfold openAtInternal
  cases withCStr PATH_MAX path with
  | error e => exact runs_error
  | ok path =>
    dsimp only
    rw [ExceptT.run_bind_lift]
    refine Sat.callUntil (Looking i) hs Looking.stable ?_ ?_
    · intro t r t' ht hk hr
      cases r with
      | ok a => cases hr
      | error e =>
        obtain ⟨⟨_, rfl⟩, _⟩ := hk
        exact ⟨Acts.refl i t', ht⟩
    · intro t r t' ht hk _
      cases r with
      | error e =>
        obtain ⟨⟨_, rfl⟩, _⟩ := hk
        refine ⟨Acts.refl i t', ?_⟩
        show Sat _ _ _ (if e = .NOENT then createStore _ _ else throw _ :
          ExceptT BackendError (Prog StoreCalls) Fd).run _ _
        split
        · exact createStore_runs _ _ ht
        · exact runs_error
      | ok fd =>
        -- the directory of another process, which has put the generation in it
        obtain ⟨⟨hdir, _, rfl⟩, hlookup⟩ := hk
        refine ⟨acts_openAs, ?_⟩
        have hhas : HasGeneration i fd (t.openAs i fd .directory) :=
          ⟨openAs_table, hlookup _ _ rfl hdir ht.creator⟩
        exact Sat.return _ hhas HasGeneration.kept.stable fun t ht fd h => by cases h; exact ht

/-- What process `i` knows of the store when it is done with it. -/
def KnownInitialised (i : ι) : OpenOutcome → Fs ι → Prop
  | .failed _, _ => True
  | .opened store, s => HasGeneration i store s
  | .read store generation, s => HasGeneration i store s ∧
      generation ≠ .error (.syscall ⟨.openat2, .NOENT⟩)

theorem opener_runs (resolveFlags : UInt64) (path : Bytes) (reads : Bool) (hs : Looking i s) :
    Runs (lookupKernel i) OpenPub i (opener resolveFlags path reads) (KnownInitialised i) s := by
  refine Sat.bind ((openAtInternal_runs resolveFlags path hs).mono fun r t ht => ?_)
  cases r with
  | error e => exact Sat.return (fun _ => True) trivial (fun _ _ _ _ => trivial) fun _ _ => trivial
  | ok store =>
    have hhas := ht store rfl
    show Sat _ _ _ (if reads then _ else _) _ _
    split
    · refine Sat.bind
        ((currentGeneration_runs (lookupKernel_isStore i) HasGeneration.kept hhas).mono
          fun r t h => ?_)
      refine Sat.return _ h.1 HasGeneration.kept.stable fun t ht => ⟨ht, fun herr => ?_⟩
      obtain ⟨t', ht', hnone⟩ := h.2 herr
      exact ht'.generation hnone
    · exact Sat.return _ hhas HasGeneration.kept.stable fun _ ht => ht

/-! ## All of them -/

theorem opening_sat (resolveFlags : ι → UInt64) (path : Bytes) (reads : ι → Bool) :
    AllSat lookupKernel (Others OpenPub) (Acts OpenPub) KnownInitialised
      (opening resolveFlags path reads) := by
  intro i p hp
  cases hp
  refine opener_runs _ _ _ ⟨?_, by simp [opening, absent]⟩
  intro name l hl
  cases hl

theorem reach_good {resolveFlags : ι → UInt64} {path : Bytes} {reads : ι → Bool}
    {c : Config StoreCalls (Fs ι) OpenOutcome ι}
    (hr : Reach lookupKernel reap (opening resolveFlags path reads) c) :
    Good OpenPub c.shared := by
  refine Reach.related (H := fun s s' => Good OpenPub s → Good OpenPub s') (fun _ h => h)
    (fun _ _ _ h h' hs => h' (h hs)) acts_others
    (fun i j hij s s' h => acts_others i j hij s s' (acts_reap h))
    (fun _ _ _ h => h.good) (fun _ _ _ h => (acts_reap h).good)
    (opening_sat resolveFlags path reads) hr ?_
  intro name l hl
  cases hl

/-- In every run in which no process but the one that made the directory looks the path up
while the directory is there without its generation: whatever was interleaved, failed or
was killed, an open that returned `Ok` returned a directory in which the generation is
complete, and `current_generation` on it does not fail with `ENOENT`. -/
theorem opened_with_generation (resolveFlags : ι → UInt64) (path : Bytes) (reads : ι → Bool)
    {c : Config StoreCalls (Fs ι) OpenOutcome ι}
    (hr : Reach lookupKernel reap (opening resolveFlags path reads) c) (i : ι) (o : OpenOutcome)
    (hdone : c.procs i = some (.done o)) : Initialised i o c.shared := by
  have hsat := Reach.sat acts_others (fun i j hij s s' h => acts_others i j hij s s' (acts_reap h))
    (opening_sat resolveFlags path reads) hr
  have hknown : KnownInitialised i o c.shared := hsat.returned hdone
  have hcomplete : ∀ {fd}, HasGeneration i fd c.shared → Complete c.shared := by
    intro fd h
    obtain ⟨l, hl⟩ := Option.ne_none_iff_exists'.mp h.generation
    obtain ⟨x, hx, hpub⟩ := reach_good hr _ l hl
    exact ⟨l, x, hl, hx, hpub rfl⟩
  cases o with
  | failed e => trivial
  | opened store => exact ⟨hknown.dir, hcomplete hknown⟩
  | read store generation => exact ⟨hknown.1.dir, hcomplete hknown.1, hknown.2⟩

end Runs
/-- The directory is there without its generation. -/
def halfCreated : Fs (Fin 2) := { absent with directory := true, creator := some 0 }

/-- A process is killed after it made the directory. Another opens the store and gets the
directory as it is; its `current_generation` fails with `ENOENT`, and nobody is left to
put the generation there. -/
theorem opened_without_generation :
    ∃ c, Reach storeKernel reap (opening (fun _ => 0) [115] fun _ : Fin 2 => true) c ∧
      c.procs 0 = none ∧ c.shared.entries GENERATION_FILE_PATH = none ∧
      c.procs 1 = some (.done (.read 0 (.error (.syscall ⟨.openat2, .NOENT⟩)))) ∧
      ¬ Initialised 1 (.read 0 (.error (.syscall ⟨.openat2, .NOENT⟩))) c.shared := by
  -- the first process is killed after `mkdirat`
  have hlookup : storeKernel (0 : Fin 2) absent
      (.openStore [115] (Linux.RESOLVE_NO_MAGICLINKS.toUInt64 ||| 0)) (.error .NOENT) absent :=
    ⟨trivial, rfl⟩
  have hmkdir : storeKernel (0 : Fin 2) absent (.mkdirat [115] RWXU) (.ok ()) halfCreated :=
    ⟨rfl, rfl⟩
  have hcreator : Steps (storeKernel 0) (opener 0 [115] true) absent _ halfCreated :=
    .head (.next hlookup rfl) (.head (.next hmkdir rfl) (.refl _ _))
  have hkilled : reap (0 : Fin 2) halfCreated halfCreated := by
    unfold reap
    simp [halfCreated, absent]
  -- the second opens what is there, and fails to read the generation
  have hopen : storeKernel (1 : Fin 2) halfCreated
      (.openStore [115] (Linux.RESOLVE_NO_MAGICLINKS.toUInt64 ||| 0)) (.ok (0 : Nat))
      (halfCreated.openAs 1 0 .directory) := ⟨rfl, rfl, rfl⟩
  have hread : storeKernel (1 : Fin 2) (halfCreated.openAs 1 0 .directory)
      (.openRegular 0 GENERATION_FILE_PATH none) (.error .NOENT)
      (halfCreated.openAs 1 0 .directory) := ⟨fun _ => rfl, rfl⟩
  have hother : Steps (storeKernel 1) (opener 0 [115] true) halfCreated
      (.done (.read 0 (.error (.syscall ⟨.openat2, .NOENT⟩))))
      (halfCreated.openAs 1 0 .directory) :=
    .head (.next hopen rfl) (.head (.next hread rfl) (.refl _ _))
  have hfirst : Reach storeKernel reap (opening (fun _ => 0) [115] fun _ : Fin 2 => true) _ :=
    Reach.of_steps (K := storeKernel) (i := (0 : Fin 2)) hcreator rfl
  have hdead := hfirst.tail (.kill 0 rfl hkilled)
  have hrun := hdead.trans (Reach.of_steps (K := storeKernel) (i := (1 : Fin 2)) hother rfl)
  exact ⟨_, hrun, rfl, rfl, rfl, fun h => h.2.2 rfl⟩

/-- A process with nobody around only finds a directory that it made itself. -/
theorem storeKernel_creator {ι : Type} [DecidableEq ι] {i : ι} {s s' : Fs ι} {op : StoreOp}
    {r : StoreCalls.Res op} (h : storeKernel i s op r s')
    (hs : s.directory = true → s.creator = some i) : s'.directory = true → s'.creator = some i := by
  cases r with
  | error e =>
    obtain ⟨_, rfl⟩ := h
    exact hs
  | ok a =>
    cases op with
    | mkdirat path mode =>
      obtain ⟨_, rfl⟩ := h
      exact fun _ => rfl
    | openStore path resolve =>
      obtain ⟨_, _, rfl⟩ := h
      exact hs
    | fcntlDupfd fd =>
      obtain ⟨_, _, rfl⟩ := h
      exact hs
    | openTmpfile dir mode =>
      obtain ⟨_, _, _, _, rfl⟩ := h
      exact hs
    | openRegular dir name create =>
      obtain ⟨_, _, ⟨_, _, rfl⟩ | ⟨_, _, _, _, _, rfl⟩⟩ := h
      · exact hs
      · exact hs
    | read fd len =>
      obtain ⟨_, _, _, _, _, _, _, _, rfl⟩ := h
      exact hs
    | write fd bytes =>
      obtain ⟨_, _, _, _, _, _, rfl⟩ := h
      exact hs
    | writev fd bufs =>
      obtain ⟨_, _, _, _, _, _, rfl⟩ := h
      exact hs
    | lseek fd offset =>
      obtain ⟨_, _, _, _, rfl⟩ := h
      exact hs
    | flock fd operation =>
      cases h
      exact hs
    | fsetxattr fd name value =>
      obtain ⟨_, _, _, _, _, _, rfl⟩ := h
      exact hs
    | fchmod fd mode =>
      obtain ⟨_, _, _, _, _, rfl⟩ := h
      exact hs
    | linkat fd dir name =>
      obtain ⟨_, _, _, _, _, rfl⟩ := h
      exact hs

theorem steps_alone {ι α : Type} [DecidableEq ι] {i : ι} {s s' : Fs ι} {p p' : Prog StoreCalls α}
    (h : Steps (storeKernel i) p s p' s') (hs : s.directory = true → s.creator = some i) :
    Steps (lookupKernel i) p s p' s' := by
  have hlook : ∀ {t op r t'}, (t.directory = true → t.creator = some i) →
      storeKernel i t op r t' → lookupKernel i t op r t' :=
    fun ht hk => ⟨hk, fun _ _ _ hdir hne => absurd (ht hdir) hne⟩
  induction h with
  | refl => exact .refl _ _
  | head hd _ ih =>
    cases hd with
    | again hk hr => exact .head (.again (hlook hs hk) hr) (ih (storeKernel_creator hk hs))
    | next hk hr => exact .head (.next (hlook hs hk) hr) (ih (storeKernel_creator hk hs))

/-- A store that is created and read by one process. -/
theorem opened_alone :
    ∃ c, Reach lookupKernel reap (opening (fun _ => 0) [115] fun _ : Fin 2 => true) c ∧
      c.procs 0 = some (.done (.read 0 (.ok 0))) ∧ Initialised 0 (.read 0 (.ok 0)) c.shared := by
  have hrun : (run (storeImpl (0 : Fin 2)) 30 (opener 0 [115] true) absent).map (·.1) =
      some (.read 0 (.ok 0)) := by decide +kernel
  obtain ⟨⟨_, s'⟩, hmem, rfl⟩ := Option.map_eq_some_iff.mp hrun
  have hsteps := steps_alone (run_returns (storeImpl_storeKernel 0) 30 hmem) (by simp [absent])
  have hreach : Reach lookupKernel reap (opening (fun _ => 0) [115] fun _ : Fin 2 => true) _ :=
    Reach.of_steps (K := lookupKernel) (i := (0 : Fin 2)) hsteps rfl
  have hdone := Function.update_self (0 : Fin 2) (some (.done (.read 0 (.ok 0))))
    (opening (fun _ => 0) [115] fun _ : Fin 2 => true).procs
  exact ⟨_, hreach, hdone, opened_with_generation _ _ _ hreach 0 _ hdone⟩

end LayerCake.Store
