import Mathlib.Tactic.Common
import LayerCake.Bubblebox.Spawn.Wire
import LayerCake.Effects.System

/-
  How a spawned guest reports to its host: `host_post_clone` and the guest's
  branch of `clone_into` (`bubblebox/src/platform/linux/spawn/mod.rs`), which
  share a pipe.

  Correspondence (Rust ↔ Lean):
    `host_post_clone`                        ↔ `hostPostClone`
    the guest's branch of `clone_into`       ↔ `guestBranch`
    `SpawnAction`                            ↔ `SpawnAction`
  What the guest does between two writes is one call with a result for each
  fallible step; a successful `execveat` replaces the program and, the pipe being
  close-on-exec, closes it.

  The two run in any interleaving, the kernel splits and interrupts their reads
  and writes at will, and each may be killed between two calls.

  What is proved: `hostPostClone_spec` — what the host returns is decided by the
  bytes the guest got onto the pipe: success for one success record and the end of
  the file, the guest's error when its record is complete, and a partial transfer
  otherwise; and once the guest is gone the host can return.
-/

namespace LayerCake.Bubblebox.Spawn

open LayerCake.Effects LayerCake.Meowix

/-! ## The code -/

/-- `SpawnAction`, without the arguments of `execveat`. -/
inductive SpawnAction where
  | exit (code : Int32)
  | exec
  | supervisor
  deriving DecidableEq, Repr

/-- The end of `host_post_clone`: the two records of the guest, over any way to read
the pipe. -/
def awaitGuest {I : Interface} (order : ByteOrder) (read : Nat → Prog I (Except Errno Bytes)) :
    Prog I (Except SpawnError Unit) := do
  match ← readArray read wireSize with
  | .error e => return .error (.postSpawnHost (.partialTransfer e))
  | .ok potentialSetupError =>
    match decode order potentialSetupError with
    | some (.error e) => return .error (.postSpawnGuest e)
    | none => return .ok () -- the cast is of exactly six bytes
    | some (.ok ()) =>
      match ← readArray read wireSize with
      | .error e =>
        -- the success case: nothing was read prior to the end of the file
        if e.transferred = 0 ∧ e.error = none then return .ok ()
        else return .error (.postSpawnHost (.partialTransfer e))
      | .ok potentialExecError =>
        match decode order potentialExecError with
        | some (.error e) => return .error (.postSpawnGuest e)
        | _ => return .ok ()

/-- `host_post_clone`, over any cgroup hook: its result, and the state as the hook
left it. -/
def hostPostClone {I : Interface} {State : Type} (order : ByteOrder)
    (hook : State → Prog I (Except SpawnError Unit × State))
    (read : Nat → Prog I (Except Errno Bytes)) (state : State) :
    Prog I (Except SpawnError Unit × State) := do
  match ← hook state with
  | (.error e, state) => return (.error e, state)
  | (.ok (), state) =>
    let result ← awaitGuest order read
    return (result, state)

/-- The fallible steps between the success record and `execveat`. -/
inductive ExecStep where
  | fileDescriptorPolicy | resourceLimitPolicy | ambientCapabilities | seccompFilter
  deriving DecidableEq, Repr

/-- The calls of the two parties. -/
inductive ReportOp where
  | hostPostCloneHook
  | read (len : Nat)
  | write (bytes : Bytes)
  | guestPostClone
  | execStep (step : ExecStep)
  | execveat
  | exit (code : Int32)

@[reducible] def ReportCalls : Interface where
  Op := ReportOp
  Res
    | .hostPostCloneHook => Except SpawnError Unit
    | .read _ => Except Errno Bytes
    | .write _ => Except Errno Nat
    | .guestPostClone => Except PostSpawnGuest SpawnAction
    | .execStep _ => Except PostSpawnGuest Unit
    | .execveat => Except Errno Unit
    | .exit _ => Unit

/-- How a party ends. -/
inductive Outcome where
  | host (result : Except SpawnError Unit)
  | executed
  | exited (code : Int32)
  deriving DecidableEq

def exit (code : Int32) : Prog ReportCalls Outcome := do
  perform (I := ReportCalls) (.exit code)
  return .exited code

def guestWrite (bytes : Bytes) : Prog ReportCalls (Except Errno Nat) :=
  performUntil (I := ReportCalls) (.write bytes) interrupted

def execStep (step : ExecStep) : ExceptT PostSpawnGuest (Prog ReportCalls) Unit :=
  ExceptT.mk (perform (I := ReportCalls) (.execStep step))

/-- The `try` block of `SpawnAction::Exec`. -/
def guestExec (seccompFilter : Bool) : ExceptT PostSpawnGuest (Prog ReportCalls) Unit := do
  execStep .fileDescriptorPolicy
  execStep .resourceLimitPolicy
  execStep .ambientCapabilities
  (if seccompFilter then execStep .seccompFilter else pure ())
  guestCall .execveat (perform (I := ReportCalls) .execveat)

/-- The guest's branch of `clone_into`. -/
def guestBranch (order : ByteOrder) (seccompFilter : Bool) : Prog ReportCalls Outcome := do
  match ← perform (I := ReportCalls) .guestPostClone with
  | .ok action =>
    -- if this errors there is nothing to do but to continue
    let _ ← writeAll guestWrite (encode order (.ok ()))
    match action with
    | .exit code => exit code
    | .exec =>
      match ← (guestExec seccompFilter).run with
      | .ok () => return .executed
      | .error e =>
        let _ ← writeAll guestWrite (encode order (.error e))
        exit (-1)
    | .supervisor => exit (-1)
  | .error e =>
    let _ ← writeAll guestWrite (encode order (.error e))
    exit (-1)

/-- The cgroup hook, whose state no other call of the two reads. -/
def hostHook (state : Unit) : Prog ReportCalls (Except SpawnError Unit × Unit) := do
  let result ← perform (I := ReportCalls) .hostPostCloneHook
  return (result, state)

/-- The host's branch, from its first call on. -/
def hostBranch (order : ByteOrder) : Prog ReportCalls Outcome := do
  let (result, _) ← hostPostClone order hostHook
    (fun len => performUntil (I := ReportCalls) (.read len) interrupted) ()
  return .host result

/-! ## The pipe -/

/-- The pipe and the history of the guest: the bytes it got onto the pipe, how many
of them the host took off it, whether an end to write to is left, the error it set
out to report, and whether it executed its program. -/
structure Pipe where
  sent : Bytes
  received : Nat
  writable : Bool
  failure : Option PostSpawnGuest
  executed : Bool
  deriving DecidableEq

/-- What the calls do. The hook succeeds; reads and writes move any number of bytes
they can, or are interrupted; a read of an empty pipe returns once nobody can write. -/
def reportKernel : Kernel ReportCalls Pipe
  | p, .hostPostCloneHook, r, p' => r = .ok () ∧ p' = p
  | p, .read len, r, p' =>
    (∃ n, 0 < n ∧ n ≤ len ∧ p.received + n ≤ p.sent.length ∧
      r = .ok ((p.sent.drop p.received).take n) ∧ p' = { p with received := p.received + n }) ∨
    (p.sent.length ≤ p.received ∧ p.writable = false ∧ r = .ok [] ∧ p' = p) ∨
    (r = .error Errno.INTR ∧ p' = p)
  | p, .write bytes, r, p' =>
    (∃ n, 0 < n ∧ n ≤ bytes.length ∧ r = .ok n ∧ p' = { p with sent := p.sent ++ bytes.take n }) ∨
    (r = .error Errno.INTR ∧ p' = p)
  | p, .guestPostClone, r, p' =>
    (∃ action, r = .ok action ∧ p' = p) ∨ (∃ e, r = .error e ∧ p' = { p with failure := some e })
  | p, .execStep _, r, p' =>
    (r = .ok () ∧ p' = p) ∨ (∃ e, r = .error e ∧ p' = { p with failure := some e })
  | p, .execveat, r, p' =>
    (r = .ok () ∧ p' = { p with writable := false, executed := true }) ∨
    (∃ e, r = .error e ∧ p' = { p with failure := some (.syscall ⟨.execveat, e⟩) })
  | p, .exit _, _, p' => p' = { p with writable := false }

inductive Party where
  | host | guest
  deriving DecidableEq

/-- The death of the guest closes its end of the pipe. -/
def reap : Party → Pipe → Pipe → Prop
  | .host, p, p' => p' = p
  | .guest, p, p' => p' = { p with writable := false }

/-- Just after the clone. -/
def cloned (order : ByteOrder) (seccompFilter : Bool) : Config ReportCalls Pipe Outcome Party where
  shared := { sent := [], received := 0, writable := true, failure := none, executed := false }
  procs
    | .host => some (hostBranch order)
    | .guest => some (guestBranch order seccompFilter)

/-! ## What is on the pipe -/

section Stream
variable (order : ByteOrder)

/-- The bytes a guest with this failure can have sent: a part of the success record,
a part of its error record, or the success record and a part of the other. -/
def Fits : Option PostSpawnGuest → Bytes → Prop
  | none, sent => sent <+: encode order (.ok ())
  | some e, sent => sent <+: encode order (.error e) ∨
      ∃ q, q <+: encode order (.error e) ∧ sent = encode order (.ok ()) ++ q

/-- What holds of the pipe at any time. -/
structure Consistent (p : Pipe) : Prop where
  fits : Fits order p.failure p.sent
  executed : p.executed = true → p.sent = encode order (.ok ()) ∧ p.writable = false

/-- The guest completed its error record. -/
def Completed (e : PostSpawnGuest) (p : Pipe) : Prop :=
  p.failure = some e ∧ (p.sent = encode order (.error e) ∨
    p.sent = encode order (.ok ()) ++ encode order (.error e))

/-- The guest's actions, as the host sees them. -/
structure GuestActs (p p' : Pipe) : Prop where
  received : p'.received = p.received
  sent : p.sent <+: p'.sent
  closed : p.writable = false → p' = p
  failure : ∀ e, p.failure = some e → p'.failure = some e
  consistent : Consistent order p → Consistent order p'

/-- The host's actions, as the guest sees them. -/
def HostActs (p p' : Pipe) : Prop := ∃ n, p' = { p with received := n }

variable {order}

theorem GuestActs.refl (p : Pipe) : GuestActs order p p :=
  ⟨rfl, List.prefix_rfl, fun _ => rfl, fun _ h => h, fun h => h⟩

/-! ## The guest's branch -/

/-- What the guest knows while it can write: all of the pipe but the host's part. -/
structure Sending (sent : Bytes) (failure : Option PostSpawnGuest) (p : Pipe) : Prop where
  sent : p.sent = sent
  writable : p.writable = true
  failure : p.failure = failure
  executed : p.executed = false

theorem Sending.stable (sent : Bytes) (failure : Option PostSpawnGuest) :
    Stable HostActs (Sending sent failure) := by
  intro p p' h hk
  obtain ⟨n, rfl⟩ := hk
  exact ⟨h.sent, h.writable, h.failure, h.executed⟩

/-- While the guest can write, its calls only have to keep to the stream. -/
theorem Sending.acts {sent : Bytes} {failure : Option PostSpawnGuest} {p p' : Pipe}
    (h : Sending sent failure p) (hreceived : p'.received = p.received) (hsent : p.sent <+: p'.sent)
    (hfailure : ∀ e, failure = some e → p'.failure = some e) (hfits : Fits order p'.failure p'.sent)
    (hexecuted : p'.executed = true → p'.sent = encode order (.ok ()) ∧ p'.writable = false) :
    GuestActs order p p' where
  received := hreceived
  sent := hsent
  closed hw := by rw [h.writable] at hw; cases hw
  failure e he := hfailure e (h.failure ▸ he)
  consistent _ := ⟨hfits, hexecuted⟩

abbrev GuestSat (order : ByteOrder) (p : Prog ReportCalls Outcome) (s : Pipe) : Prop :=
  Sat reportKernel HostActs (GuestActs order) p (fun _ _ => True) s

theorem guestSat_done (a : Outcome) (s : Pipe) : GuestSat order (.done a) s :=
  Sat.return (fun _ => True) trivial (fun _ _ _ _ => trivial) fun _ _ => trivial

theorem writeUntilStalledFrom_sat (base bytes : Bytes) (f : Option PostSpawnGuest)
    (hfits : ∀ k, Fits order f (base ++ bytes.take k)) (n : Nat) :
    ∀ i, i + n = bytes.length → ∀ p, Sending (base ++ bytes.take i) f p →
    Sat reportKernel HostActs (GuestActs order) (writeUntilStalledFrom guestWrite bytes i)
      (fun _ t => Sending (base ++ bytes) f t) p := by
  induction n using Nat.strongRecOn with
  | ind n ih =>
    intro i hi p hp
    rw [writeUntilStalledFrom]
    split
    · refine Sat.callUntil (Sending (base ++ bytes.take i) f) hp (Sending.stable _ _) ?_ ?_
      · intro t r t' ht hk hr
        rcases hk with ⟨n, _, _, rfl, _⟩ | ⟨rfl, rfl⟩
        · cases hr
        · exact ⟨GuestActs.refl _, ht⟩
      · intro t r t' ht hk hr
        rcases hk with ⟨k, hpos, hle, rfl, rfl⟩ | ⟨rfl, _⟩
        · have hsent : t.sent ++ (bytes.drop i).take k = base ++ bytes.take (i + k) := by
            rw [ht.sent, List.take_add, List.append_assoc]
          rw [List.length_drop] at hle
          refine ⟨ht.acts rfl (List.prefix_append _ _) (fun e he => ht.failure.trans he) ?_ ?_, ?_⟩
          · rw [ht.failure, hsent]
            exact hfits (i + k)
          · intro he
            rw [ht.executed] at he
            cases he
          · have hnext : ¬ k = 0 := by omega
            show Sat _ _ _ (if _hn : k = 0 then _ else _) _ _
            rw [dif_neg hnext]
            exact ih (n - k) (by omega) (i + k) (by omega) _
              ⟨hsent, ht.writable, ht.failure, ht.executed⟩
        · cases hr
    · next hge =>
      have htake : bytes.take i = bytes := List.take_of_length_le (by omega)
      rw [htake] at hp
      exact Sat.return _ hp (Sending.stable _ _) fun _ h => h

/-- The guest's writes cannot fail: a written record is on the pipe. -/
theorem writeAll_sat (base bytes : Bytes) (f : Option PostSpawnGuest)
    (hfits : ∀ k, Fits order f (base ++ bytes.take k)) {p : Pipe} (hp : Sending base f p) :
    Sat reportKernel HostActs (GuestActs order) (writeAll guestWrite bytes)
      (fun _ t => Sending (base ++ bytes) f t) p := by
  have hstart : Sending (base ++ bytes.take 0) f p := by simpa using hp
  refine Sat.bind ((writeUntilStalledFrom_sat base bytes f hfits bytes.length 0 (by omega) p
    hstart).mono fun r t ht => ?_)
  cases r with
  | error e => exact Sat.return _ ht (Sending.stable _ _) fun _ h => h
  | ok n =>
    dsimp only
    split
    · exact Sat.return _ ht (Sending.stable _ _) fun _ h => h
    · exact Sat.return _ ht (Sending.stable _ _) fun _ h => h

theorem exit_sat (code : Int32) {sent : Bytes} {f : Option PostSpawnGuest} {p : Pipe}
    (hfits : Fits order f sent) (hp : Sending sent f p) : GuestSat order (exit code) p := by
  apply Sat.perform (Sending sent f) hp (Sending.stable _ _)
  intro t r t' ht e
  subst e
  refine ⟨ht.acts rfl List.prefix_rfl (fun e he => ht.failure.trans he) ?_ ?_, guestSat_done _ _⟩
  · rw [ht.failure, ht.sent]
    exact hfits
  · intro he
    rw [ht.executed] at he
    cases he

theorem fits_success (k : Nat) : Fits order none ([] ++ (encode order (.ok ())).take k) :=
  List.take_prefix _ _

theorem fits_error (e : PostSpawnGuest) (k : Nat) :
    Fits order (some e) ([] ++ (encode order (.error e)).take k) :=
  .inl (List.take_prefix _ _)

theorem fits_late_error (e : PostSpawnGuest) (k : Nat) :
    Fits order (some e) (encode order (.ok ()) ++ (encode order (.error e)).take k) :=
  .inr ⟨_, List.take_prefix _ _, rfl⟩

/-- What a step of the exec block leaves behind: nothing, or the error to report. -/
def AfterStep (order : ByteOrder) (r : Except PostSpawnGuest Unit) (p : Pipe) : Prop :=
  match r with
  | .ok () => Sending (encode order (.ok ())) none p
  | .error e => Sending (encode order (.ok ())) (some e) p

theorem AfterStep.stable (r : Except PostSpawnGuest Unit) :
    Stable HostActs (AfterStep order r) := by
  cases r with
  | ok _ => exact Sending.stable _ _
  | error e => exact Sending.stable _ _

/-- Setting out to report an error after the success record. -/
theorem Sending.fail {p : Pipe} (h : Sending (encode order (.ok ())) none p) (e : PostSpawnGuest) :
    GuestActs order p { p with failure := some e } ∧
      Sending (encode order (.ok ())) (some e) { p with failure := some e } := by
  refine ⟨h.acts rfl List.prefix_rfl (fun _ he => by cases he) ?_ ?_,
    h.sent, h.writable, rfl, h.executed⟩
  · rw [h.sent]
    simpa using fits_late_error e 0
  · intro he
    rw [h.executed] at he
    cases he

theorem execStep_sat (step : ExecStep) {p : Pipe} (hp : Sending (encode order (.ok ())) none p) :
    Sat reportKernel HostActs (GuestActs order) (execStep step).run (AfterStep order) p := by
  apply Sat.perform (Sending _ none) hp (Sending.stable _ _)
  intro t r t' ht hk
  rcases hk with ⟨rfl, rfl⟩ | ⟨e, rfl, rfl⟩
  · exact ⟨GuestActs.refl _, Sat.return _ ht (Sending.stable _ _) fun _ h => h⟩
  · exact ⟨(ht.fail e).1, Sat.return _ (ht.fail e).2 (Sending.stable _ _) fun _ h => h⟩

/-- One step of the exec block, then the rest. -/
theorem execStep_bind {step : ExceptT PostSpawnGuest (Prog ReportCalls) Unit}
    {rest : Unit → ExceptT PostSpawnGuest (Prog ReportCalls) Unit}
    {Q : Except PostSpawnGuest Unit → Pipe → Prop} {p : Pipe}
    (hstep : Sat reportKernel HostActs (GuestActs order) step.run (AfterStep order) p)
    (hrest : ∀ t, Sending (encode order (.ok ())) none t →
      Sat reportKernel HostActs (GuestActs order) (rest ()).run Q t)
    (herror : ∀ e t, Sending (encode order (.ok ())) (some e) t → Q (.error e) t) :
    Sat reportKernel HostActs (GuestActs order) (step >>= rest).run Q p := by
  refine Sat.bindE (hstep.mono fun r t ht => ?_)
  cases r with
  | ok _ => exact hrest t ht
  | error e => exact Sat.return _ ht (Sending.stable _ _) (herror e)

/-- The exec block: if it returns an error, that is the error to report. -/
theorem guestExec_sat (seccompFilter : Bool) {p : Pipe}
    (hp : Sending (encode order (.ok ())) none p) :
    Sat reportKernel HostActs (GuestActs order) (guestExec seccompFilter).run
      (fun r t => ∀ e, r = .error e → Sending (encode order (.ok ())) (some e) t) p := by
  have herror : ∀ e t, Sending (encode order (.ok ())) (some e) t →
      ∀ e', (.error e : Except PostSpawnGuest Unit) = .error e' →
        Sending (encode order (.ok ())) (some e') t := by
    intro e t ht e' he
    cases he
    exact ht
  refine execStep_bind (execStep_sat _ hp) (fun t ht => ?_) herror
  refine execStep_bind (execStep_sat _ ht) (fun t ht => ?_) herror
  refine execStep_bind (execStep_sat _ ht) (fun t ht => ?_) herror
  have hfilter : Sat reportKernel HostActs (GuestActs order)
      (if seccompFilter then execStep .seccompFilter else pure ()).run (AfterStep order) t := by
    split
    · exact execStep_sat _ ht
    · exact Sat.return (Sending _ none) ht (Sending.stable _ _) fun _ h => h
  refine execStep_bind hfilter (fun t ht => ?_) herror
  refine sat_guestCall (Sat.perform (Sending _ none) ht (Sending.stable _ _) ?_)
  intro t r t' ht hk
  rcases hk with ⟨rfl, rfl⟩ | ⟨e, rfl, rfl⟩
  · -- the program is replaced, and the pipe closed
    refine ⟨ht.acts rfl List.prefix_rfl (fun _ he => by cases he) ?_ fun _ => ⟨ht.sent, rfl⟩, ?_⟩
    · rw [ht.failure, ht.sent]
      exact List.prefix_rfl
    · apply Sat.return (fun _ => True) trivial (fun _ _ _ _ => trivial)
      intro t _
      exact Sat.return (fun _ => True) trivial (fun _ _ _ _ => trivial) fun t _ e he => by cases he
  · refine ⟨(ht.fail _).1, ?_⟩
    apply Sat.return (Sending _ (some _)) (ht.fail _).2 (Sending.stable _ _)
    intro t ht
    exact Sat.return (Sending _ (some _)) ht (Sending.stable _ _) (herror _)

/-- The guest's branch keeps to the stream from the clone to its end. -/
theorem guestBranch_sat (seccompFilter : Bool) {p : Pipe} (hp : Sending [] none p) :
    GuestSat order (guestBranch order seccompFilter) p := by
  apply Sat.perform (Sending [] none) hp (Sending.stable _ _)
  intro t r t' ht hk
  rcases hk with ⟨action, rfl, rfl⟩ | ⟨e, rfl, rfl⟩
  · refine ⟨GuestActs.refl _, ?_⟩
    show GuestSat order (writeAll guestWrite (encode order (.ok ())) >>= _) _
    refine Sat.bind ((writeAll_sat [] _ none fits_success ht).mono fun _ t ht => ?_)
    rw [List.nil_append] at ht
    have hfits : Fits order none (encode order (.ok ())) := List.prefix_rfl
    cases action with
    | exit code => exact exit_sat code hfits ht
    | supervisor => exact exit_sat (-1) hfits ht
    | exec =>
      refine Sat.bind ((guestExec_sat seccompFilter ht).mono fun r t ht => ?_)
      cases r with
      | ok _ => exact guestSat_done _ _
      | error e =>
        refine Sat.bind ((writeAll_sat _ _ _ (fits_late_error e) (ht e rfl)).mono fun _ t ht => ?_)
        have hdone : Fits order (some e) (encode order (.ok ()) ++ encode order (.error e)) :=
          .inr ⟨_, List.prefix_rfl, rfl⟩
        exact exit_sat (-1) hdone ht
  · refine ⟨ht.acts rfl List.prefix_rfl (fun _ he => by cases he) ?_ ?_, ?_⟩
    · rw [ht.sent]
      exact .inl List.nil_prefix
    · intro he
      rw [ht.executed] at he
      cases he
    · have hfail : Sending [] (some e) { t with failure := some e } :=
        ⟨ht.sent, ht.writable, rfl, ht.executed⟩
      show GuestSat order (writeAll guestWrite (encode order (.error e)) >>= _) _
      refine Sat.bind ((writeAll_sat [] _ _ (fits_error e) hfail).mono fun _ t ht => ?_)
      have hdone : Fits order (some e) ([] ++ encode order (.error e)) := .inl List.prefix_rfl
      exact exit_sat (-1) hdone ht

/-! ## The host's branch -/

theorem encode_error_ne_ok (e : PostSpawnGuest) :
    encode order (.error e) ≠ encode order (.ok ()) := by
  intro h
  obtain ⟨e', he'⟩ := decode_encode_error order e
  rw [h, decode_encode, if_neg (by simp [Unsendable])] at he'
  cases he'

/-- A completed error record is the last thing on the pipe. -/
theorem Completed.stable (e : PostSpawnGuest) :
    Stable (GuestActs order) fun p => Consistent order p ∧ Completed order e p := by
  intro p p' hk hact
  obtain ⟨hc, hf, hs⟩ := hk
  have hc' := hact.consistent hc
  have hf' := hact.failure e hf
  refine ⟨hc', hf', ?_⟩
  have hfits := hc'.fits
  rw [hf'] at hfits
  have hlen := hact.sent.length_le
  rcases hs with hs | hs <;> rcases hfits with hp | ⟨q, hq, hp⟩
  · exact .inl (hp.eq_of_length_le (by rw [hs] at hlen; exact hlen))
  · -- a success record cannot follow the start of the error record
    have hfirst : encode order (.error e) <+: encode order (.ok ()) ++ q := by
      rw [← hp, ← hs]
      exact hact.sent
    have heq : encode order (.error e) = encode order (.ok ()) :=
      (List.prefix_of_prefix_length_le hfirst (List.prefix_append _ q) (by simp)).eq_of_length
        (by simp)
    exact absurd heq (encode_error_ne_ok e)
  · have hle := hp.length_le
    rw [hs] at hlen
    simp [wireSize] at hle hlen
    omega
  · right
    have hle : (encode order (.error e)).length ≤ q.length := by
      rw [hs, hp] at hlen
      simpa using hlen
    rw [hp, hq.eq_of_length_le hle]

theorem Consistent.stable : Stable (GuestActs order) (Consistent order) :=
  fun _ _ h hact => hact.consistent h

/-- The host has taken exactly `got` off the pipe. -/
structure Reading (order : ByteOrder) (got : Bytes) (p : Pipe) : Prop where
  consistent : Consistent order p
  received : p.received = got.length
  got : got <+: p.sent

theorem Reading.stable (got : Bytes) : Stable (GuestActs order) (Reading order got) :=
  fun _ _ h hact =>
    ⟨hact.consistent h.consistent, hact.received.trans h.received, h.got.trans hact.sent⟩

/-- The next bytes the kernel hands out continue what the host has. -/
theorem Reading.more {got : Bytes} {p : Pipe} (h : Reading order got p) {k : Nat}
    (hk : p.received + k ≤ p.sent.length) :
    ((p.sent.drop p.received).take k).length = k ∧
      Reading order (got ++ (p.sent.drop p.received).take k)
        { p with received := p.received + k } := by
  have hlen : ((p.sent.drop p.received).take k).length = k := by
    rw [List.length_take, List.length_drop]
    omega
  have hgot : got ++ (p.sent.drop p.received).take k = p.sent.take (got.length + k) := by
    rw [List.take_add, ← List.prefix_iff_eq_take.mp h.got, h.received]
  refine ⟨hlen, ⟨h.consistent.fits, h.consistent.executed⟩, ?_, ?_⟩
  · rw [List.length_append, hlen, ← h.received]
  · rw [hgot]
    exact List.take_prefix _ _

/-- What a read of `N` bytes after `pre` that stopped short found: the end of the
stream. -/
structure Ended (order : ByteOrder) (pre : Bytes) (N : Nat) (e : PartialTransfer) (p : Pipe) :
    Prop where
  consistent : Consistent order p
  error : e.error = none
  lt : e.transferred < N
  closed : p.writable = false
  sent : pre <+: p.sent
  length : p.sent.length = pre.length + e.transferred

theorem Ended.stable (pre : Bytes) (N : Nat) (e : PartialTransfer) :
    Stable (GuestActs order) (Ended order pre N e) := by
  intro p p' h hact
  rw [hact.closed h.closed]
  exact h

/-- The result of `read_array::<N>` once `pre` has been read. -/
def ReadResult (order : ByteOrder) (pre : Bytes) (N : Nat) (r : Except PartialTransfer Bytes)
    (p : Pipe) : Prop :=
  match r with
  | .ok buf => buf.length = N ∧ Reading order (pre ++ buf) p
  | .error e => Ended order pre N e p

theorem ReadResult.stable (pre : Bytes) (N : Nat) (r : Except PartialTransfer Bytes) :
    Stable (GuestActs order) (ReadResult order pre N r) := by
  intro p p' h hact
  cases r with
  | ok buf => exact ⟨h.1, Reading.stable _ p p' h.2 hact⟩
  | error e => exact Ended.stable pre N e p p' h hact

abbrev hostRead (len : Nat) : Prog ReportCalls (Except Errno Bytes) :=
  performUntil (I := ReportCalls) (.read len) interrupted

/-- However the kernel splits and interrupts its reads, `read_array` returns the next
bytes of the stream, or where the stream ended. -/
theorem readArrayFrom_sat (pre : Bytes) (N n : Nat) :
    ∀ (buf : Bytes), buf.length + n = N → ∀ p, Reading order (pre ++ buf) p →
    Sat reportKernel (GuestActs order) HostActs (readArrayFrom hostRead N buf)
      (ReadResult order pre N) p := by
  -- on the bytes still missing: every read that ends neither the stream nor the loop brings some
  induction n using Nat.strongRecOn with
  | ind n ih =>
    intro buf hbuf p hp
    rw [readArrayFrom]
    split
    · refine Sat.callUntil (Reading order (pre ++ buf)) hp (Reading.stable _) ?_ ?_
      · intro t r t' ht hk hr
        rcases hk with ⟨k, _, _, _, rfl, _⟩ | ⟨_, _, rfl, _⟩ | ⟨rfl, rfl⟩
        · cases hr
        · cases hr
        · exact ⟨⟨_, rfl⟩, ht⟩
      · intro t r t' ht hk hr
        rcases hk with ⟨k, hpos, hle, havail, rfl, rfl⟩ | ⟨hend, hclosed, rfl, rfl⟩ | ⟨rfl, _⟩
        · refine ⟨⟨_, rfl⟩, ?_⟩
          obtain ⟨hlen, hmore⟩ := ht.more havail
          show Sat _ _ _ (if _h : ((t.sent.drop t.received).take k).length = 0 then _ else _) _ _
          rw [dif_neg (by omega)]
          apply ih (n - k) (by omega) _ (by rw [List.length_append, hlen]; omega) _
          rw [← List.append_assoc]
          exact hmore
        · -- the end of the file: everything sent was received, and nobody can send more
          refine ⟨⟨_, rfl⟩, ?_⟩
          refine Sat.return _ ?_ (Ended.stable pre N ⟨buf.length, none⟩) fun _ h => h
          have hlen := ht.got.length_le
          rw [ht.received] at hend
          refine ⟨ht.consistent, rfl, by dsimp only; omega, hclosed,
            (List.prefix_append _ _).trans ht.got, ?_⟩
          rw [List.length_append] at hend hlen
          dsimp only
          omega
        · cases hr
    · exact Sat.return _ ⟨by omega, hp⟩ (ReadResult.stable pre N (.ok buf)) fun _ h => h

/-- What the host's result says of the pipe. -/
def HostResult (order : ByteOrder) (r : Except SpawnError Unit) (p : Pipe) : Prop :=
  match r with
  | .ok () => p.sent = encode order (.ok ()) ∧ p.writable = false
  | .error (.postSpawnGuest e') => Consistent order p ∧ ∃ e, Completed order e p ∧
      decode order (encode order (.error e)) = some (.error e')
  | .error (.postSpawnHost (.partialTransfer _)) =>
    p.writable = false ∧ p.sent ≠ encode order (.ok ()) ∧ ∀ e, ¬ Completed order e p
  | _ => False

theorem HostResult.stable (r : Except SpawnError Unit) :
    Stable (GuestActs order) (HostResult order r) := by
  intro p p' h hact
  unfold HostResult at h ⊢
  split at h
  · rw [hact.closed h.2]
    exact h
  · obtain ⟨hc, e, hcomp, hdec⟩ := h
    obtain ⟨hc', hcomp'⟩ := Completed.stable e p p' ⟨hc, hcomp⟩ hact
    exact ⟨hc', e, hcomp', hdec⟩
  · rw [hact.closed h.1]
    exact h
  · exact h

theorem hostSat_done {r : Except SpawnError Unit} {p : Pipe} (h : HostResult order r p) :
    Sat reportKernel (GuestActs order) HostActs (.done r) (HostResult order) p :=
  Sat.return _ h (HostResult.stable r) fun _ h => h

theorem decode_success : decode order (encode order (.ok ())) = some (.ok ()) := by
  rw [decode_encode, if_neg (by simp [Unsendable])]

/-- Six bytes at the start of the stream are the success record, or the complete
record of the guest's failure. -/
theorem first_record {p : Pipe} (hc : Consistent order p) {bs : Bytes} (hlen : bs.length = wireSize)
    (hpre : bs <+: p.sent) :
    bs = encode order (.ok ()) ∨ ∃ e, Completed order e p ∧ bs = encode order (.error e) := by
  have hfits := hc.fits
  cases hf : p.failure with
  | none =>
    rw [hf] at hfits
    exact .inl ((hpre.trans hfits).eq_of_length (by simp [hlen]))
  | some e =>
    rw [hf] at hfits
    rcases hfits with hsent | ⟨q, _, hsent⟩
    · have heq : bs = encode order (.error e) := (hpre.trans hsent).eq_of_length (by simp [hlen])
      subst heq
      exact .inr ⟨e, ⟨hf, .inl (hsent.eq_of_length_le hpre.length_le)⟩, rfl⟩
    · left
      rw [hsent] at hpre
      have hle := List.prefix_of_prefix_length_le hpre (List.prefix_append _ q) (by simp [hlen])
      exact hle.eq_of_length (by simp [hlen])

/-- Six bytes after a success record are the complete record of the guest's failure. -/
theorem second_record {p : Pipe} (hc : Consistent order p) {bs : Bytes}
    (hlen : bs.length = wireSize) (hpre : encode order (.ok ()) ++ bs <+: p.sent) :
    ∃ e, Completed order e p ∧ bs = encode order (.error e) := by
  have hfits := hc.fits
  have hle := hpre.length_le
  rw [List.length_append, encode_length, hlen] at hle
  cases hf : p.failure with
  | none =>
    rw [hf] at hfits
    have := List.IsPrefix.length_le hfits
    rw [encode_length] at this
    simp only [wireSize] at this hle
    omega
  | some e =>
    rw [hf] at hfits
    rcases hfits with hsent | ⟨q, hq, hsent⟩
    · have := hsent.length_le
      rw [encode_length] at this
      simp only [wireSize] at this hle
      omega
    · have hbq : bs <+: q := by
        rw [hsent] at hpre
        exact (List.prefix_append_right_inj _).mp hpre
      have hbe : bs = encode order (.error e) := (hbq.trans hq).eq_of_length (by simp [hlen])
      subst hbe
      refine ⟨e, ⟨hf, .inr ?_⟩, rfl⟩
      rw [hsent, hq.eq_of_length_le hbq.length_le]

/-- A stream of another length than one or two records is not complete. -/
theorem not_completed {p : Pipe} (h₁ : p.sent.length ≠ wireSize)
    (h₂ : p.sent.length ≠ wireSize + wireSize) (e : PostSpawnGuest) : ¬ Completed order e p := by
  intro h
  obtain ⟨_, hs | hs⟩ := h
  · rw [hs] at h₁
    exact h₁ (encode_length _ _)
  · rw [hs] at h₂
    exact h₂ (by simp)

/-- What the two records make the host return, whatever the guest does and however
the kernel moves the bytes. -/
theorem awaitGuest_sat {p : Pipe} (hp : Reading order [] p) :
    Sat reportKernel (GuestActs order) HostActs (awaitGuest order hostRead)
      (HostResult order) p := by
  show Sat _ _ _ (readArray hostRead wireSize >>= _) _ _
  refine Sat.bind ((readArrayFrom_sat [] wireSize wireSize [] rfl _ hp).mono fun r t ht => ?_)
  cases r with
  | error e =>
    -- the stream ended within the first record
    have hlen := ht.length
    have hlt := ht.lt
    rw [List.length_nil] at hlen
    refine hostSat_done ⟨ht.closed, ?_, not_completed (by omega) (by omega)⟩
    intro h
    rw [h, encode_length] at hlen
    omega
  | ok bs =>
    obtain ⟨hlen, hread⟩ := ht
    rw [List.nil_append] at hread
    rcases first_record hread.consistent hlen hread.got with rfl | ⟨e, hcomp, rfl⟩
    · dsimp only
      rw [decode_success]
      show Sat _ _ _ (readArray hostRead wireSize >>= _) _ _
      have hnext : Reading order (encode order (.ok ()) ++ []) t := by
        rw [List.append_nil]
        exact hread
      refine Sat.bind ((readArrayFrom_sat _ wireSize wireSize [] rfl _ hnext).mono fun r t ht => ?_)
      cases r with
      | error e =>
        have hsent := ht.length
        have hlt := ht.lt
        rw [encode_length] at hsent
        dsimp only
        split
        · next hempty =>
          -- the end of the stream follows the success record
          rw [hempty.1, Nat.add_zero] at hsent
          have heq := ht.sent.eq_of_length (by rw [encode_length, hsent])
          exact hostSat_done ⟨heq.symm, ht.closed⟩
        · next hpart =>
          have hpos : e.transferred ≠ 0 := fun h => hpart ⟨h, ht.error⟩
          refine hostSat_done ⟨ht.closed, ?_, not_completed (by omega) (by omega)⟩
          intro h
          rw [h, encode_length] at hsent
          omega
      | ok bs =>
        obtain ⟨hlen, hread⟩ := ht
        obtain ⟨e, hcomp, rfl⟩ := second_record hread.consistent hlen hread.got
        obtain ⟨e', he'⟩ := decode_encode_error order e
        dsimp only
        rw [he']
        exact hostSat_done ⟨hread.consistent, e, hcomp, he'⟩
    · obtain ⟨e', he'⟩ := decode_encode_error order e
      dsimp only
      rw [he']
      exact hostSat_done ⟨hread.consistent, e, hcomp, he'⟩

/-- What `host_post_clone` returns from the clone on. -/
theorem hostPostClone_sat {p : Pipe} (hc : Consistent order p) (hr : p.received = 0) :
    Sat reportKernel (GuestActs order) HostActs (hostPostClone order hostHook hostRead ())
      (fun r => HostResult order r.1) p := by
  have hstart : Reading order [] p := ⟨hc, hr, List.nil_prefix⟩
  apply Sat.perform (Reading order []) hstart (Reading.stable _)
  intro t r t' ht hk
  obtain ⟨rfl, rfl⟩ := hk
  refine ⟨⟨_, rfl⟩, ?_⟩
  show Sat _ _ _ (awaitGuest order hostRead >>= _) _ _
  refine Sat.bind ((awaitGuest_sat ht).mono fun r t ht => ?_)
  exact Sat.return _ ht (HostResult.stable r) fun _ h => h

/-! ## The two together -/

/-- The rely, the guarantee and the postcondition of each party. -/
def rely (order : ByteOrder) : Party → Pipe → Pipe → Prop
  | .host => GuestActs order
  | .guest => HostActs

def guar (order : ByteOrder) : Party → Pipe → Pipe → Prop
  | .host => HostActs
  | .guest => GuestActs order

def ends (order : ByteOrder) : Party → Outcome → Pipe → Prop
  | .host, a, p => ∃ r, a = .host r ∧ HostResult order r p
  | .guest, _, _ => True

theorem cloned_consistent (seccompFilter : Bool) :
    Consistent order (cloned order seccompFilter).shared :=
  ⟨List.nil_prefix, fun h => by cases h⟩

theorem cloned_sat (seccompFilter : Bool) :
    AllSat (fun _ => reportKernel) (rely order) (guar order) (ends order)
      (cloned order seccompFilter) := by
  intro i q hq
  cases i with
  | host =>
    cases hq
    refine Sat.bind
      ((hostPostClone_sat (cloned_consistent seccompFilter) rfl).mono fun r t ht => ?_)
    exact Sat.return _ ht (HostResult.stable r.1) fun _ h => ⟨r.1, rfl, h⟩
  | guest =>
    cases hq
    exact guestBranch_sat seccompFilter ⟨rfl, rfl, rfl, rfl⟩

theorem guar_rely (i j : Party) (hij : i ≠ j) (p p' : Pipe) (h : guar order i p p') :
    rely order j p p' := by
  cases i <;> cases j
  · exact absurd rfl hij
  · exact h
  · exact h
  · exact absurd rfl hij

theorem close_acts (p : Pipe) : GuestActs order p { p with writable := false } where
  received := rfl
  sent := List.prefix_rfl
  closed h := by rw [← h]
  failure _ h := h
  consistent h := ⟨h.fits, fun he => ⟨(h.executed he).1, rfl⟩⟩

theorem reap_rely (i j : Party) (hij : i ≠ j) (p p' : Pipe) (h : reap i p p') :
    rely order j p p' := by
  cases i <;> cases j
  · exact absurd rfl hij
  · cases h
    exact ⟨p.received, rfl⟩
  · cases h
    exact close_acts p
  · exact absurd rfl hij

section Runs
variable {seccompFilter : Bool} {c : Config ReportCalls Pipe Outcome Party}

theorem reach_consistent
    (hr : Reach (fun _ => reportKernel) reap (cloned order seccompFilter) c) :
    Consistent order c.shared := by
  refine Reach.related (H := fun p p' => Consistent order p → Consistent order p')
    (fun _ h => h) (fun _ _ _ h h' hp => h' (h hp)) guar_rely reap_rely ?_ ?_
    (cloned_sat seccompFilter) hr (cloned_consistent seccompFilter)
  · intro i p p' hg hp
    cases i with
    | host =>
      obtain ⟨n, rfl⟩ := hg
      exact ⟨hp.fits, hp.executed⟩
    | guest => exact hg.consistent hp
  · intro i p p' hdead hp
    cases i with
    | host =>
      cases hdead
      exact hp
    | guest =>
      cases hdead
      exact (close_acts p).consistent hp

theorem reach_result
    (hr : Reach (fun _ => reportKernel) reap (cloned order seccompFilter) c)
    {r : Except SpawnError Unit} (hdone : c.procs .host = some (.done (.host r))) :
    HostResult order r c.shared := by
  have hsat := Reach.sat guar_rely reap_rely (cloned_sat seccompFilter) hr
  obtain ⟨r', heq, h⟩ := hsat.returned hdone
  cases heq
  exact h

end Runs

/-! ## The host can always return once the guest is gone -/

/-- A program whose calls are the hook and reads of at least one byte. -/
inductive Listening {α : Type} : Prog ReportCalls α → Prop
  | done (a : α) : Listening (.done a)
  | hook {k} (h : ∀ r, Listening (k r)) : Listening (.call .hostPostCloneHook (fun _ => false) k)
  | read {len k} (hlen : 0 < len) (h : ∀ r, Listening (k r)) :
      Listening (.call (.read len) interrupted k)

namespace Listening
variable {α β : Type}

theorem bind {p : Prog ReportCalls α} {f : α → Prog ReportCalls β} (hp : Listening p)
    (hf : ∀ a, Listening (f a)) : Listening (p >>= f) := by
  induction hp with
  | done a => exact hf a
  | hook _ ih => exact .hook ih
  | read hlen _ ih => exact .read hlen ih

theorem step {p p' : Prog ReportCalls α} {s s' : Pipe} (hp : Listening p)
    (hs : Step reportKernel p s p' s') : Listening p' := by
  cases hs with
  | again _ _ => exact hp
  | next _ _ =>
    cases hp with
    | hook h => exact h _
    | read _ h => exact h _

/-- With the guest gone every call of such a program is answered, by bytes or by the
end of the stream. -/
theorem finishes {p : Prog ReportCalls α} (hp : Listening p) :
    ∀ s : Pipe, s.writable = false → ∃ a s', Steps reportKernel p s (.done a) s' := by
  induction hp with
  | done a => exact fun s _ => ⟨a, s, .refl _ _⟩
  | hook h ih =>
    intro s hs
    obtain ⟨a, s', hrest⟩ := ih (.ok ()) s hs
    exact ⟨a, s', .head (.next ⟨rfl, rfl⟩ rfl) hrest⟩
  | @read len k hlen h ih =>
    intro s hs
    by_cases hend : s.sent.length ≤ s.received
    · obtain ⟨a, s', hrest⟩ := ih (.ok []) s hs
      exact ⟨a, s', .head (.next (.inr (.inl ⟨hend, hs, rfl, rfl⟩)) rfl) hrest⟩
    · obtain ⟨a, s', hrest⟩ := ih (.ok ((s.sent.drop s.received).take 1))
        { s with received := s.received + 1 } hs
      exact ⟨a, s', .head (.next (.inl ⟨1, by omega, by omega, by omega, rfl, rfl⟩) rfl) hrest⟩

theorem readArrayFrom (N n : Nat) :
    ∀ buf : Bytes, N - buf.length = n → Listening (readArrayFrom hostRead N buf) := by
  induction n using Nat.strongRecOn with
  | ind n ih =>
    intro buf hbuf
    rw [Meowix.readArrayFrom]
    split
    · refine .read (by omega) fun r => ?_
      cases r with
      | error e => exact .done _
      | ok bytes =>
        show Listening (if _h : bytes.length = 0 then _ else _)
        split
        · exact .done _
        · refine ih (N - (buf ++ bytes).length) ?_ _ rfl
          rw [List.length_append]
          omega
    · exact .done _

theorem awaitGuest : Listening (awaitGuest order hostRead) := by
  have hread : Listening (readArray hostRead wireSize) := readArrayFrom _ _ [] rfl
  apply hread.bind
  intro r
  cases r with
  | error e => exact .done _
  | ok bs =>
    dsimp only
    split
    · exact .done _
    · exact .done _
    · apply hread.bind
      intro r
      cases r with
      | error e =>
        dsimp only
        split
        · exact .done _
        · exact .done _
      | ok bs =>
        dsimp only
        split
        · exact .done _
        · exact .done _

theorem hostBranch : Listening (hostBranch order) := by
  have hhook : Listening (hostHook ()) := .hook fun r => .done _
  refine bind (hhook.bind fun r => ?_) fun r => .done _
  obtain ⟨_ | _, _⟩ := r
  · exact .done _
  · exact awaitGuest.bind fun r => .done _

end Listening

theorem Completed.ne_success {e : PostSpawnGuest} {p : Pipe} (h : Completed order e p) :
    p.sent ≠ encode order (.ok ()) := by
  intro hs
  rcases h.2 with h | h
  · exact encode_error_ne_ok e (h.symm.trans hs)
  · have := congrArg List.length (h.symm.trans hs)
    simp [wireSize] at this

section Results
variable {r : Except SpawnError Unit} {p : Pipe}

theorem HostResult.ok (hr : HostResult order r p)
    (h : p.sent = encode order (.ok ()) ∧ p.writable = false) : r = .ok () := by
  unfold HostResult at hr
  split at hr
  · rfl
  · obtain ⟨_, e, hcomp, _⟩ := hr
    exact absurd h.1 hcomp.ne_success
  · exact absurd h.1 hr.2.1
  · cases hr

theorem HostResult.guest (hr : HostResult order r p) {e e' : PostSpawnGuest}
    (hcomp : Completed order e p)
    (hdec : decode order (encode order (.error e)) = some (.error e')) :
    r = .error (.postSpawnGuest e') := by
  unfold HostResult at hr
  split at hr
  · exact absurd hr.1 hcomp.ne_success
  · obtain ⟨_, e₂, hcomp₂, hdec₂⟩ := hr
    have he : e₂ = e := Option.some.inj (hcomp₂.1.symm.trans hcomp.1)
    rw [he, hdec] at hdec₂
    cases hdec₂
    rfl
  · exact absurd hcomp (hr.2.2 e)
  · cases hr

theorem HostResult.partialTransfer (hr : HostResult order r p)
    (hok : ¬ (p.sent = encode order (.ok ()) ∧ p.writable = false))
    (hcomp : ∀ e, ¬ Completed order e p) :
    ∃ t, r = .error (.postSpawnHost (.partialTransfer t)) := by
  unfold HostResult at hr
  split at hr
  · exact absurd hr hok
  · obtain ⟨_, e, h, _⟩ := hr
    exact absurd h (hcomp e)
  · exact ⟨_, rfl⟩
  · cases hr

end Results

/-- What the host returns is decided by what the guest got onto the pipe, in every
interleaving, however reads and writes are split and interrupted and wherever either
party is killed:
* success exactly for one success record followed by the end of the file;
* the guest's error exactly when the guest completed its error record;
* a partial transfer exactly in every other case;
* success if the guest executed its program.
Once the guest is gone, a host that is left can return. -/
theorem hostPostClone_spec (order : ByteOrder) (seccompFilter : Bool)
    {c : Config ReportCalls Pipe Outcome Party}
    (hreach : Reach (fun _ => reportKernel) reap (cloned order seccompFilter) c) :
    (∀ r, c.procs .host = some (.done (.host r)) →
      (r = .ok () ↔ c.shared.sent = encode order (.ok ()) ∧ c.shared.writable = false) ∧
      (∀ e', r = .error (.postSpawnGuest e') ↔
        ∃ e, Completed order e c.shared ∧
          decode order (encode order (.error e)) = some (.error e')) ∧
      ((∃ t, r = .error (.postSpawnHost (.partialTransfer t))) ↔
        ¬ (c.shared.sent = encode order (.ok ()) ∧ c.shared.writable = false) ∧
        ∀ e, ¬ Completed order e c.shared) ∧
      (c.shared.executed = true → r = .ok ())) ∧
    (c.shared.writable = false → ∀ p, c.procs .host = some p →
      ∃ c' r, Reach (fun _ => reportKernel) reap c c' ∧
        c'.procs .host = some (.done (.host r))) := by
  refine ⟨fun r hdone => ?_, fun hgone p hp => ?_⟩
  · have hconsistent := reach_consistent hreach
    have hresult := reach_result hreach hdone
    refine ⟨?_, ?_, ?_, fun hexec => ?_⟩
    · constructor
      · intro e
        subst e
        exact hresult
      · exact fun h => hresult.ok h
    · intro e'
      constructor
      · intro e
        subst e
        exact hresult.2
      · intro h
        obtain ⟨e, hcomp, hdec⟩ := h
        exact hresult.guest hcomp hdec
    · constructor
      · intro h
        obtain ⟨t, rfl⟩ := h
        exact ⟨fun h => hresult.2.1 h.1, hresult.2.2⟩
      · intro h
        obtain ⟨hok, hcomp⟩ := h
        exact hresult.partialTransfer hok hcomp
    · exact hresult.ok (hconsistent.executed hexec)
  · have hlisten : Listening p :=
      Reach.program (P := Listening) (fun _ _ _ _ h hs => h.step hs)
        (fun q hq => by cases hq; exact Listening.hostBranch) hreach p hp
    obtain ⟨a, s', hrun⟩ := hlisten.finishes c.shared hgone
    have hmore : Reach (fun _ => reportKernel) reap c _ := Reach.of_steps hrun hp
    have hall := Reach.sat guar_rely reap_rely (cloned_sat seccompFilter) (hreach.trans hmore)
    obtain ⟨r, rfl, -⟩ := hall.returned (Function.update_self ..)
    exact ⟨_, r, hmore, by simp⟩

end Stream

/-- A kernel on which every step succeeds and nothing is split. -/
def reportImpl : Impl ReportCalls Pipe
  | p, .hostPostCloneHook => (.ok (), p)
  | p, .read len =>
    if 0 < len ∧ p.received < p.sent.length then
      (.ok ((p.sent.drop p.received).take (min len (p.sent.length - p.received))),
        { p with received := p.received + min len (p.sent.length - p.received) })
    else if p.sent.length ≤ p.received ∧ p.writable = false then (.ok [], p)
    else (.error .INTR, p)
  | p, .write bytes =>
    if 0 < bytes.length then
      (.ok bytes.length, { p with sent := p.sent ++ bytes.take bytes.length })
    else (.error .INTR, p)
  | p, .guestPostClone => (.ok .exec, p)
  | p, .execStep _ => (.ok (), p)
  | p, .execveat => (.ok (), { p with writable := false, executed := true })
  | p, .exit _ => ((), { p with writable := false })

theorem reportImpl_reportKernel (p : Pipe) (op : ReportOp) :
    reportKernel p op (reportImpl p op).1 (reportImpl p op).2 := by
  cases op with
  | hostPostCloneHook => exact ⟨rfl, rfl⟩
  | read len =>
    unfold reportImpl
    dsimp only
    split
    · exact .inl ⟨_, by omega, by omega, by omega, rfl, rfl⟩
    · split
      · next hend => exact .inr (.inl ⟨hend.1, hend.2, rfl, rfl⟩)
      · exact .inr (.inr ⟨rfl, rfl⟩)
  | write bytes =>
    unfold reportImpl
    dsimp only
    split
    · next hpos => exact .inl ⟨_, hpos, Nat.le_refl _, rfl, rfl⟩
    · exact .inr ⟨rfl, rfl⟩
  | guestPostClone => exact .inl ⟨_, rfl, rfl⟩
  | execStep _ => exact .inl ⟨rfl, rfl⟩
  | execveat => exact .inl ⟨rfl, rfl⟩
  | exit _ => rfl

/-- The pipe once the guest has executed its program, and the host has read. -/
def executedPipe (received : Nat) : Pipe :=
  { sent := encode .little (.ok ()), received, writable := false, failure := none,
    executed := true }

/-- A guest that executes its program is reported as a success. -/
theorem hostPostClone_executed :
    ∃ c, Reach (fun _ => reportKernel) reap (cloned .little true) c ∧ c.shared.executed = true ∧
      ∀ r, c.procs .host = some (.done (.host r)) → r = .ok () := by
  have hguest : Returns reportKernel (guestBranch .little true) (cloned .little true).shared
      .executed (executedPipe 0) :=
    run_returns reportImpl_reportKernel 20 (by decide +kernel)
  have hhost : Returns reportKernel (hostBranch .little) (executedPipe 0) (.host (.ok ()))
      (executedPipe 6) :=
    run_returns reportImpl_reportKernel 20 (by decide +kernel)
  have hfirst : Reach (fun _ => reportKernel) reap (cloned .little true) _ :=
    Reach.of_steps (K := fun _ => reportKernel) (i := Party.guest) hguest rfl
  have hreach := hfirst.trans
    (Reach.of_steps (K := fun _ => reportKernel) (i := Party.host) hhost rfl)
  exact ⟨_, hreach, rfl, fun r hdone =>
    ((hostPostClone_spec .little true hreach).1 r hdone).2.2.2 rfl⟩

end LayerCake.Bubblebox.Spawn
